import Estree.Json.Reader
import Estree.Node.Schema

/-!
# Loading nodes

A node is loaded from a JSON object in four steps: the tag is checked, wherever it stands; the
members are visited in their order, each known field once, depth first, and the first fault wins;
absent fields take their defaults, in the order of the schema; the schema builds the node.

    Node.ofJson : Json → Except LoadError Node

A tag is a text. Inside another node it may also be a number, the position of the kind among all
kinds; the root has to have a text (`Node.ofRoot`).

`Node.ofValue` visits the keys of every object in sorted order. `Node.ofText` reads a text as a
stream: a fault of the root's tag counts where it is met, a fault of the text up to the end of the
root value comes next, then all other faults of the tree, and text after the root value comes last.
-/

namespace Estree

/-! ## §1. Slots: the fields visited so far. -/

/-- The values of the fields visited so far. -/
def Slots : List FieldSpec → Type
  | [] => Unit
  | f :: fs => Option f.shape.Value × Slots fs

/-- A place in a list of fields. -/
inductive Place : List FieldSpec → Type where
  | here {f : FieldSpec} {fs : List FieldSpec} : Place (f :: fs)
  | there {f : FieldSpec} {fs : List FieldSpec} (p : Place fs) : Place (f :: fs)

namespace Place

/-- The field at a place. -/
def field : {fs : List FieldSpec} → Place fs → FieldSpec
  | f :: _, .here => f
  | _ :: _, .there p => p.field

/-- The place of the field that stands under a key. -/
def find? : (fs : List FieldSpec) → String → Option (Place fs)
  | [], _ => none
  | f :: fs, key => if f.named key then some .here else (find? fs key).map .there

end Place

namespace Slots

/-- No field visited. -/
def empty : (fs : List FieldSpec) → Slots fs
  | [] => ()
  | _ :: fs => (none, empty fs)

/-- The value of the field at a place, if it was visited. -/
def get : {fs : List FieldSpec} → Slots fs → (p : Place fs) → Option p.field.shape.Value
  | _ :: _, (v, _), .here => v
  | _ :: _, (_, vs), .there p => get vs p

/-- Visits the field at a place. -/
def set : {fs : List FieldSpec} → Slots fs → (p : Place fs) → p.field.shape.Value → Slots fs
  | _ :: _, (_, vs), .here, v => (some v, vs)
  | _ :: _, (w, vs), .there p, v => (w, set vs p v)

/-- The values of all fields: an absent field takes its default, and the first one without a default
is reported. -/
def complete : {fs : List FieldSpec} → Slots fs → Except LoadError (Values fs)
  | [], _ => .ok ()
  | f :: _, (v, vs) =>
    match v.or f.absent with
    | some v =>
      match complete vs with
      | .ok vs => .ok (v, vs)
      | .error e => .error e
    | none => .error (.missing f.name)

end Slots

/-! ## §2. Tags. -/

/-- A value of the wrong sort. -/
def LoadError.unfit (v : Json) (wanted : Wanted) : LoadError :=
  .invalidType (.ofJson v) wanted

/-- The kind that the tag of the root selects. -/
def Kind.ofTagJson : Json → Except LoadError Kind
  | .string s =>
    match Kind.ofTag? s with
    | some k => .ok k
    | none => .error (.unknownTag s)
  | v => .error (.unfit v .tag)

/-- The kind that a tag selects inside another node, where a number stands for the kind at its
position. -/
def Kind.ofInnerTagJson : Json → Except LoadError Kind
  | .number (.int i) =>
    if i < 0 then .error (.unfit (.number (.int i)) .tag)
    else
      match Kind.ofIndex? i.toNat with
      | some k => .ok k
      | none => .error (.unknownIndex i.toNat)
  | v => Kind.ofTagJson v

/-- Checks the tag among the members, from left to right, `read` being how it selects a kind;
`found` is the kind met before. -/
def Kind.ofMembers (read : Json → Except LoadError Kind) (found : Option Kind) :
    List (String × Json) → Except LoadError (Option Kind)
  | [] => .ok found
  | (key, v) :: rest =>
    if key = "type" then
      match found with
      | some _ => .error (.duplicate "type")
      | none =>
        match read v with
        | .ok k => Kind.ofMembers read (some k) rest
        | .error e => .error e
    else Kind.ofMembers read found rest

/-! ## §3. Values. -/

/-- What a value is when it is read as a node, a list, or a record. -/
structure Readings where
  node : Unit → Except LoadError Node
  list : Unit → Except LoadError (List Node)
  /-- A list of nodes in which null stands for a hole. -/
  holes : Unit → Except LoadError (List (Option Node))
  record : (r : RecordType) → Except LoadError r.Value
  records : (r : RecordType) → Except LoadError (List r.Value)

/-- Loads a value of a shape, given its readings. -/
def Shape.load (v : Json) (x : Readings) : (s : Shape) → Except LoadError s.Value
  | .node => x.node ()
  | .node? =>
    match v with
    | .null => .ok (none : Option Node)
    | _ => (x.node ()).map (some : Node → Option Node)
  | .nodes => x.list ()
  | .nodes? =>
    match v with
    | .null => .ok ([] : List Node)
    | _ => x.list ()
  | .holes => x.holes ()
  | .record r => x.record r
  | .record? r =>
    match v with
    | .null => .ok (none : Option r.Value)
    | _ => (x.record r).map (some : r.Value → Option r.Value)
  | .records r => x.records r
  | .flag =>
    match v with
    | .bool b => .ok (b : Bool)
    | v => .error (.unfit v .flag)
  | .text =>
    match v with
    | .string s => .ok (s : String)
    | v => .error (.unfit v .text)
  | .text? =>
    match v with
    | .null => .ok (none : Option String)
    | .string s => .ok (some s : Option String)
    | v => .error (.unfit v .text)
  | .json => .ok v.canonical
  | .typeParameterName =>
    match v with
    | .string s => .ok (TypeParameterName.plain s)
    | _ =>
      match x.node () with
      | .ok n => .ok (TypeParameterName.node n)
      | .error _ => .error (.noChoice .typeParameterName)
  | .mappedModifier? =>
    match v with
    | .null => .ok (none : Option MappedModifier)
    | .bool b => .ok (some (.flag b) : Option MappedModifier)
    | .string s => .ok (some (.sign s) : Option MappedModifier)
    | _ => .error (.noChoice .mappedModifier)

namespace Node

mutual

/-- Loads a node inside another, visiting the members of every object in their order. -/
def ofJson : Json → Except LoadError Node
  | .object members =>
    match Kind.ofMembers Kind.ofInnerTagJson none members with
    | .error e => .error e
    | .ok none => .error (.missing "type")
    | .ok (some k) =>
      match visit k.schema.fields (.empty _) members with
      | .error e => .error e
      | .ok slots => slots.complete.map k.schema.build
  | v => .error (.unfit v .node)

/-- Loads a record. -/
def recordOfJson (r : RecordType) : Json → Except LoadError r.Value
  | .object members =>
    match visit r.schema.fields (.empty _) members with
    | .error e => .error e
    | .ok slots => slots.complete.map r.schema.build
  | v => .error (.unfit v (.record r))

/-- Loads a list of nodes. -/
def listOfJson : Json → Except LoadError (List Node)
  | .array items => listOfItems items
  | v => .error (.unfit v .list)

/-- Loads a list of nodes in which null stands for a hole. -/
def holesOfJson : Json → Except LoadError (List (Option Node))
  | .array items => holesOfItems items
  | v => .error (.unfit v .list)

/-- Loads a list of records. -/
def recordsOfJson (r : RecordType) : Json → Except LoadError (List r.Value)
  | .array items => recordsOfItems r items
  | v => .error (.unfit v .list)

/-- Loads nodes one after the other. -/
def listOfItems : List Json → Except LoadError (List Node)
  | [] => .ok []
  | v :: rest =>
    match ofJson v with
    | .error e => .error e
    | .ok n => (listOfItems rest).map (n :: ·)

/-- Loads nodes and holes one after the other. -/
def holesOfItems : List Json → Except LoadError (List (Option Node))
  | [] => .ok []
  | .null :: rest => (holesOfItems rest).map (none :: ·)
  | v :: rest =>
    match ofJson v with
    | .error e => .error e
    | .ok n => (holesOfItems rest).map (some n :: ·)

/-- Loads records one after the other. -/
def recordsOfItems (r : RecordType) : List Json → Except LoadError (List r.Value)
  | [] => .ok []
  | v :: rest =>
    match recordOfJson r v with
    | .error e => .error e
    | .ok x => (recordsOfItems r rest).map (x :: ·)

/-- Visits the members from left to right. A key that names no field is passed over. -/
def visit (fs : List FieldSpec) (slots : Slots fs) :
    List (String × Json) → Except LoadError (Slots fs)
  | [] => .ok slots
  | (key, v) :: rest =>
    match Place.find? fs key with
    | none => visit fs slots rest
    | some p =>
      if (slots.get p).isSome then .error (.duplicate p.field.name)
      else
        let readings : Readings :=
          ⟨fun _ => ofJson v, fun _ => listOfJson v, fun _ => holesOfJson v,
            fun r => recordOfJson r v, fun r => recordsOfJson r v⟩
        match p.field.shape.load v readings with
        | .error e => .error e
        | .ok x => visit fs (slots.set p x) rest

end

/-! ## §4. Values and texts. -/

/-- Loads the root of a tree: its tag is checked first, and has to be a text. -/
def ofRoot (v : Json) : Except LoadError Node :=
  match v with
  | .object members =>
    match Kind.ofMembers Kind.ofTagJson none members with
    | .error e => .error e
    | .ok _ => ofJson v
  | v => ofJson v

/-- Loads a node from a JSON value, whose keys are visited in sorted order. -/
def ofValue (v : Json) : Except LoadError Node := ofRoot v.canonical

/-- How deep brackets may nest in a text. -/
def maxNesting : Nat := 127

/-- The fault that the member at which a text breaks off shows before the fault of the text: a tag
that is repeated, or one that begins a list or an object. -/
def brokenTag (found : Option Kind) (key : Option String) (head : Option Token) : LoadError :=
  if key = some "type" then
    match found, head with
    | some _, _ => .duplicate "type"
    | none, some .openBrace => .invalidType .map .tag
    | none, some .openBracket => .invalidType .sequence .tag
    | none, _ => .illFormed
  else .illFormed

/-- Loads a node from a text. -/
def ofText (text : String) : Except LoadError Node :=
  match Token.ofText text with
  | [] => .error .illFormed
  | .openBrace :: ts =>
    let ms := Json.braced (2 * ts.length + 1) (maxNesting - 1) ts
    match Kind.ofMembers Kind.ofTagJson none ms.read, ms.ending with
    | .error e, _ => .error e
    | .ok found, .broken key head => .error (brokenTag found key head)
    | .ok _, .closed rest =>
      match ofJson (.object ms.read) with
      | .error e => .error e
      | .ok n => if rest.isEmpty then .ok n else .error .illFormed
  | .openBracket :: _ => .error (.invalidType .sequence .node)
  | t :: _ =>
    match Json.scalar? t with
    | some v => .error (.unfit v .node)
    | none => .error .illFormed

end Node

end Estree
