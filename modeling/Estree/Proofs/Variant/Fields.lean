import Estree.Proofs.Variant.SameReading

/-!
# The fields of an object, one by one

What an object has in each field, with the type that the field stands for (`Json.get`). A node is
built from what its fields are (`Json.node_eq`), one after the other: each combinator of fields has
its lemma `Values.map_read_…`, and what stands under a single key decides what one field is.

Main results:

* `Json.node_eq`: a node is built from what its fields are.
* `Json.AgreeExcept.get_eq`: a field is the same in objects that differ elsewhere.
-/

namespace Estree

/-! ## §1. Single fields. -/

namespace FieldSpec

/-- A field reads its own names only. -/
theorem read_congr {f : FieldSpec} {v w : Json} (h : ∀ key ∈ f.names, v.field? key = w.field? key) :
    f.read v = f.read w := by
  unfold read
  rw [List.filterMap_congr h]

/-- A field that is absent has its default. -/
theorem read_of_none (f : FieldSpec) {v : Json} (hf : f.otherName = none)
    (h : v.field? f.name = none) : f.read v = f.absent := by
  simp [read, names, hf, h]

/-- A field that is there is read by its shape. -/
theorem read_of_some (f : FieldSpec) {v x : Json} (hf : f.otherName = none)
    (h : v.field? f.name = some x) : f.read v = x.read f.shape := by
  simp [read, names, hf, h]

end FieldSpec

/-- A field with the type that its shape stands for. -/
structure TypedField (α : Type) where
  spec : FieldSpec
  type : spec.shape.Value = α

namespace TypedField

def child (name : String) : TypedField Node := ⟨.child name, rfl⟩

def child? (name : String) : TypedField (Option Node) := ⟨.child? name, rfl⟩

def childOr? (name other : String) : TypedField (Option Node) :=
  ⟨(FieldSpec.child? name).alsoNamed other, rfl⟩

def children (name : String) : TypedField (List Node) := ⟨.children name, rfl⟩

def children? (name : String) : TypedField (List Node) := ⟨.children? name, rfl⟩

def flag (name : String) : TypedField Bool := ⟨.flag name, rfl⟩

def text (name : String) : TypedField String := ⟨.text name, rfl⟩

def textOr (name fallback : String) : TypedField String := ⟨.textOr name fallback, rfl⟩

def text? (name : String) : TypedField (Option String) := ⟨.text? name, rfl⟩

def enumBody? (name : String) : TypedField (Option (List Node)) := ⟨.record? name .enumBody, rfl⟩

def modifier? (name : String) : TypedField (Option MappedModifier) := ⟨.mappedModifier? name, rfl⟩

def parameterName (name : String) : TypedField TypeParameterName :=
  ⟨⟨name, none, .typeParameterName, none⟩, rfl⟩

end TypedField

namespace Json

/-- What a field is in an object, if anything. -/
def get {α : Type} (v : Json) (f : TypedField α) : Option α :=
  cast (congrArg Option f.type) (f.spec.read v)

/-- The node that the value is read as. -/
def node (v : Json) : Option Node := v.read .node

/-- The node, or none, that the value is read as. -/
def node? (v : Json) : Option (Option Node) := v.read .node?

/-- The list of nodes that the value is read as. -/
def nodes (v : Json) : Option (List Node) := v.read .nodes

/-- What is not null is read as a node where there may be none. -/
theorem node?_of_ne_null {v : Json} (h : v ≠ .null) : v.node? = v.node.map some :=
  read_node?_of_ne_null h

section Fields

variable {v x : Json} {name : String}

/-- A typed field reads its own names only. -/
theorem get_congr {α : Type} {f : TypedField α} {v w : Json}
    (h : ∀ key ∈ f.spec.names, v.field? key = w.field? key) : v.get f = w.get f :=
  congrArg (cast (congrArg Option f.type)) (FieldSpec.read_congr h)

/-- A required node that is there. -/
theorem get_child_of_some (h : v.field? name = some x) : v.get (.child name) = x.node :=
  FieldSpec.read_of_some (.child name) rfl h

/-- An optional node that is there. -/
theorem get_child?_of_some (h : v.field? name = some x) : v.get (.child? name) = x.node? :=
  FieldSpec.read_of_some (.child? name) rfl h

/-- An optional node that is not. -/
theorem get_child?_of_lacks (h : v.Lacks name) : v.get (.child? name) = some none := by
  rcases h with h | h
  · exact FieldSpec.read_of_none (.child? name) rfl h
  · exact FieldSpec.read_of_some (.child? name) rfl h

/-- Without the second name, a field with two names is one with the first. -/
theorem get_childOr?_of_none {other : String} (h : v.field? other = none) :
    v.get (.childOr? name other) = v.get (.child? name) := by
  have hread : ((FieldSpec.child? name).alsoNamed other).read v
      = (FieldSpec.child? name).read v := by
    cases hname : v.field? name <;>
      simp [FieldSpec.read, FieldSpec.names, FieldSpec.alsoNamed, FieldSpec.child?, h, hname]
  exact hread

/-- A list of nodes that is there. -/
theorem get_children_of_some (h : v.field? name = some x) : v.get (.children name) = x.nodes :=
  FieldSpec.read_of_some (.children name) rfl h

/-- An optional list that is there. -/
theorem get_children?_of_array {items : List Json} (h : v.field? name = some (.array items)) :
    v.get (.children? name) = (array items).nodes :=
  FieldSpec.read_of_some (.children? name) rfl h

/-- An optional list that is absent, null or empty. -/
theorem get_children?_of_noItems (h : v.NoItems name) : v.get (.children? name) = some [] := by
  rcases h with (h | h) | h
  · exact FieldSpec.read_of_none (.children? name) rfl h
  · exact FieldSpec.read_of_some (.children? name) rfl h
  · exact FieldSpec.read_of_some (.children? name) rfl h

/-- A flag that is there. -/
theorem get_flag_of_some {b : Bool} (h : v.field? name = some (.bool b)) :
    v.get (.flag name) = some b :=
  FieldSpec.read_of_some (.flag name) rfl h

/-- A flag that is absent or off. -/
theorem get_flag_of_notSet (h : v.NotSet name) : v.get (.flag name) = some false := by
  rcases h with h | h
  · exact FieldSpec.read_of_none (.flag name) rfl h
  · exact get_flag_of_some h

/-- A flag that is absent or a truth value can be read. -/
theorem exists_get_flag (h : v.MaySet name) : ∃ b, v.get (.flag name) = some b := by
  rcases h with h | ⟨b, h⟩
  · exact ⟨false, FieldSpec.read_of_none (.flag name) rfl h⟩
  · exact ⟨b, get_flag_of_some h⟩

/-- A flag that reads as on is there. -/
theorem field?_of_get_flag (h : v.get (.flag name) = some true) :
    v.field? name = some (.bool true) := by
  cases hx : v.field? name with
  | none =>
    rw [show v.get (.flag name) = some false from
      FieldSpec.read_of_none (.flag name) rfl hx] at h
    cases h
  | some x =>
    have hread : x.read .flag = some true :=
      (FieldSpec.read_of_some (.flag name) rfl hx).symm.trans h
    cases x with
    | bool b => cases hread; rfl
    | _ => cases hread

/-- A text that is there. -/
theorem get_text_of_some {s : String} (h : v.field? name = some (.string s)) :
    v.get (.text name) = some s :=
  FieldSpec.read_of_some (.text name) rfl h

/-- An optional text that is there. -/
theorem get_text?_of_some {s : String} (h : v.field? name = some (.string s)) :
    v.get (.text? name) = some (some s) :=
  FieldSpec.read_of_some (.text? name) rfl h

/-- An optional text that is not. -/
theorem get_text?_of_lacks (h : v.Lacks name) : v.get (.text? name) = some none := by
  rcases h with h | h
  · exact FieldSpec.read_of_none (.text? name) rfl h
  · exact FieldSpec.read_of_some (.text? name) rfl h

/-- An optional text that reads as one is there. -/
theorem field?_of_get_text? {s : String} (h : v.get (.text? name) = some (some s)) :
    v.field? name = some (.string s) := by
  cases hx : v.field? name with
  | none =>
    rw [show v.get (.text? name) = some none from
      FieldSpec.read_of_none (.text? name) rfl hx] at h
    cases h
  | some x =>
    have hread : x.read .text? = some (some s) :=
      (FieldSpec.read_of_some (.text? name) rfl hx).symm.trans h
    cases x with
    | string t => cases hread; rfl
    | _ => cases hread

/-- The body of an enum that is not there. -/
theorem get_enumBody?_of_lacks (h : v.Lacks name) : v.get (.enumBody? name) = some none := by
  rcases h with h | h
  · exact FieldSpec.read_of_none (.record? name .enumBody) rfl h
  · exact FieldSpec.read_of_some (.record? name .enumBody) rfl h

/-- The name of a type parameter as a string. -/
theorem get_parameterName_of_string {s : String} (h : v.field? name = some (.string s)) :
    v.get (.parameterName name) = some (.plain s) :=
  FieldSpec.read_of_some ⟨name, none, .typeParameterName, none⟩ rfl h

/-- The name of a type parameter as a node. -/
theorem get_parameterName_of_object {ms : List (String × Json)}
    (h : v.field? name = some (.object ms)) :
    v.get (.parameterName name) = (object ms).node.map .node :=
  (FieldSpec.read_of_some ⟨name, none, .typeParameterName, none⟩ rfl h).trans
    (read_typeParameterName_object ms)

end Fields

end Json

/-! ## §2. The fields of an object. -/

namespace Values

open FieldSpec

/-- Fields are read one after the other. -/
theorem map_read_cons {β : Type} (f : FieldSpec) (fs : List FieldSpec) (v : Json)
    (g : Values (f :: fs) → β) :
    (Values.read (f :: fs) v).map g
      = (f.read v).bind fun x => (Values.read fs v).map fun xs => g (x, xs) := by
  rw [read]
  cases f.read v with
  | none => rfl
  | some x =>
    show Option.map _ (Option.map _ (Values.read fs v)) = _
    cases Values.read fs v <;> rfl

/-! Objects with many fields in common are read field by field. -/

section Shared

variable {β : Type} {f : FieldSpec} {fs : List FieldSpec} {v w : Json}

/-- There is nothing to read for no fields. -/
theorem bind_read_nil (g : Values [] → Option β) : (Values.read [] v).bind g = g () := rfl

/-- Fields are read one after the other, and then looked at. -/
theorem bind_read_cons (g : Values (f :: fs) → Option β) :
    (Values.read (f :: fs) v).bind g
      = (f.read v).bind fun x => (Values.read fs v).bind fun xs => g (x, xs) := by
  rw [read]
  cases f.read v with
  | none => rfl
  | some x => cases Values.read fs v <;> rfl

/-- A field that is the same in both objects. -/
theorem bind_read_congr {g g' : Values (f :: fs) → Option β} (hf : f.read v = f.read w)
    (h : ∀ x, (Values.read fs v).bind (fun xs => g (x, xs))
      = (Values.read fs w).bind fun xs => g' (x, xs)) :
    (Values.read (f :: fs) v).bind g = (Values.read (f :: fs) w).bind g' := by
  rw [bind_read_cons, bind_read_cons, hf]
  exact Option.bind_congr fun x _ => h x

/-- A field whose value is known. -/
theorem bind_read_of_some {x : f.shape.Value} (hf : f.read v = some x)
    (g : Values (f :: fs) → Option β) :
    (Values.read (f :: fs) v).bind g = (Values.read fs v).bind fun xs => g (x, xs) := by
  rw [bind_read_cons, hf]
  rfl

/-- A child is read by reading its own fields. -/
theorem bind_read_child {name : String} {schema : Schema Node} {x : Json}
    (h : (child name).read v = (Values.read schema.fields x).map schema.build)
    (g : Values (child name :: fs) → Option β) :
    (Values.read (child name :: fs) v).bind g = (Values.read schema.fields x).bind fun ys =>
      (Values.read fs v).bind fun xs => g (schema.build ys, xs) := by
  rw [bind_read_cons, h]
  cases Values.read schema.fields x <;> rfl

/-- One field that is nothing makes the whole nothing. -/
theorem read_eq_none (hmem : f ∈ fs) (hf : f.read v = none) : Values.read fs v = none := by
  have hbind : (Values.read fs v).bind some = none := by
    induction fs with
    | nil => cases hmem
    | cons f' fs ih =>
      rw [bind_read_cons]
      rcases List.mem_cons.mp hmem with rfl | hmem
      · rw [hf]
        rfl
      · have hrest : Values.read fs v = none := by simpa using ih hmem
        rw [hrest]
        exact Option.bind_fun_none _
  simpa using hbind

end Shared

section Combinators

-- `map_read_cons` for each combinator, with the type that its shape stands for
variable {β : Type} {fs : List FieldSpec} (v : Json) (name : String)

@[simp] theorem map_read_nil (g : Values [] → β) : (Values.read [] v).map g = some (g ()) := rfl

@[simp] theorem map_read_child (g : Values (child name :: fs) → β) :
    (Values.read (child name :: fs) v).map g
      = (v.get (.child name)).bind fun x => (Values.read fs v).map fun xs => g (x, xs) :=
  map_read_cons _ _ _ _

@[simp] theorem map_read_child? (g : Values (child? name :: fs) → β) :
    (Values.read (child? name :: fs) v).map g
      = (v.get (.child? name)).bind fun x => (Values.read fs v).map fun xs => g (x, xs) :=
  map_read_cons _ _ _ _

@[simp] theorem map_read_childOr? (other : String)
    (g : Values ((child? name).alsoNamed other :: fs) → β) :
    (Values.read ((child? name).alsoNamed other :: fs) v).map g
      = (v.get (.childOr? name other)).bind fun x => (Values.read fs v).map fun xs => g (x, xs) :=
  map_read_cons _ _ _ _

@[simp] theorem map_read_children (g : Values (children name :: fs) → β) :
    (Values.read (children name :: fs) v).map g
      = (v.get (.children name)).bind fun x => (Values.read fs v).map fun xs => g (x, xs) :=
  map_read_cons _ _ _ _

@[simp] theorem map_read_children? (g : Values (children? name :: fs) → β) :
    (Values.read (children? name :: fs) v).map g
      = (v.get (.children? name)).bind fun x => (Values.read fs v).map fun xs => g (x, xs) :=
  map_read_cons _ _ _ _

@[simp] theorem map_read_flag (g : Values (flag name :: fs) → β) :
    (Values.read (flag name :: fs) v).map g
      = (v.get (.flag name)).bind fun x => (Values.read fs v).map fun xs => g (x, xs) :=
  map_read_cons _ _ _ _

@[simp] theorem map_read_text (g : Values (text name :: fs) → β) :
    (Values.read (text name :: fs) v).map g
      = (v.get (.text name)).bind fun x => (Values.read fs v).map fun xs => g (x, xs) :=
  map_read_cons _ _ _ _

@[simp] theorem map_read_textOr (fallback : String) (g : Values (textOr name fallback :: fs) → β) :
    (Values.read (textOr name fallback :: fs) v).map g
      = (v.get (.textOr name fallback)).bind fun x => (Values.read fs v).map fun xs => g (x, xs) :=
  map_read_cons _ _ _ _

@[simp] theorem map_read_text? (g : Values (text? name :: fs) → β) :
    (Values.read (text? name :: fs) v).map g
      = (v.get (.text? name)).bind fun x => (Values.read fs v).map fun xs => g (x, xs) :=
  map_read_cons _ _ _ _

@[simp] theorem map_read_enumBody? (g : Values (record? name .enumBody :: fs) → β) :
    (Values.read (record? name .enumBody :: fs) v).map g
      = (v.get (.enumBody? name)).bind fun x => (Values.read fs v).map fun xs => g (x, xs) :=
  map_read_cons _ _ _ _

@[simp] theorem map_read_modifier? (g : Values (mappedModifier? name :: fs) → β) :
    (Values.read (mappedModifier? name :: fs) v).map g
      = (v.get (.modifier? name)).bind fun x => (Values.read fs v).map fun xs => g (x, xs) :=
  map_read_cons _ _ _ _

@[simp] theorem map_read_parameterName
    (g : Values (⟨name, none, .typeParameterName, none⟩ :: fs) → β) :
    (Values.read (⟨name, none, .typeParameterName, none⟩ :: fs) v).map g
      = (v.get (.parameterName name)).bind fun x => (Values.read fs v).map fun xs => g (x, xs) :=
  map_read_cons _ _ _ _

end Combinators

end Values

/-- The tag is no field. -/
theorem Kind.type_not_mem_names (k : Kind) : ∀ f ∈ k.schema.fields, "type" ∉ f.names := by
  cases k <;> decide

namespace Json

/-- The node of an object with a tag is built from what its fields are. -/
theorem node_eq {k : Kind} {v : Json} (h : v.HasTag k) :
    v.node = (Values.read k.schema.fields v).map k.schema.build := read_node h.inner

/-- Objects with tags read the same when their nodes, built from the fields, have the same
traits. -/
theorem sameReading_iff {k l : Kind} {v w : Json} (hv : v.HasTag k) (hw : w.HasTag l) :
    SameReading .node v w ↔
      (Values.read k.schema.fields v).map (fun xs => (k.schema.build xs).rep)
        = (Values.read l.schema.fields w).map fun xs => (l.schema.build xs).rep := by
  have hrep : ∀ {k : Kind} {v : Json}, v.HasTag k → (v.read .node).map Node.rep
      = (Values.read k.schema.fields v).map fun xs => (k.schema.build xs).rep := by
    intro k v h
    rw [read_node h.inner, Option.map_map]
    rfl
  rw [← hrep hv, ← hrep hw]
  rfl

namespace AgreeExcept

variable {keys : List String} {v w : Json}

/-- The tag is not among the fields that differ. -/
theorem hasTag_iff (h : AgreeExcept keys v w) {k : Kind} (hkeys : "type" ∉ keys) :
    v.HasTag k ↔ w.HasTag k := by
  unfold HasTag
  rw [h.field "type" hkeys]

theorem hasTag (h : AgreeExcept keys v w) {k : Kind} (hv : v.HasTag k) (hkeys : "type" ∉ keys) :
    w.HasTag k :=
  (h.hasTag_iff hkeys).mp hv

/-- So it is the same below the root. -/
theorem hasInnerTag (h : AgreeExcept keys v w) {k : Kind} (hv : v.HasInnerTag k)
    (hkeys : "type" ∉ keys) : w.HasInnerTag k :=
  hv.imp (h.hasTag · hkeys) (h.field "type" hkeys).symm.trans

/-- A field that is not among them is the same. -/
theorem read_eq (h : AgreeExcept keys v w) {f : FieldSpec} (hf : ∀ key ∈ f.names, key ∉ keys) :
    f.read v = f.read w :=
  FieldSpec.read_congr fun key hkey => h.field key (hf key hkey)

/-- A typed field that is not among them is the same. -/
theorem get_eq (h : AgreeExcept keys v w) {α : Type} {f : TypedField α}
    (hf : ∀ key ∈ f.spec.names, key ∉ keys) : w.get f = v.get f :=
  get_congr fun key hkey => (h.field key (hf key hkey)).symm

end AgreeExcept

/-- The body of an enum is its members. -/
theorem get_enumBody?_of_object {v : Json} {name : String} {ms : List (String × Json)}
    (h : v.field? name = some (.object ms)) :
    v.get (.enumBody? name) = ((object ms).get (.children "members")).map some := by
  have hbody : v.get (.enumBody? name) = ((object ms).read (.record .enumBody)).map some :=
    (FieldSpec.read_of_some (.record? name .enumBody) rfl h).trans
      (read_record?_object .enumBody ms)
  rw [hbody, read_record]
  simp only [RecordType.schema, Values.map_read_children]
  cases (object ms).get (.children "members") <;> rfl

theorem nodes_singleton (v : Json) : (array [v]).nodes = v.node.map fun n => [n] := by
  refine (read_nodes_array [v]).trans ?_
  rw [List.mapM_cons]
  unfold node
  cases v.read .node <;> rfl

/-- What has a tag is not null. -/
theorem HasTag.ne_null {k : Kind} {v : Json} (h : v.HasTag k) : v ≠ .null := by
  rintro rfl
  cases h

end Json

end Estree
