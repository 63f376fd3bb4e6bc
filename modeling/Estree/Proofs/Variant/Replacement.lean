import Estree.Proofs.Variant.Reading
import Estree.Proofs.Variant.Traits
import Mathlib.Logic.Relation

/-!
# Variants of a tree

Parsers write some parts of a tree in more than one way. `Json.Replaces` lists the replacements of
one way by another at one object; `Json.Rewrites` makes one replacement somewhere in a tree, where a
tree is followed down the fields that the kinds of its nodes have; `Json.Variant` is any number of
them, in both directions.
-/

namespace Estree

namespace Json

/-! ## §1. What an object has. -/

/-- There is nothing under the key, or null. -/
def Lacks (key : String) (v : Json) : Prop := v.field? key = none ∨ v.field? key = some .null

/-- There is nothing under the key, or `false`. -/
def NotSet (key : String) (v : Json) : Prop :=
  v.field? key = none ∨ v.field? key = some (.bool false)

/-- There is nothing under the key, or a flag. -/
def MaySet (key : String) (v : Json) : Prop :=
  v.field? key = none ∨ ∃ b, v.field? key = some (.bool b)

/-- There is nothing under the key, or null, or an empty list. -/
def NoItems (key : String) (v : Json) : Prop := v.Lacks key ∨ v.field? key = some (.array [])

/-- Two objects that differ under the keys at most. -/
structure AgreeExcept (keys : List String) (v w : Json) : Prop where
  left : ∃ ms, v = .object ms
  right : ∃ ms, w = .object ms
  field : ∀ k ∉ keys, v.field? k = w.field? k

theorem lastOf_filter {keys : List String} {k : String} (hk : k ∉ keys)
    (ms : List (String × Json)) : lastOf k (ms.filter (·.1 ∉ keys)) = lastOf k ms := by
  simp only [decide_not]
  induction ms with
  | nil => rfl
  | cons m ms ih =>
    by_cases hm : m.1 ∈ keys
    · have hne : m.1 ≠ k := fun h => hk (h ▸ hm)
      simp [hm, ih, lastOf, hne]
    · simp [hm, ih, lastOf]

/-- Objects agree when their members do but for those with the keys. -/
theorem AgreeExcept.of_filter {keys : List String} {ms ns : List (String × Json)}
    (h : ms.filter (·.1 ∉ keys) = ns.filter (·.1 ∉ keys)) :
    AgreeExcept keys (.object ms) (.object ns) := by
  refine ⟨⟨ms, rfl⟩, ⟨ns, rfl⟩, fun k hk => ?_⟩
  show lastOf k ms = lastOf k ns
  rw [← lastOf_filter hk ms, h, lastOf_filter hk ns]

/-- An identifier with a name and nothing else. -/
structure IsName (s : String) (v : Json) : Prop where
  tag : v.HasTag .identifier
  name : v.field? "name" = some (.string s)
  optional : v.NotSet "optional"
  annot : v.Lacks "typeAnnotation"
  decorators : v.NoItems "decorators"

/-- A type parameter with a name, given as a text, and a constraint, and nothing else. -/
structure IsVariable (s : String) (v constraint : Json) : Prop where
  tag : v.HasTag .tsTypeParameter
  name : v.field? "name" = some (.string s)
  constraint : v.field? "constraint" = some constraint
  fallback : v.Lacks "default"
  varianceIn : v.NotSet "in"
  varianceOut : v.NotSet "out"
  const : v.NotSet "const"

/-! ## §2. Replacements. -/

namespace Replacement

/-- The first name of a field for its second. -/
structure FieldName (k : Kind) (f : FieldSpec) (other : String) (x v w : Json) : Prop where
  tag : v.HasTag k
  field : f ∈ k.schema.fields
  named : f.otherName = some other
  old : v.field? other = some x
  noNew : v.field? f.name = none
  new : w.field? f.name = some x
  noOld : w.field? other = none
  rest : AgreeExcept [f.name, other] v w

/-- The members of an enumeration in a body for the same members without one. -/
structure EnumBody (items : List Json) (body v w : Json) : Prop where
  tag : v.HasTag .tsEnumDeclaration
  old : v.field? "members" = some (.array items)
  noBody : v.Lacks "body"
  new : w.field? "body" = some body
  object : ∃ ms, body = .object ms
  members : body.field? "members" = some (.array items)
  noMembers : w.NoItems "members"
  rest : AgreeExcept ["members", "body"] v w

/-- The name of a type parameter as an identifier for the same name as a text. -/
structure ParameterName (s : String) (i v w : Json) : Prop where
  tag : v.HasTag .tsTypeParameter
  old : v.field? "name" = some (.string s)
  new : w.field? "name" = some i
  name : i.IsName s
  rest : AgreeExcept ["name"] v w

/-- The variable of a mapped type as a key and a constraint for the same as a type parameter. -/
structure MappedKey (s : String) (constraint p i v w : Json) : Prop where
  tag : v.HasTag .tsMappedType
  old : v.field? "typeParameter" = some p
  asVariable : p.IsVariable s constraint
  noKey : v.Lacks "key"
  noConstraint : v.Lacks "constraint"
  newKey : w.field? "key" = some i
  name : i.IsName s
  newConstraint : w.field? "constraint" = some constraint
  noOld : w.Lacks "typeParameter"
  rest : AgreeExcept ["typeParameter", "key", "constraint"] v w

/-- The options of an import by name for the same as its one argument. -/
structure ImportOptions (options v w : Json) : Prop where
  tag : v.HasTag .importExpression
  old : v.field? "arguments" = some (.array [options])
  given : options ≠ .null
  noOptions : v.Lacks "options"
  noOther : v.field? "attributes" = none
  new : w.field? "options" = some options
  noOld : w.NoItems "arguments"
  rest : AgreeExcept ["arguments", "options"] v w

/-- The kind of the global scope for its flag. -/
structure GlobalKind (v w : Json) : Prop where
  tag : v.HasTag .tsModuleDeclaration
  old : v.field? "global" = some (.bool true)
  noKind : v.Lacks "kind"
  new : w.field? "kind" = some (.string "global")
  noOld : w.NotSet "global"
  rest : AgreeExcept ["global", "kind"] v w

/-- A qualified name of a module for a module inside a module. -/
structure ModuleName (x y m q v w : Json) : Prop where
  tag : v.HasTag .tsModuleDeclaration
  noFlag : v.field? "global" ≠ some (.bool true)
  noKind : v.field? "kind" ≠ some (.string "global")
  outer : v.field? "id" = some x
  outerTag : x.HasTag .identifier ∨ x.HasTag .tsQualifiedName
  old : v.field? "body" = some m
  innerTag : m.HasTag .tsModuleDeclaration
  inner : m.field? "id" = some y
  innerName : y.HasTag .identifier
  innerDeclare : m.MaySet "declare"
  innerGlobal : m.MaySet "global"
  innerKind : m.Lacks "kind" ∨ ∃ s, m.field? "kind" = some (.string s)
  new : w.field? "id" = some q
  newTag : q.HasTag .tsQualifiedName
  left : q.field? "left" = some x
  right : q.field? "right" = some y
  body : w.field? "body" = m.field? "body"
  rest : AgreeExcept ["id", "body"] v w

/-- A member of a class with a flag for the same member of an abstract kind. -/
structure AbstractFlag (k : Kind) (v w : Json) : Prop where
  tag : v.HasTag k
  isAbstract : k.concrete ≠ k
  old : v.MaySet "abstract"
  newTag : w.HasTag k.concrete
  new : w.field? "abstract" = some (.bool true)
  rest : AgreeExcept ["type", "abstract"] v w

/-- The type parameters of a method with its function for the same with its definition. -/
structure MethodTypeParameters (k l : Kind) (f g params v w : Json) : Prop where
  tag : v.HasTag k
  method : k ∈ [Kind.methodDefinition, .tsAbstractMethodDefinition]
  old : v.field? "typeParameters" = some params
  value : v.field? "value" = some f
  functionTag : f.HasTag l
  function : l ∈ [Kind.functionDeclaration, .functionExpression, .tsDeclareFunction,
    .tsEmptyBodyFunctionExpression]
  noNew : f.Lacks "typeParameters"
  newValue : w.field? "value" = some g
  new : g.field? "typeParameters" = some params
  noOld : w.Lacks "typeParameters"
  inside : AgreeExcept ["typeParameters"] f g
  rest : AgreeExcept ["typeParameters", "value"] v w

/-- The kinds with a field that says what they import or export, and the name of the field. -/
def valueKinds : List (Kind × String) :=
  [(.importDeclaration, "importKind"), (.importSpecifier, "importKind"),
    (.exportNamedDeclaration, "exportKind"), (.exportSpecifier, "exportKind"),
    (.exportAllDeclaration, "exportKind")]

/-- The kind of an import or export of values for no kind. -/
structure ValueKind (k : Kind) (key : String) (v w : Json) : Prop where
  tag : v.HasTag k
  hasKind : (k, key) ∈ valueKinds
  noKind : v.Lacks key
  new : w.field? key = some (.string "value")
  rest : AgreeExcept [key] v w

end Replacement

/-- Another way to write the same object. -/
inductive Replaces (v w : Json) : Prop where
  | fieldName {k f other x} (h : Replacement.FieldName k f other x v w)
  | enumBody {items body} (h : Replacement.EnumBody items body v w)
  | parameterName {s i} (h : Replacement.ParameterName s i v w)
  | mappedKey {s constraint p i} (h : Replacement.MappedKey s constraint p i v w)
  | importOptions {options} (h : Replacement.ImportOptions options v w)
  | globalKind (h : Replacement.GlobalKind v w)
  | moduleName {x y m q} (h : Replacement.ModuleName x y m q v w)
  | abstractFlag {k} (h : Replacement.AbstractFlag k v w)
  | methodTypeParameters {k l f g params}
      (h : Replacement.MethodTypeParameters k l f g params v w)
  | valueKind {k key} (h : Replacement.ValueKind k key v w)

end Json

/-! ## §3. Replacements in a tree. -/

namespace Shape

/-- The shape of a value that a shape has instead of null or of a text. -/
def inner? : Shape → Option Shape
  | .node? => some .node
  | .record? r => some (.record r)
  | .typeParameterName => some .node
  | _ => none

/-- The shape of the items of a list. -/
def item? : Shape → Option Shape
  | .nodes => some .node
  | .nodes? => some .node
  | .holes => some .node?
  | .records r => some (.record r)
  | _ => none

end Shape

namespace Json

/-- One replacement somewhere in a value of a shape. -/
inductive Rewrites : Shape → Json → Json → Prop where
  | here {v w : Json} (h : Replaces v w) : Rewrites .node v w
  | inNode {v w x y : Json} {k : Kind} {f : FieldSpec} {key : String} (tag : v.HasInnerTag k)
      (field : f ∈ k.schema.fields) (named : key ∈ f.names) (old : v.field? key = some x)
      (new : w.field? key = some y) (rest : AgreeExcept [key] v w) (h : Rewrites f.shape x y) :
      Rewrites .node v w
  | inRecord {v w x y : Json} {r : RecordType} {f : FieldSpec} {key : String}
      (field : f ∈ r.schema.fields) (named : key ∈ f.names) (old : v.field? key = some x)
      (new : w.field? key = some y) (rest : AgreeExcept [key] v w) (h : Rewrites f.shape x y) :
      Rewrites (.record r) v w
  | inner {s t : Shape} {v w : Json} (shape : s.inner? = some t) (h : Rewrites t v w) :
      Rewrites s v w
  | item {s t : Shape} {xs zs : List Json} {x y : Json} (shape : s.item? = some t)
      (h : Rewrites t x y) : Rewrites s (.array (xs ++ x :: zs)) (.array (xs ++ y :: zs))

/-- Trees that go over into each other by replacements. -/
def Variant (v w : Json) : Prop := Relation.EqvGen (Rewrites .node) v w

end Json

end Estree
