import Estree.Node.Schema
import Estree.Proofs.Presentation.Format
import Estree.Proofs.Presentation.Fields

/-!
# Schemas and the format

The schemas list the fields that loading knows; `Node.entries` lists the entries that the format
asks for. They agree for every kind and every record: a node that a schema builds from values has
just the entries of those values (`Kind.entries_build`), and every node is built by the schema of
its kind (`Node.exists_build`).

Main results:

* `Kind.entries_build`: what a schema builds has the entries of its values.
* `Node.exists_build`: every node is built by a schema.
* `Kind.distinct`: no two fields of a kind share a name.
-/

namespace Estree

open Entry

/-! ## §1. Entries of fields. -/

/-- The entries of a record. -/
def RecordType.entries : (r : RecordType) → r.Value → List Entry
  | .switchCase => SwitchCase.entries
  | .catchClause => CatchClause.entries
  | .templateText => TemplateText.entries
  | .regExp => RegExp.entries
  | .enumBody => enumBodyEntries

/-- The value of a shape that a JSON value stands for. -/
def Shape.Fits (presents : Node → Json → Prop) : (s : Shape) → s.Value → Json → Prop
  | .node, n, x => presents n x
  | .node?, n, x => (n = (none : Option Node) ∧ x = .null) ∨ ∃ m, n = some m ∧ presents m x
  | .nodes, ns, x => Listed presents ns x
  | .nodes?, ns, x => (ns = ([] : List Node) ∧ x = .null) ∨ Listed presents ns x
  | .holes, ns, x =>
    Listed (fun n x => (n = none ∧ x = .null) ∨ ∃ m, n = some m ∧ presents m x) ns x
  | .record r, y, x => x.Meets presents (r.entries y)
  | .record? r, y, x => (y = (none : Option r.Value) ∧ x = .null) ∨
      ∃ z, y = some z ∧ x.Meets presents (r.entries z)
  | .records r, ys, x => Listed (fun y => Json.Meets presents (r.entries y)) ys x
  | .flag, b, x => x = .bool b
  | .text, s, x => x = .string s
  | .text?, s, x => (s = (none : Option String) ∧ x = .null) ∨ ∃ t, s = some t ∧ x = .string t
  | .json, v, x => v = x.canonical
  | .typeParameterName, p, x =>
    (∃ s, p = TypeParameterName.plain s ∧ x = .string s) ∨
      ∃ n, p = TypeParameterName.node n ∧ presents n x
  | .mappedModifier?, m, x => (m = (none : Option MappedModifier) ∧ x = .null) ∨
      ∃ k, m = some k ∧ ((∃ b, k = .flag b ∧ x = .bool b) ∨ ∃ s, k = .sign s ∧ x = .string s)

/-- The entry of a field with a value. -/
def FieldSpec.entry (f : FieldSpec) (y : f.shape.Value) : Entry :=
  ⟨f.names, fun presents o => (o = none ∧ f.absent = some y) ∨
    ∃ x, o = some x ∧ f.shape.Fits presents y x⟩

/-- The entries of fields with their values. -/
def Values.entries : (fs : List FieldSpec) → Values fs → List Entry
  | [], _ => []
  | f :: fs, xs => f.entry xs.1 :: Values.entries fs xs.2

/-- The entries of values are those at each place. -/
theorem Values.forall_entries {fs : List FieldSpec} {xs : Values fs} {P : Entry → Prop} :
    (∀ e ∈ Values.entries fs xs, P e) ↔ ∀ p : Place fs, P (p.field.entry (xs.get p)) := by
  induction fs with
  | nil => exact ⟨fun _ p => (by cases p), fun _ e he => absurd he List.not_mem_nil⟩
  | cons f fs ih =>
    obtain ⟨x, xs⟩ := xs
    show (∀ e ∈ f.entry x :: Values.entries fs xs, P e) ↔ _
    rw [List.forall_mem_cons, ih]
    refine ⟨fun ⟨hx, hxs⟩ p => ?_, fun h => ⟨h .here, fun p => h (.there p)⟩⟩
    cases p with
    | here => exact hx
    | there p => exact hxs p

/-! ## §2. The combinators. -/

/-- An entry is its names and what fits under them. -/
theorem Entry.ext {d e : Entry} (hn : d.names = e.names)
    (hf : ∀ presents o, d.fits presents o ↔ e.fits presents o) : d = e := by
  cases d
  cases e
  cases hn
  congr
  funext presents o
  exact propext (hf presents o)

/-- A field without a default. -/
theorem required_iff {α : Type} (a : α) (o : Option Json) (P : Json → Prop) :
    ((o = none ∧ (none : Option α) = some a) ∨ ∃ x, o = some x ∧ P x) ↔ ∃ x, o = some x ∧ P x := by
  simp

/-- A field that is absent or null by default. -/
theorem nullable_iff {α : Type} (a : Option α) (o : Option Json) (P : α → Json → Prop) :
    ((o = none ∧ some (none : Option α) = some a) ∨
        ∃ x, o = some x ∧ ((a = none ∧ x = .null) ∨ ∃ b, a = some b ∧ P b x)) ↔
      (a = none ∧ (o = none ∨ o = some .null)) ∨ ∃ b x, a = some b ∧ o = some x ∧ P b x := by
  cases a <;> cases o <;> simp

theorem defaulted_iff {α : Type} (d a : α) (o : Option Json) (P : Json → Prop) :
    ((o = none ∧ some d = some a) ∨ ∃ x, o = some x ∧ P x) ↔
      (a = d ∧ o = none) ∨ ∃ x, o = some x ∧ P x := by
  rw [Option.some_inj, and_comm, eq_comm]

/-- A list that is absent or null when it is empty. -/
theorem nullableList_iff {α : Type} (as : List α) (o : Option Json) (P : Json → Prop) :
    ((o = none ∧ some ([] : List α) = some as) ∨
        ∃ x, o = some x ∧ ((as = [] ∧ x = .null) ∨ P x)) ↔
      (as = [] ∧ (o = none ∨ o = some .null)) ∨ ∃ x, o = some x ∧ P x := by
  rw [Option.some_inj, eq_comm]
  cases o <;> simp [eq_comm]

namespace FieldSpec

@[simp] theorem entry_child (name : String) (n : (FieldSpec.child name).shape.Value) :
    (FieldSpec.child name).entry n = Entry.child name n :=
  Entry.ext rfl fun presents o => required_iff n o (presents n)

/-- A node that may be absent. -/
@[simp] theorem entry_child? (name : String) (n : (FieldSpec.child? name).shape.Value) :
    (FieldSpec.child? name).entry n = Entry.child? name n :=
  Entry.ext rfl fun presents o => nullable_iff n o presents

@[simp] theorem entry_children (name : String) (ns : (FieldSpec.children name).shape.Value) :
    (FieldSpec.children name).entry ns = Entry.children name ns :=
  Entry.ext rfl fun presents o => required_iff ns o (Listed presents ns)

/-- A list of nodes that may be absent. -/
@[simp] theorem entry_children? (name : String) (ns : (FieldSpec.children? name).shape.Value) :
    (FieldSpec.children? name).entry ns = Entry.children? name ns :=
  Entry.ext rfl fun presents o => nullableList_iff ns o (Listed presents ns)

/-- A flag that is off by default. -/
@[simp] theorem entry_flag (name : String) (b : (FieldSpec.flag name).shape.Value) :
    (FieldSpec.flag name).entry b = Entry.flag name b :=
  Entry.ext rfl fun _ o => defaulted_iff false b o (· = .bool b)

/-- A flag that is on by default. -/
@[simp] theorem entry_flagOn (name : String) (b : (FieldSpec.flagOn name).shape.Value) :
    (FieldSpec.flagOn name).entry b = Entry.flagOr name true b :=
  Entry.ext rfl fun _ o => defaulted_iff true b o (· = .bool b)

@[simp] theorem entry_text (name : String) (s : (FieldSpec.text name).shape.Value) :
    (FieldSpec.text name).entry s = Entry.text name s :=
  Entry.ext rfl fun _ o => required_iff s o (· = .string s)

@[simp] theorem entry_textOr (name fallback : String)
    (s : (FieldSpec.textOr name fallback).shape.Value) :
    (FieldSpec.textOr name fallback).entry s = Entry.textOr name fallback s :=
  Entry.ext rfl fun _ o => defaulted_iff fallback s o (· = .string s)

/-- A text that may be absent. -/
@[simp] theorem entry_text? (name : String) (s : (FieldSpec.text? name).shape.Value) :
    (FieldSpec.text? name).entry s = Entry.text? name s :=
  Entry.ext rfl fun _ o => nullable_iff s o fun s x => x = .string s

@[simp] theorem entry_holes (name : String)
    (ns : (FieldSpec.mk name none .holes none).shape.Value) :
    (FieldSpec.mk name none .holes none).entry ns = Entry.holes name ns :=
  Entry.ext rfl fun _ o => required_iff ns o _

@[simp] theorem entry_record (name : String) (r : RecordType)
    (y : (FieldSpec.mk name none (.record r) none).shape.Value) :
    (FieldSpec.mk name none (.record r) none).entry y = Entry.record name (r.entries y) :=
  Entry.ext rfl fun presents o => required_iff y o (Json.Meets presents (r.entries y))

/-- A record that may be absent. -/
@[simp] theorem entry_record? (name : String) (r : RecordType)
    (y : (FieldSpec.record? name r).shape.Value) :
    (FieldSpec.record? name r).entry y = Entry.record? name y r.entries :=
  Entry.ext rfl fun presents o => nullable_iff y o fun z => Json.Meets presents (r.entries z)

@[simp] theorem entry_records (name : String) (r : RecordType)
    (ys : (FieldSpec.mk name none (.records r) none).shape.Value) :
    (FieldSpec.mk name none (.records r) none).entry ys = Entry.records name ys r.entries :=
  Entry.ext rfl fun _ o => required_iff ys o _

@[simp] theorem entry_json (name : String)
    (v : (FieldSpec.mk name none .json (some Json.null)).shape.Value) :
    (FieldSpec.mk name none .json (some Json.null)).entry v = Entry.anything name v :=
  Entry.ext rfl fun _ o => defaulted_iff Json.null v o fun x => v = x.canonical

/-- The name of a type parameter. -/
@[simp] theorem entry_typeParameterName (name : String)
    (p : (FieldSpec.mk name none .typeParameterName none).shape.Value) :
    (FieldSpec.mk name none .typeParameterName none).entry p = Entry.parameterName name p :=
  Entry.ext rfl fun _ o => required_iff p o _

/-- A modifier of a mapped type. -/
@[simp] theorem entry_mappedModifier? (name : String)
    (m : (FieldSpec.mappedModifier? name).shape.Value) :
    (FieldSpec.mappedModifier? name).entry m = Entry.modifier? name m :=
  Entry.ext rfl fun _ o => nullable_iff m o _

/-- A second name goes into the entry. -/
theorem entry_alsoNamed {f : FieldSpec} (h : f.otherName = none) (other : String)
    (y : f.shape.Value) : (f.alsoNamed other).entry y = (f.entry y).orUnder other := by
  refine Entry.ext ?_ fun _ _ => Iff.rfl
  show [f.name, other] = f.name :: f.otherName.toList ++ [other]
  rw [h]
  rfl

/-- A node that may be absent, under two names. -/
@[simp] theorem entry_child?_alsoNamed (name other : String)
    (n : ((FieldSpec.child? name).alsoNamed other).shape.Value) :
    ((FieldSpec.child? name).alsoNamed other).entry n = (Entry.child? name n).orUnder other :=
  (@entry_alsoNamed (FieldSpec.child? name) rfl other n).trans
    (congrArg (Entry.orUnder · other) (entry_child? name n))

/-- A list of nodes that may be absent, under two names. -/
@[simp] theorem entry_children?_alsoNamed (name other : String)
    (ns : ((FieldSpec.children? name).alsoNamed other).shape.Value) :
    ((FieldSpec.children? name).alsoNamed other).entry ns
      = (Entry.children? name ns).orUnder other :=
  (@entry_alsoNamed (FieldSpec.children? name) rfl other ns).trans
    (congrArg (Entry.orUnder · other) (entry_children? name ns))

end FieldSpec

/-! ## §3. Kinds and records. -/

/-- A record that its schema builds has the entries of the values. -/
theorem RecordType.entries_build (r : RecordType) (xs : Values r.schema.fields) :
    r.entries (r.schema.build xs) = Values.entries r.schema.fields xs := by
  cases r <;> simp only [RecordType.schema, Values.entries, FieldSpec.entry_child,
    FieldSpec.entry_child?, FieldSpec.entry_children, FieldSpec.entry_text,
    FieldSpec.entry_text?] <;> rfl

/-- A node that a schema builds has the entries of the values. -/
theorem Kind.entries_build (k : Kind) (xs : Values k.schema.fields) :
    (k.schema.build xs).entries = Values.entries k.schema.fields xs := by
  cases k <;> simp [Kind.schema, Values.entries, Schema.leaf, Schema.block, Schema.function,
    Schema.classLike, Schema.method, Schema.classField, Schema.call, Schema.binary, Schema.literal,
    Schema.assertion, Schema.heritage, Schema.signature, Schema.one, Schema.two, Schema.one?,
    Schema.list, Schema.annotated, Schema.elements, Schema.properties, Schema.forEach] <;> rfl

/-- A schema builds nodes of its kind. -/
theorem Kind.kind_build (k : Kind) (xs : Values k.schema.fields) :
    (k.schema.build xs).kind = k := by
  cases k <;> rfl

/-- Every record is built by its schema. -/
theorem RecordType.exists_build (r : RecordType) (y : r.Value) :
    ∃ xs, r.schema.build xs = y := by
  cases r with
  | switchCase | catchClause | templateText | regExp => cases y; exact ⟨(_, _, ()), rfl⟩
  | enumBody => exact ⟨(y, ()), rfl⟩

/-- Every node is built by the schema of its kind. -/
theorem Node.exists_build (n : Node) : ∃ xs, n.kind.schema.build xs = n := by
  cases n with
  -- the kinds are grouped by how many fields their schemas have
  | emptyStatement | debuggerStatement | thisExpression | super =>
    exact ⟨(), rfl⟩
  | program | breakStatement | continueStatement | returnStatement | throwStatement | decorator
  | importDefaultSpecifier | importNamespaceSpecifier | exportDefaultDeclaration
  | awaitExpression | sequenceExpression | chainExpression | privateIdentifier
  | tsNonNullExpression | tsInterfaceBody | tsTypeAnnot | tsLiteralType | tsUnionType
  | tsIntersectionType | tsTupleType | tsOptionalType | tsRestType | tsParenthesizedType
  | tsArrayType | tsInferType | tsTypeLiteral | tsTypeParameterDeclaration
  | tsTypeParameterInstantiation =>
    exact ⟨(_, ()), rfl⟩
  | expressionStatement | labeledStatement | withStatement | switchStatement | whileStatement
  | doWhileStatement | importAttribute | restElement | spreadElement | yieldExpression
  | templateLiteral | templateElement | taggedTemplateExpression | arrayExpression | arrayPattern
  | objectExpression | objectPattern | assignmentPattern | metaProperty | tsAsExpression
  | tsSatisfiesExpression | tsTypeAssertion | tsTemplateLiteralType | tsTypeReference
  | tsQualifiedName | tsTypeQuery | tsIndexedAccessType | tsTypeOperator =>
    exact ⟨(_, _, ()), rfl⟩
  | ifStatement | tryStatement | variableDeclaration | variableDeclarator | importSpecifier
  | importExpression | exportSpecifier | unaryExpression | updateExpression
  | assignmentExpression | binaryExpression | logicalExpression | conditionalExpression
  | tsEnumMember | tsNamedTupleMember | tsTypePredicate =>
    exact ⟨(_, _, _, ()), rfl⟩
  | forStatement | forInStatement | forOfStatement | importDeclaration | exportAllDeclaration
  | newExpression | callExpression | memberExpression | identifier | literal | regExpLiteral
  | tsTypeAliasDeclaration | tsConditionalType | tsIndexSignature =>
    exact ⟨(_, _, _, _, ()), rfl⟩
  | arrowFunctionExpression f | exportNamedDeclaration f | tsInterfaceDeclaration f
  | tsEnumDeclaration f | tsModuleDeclaration f =>
    cases f
    exact ⟨(_, _, _, _, _, ()), rfl⟩
  | tsParameterProperty f | property f | tsPropertySignature f | tsTypeParameter f =>
    cases f
    exact ⟨(_, _, _, _, _, _, ()), rfl⟩
  | tsMappedType f | tsMethodSignature f =>
    cases f
    exact ⟨(_, _, _, _, _, _, _, ()), rfl⟩
  | classDeclaration f | classExpression f =>
    cases f
    exact ⟨(_, _, _, _, _, _, _, _, _, ()), rfl⟩
  | methodDefinition f | tsAbstractMethodDefinition f =>
    cases f
    exact ⟨(_, _, _, _, _, _, _, _, _, _, _, ()), rfl⟩
  | block form => cases form <;> exact ⟨(_, ()), rfl⟩
  | keywordType k => cases k <;> exact ⟨(), rfl⟩
  | heritage form => cases form <;> exact ⟨(_, _, ()), rfl⟩
  | signature form => cases form <;> exact ⟨(_, _, _, _, ()), rfl⟩
  | function form f => cases f; cases form <;> exact ⟨(_, _, _, _, _, _, _, _, ()), rfl⟩
  | classField form f =>
    cases f
    cases form <;> exact ⟨(_, _, _, _, _, _, _, _, _, _, _, _, _, ()), rfl⟩

/-- No two fields of a kind share a name. -/
theorem Kind.distinct (k : Kind) : FieldSpec.Distinct k.schema.fields := by
  cases k <;> decide

/-- No two fields of a record share a name. -/
theorem RecordType.distinct (r : RecordType) : FieldSpec.Distinct r.schema.fields := by
  cases r <;> decide

end Estree
