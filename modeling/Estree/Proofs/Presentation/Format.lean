import Estree.Node.Basic
import Estree.Proofs.Presentation.Object
import Mathlib.Data.List.Forall2

/-!
# The format of trees

The JSON objects that present a node (`Node.Presents`), said without loading: the object has the tag
of the node, and for each field of the node an entry under the name of the field, or under its
second name, but not under both. `Node.entries` lists the entries of each node. An entry says what
may stand under its names, given what presents the nodes inside; `none` is a field that is absent.
Other fields of the object may hold anything.

The tag of the root is a text. Inside another node a number may stand for it, the position of the
kind among all kinds (`Json.HasInnerTag`).
-/

namespace Estree

/-! ## §1. Entries. -/

/-- What stands under the names of a field: nothing under any of them, or something under just
one. -/
def Json.Under (v : Json) (names : List String) : Option Json → Prop
  | none => ∀ k ∈ names, v.field? k = none
  | some x => ∃ k ∈ names, v.field? k = some x ∧ ∀ l ∈ names, l ≠ k → v.field? l = none

/-- The names of a field and what may stand under them, given what presents the nodes inside. -/
structure Entry where
  names : List String
  fits : (presents : Node → Json → Prop) → Option Json → Prop

/-- The value is an object that has all the entries. -/
def Json.Meets (presents : Node → Json → Prop) (entries : List Entry) (v : Json) : Prop :=
  (∃ members, v = .object members) ∧
    ∀ e ∈ entries, ∃ o, v.Under e.names o ∧ e.fits presents o

namespace Entry

/-- A value that is required. -/
def required (name : String) (P : (Node → Json → Prop) → Json → Prop) : Entry :=
  ⟨[name], fun presents o => ∃ x, o = some x ∧ P presents x⟩

/-- A value that may be absent or null when there is none. -/
def nullable {α : Type} (name : String) (a : Option α)
    (P : (Node → Json → Prop) → α → Json → Prop) : Entry :=
  ⟨[name], fun presents o => (a = none ∧ (o = none ∨ o = some .null)) ∨
    ∃ b x, a = some b ∧ o = some x ∧ P presents b x⟩

/-- A value that may be absent when it is the default. -/
def defaulted {α : Type} (name : String) (default a : α) (P : α → Json → Prop) : Entry :=
  ⟨[name], fun _ o => (a = default ∧ o = none) ∨ ∃ x, o = some x ∧ P a x⟩

/-- The value is a list, and its items go with the elements one by one. -/
def Listed {α : Type} (P : α → Json → Prop) (as : List α) (v : Json) : Prop :=
  ∃ items, v = .array items ∧ List.Forall₂ P as items

/-- A required node. -/
def child (name : String) (n : Node) : Entry := required name fun presents => presents n

/-- A node that may be absent or null. -/
def child? (name : String) (n : Option Node) : Entry := nullable name n fun presents => presents

/-- A required list of nodes. -/
def children (name : String) (ns : List Node) : Entry :=
  required name fun presents => Listed presents ns

/-- A list of nodes that may be absent or null when it is empty. -/
def children? (name : String) (ns : List Node) : Entry :=
  ⟨[name], fun presents o => (ns = [] ∧ (o = none ∨ o = some .null)) ∨
    ∃ x, o = some x ∧ Listed presents ns x⟩

/-- A required list of nodes with holes, for which null stands. -/
def holes (name : String) (ns : List (Option Node)) : Entry :=
  required name fun presents => Listed
    (fun n x => (n = none ∧ x = .null) ∨ ∃ m, n = some m ∧ presents m x) ns

/-- A required record. -/
def record (name : String) (entries : List Entry) : Entry :=
  required name fun presents => Json.Meets presents entries

/-- A record that may be absent or null. -/
def record? {α : Type} (name : String) (a : Option α) (entries : α → List Entry) : Entry :=
  nullable name a fun presents b => Json.Meets presents (entries b)

/-- A required list of records. -/
def records {α : Type} (name : String) (as : List α) (entries : α → List Entry) : Entry :=
  required name fun presents => Listed (fun a => Json.Meets presents (entries a)) as

/-- A flag with a default. -/
def flagOr (name : String) (default b : Bool) : Entry :=
  defaulted name default b fun b x => x = .bool b

/-- A flag, `false` when it is absent. -/
def flag (name : String) (b : Bool) : Entry := flagOr name false b

/-- A required text. -/
def text (name s : String) : Entry := required name fun _ x => x = .string s

/-- A text with a default. -/
def textOr (name default s : String) : Entry :=
  defaulted name default s fun s x => x = .string s

/-- A text that may be absent or null. -/
def text? (name : String) (s : Option String) : Entry :=
  nullable name s fun _ s x => x = .string s

/-- Any value, taken as a map at every depth; null when it is absent. -/
def anything (name : String) (v : Json) : Entry :=
  defaulted name .null v fun v x => v = x.canonical

/-- The name of a type parameter: a text or a node. -/
def parameterName (name : String) (p : TypeParameterName) : Entry :=
  required name fun presents x => (∃ s, p = .plain s ∧ x = .string s) ∨
    ∃ n, p = .node n ∧ presents n x

/-- A modifier of a mapped type: a flag or a text, and it may be absent or null. -/
def modifier? (name : String) (m : Option MappedModifier) : Entry :=
  nullable name m fun _ m x => (∃ b, m = .flag b ∧ x = .bool b) ∨ ∃ s, m = .sign s ∧ x = .string s

/-- The entry under a second name. -/
def orUnder (e : Entry) (other : String) : Entry := { e with names := e.names ++ [other] }

end Entry

/-! ## §2. Records. -/

open Entry

namespace SwitchCase

/-- The entries of a case. -/
def entries (c : SwitchCase) : List Entry :=
  [child? "test" c.test, Entry.children "consequent" c.consequent]

end SwitchCase

namespace CatchClause

/-- The entries of a handler. -/
def entries (c : CatchClause) : List Entry := [child? "param" c.param, child "body" c.body]

end CatchClause

namespace TemplateText

/-- The entries of the text of a template element. -/
def entries (t : TemplateText) : List Entry := [text "raw" t.raw, text? "cooked" t.cooked]

end TemplateText

namespace RegExp

/-- The entries of a regular expression. -/
def entries (r : RegExp) : List Entry := [text "pattern" r.pattern, text "flags" r.flags]

end RegExp

/-- The entries of the body of an enumeration. -/
def enumBodyEntries (members : List Node) : List Entry := [Entry.children "members" members]

namespace Literal

/-- The entries of a literal. -/
def entries (l : Literal) : List Entry :=
  [anything "value" l.value, text? "raw" l.raw, record? "regex" l.regex RegExp.entries,
    text? "bigint" l.bigint]

end Literal

namespace FunctionLike

/-- The entries of a function. -/
def entries (f : FunctionLike) : List Entry :=
  [child? "id" f.id, Entry.children "params" f.params, child? "body" f.body, flag "async" f.async,
    flag "generator" f.generator, flag "declare" f.declare,
    child? "typeParameters" f.typeParameters, child? "returnType" f.returnType]

end FunctionLike

namespace ArrowFunction

/-- The entries of an arrow function. -/
def entries (f : ArrowFunction) : List Entry :=
  [children? "params" f.params, child "body" f.body, flag "async" f.async,
    child? "typeParameters" f.typeParameters, child? "returnType" f.returnType]

end ArrowFunction

namespace ClassLike

/-- The entries of a class. -/
def entries (c : ClassLike) : List Entry :=
  [child? "id" c.id, child? "superClass" c.superClass, child "body" c.body,
    children? "decorators" c.decorators, flag "abstract" c.abstract, flag "declare" c.declare,
    child? "typeParameters" c.typeParameters,
    (child? "superTypeArguments" c.superTypeArguments).orUnder "superTypeParameters",
    children? "implements" c.implements]

end ClassLike

namespace Method

/-- The entries of a class method. -/
def entries (m : Method) : List Entry :=
  [child "key" m.key, child "value" m.value, textOr "kind" "method" m.kind,
    flag "computed" m.computed, flag "static" m.static, flag "abstract" m.abstract,
    flag "override" m.override, flag "optional" m.optional, text? "accessibility" m.accessibility,
    children? "decorators" m.decorators, child? "typeParameters" m.typeParameters]

end Method

namespace ClassField

/-- The entries of a class field. -/
def entries (f : ClassField) : List Entry :=
  [child "key" f.key, child? "value" f.value, flag "computed" f.computed, flag "static" f.static,
    flag "declare" f.declare, flag "abstract" f.abstract, flag "override" f.override,
    flag "readonly" f.readonly, flag "definite" f.definite, flag "optional" f.optional,
    text? "accessibility" f.accessibility, children? "decorators" f.decorators,
    child? "typeAnnotation" f.annot]

end ClassField

/-! ## §3. Tags. -/

namespace Json

/-- The object has the tag of the kind. -/
def HasTag (k : Kind) (v : Json) : Prop := v.field? "type" = some (.string k.tag)

/-- The object has the tag of the kind or, in its place, the position of the kind among all kinds:
inside another node either will do. -/
def HasInnerTag (k : Kind) (v : Json) : Prop :=
  v.HasTag k ∨ v.field? "type" = some (.number (.int k.index))

end Json

/-! ## §4. Nodes. -/

namespace Node

/-- The entries of a node besides its tag. -/
def entries : Node → List Entry
  | .program body | .block _ body => [Entry.children "body" body]
  -- statements
  | .emptyStatement | .debuggerStatement => []
  | .expressionStatement expression directive =>
    [child "expression" expression, text? "directive" directive]
  | .ifStatement test consequent alternate =>
    [child "test" test, child "consequent" consequent, child? "alternate" alternate]
  | .labeledStatement label body => [child "label" label, child "body" body]
  | .breakStatement label | .continueStatement label => [child? "label" label]
  | .withStatement object body => [child "object" object, child "body" body]
  | .switchStatement discriminant cases =>
    [child "discriminant" discriminant, records "cases" cases SwitchCase.entries]
  | .returnStatement argument => [child? "argument" argument]
  | .throwStatement argument => [child "argument" argument]
  | .tryStatement tried handler finalizer =>
    [child "block" tried, record? "handler" handler CatchClause.entries,
      child? "finalizer" finalizer]
  | .whileStatement test body | .doWhileStatement test body =>
    [child "test" test, child "body" body]
  | .forStatement init test update body =>
    [child? "init" init, child? "test" test, child? "update" update, child "body" body]
  | .forInStatement left right body await | .forOfStatement left right body await =>
    [child "left" left, child "right" right, child "body" body, flag "await" await]
  -- functions, variables and classes
  | .function _ f => f.entries
  | .arrowFunctionExpression f => f.entries
  | .variableDeclaration kind declarations declare =>
    [text "kind" kind, Entry.children "declarations" declarations, flag "declare" declare]
  | .variableDeclarator id init definite =>
    [child "id" id, child? "init" init, flag "definite" definite]
  | .classDeclaration c | .classExpression c => c.entries
  | .methodDefinition m | .tsAbstractMethodDefinition m => m.entries
  | .classField _ f => f.entries
  | .decorator expression => [child "expression" expression]
  | .tsParameterProperty p =>
    [child "parameter" p.parameter, text? "accessibility" p.accessibility,
      flag "readonly" p.readonly, flag "static" p.static, flag "override" p.override,
      children? "decorators" p.decorators]
  -- imports and exports
  | .importDeclaration specifiers source importKind attributes =>
    [children? "specifiers" specifiers, child "source" source, text? "importKind" importKind,
      children? "attributes" attributes]
  | .importSpecifier imported localName importKind =>
    [child "imported" imported, child "local" localName, text? "importKind" importKind]
  | .importDefaultSpecifier localName | .importNamespaceSpecifier localName =>
    [child "local" localName]
  | .importAttribute key value => [child "key" key, child "value" value]
  | .importExpression source arguments options =>
    [child "source" source, children? "arguments" arguments,
      (child? "options" options).orUnder "attributes"]
  | .exportNamedDeclaration d =>
    [child? "declaration" d.declaration, children? "specifiers" d.specifiers,
      child? "source" d.source, text? "exportKind" d.exportKind,
      children? "attributes" d.attributes]
  | .exportSpecifier localName exported exportKind =>
    [child "local" localName, child "exported" exported, text? "exportKind" exportKind]
  | .exportDefaultDeclaration declaration => [child "declaration" declaration]
  | .exportAllDeclaration exported source exportKind attributes =>
    [child? "exported" exported, child "source" source, text? "exportKind" exportKind,
      children? "attributes" attributes]
  -- expressions and patterns
  | .thisExpression | .super => []
  | .restElement argument annot | .spreadElement argument annot =>
    [child "argument" argument, child? "typeAnnotation" annot]
  | .yieldExpression argument delegate => [child? "argument" argument, flag "delegate" delegate]
  | .awaitExpression argument => [child "argument" argument]
  | .templateLiteral quasis expressions =>
    [Entry.children "quasis" quasis, Entry.children "expressions" expressions]
  | .templateElement value tail => [record "value" value.entries, flag "tail" tail]
  | .taggedTemplateExpression tag quasi => [child "tag" tag, child "quasi" quasi]
  | .arrayExpression elements annot | .arrayPattern elements annot =>
    [holes "elements" elements, child? "typeAnnotation" annot]
  | .objectExpression properties annot | .objectPattern properties annot =>
    [Entry.children "properties" properties, child? "typeAnnotation" annot]
  | .property p =>
    [child "key" p.key, child "value" p.value, textOr "kind" "init" p.kind,
      flag "method" p.method, flag "shorthand" p.shorthand, flag "computed" p.computed]
  | .sequenceExpression expressions => [Entry.children "expressions" expressions]
  | .unaryExpression operator isPrefix argument =>
    [text "operator" operator, flagOr "prefix" true isPrefix, child "argument" argument]
  | .updateExpression operator isPrefix argument =>
    [text "operator" operator, flag "prefix" isPrefix, child "argument" argument]
  | .assignmentExpression operator left right | .binaryExpression operator left right
  | .logicalExpression operator left right =>
    [text "operator" operator, child "left" left, child "right" right]
  | .assignmentPattern left right => [child "left" left, child "right" right]
  | .conditionalExpression test consequent alternate =>
    [child "test" test, child "consequent" consequent, child "alternate" alternate]
  | .newExpression callee arguments optional typeArguments
  | .callExpression callee arguments optional typeArguments =>
    [child "callee" callee, children? "arguments" arguments, flag "optional" optional,
      (child? "typeArguments" typeArguments).orUnder "typeParameters"]
  | .chainExpression expression => [child "expression" expression]
  | .memberExpression object name computed optional =>
    [child "object" object, child "property" name, flag "computed" computed,
      flag "optional" optional]
  | .metaProperty object name => [child "meta" object, child "property" name]
  | .identifier name optional annot decorators =>
    [text "name" name, flag "optional" optional, child? "typeAnnotation" annot,
      children? "decorators" decorators]
  | .privateIdentifier name => [text "name" name]
  | .literal l | .regExpLiteral l => l.entries
  -- typed expressions
  | .tsAsExpression expression annot | .tsSatisfiesExpression expression annot
  | .tsTypeAssertion expression annot =>
    [child "expression" expression, child "typeAnnotation" annot]
  | .tsNonNullExpression expression => [child "expression" expression]
  -- declarations of types, enums and namespaces
  | .tsInterfaceDeclaration i =>
    [child "id" i.id, child "body" i.body, children? "extends" i.bases,
      child? "typeParameters" i.typeParameters, flag "declare" i.declare]
  | .tsInterfaceBody body => [Entry.children "body" body]
  | .heritage _ expression typeArguments =>
    [child "expression" expression,
      (child? "typeArguments" typeArguments).orUnder "typeParameters"]
  | .tsTypeAliasDeclaration id annot typeParameters declare =>
    [child "id" id, child "typeAnnotation" annot, child? "typeParameters" typeParameters,
      flag "declare" declare]
  | .tsEnumDeclaration e =>
    [child "id" e.id, children? "members" e.members, record? "body" e.body enumBodyEntries,
      flag "const" e.const, flag "declare" e.declare]
  | .tsEnumMember id initializer computed =>
    [child "id" id, child? "initializer" initializer, flag "computed" computed]
  | .tsModuleDeclaration m =>
    [child "id" m.id, child? "body" m.body, flag "declare" m.declare, flag "global" m.global,
      text? "kind" m.kind]
  -- types
  | .tsTypeAnnot type | .tsOptionalType type | .tsRestType type | .tsParenthesizedType type =>
    [child "typeAnnotation" type]
  | .keywordType _ => []
  | .tsLiteralType l => [child "literal" l]
  | .tsTemplateLiteralType quasis types =>
    [Entry.children "quasis" quasis, Entry.children "types" types]
  | .tsTypeReference typeName typeArguments =>
    [child "typeName" typeName, (child? "typeArguments" typeArguments).orUnder "typeParameters"]
  | .tsQualifiedName left right => [child "left" left, child "right" right]
  | .tsTypeQuery exprName typeArguments =>
    [child "exprName" exprName, (child? "typeArguments" typeArguments).orUnder "typeParameters"]
  | .tsUnionType types | .tsIntersectionType types => [Entry.children "types" types]
  | .tsTupleType elementTypes => [Entry.children "elementTypes" elementTypes]
  | .tsNamedTupleMember label elementType optional =>
    [child "label" label, child "elementType" elementType, flag "optional" optional]
  | .tsArrayType elementType => [child "elementType" elementType]
  | .tsIndexedAccessType objectType indexType =>
    [child "objectType" objectType, child "indexType" indexType]
  | .tsTypeOperator operator type => [text "operator" operator, child "typeAnnotation" type]
  | .tsConditionalType checkType extendsType trueType falseType =>
    [child "checkType" checkType, child "extendsType" extendsType, child "trueType" trueType,
      child "falseType" falseType]
  | .tsInferType typeParameter => [child "typeParameter" typeParameter]
  | .tsTypePredicate parameterName annot asserts =>
    [child "parameterName" parameterName, child? "typeAnnotation" annot, flag "asserts" asserts]
  | .signature _ params returnType typeParameters abstract =>
    [(children? "params" params).orUnder "parameters",
      (child? "returnType" returnType).orUnder "typeAnnotation",
      child? "typeParameters" typeParameters, flag "abstract" abstract]
  | .tsMappedType m =>
    [child? "typeParameter" m.typeParameter, child? "key" m.key, child? "constraint" m.constraint,
      child? "nameType" m.nameType, child? "typeAnnotation" m.annot,
      modifier? "optional" m.optional, modifier? "readonly" m.readonly]
  | .tsTypeLiteral members => [Entry.children "members" members]
  | .tsPropertySignature p =>
    [child "key" p.key, flag "computed" p.computed, flag "optional" p.optional,
      flag "readonly" p.readonly, flag "static" p.static, child? "typeAnnotation" p.annot]
  | .tsMethodSignature m =>
    [child "key" m.key, flag "computed" m.computed, flag "optional" m.optional,
      textOr "kind" "method" m.kind, (children? "params" m.params).orUnder "parameters",
      (child? "returnType" m.returnType).orUnder "typeAnnotation",
      child? "typeParameters" m.typeParameters]
  | .tsIndexSignature parameters annot readonly static =>
    [Entry.children "parameters" parameters, child? "typeAnnotation" annot,
      flag "readonly" readonly, flag "static" static]
  | .tsTypeParameterDeclaration params | .tsTypeParameterInstantiation params =>
    [Entry.children "params" params]
  | .tsTypeParameter p =>
    [parameterName "name" p.name, child? "constraint" p.constraint, child? "default" p.fallback,
      flag "in" p.varianceIn, flag "out" p.varianceOut, flag "const" p.const]

/-- The value has the format of the node, given what has the tag of a kind and what presents the
nodes inside. -/
def Format (tagged : Kind → Json → Prop) (presents : Node → Json → Prop) (n : Node) (v : Json) :
    Prop :=
  tagged n.kind v ∧ v.Meets presents n.entries

/-- The value presents the node inside another one: it has the format of the node, and presentations
stand for the nodes inside. -/
inductive PresentsInside : Node → Json → Prop where
  | intro {n : Node} {v : Json} (known : Node → Json → Prop)
      (inside : ∀ c x, known c x → PresentsInside c x) (h : n.Format Json.HasInnerTag known v) :
      PresentsInside n v

/-- The value presents the node as the root of a tree. -/
def Presents (n : Node) (v : Json) : Prop := n.Format Json.HasTag PresentsInside v

end Node

end Estree
