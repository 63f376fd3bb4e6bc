import Estree.Node.Query
import Estree.Proofs.Descent

/-!
# Shapes of nodes

In the typed dialect a tree can be written or not for reasons of shape alone. Two functions say
which, without a word about how anything is written:

* `Node.visits k n`: the nodes inside `n` that are written when `n` is written as a node of kind
  `k`, each with the kind that it is written as;
* `Node.wellShaped k n`: what `n` itself has to look like for that.

A node is nearly always written as what it is. The exceptions: a source and the value of an
attribute are written as literals, the body of a class as a class body, the entries of a variable
declaration as declarators, and an object that is the body of an arrow function as an object
expression. Nodes whose name alone is taken, such as the name of a class, are not written at all.
-/

namespace Estree

/-- A node together with the kind that it is written as. -/
abbrev Visit := Kind × Node

/-- Nodes that are written as what they are. -/
def visitAll (ns : List Node) : List Visit := ns.map fun n => (n.kind, n)

/-- Nodes that are all written as one kind. -/
def visitAllAs (k : Kind) (ns : List Node) : List Visit := ns.map fun n => (k, n)

/-- All the nodes of a list meet a condition on them and the kinds that they are written as. -/
def EachVisit (P : Kind → Node → Prop) (vs : List Visit) : Prop := ∀ v ∈ vs, P v.1 v.2

section EachVisit

variable (P : Kind → Node → Prop)

@[simp] theorem eachVisit_nil : EachVisit P [] := by simp [EachVisit]

@[simp] theorem eachVisit_cons (v : Visit) (vs : List Visit) :
    EachVisit P (v :: vs) ↔ P v.1 v.2 ∧ EachVisit P vs := by simp [EachVisit]

@[simp] theorem eachVisit_append (vs ws : List Visit) :
    EachVisit P (vs ++ ws) ↔ EachVisit P vs ∧ EachVisit P ws := by
  simp [EachVisit, or_imp, forall_and]

@[simp] theorem eachVisit_flatMap {α : Type} (f : α → List Visit) (xs : List α) :
    EachVisit P (xs.flatMap f) ↔ ∀ x ∈ xs, EachVisit P (f x) := by
  simp only [EachVisit, List.mem_flatMap, forall_exists_index, and_imp]
  exact ⟨fun h x hx v hv => h v x hx hv, fun h v x hx hv => h x hx v hv⟩

@[simp] theorem eachVisit_visitAll (ns : List Node) :
    EachVisit P (visitAll ns) ↔ ∀ n ∈ ns, P n.kind n := by
  simp [EachVisit, visitAll]

@[simp] theorem eachVisit_visitAllAs (k : Kind) (ns : List Node) :
    EachVisit P (visitAllAs k ns) ↔ ∀ n ∈ ns, P k n := by
  simp [EachVisit, visitAllAs]

@[simp] theorem visitAll_nil : visitAll [] = [] := rfl

@[simp] theorem visitAll_cons (n : Node) (ns : List Node) :
    visitAll (n :: ns) = (n.kind, n) :: visitAll ns := rfl

@[simp] theorem visitAll_append (ns ms : List Node) :
    visitAll (ns ++ ms) = visitAll ns ++ visitAll ms := List.map_append

@[simp] theorem visitAll_flatMap {α : Type} (f : α → List Node) (xs : List α) :
    visitAll (xs.flatMap f) = xs.flatMap fun x => visitAll (f x) := by
  simp [visitAll, List.map_flatMap]

end EachVisit

/-! ## §1. What is written. -/

/-- A function: its type parameters, parameters and result type. -/
@[simp] def FunctionLike.visits (f : FunctionLike) : List Visit :=
  visitAll (f.typeParameters.toList ++ f.params ++ f.returnType.toList)

/-- A class. Type arguments of a superclass that is not there are not written. -/
@[simp] def ClassLike.visits (c : ClassLike) : List Visit :=
  visitAll (c.decorators ++ c.typeParameters.toList) ++
    (if c.superClass.isSome then visitAll (c.superClass.toList ++ c.superTypeArguments.toList)
      else [])
    ++ visitAll c.implements ++ [(.classBody, c.body)]

/-- A mapped type. The constraint of the type comes before that of its type parameter. -/
def MappedType.visits (m : MappedType) : List Visit :=
  (match m.typeParameter with
    | some (.tsTypeParameter p) =>
      visitAll (p.name.children ++ (m.constraint.or p.constraint).toList)
    | some _ => []
    | none => visitAll (m.key.toList ++ m.constraint.toList))
    ++ visitAll (m.nameType.toList ++ m.annot.toList)

namespace Node

/-- The function that a node holds as a method: its signature and its body. -/
def methodVisits (value : Node) : List Visit :=
  match value.function? with
  | some f => f.visits ++ visitAll f.body.toList
  | none => []

/-- A clause in the head of a loop: of a declaration, the declarators only. -/
def loopVisits : Node → List Visit
  | .variableDeclaration _ declarations _ => visitAllAs .variableDeclarator declarations
  | n => visitAll [n]

/-- The body of an arrow function. -/
def arrowVisits : Node → List Visit
  | .objectPattern properties annot => [(.objectExpression, .objectPattern properties annot)]
  | n => visitAll [n]

/-- The name of a declarator: of a definite identifier, the annotation and the decorators only. -/
def declaredVisits (definite : Bool) : Node → List Visit
  | .identifier name optional annot decorators =>
    if definite then visitAll (decorators ++ annot.toList)
    else visitAll [.identifier name optional annot decorators]
  | n => visitAll [n]

/-- A part of the name of a module: a quoted name is not written as a node. -/
def moduleNameVisits : Node → List Visit
  | .literal l =>
    match l.value with
    | .string _ => []
    | _ => visitAll [.literal l]
  | n => visitAll [n]

/-- What follows the first part of the name of a module. -/
def moduleRestVisits : Option Node → List Visit
  | some (.tsModuleDeclaration ⟨id, body, _, _, _⟩) => moduleNameVisits id ++ moduleRestVisits body
  | some body => visitAll [body]
  | none => []

/-- Whether an entry of an object is written as a method. -/
def isMethodEntry (p : Property) : Bool := p.method || p.kind != "init"

/-- The nodes that are written when a node is written as a node of kind `k`. -/
def visits (k : Kind) : Node → List Visit
  | .forStatement init test update body =>
    init.toList.flatMap loopVisits ++ visitAll (test.toList ++ update.toList ++ [body])
  | .forInStatement left right body _ | .forOfStatement left right body _ =>
    loopVisits left ++ visitAll [right, body]
  | .function .declaration f | .function .expression f => f.visits ++ visitAll f.body.toList
  | .function .declared f | .function .emptyBody f => f.visits
  | .arrowFunctionExpression f =>
    visitAll (f.typeParameters.toList ++ f.params ++ f.returnType.toList) ++ arrowVisits f.body
  | .variableDeclaration _ declarations _ => visitAllAs .variableDeclarator declarations
  | .variableDeclarator id init definite => declaredVisits definite id ++ visitAll init.toList
  | .classDeclaration c | .classExpression c => c.visits
  | .methodDefinition m | .tsAbstractMethodDefinition m =>
    visitAll (m.decorators ++ [m.key] ++ m.typeParameters.toList) ++ methodVisits m.value
  | .property p =>
    if isMethodEntry p then visitAll [p.key] ++ methodVisits p.value
    else if p.shorthand then visitAll [p.value]
    else visitAll [p.key, p.value]
  | .importDeclaration _ source _ attributes =>
    (.literal, source) :: visitAllAs .importAttribute attributes
  | .importAttribute key value => visitAll [key] ++ [(.literal, value)]
  | .importExpression source arguments options =>
    visitAll (source :: arguments.head?.toList ++ options.toList)
  | .exportNamedDeclaration d =>
    match d.declaration with
    | some declaration => visitAll [declaration]
    | none =>
      visitAllAs .literal d.source.toList ++ visitAllAs .importAttribute d.attributes
  | .exportAllDeclaration _ source _ attributes =>
    (.literal, source) :: visitAllAs .importAttribute attributes
  | .spreadElement argument _ => visitAll [argument]
  | .templateLiteral _ holes | .tsTemplateLiteralType _ holes => visitAll holes
  | .arrayExpression elements _ => visitAll (elements.flatMap Option.toList)
  | .objectExpression properties _ => visitAll properties
  | .objectPattern properties annot =>
    visitAll (properties ++ if k = .objectExpression then [] else annot.toList)
  | .metaProperty _ _ => []
  | .tsInterfaceDeclaration i => visitAll (i.typeParameters.toList ++ i.bases ++ [i.body])
  | .tsTypeAliasDeclaration _ annot typeParameters _ =>
    visitAll (typeParameters.toList ++ [annot])
  | .tsEnumDeclaration e => visitAll e.allMembers
  | .tsModuleDeclaration m =>
    if m.isGlobal then visitAll m.body.toList else moduleNameVisits m.id ++ moduleRestVisits m.body
  | .tsMappedType m => m.visits
  | n => visitAll n.children

/-! ## §2. What a node has to look like. -/

/-- The kinds that are written as part of an import or export only. -/
def specifierKinds : List Kind :=
  [.importSpecifier, .importDefaultSpecifier, .importNamespaceSpecifier, .exportSpecifier]

/-- The kinds of nodes, besides itself, that can be written as a kind. -/
def standIns : Kind → List Kind
  | .classBody => [.blockStatement]
  | .objectExpression => [.objectPattern]
  | .literal => [.regExpLiteral]
  | _ => []

/-- No kind stands in for itself. -/
theorem contains_standIns_self (k : Kind) : (standIns k).contains k = false := by cases k <;> rfl

/-- The kinds that hold a function. -/
def functionKinds : List Kind :=
  [.functionDeclaration, .functionExpression, .tsDeclareFunction, .tsEmptyBodyFunctionExpression]

/-- A node is of one of some kinds. -/
def isA (kinds : List Kind) (n : Node) : Bool := kinds.contains n.kind

/-- A node can be written as a kind. -/
def canBe (k : Kind) (n : Node) : Bool :=
  k == n.kind && !n.isA specifierKinds || n.isA (standIns k)

/-- A specifier of an import in braces. -/
def isNamedImport : Node → Bool
  | .importSpecifier imported localName _ =>
    imported.isA [.identifier, .literal] && localName.isA [.identifier]
  | _ => false

/-- A specifier of an export. -/
def isNamedExport : Node → Bool
  | .exportSpecifier localName exported _ =>
    localName.isA [.identifier, .literal] && exported.isA [.identifier, .literal]
  | _ => false

/-- The specifiers of an import: default and namespace specifiers first, and then named ones only.
-/
def areImports : List Node → Bool
  | .importDefaultSpecifier localName :: rest | .importNamespaceSpecifier localName :: rest =>
    localName.isA [.identifier] && areImports rest
  | rest => rest.all isNamedImport

/-- A template has a quasi before, between and after its holes. -/
def isTemplate (quasis holes : List Node) : Bool :=
  quasis.length == holes.length + 1 && quasis.all (isA [.templateElement])

/-- What the contents of a node have to look like for it to be written as a node of kind `k`. -/
def hasShape (k : Kind) : Node → Bool
  | .function .declaration f | .function .expression f =>
    f.id.all (isA [.identifier]) && f.body.isSome
  | .function .declared f | .function .emptyBody f => f.id.all (isA [.identifier])
  | .classDeclaration c | .classExpression c => c.id.all (isA [.identifier])
  | .tsInterfaceDeclaration i => i.id.isA [.identifier]
  | .tsTypeAliasDeclaration id _ _ _ => id.isA [.identifier]
  | .tsEnumDeclaration e => e.id.isA [.identifier]
  | .methodDefinition m | .tsAbstractMethodDefinition m => m.value.isA functionKinds
  | .property p => !isMethodEntry p || p.value.isA functionKinds
  | .templateLiteral quasis holes | .tsTemplateLiteralType quasis holes => isTemplate quasis holes
  | .metaProperty object name => object.isA [.identifier] && name.isA [.identifier]
  | .importDeclaration specifiers _ _ _ => areImports specifiers
  | .exportNamedDeclaration d => d.declaration.isSome || d.specifiers.all isNamedExport
  | .exportAllDeclaration exported _ _ _ => exported.all (isA [.identifier, .literal])
  | .regExpLiteral l => k == .literal || l.regex.isSome
  | .tsMappedType m =>
    m.typeParameter.all (isA [.tsTypeParameter]) && (m.typeParameter.isSome || m.key.isSome)
  | _ => true

/-- A node can be written as a node of kind `k`, as far as it can be told without looking at the
nodes that are written in turn. -/
def wellShaped (k : Kind) (n : Node) : Bool := n.canBe k && n.hasShape k

/-! ## §3. All that is written. -/

/-- `Visited k n k' c`: writing `n` as a node of kind `k` comes to writing `c` as one of kind `k'`.
-/
inductive Visited : Kind → Node → Kind → Node → Prop where
  | root {k : Kind} {n : Node} : Visited k n k n
  | inside {k k' k'' : Kind} {n m c : Node} :
      (k', m) ∈ n.visits k → Visited k' m k'' c → Visited k n k'' c

end Node

end Estree
