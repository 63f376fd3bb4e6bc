import Estree.Node.Height

/-!
# Children and descendants

`Node.children` lists the nodes that stand directly inside a node, wherever in its fields they
stand. A descendant is reached through one or more such steps, and every step goes down in height:

    c ∈ n.children → c.height < n.height

so every recursion that dispatches descendants only is well-founded.

Main results:

  * `Node.height_eq`: a node stands one above the highest of its children;
  * `Node.below_induction`: what holds of a node if it holds of the nodes inside it holds of every
    node;
  * `Node.throughout_iff`: what holds throughout a node holds of it and throughout its children;
  * `eq_map_of_elementwise`: how the second of two mutually recursive functions, the one on lists,
    is a map of the first.
-/

namespace Estree

/-! ## §1. Children. -/

/-- The nodes in a case of a `switch`. -/
@[simp] def SwitchCase.children (c : SwitchCase) : List Node := c.test.toList ++ c.consequent

/-- The nodes in a handler. -/
@[simp] def CatchClause.children (c : CatchClause) : List Node := c.param.toList ++ [c.body]

/-- The nodes in a class. -/
@[simp] def ClassLike.children (c : ClassLike) : List Node :=
  c.id.toList ++ c.superClass.toList ++ [c.body] ++ c.decorators ++ c.typeParameters.toList
    ++ c.superTypeArguments.toList ++ c.implements

/-- The nodes in a class method. -/
@[simp] def Method.children (m : Method) : List Node :=
  m.key :: m.value :: m.decorators ++ m.typeParameters.toList

/-- The node that names a type parameter, if it is a node. -/
@[simp] def TypeParameterName.children : TypeParameterName → List Node
  | .node n => [n]
  | .plain _ => []

namespace Node

/-- The nodes directly inside a node. -/
@[simp] def children : Node → List Node
  | .program body | .block _ body => body
  | .emptyStatement | .debuggerStatement => []
  | .expressionStatement expression _ => [expression]
  | .ifStatement test consequent alternate => test :: consequent :: alternate.toList
  | .labeledStatement label body => [label, body]
  | .breakStatement label | .continueStatement label => label.toList
  | .withStatement object body => [object, body]
  | .switchStatement discriminant cases => discriminant :: cases.flatMap SwitchCase.children
  | .returnStatement argument => argument.toList
  | .throwStatement argument => [argument]
  | .tryStatement tried handler finalizer =>
    tried :: handler.toList.flatMap CatchClause.children ++ finalizer.toList
  | .whileStatement test body | .doWhileStatement test body => [test, body]
  | .forStatement init test update body =>
    init.toList ++ test.toList ++ update.toList ++ [body]
  | .forInStatement left right body _ | .forOfStatement left right body _ => [left, right, body]
  | .function _ f =>
    f.id.toList ++ f.params ++ f.body.toList ++ f.typeParameters.toList ++ f.returnType.toList
  | .arrowFunctionExpression f =>
    f.params ++ [f.body] ++ f.typeParameters.toList ++ f.returnType.toList
  | .variableDeclaration _ declarations _ => declarations
  | .variableDeclarator id init _ => id :: init.toList
  | .classDeclaration c | .classExpression c => c.children
  | .methodDefinition m | .tsAbstractMethodDefinition m => m.children
  | .classField _ f => f.key :: f.value.toList ++ f.decorators ++ f.annot.toList
  | .decorator expression => [expression]
  | .tsParameterProperty p => p.parameter :: p.decorators
  | .importDeclaration specifiers source _ attributes => specifiers ++ [source] ++ attributes
  | .importSpecifier imported localName _ => [imported, localName]
  | .importDefaultSpecifier localName | .importNamespaceSpecifier localName => [localName]
  | .importAttribute key value => [key, value]
  | .importExpression source arguments options => source :: arguments ++ options.toList
  | .exportNamedDeclaration d =>
    d.declaration.toList ++ d.specifiers ++ d.source.toList ++ d.attributes
  | .exportSpecifier localName exported _ => [localName, exported]
  | .exportDefaultDeclaration declaration => [declaration]
  | .exportAllDeclaration exported source _ attributes =>
    exported.toList ++ [source] ++ attributes
  | .thisExpression | .super => []
  | .restElement argument annot | .spreadElement argument annot => argument :: annot.toList
  | .yieldExpression argument _ => argument.toList
  | .awaitExpression argument => [argument]
  | .templateLiteral quasis expressions => quasis ++ expressions
  | .templateElement _ _ => []
  | .taggedTemplateExpression tag quasi => [tag, quasi]
  | .arrayExpression elements annot | .arrayPattern elements annot =>
    elements.flatMap Option.toList ++ annot.toList
  | .objectExpression properties annot | .objectPattern properties annot =>
    properties ++ annot.toList
  | .property p => [p.key, p.value]
  | .sequenceExpression expressions => expressions
  | .unaryExpression _ _ argument | .updateExpression _ _ argument => [argument]
  | .assignmentExpression _ left right | .binaryExpression _ left right
  | .logicalExpression _ left right | .assignmentPattern left right => [left, right]
  | .conditionalExpression test consequent alternate => [test, consequent, alternate]
  | .newExpression callee arguments _ typeArguments
  | .callExpression callee arguments _ typeArguments =>
    callee :: arguments ++ typeArguments.toList
  | .chainExpression expression => [expression]
  | .memberExpression object member _ _ => [object, member]
  | .metaProperty object member => [object, member]
  | .identifier _ _ annot decorators => annot.toList ++ decorators
  | .privateIdentifier _ | .literal _ | .regExpLiteral _ => []
  | .tsAsExpression expression annot | .tsSatisfiesExpression expression annot
  | .tsTypeAssertion expression annot => [expression, annot]
  | .tsNonNullExpression expression => [expression]
  | .tsInterfaceDeclaration i => i.id :: i.body :: i.bases ++ i.typeParameters.toList
  | .tsInterfaceBody body => body
  | .heritage _ expression typeArguments => expression :: typeArguments.toList
  | .tsTypeAliasDeclaration id annot typeParameters _ => id :: annot :: typeParameters.toList
  | .tsEnumDeclaration e => e.id :: e.members ++ e.body.getD []
  | .tsEnumMember id initializer _ => id :: initializer.toList
  | .tsModuleDeclaration m => m.id :: m.body.toList
  | .tsTypeAnnot type => [type]
  | .keywordType _ => []
  | .tsLiteralType lit => [lit]
  | .tsTemplateLiteralType quasis types => quasis ++ types
  | .tsTypeReference typeName typeArguments => typeName :: typeArguments.toList
  | .tsQualifiedName left right => [left, right]
  | .tsTypeQuery exprName typeArguments => exprName :: typeArguments.toList
  | .tsUnionType types | .tsIntersectionType types | .tsTupleType types => types
  | .tsOptionalType type | .tsRestType type | .tsParenthesizedType type => [type]
  | .tsNamedTupleMember label elementType _ => [label, elementType]
  | .tsArrayType elementType => [elementType]
  | .tsIndexedAccessType objectType indexType => [objectType, indexType]
  | .tsTypeOperator _ type => [type]
  | .tsConditionalType checkType extendsType trueType falseType =>
    [checkType, extendsType, trueType, falseType]
  | .tsInferType typeParameter => [typeParameter]
  | .tsTypePredicate parameterName annot _ => parameterName :: annot.toList
  | .signature _ params returnType typeParameters _ =>
    params ++ returnType.toList ++ typeParameters.toList
  | .tsMappedType m =>
    m.typeParameter.toList ++ m.key.toList ++ m.constraint.toList ++ m.nameType.toList
      ++ m.annot.toList
  | .tsTypeLiteral members => members
  | .tsPropertySignature p => p.key :: p.annot.toList
  | .tsMethodSignature m =>
    m.key :: m.params ++ m.returnType.toList ++ m.typeParameters.toList
  | .tsIndexSignature parameters annot _ _ => parameters ++ annot.toList
  | .tsTypeParameterDeclaration params | .tsTypeParameterInstantiation params => params
  | .tsTypeParameter p => p.name.children ++ p.constraint.toList ++ p.fallback.toList

/-! ## §2. Heights. -/

@[simp] theorem heightList_nil : heightList [] = 0 := rfl

@[simp] theorem heightList_cons (n : Node) (ns : List Node) :
    heightList (n :: ns) = max n.height (heightList ns) := rfl

/-- The height of two lists side by side. -/
theorem heightList_append (as bs : List Node) :
    heightList (as ++ bs) = max (heightList as) (heightList bs) := by
  induction as with
  | nil => simp
  | cons a rest ih => rw [List.cons_append, heightList_cons, heightList_cons, ih, Nat.max_assoc]

/-- The height of the child that a field may hold. -/
theorem heightList_toList (o : Option Node) : heightList o.toList = heightOption o := by
  cases o with
  | none => rfl
  | some n => exact Nat.max_zero n.height

/-- The height of elements with holes. -/
theorem heightList_holes (es : List (Option Node)) :
    heightList (es.flatMap Option.toList) = heightHoles es := by
  induction es with
  | nil => rfl
  | cons e rest ih =>
    rw [List.flatMap_cons, heightList_append, heightList_toList, ih]
    rfl

/-- The height of the cases of a `switch`. -/
theorem heightList_cases (cases : List SwitchCase) :
    heightList (cases.flatMap SwitchCase.children) = heightCases cases := by
  induction cases with
  | nil => rfl
  | cons case rest ih =>
    obtain ⟨test, consequent⟩ := case
    rw [List.flatMap_cons, heightList_append, ih, SwitchCase.children, heightList_append,
      heightList_toList]
    rfl

/-- The height of a handler, if there is one. -/
theorem heightList_handler (handler : Option CatchClause) :
    heightList (handler.toList.flatMap CatchClause.children) = heightHandler handler := by
  cases handler with
  | none => rfl
  | some clause =>
    obtain ⟨param, body⟩ := clause
    rw [Option.toList_some, List.flatMap_singleton, CatchClause.children, heightList_append,
      heightList_toList, heightList_cons, heightList_nil, Nat.max_zero]
    rfl

/-- The height of a body, if there is one. -/
theorem heightList_body (body : Option (List Node)) :
    heightList (body.getD []) = heightBody body := by
  cases body <;> rfl

/-- The height of the name of a type parameter. -/
theorem heightList_name (name : TypeParameterName) :
    heightList name.children = heightName name := by
  cases name with
  | node n => exact Nat.max_zero n.height
  | plain => rfl

/-- A node stands one above the highest of its children. -/
theorem height_eq (n : Node) : n.height = heightList n.children + 1 := by
  cases n
  -- expose the equation of the constructor; contents in a record have to be taken apart first
  all_goals first
    | change above _ = _
    | change _ + 1 = _
    | (rename_i contents; cases contents; change above _ = _)
  all_goals
    simp only [children, ClassLike.children, Method.children, above, List.foldr, heightList_nil,
      heightList_cons, heightList_append, heightList_toList, heightList_holes, heightList_cases,
      heightList_handler, heightList_body, heightList_name, Nat.max_assoc, Nat.max_zero]

/-- No node of a list is higher than the list. -/
theorem height_le_heightList {c : Node} {ns : List Node} (h : c ∈ ns) :
    c.height ≤ heightList ns := by
  induction ns with
  | nil => simp at h
  | cons n rest ih =>
    rw [heightList_cons]
    rcases List.mem_cons.mp h with rfl | h
    · exact Nat.le_max_left _ _
    · exact Nat.le_trans (ih h) (Nat.le_max_right _ _)

/-- A child is less high than its parent. -/
theorem height_lt_of_mem_children {c n : Node} (h : c ∈ n.children) : c.height < n.height := by
  rw [height_eq n]
  exact Nat.lt_succ_of_le (height_le_heightList h)

/-- Every node has a height above zero. -/
theorem height_pos (n : Node) : 0 < n.height := by
  rw [height_eq]
  exact Nat.succ_pos _

/-! ## §3. Descendants. -/

/-- `c.Below n`: the node `c` stands somewhere inside `n`. -/
inductive Below : Node → Node → Prop where
  /-- A child. -/
  | child {c n : Node} : c ∈ n.children → Below c n
  /-- A descendant of a child. -/
  | deeper {c m n : Node} : Below c m → m ∈ n.children → Below c n

/-- What stands inside a node that stands inside another stands inside that one. -/
theorem Below.trans {a b c : Node} (hab : a.Below b) (hbc : b.Below c) : a.Below c := by
  induction hbc with
  | child h => exact .deeper hab h
  | deeper _ h ih => exact .deeper ih h

/-- What stands inside a node is less high. -/
theorem Below.height_lt {c n : Node} (h : c.Below n) : c.height < n.height := by
  induction h with
  | child h => exact height_lt_of_mem_children h
  | deeper _ h ih => exact Nat.lt_trans ih (height_lt_of_mem_children h)

/-- What holds of all the nodes inside is what holds of the children and inside them. -/
theorem forall_below_iff {P : Node → Prop} {n : Node} :
    (∀ c : Node, c.Below n → P c) ↔ ∀ m ∈ n.children, P m ∧ ∀ c : Node, c.Below m → P c := by
  constructor
  · intro h m hm
    exact ⟨h m (.child hm), fun c hc => h c (.deeper hc hm)⟩
  · intro h c hc
    cases hc with
    | child hm => exact (h c hm).1
    | deeper hc hm => exact (h _ hm).2 c hc

/-- The property holds of a node and of all the nodes inside it. -/
def Throughout (P : Node → Prop) (n : Node) : Prop := ∀ c : Node, c = n ∨ c.Below n → P c

/-- A property holds throughout a node if it holds of it and throughout its children. -/
theorem throughout_iff {P : Node → Prop} {n : Node} :
    n.Throughout P ↔ P n ∧ ∀ c ∈ n.children, c.Throughout P := by
  constructor
  · intro h
    refine ⟨h n (.inl rfl), fun c hc => ?_⟩
    rintro m (rfl | hm)
    · exact h m (.inr (.child hc))
    · exact h m (.inr (.deeper hm hc))
  · rintro ⟨hn, hall⟩ m (rfl | hm)
    · exact hn
    · cases hm with
      | child hc => exact hall m hc m (.inl rfl)
      | deeper hm hc => exact hall _ hc m (.inr hm)

namespace Throughout

variable {P : Node → Prop} {n c : Node}

/-- What holds throughout a node holds of it. -/
theorem self (h : n.Throughout P) : P n := (throughout_iff.mp h).1

/-- What holds throughout a node holds throughout its children. -/
theorem child (h : n.Throughout P) (hc : c ∈ n.children) : c.Throughout P :=
  (throughout_iff.mp h).2 c hc

/-- What holds of a node and throughout its children holds throughout it. -/
theorem of_children (hn : P n) (h : ∀ c ∈ n.children, c.Throughout P) : n.Throughout P :=
  throughout_iff.mpr ⟨hn, h⟩

end Throughout

/-- Induction along the nodes inside a node. -/
@[elab_as_elim]
theorem below_induction {motive : Node → Prop}
    (step : ∀ n : Node, (∀ c : Node, c.Below n → motive c) → motive n) (n : Node) : motive n := by
  generalize hh : n.height = h
  induction h using Nat.strongRecOn generalizing n with
  | ind h ih =>
    subst hh
    exact step n fun c hc => ih _ hc.height_lt c rfl

end Node

/-! ## §4. Functions on lists of nodes. -/

/-- A function on lists that takes them element by element is a map. -/
theorem eq_map_of_elementwise {α β : Type} {f : α → β} {fs : List α → List β} (hnil : fs [] = [])
    (hcons : ∀ a as, fs (a :: as) = f a :: fs as) (as : List α) : fs as = as.map f := by
  induction as with
  | nil => exact hnil
  | cons a as ih => rw [hcons, ih, List.map_cons]

end Estree
