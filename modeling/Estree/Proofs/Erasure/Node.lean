import Estree.Node.Query
import Estree.Proofs.Descent

/-!
# Erasing what only the typed dialect writes

`Node.clear` empties the fields of one node that only the typed dialect reads: annotations, type
parameters and arguments, modifiers, decorators, and the kinds of imports and exports. `Node.erase`
does so everywhere in a tree:

    n.erase = (n.map Node.erase).clear

Erasing keeps the kind of every node and all that emission asks of a node besides.

Main results:

* `Node.erase_eq`: erasing goes through the whole tree.
* `Node.clear_erase`: an erased node has nothing left to clear.
* `Node.children_clear_subset`: clearing adds no children.
-/

namespace Estree

/-! ## §1. Mapping children. -/

@[simp]
def SwitchCase.map (f : Node → Node) (c : SwitchCase) : SwitchCase :=
  ⟨c.test.map f, c.consequent.map f⟩

@[simp]
def CatchClause.map (f : Node → Node) (c : CatchClause) : CatchClause :=
  ⟨c.param.map f, f c.body⟩

@[simp]
def FunctionLike.map (f : Node → Node) (x : FunctionLike) : FunctionLike :=
  { x with
    id := x.id.map f
    params := x.params.map f
    body := x.body.map f
    typeParameters := x.typeParameters.map f
    returnType := x.returnType.map f }

@[simp]
def ArrowFunction.map (f : Node → Node) (x : ArrowFunction) : ArrowFunction :=
  { x with
    params := x.params.map f
    body := f x.body
    typeParameters := x.typeParameters.map f
    returnType := x.returnType.map f }

@[simp]
def ClassLike.map (f : Node → Node) (c : ClassLike) : ClassLike :=
  { c with
    id := c.id.map f
    superClass := c.superClass.map f
    body := f c.body
    decorators := c.decorators.map f
    typeParameters := c.typeParameters.map f
    superTypeArguments := c.superTypeArguments.map f
    implements := c.implements.map f }

@[simp]
def Method.map (f : Node → Node) (m : Method) : Method :=
  { m with
    key := f m.key
    value := f m.value
    decorators := m.decorators.map f
    typeParameters := m.typeParameters.map f }

@[simp]
def ClassField.map (f : Node → Node) (x : ClassField) : ClassField :=
  { x with
    key := f x.key
    value := x.value.map f
    decorators := x.decorators.map f
    annot := x.annot.map f }

@[simp]
def ParameterProperty.map (f : Node → Node) (p : ParameterProperty) : ParameterProperty :=
  { p with parameter := f p.parameter, decorators := p.decorators.map f }

@[simp]
def ExportNamed.map (f : Node → Node) (e : ExportNamed) : ExportNamed :=
  { e with
    declaration := e.declaration.map f
    specifiers := e.specifiers.map f
    source := e.source.map f
    attributes := e.attributes.map f }

@[simp]
def Property.map (f : Node → Node) (p : Property) : Property :=
  { p with key := f p.key, value := f p.value }

@[simp]
def InterfaceDeclaration.map (f : Node → Node) (i : InterfaceDeclaration) : InterfaceDeclaration :=
  { i with
    id := f i.id
    body := f i.body
    bases := i.bases.map f
    typeParameters := i.typeParameters.map f }

@[simp]
def EnumDeclaration.map (f : Node → Node) (e : EnumDeclaration) : EnumDeclaration :=
  { e with id := f e.id, members := e.members.map f, body := e.body.map (List.map f) }

@[simp]
def ModuleDeclaration.map (f : Node → Node) (m : ModuleDeclaration) : ModuleDeclaration :=
  { m with id := f m.id, body := m.body.map f }

@[simp]
def MappedType.map (f : Node → Node) (m : MappedType) : MappedType :=
  { m with
    typeParameter := m.typeParameter.map f
    key := m.key.map f
    constraint := m.constraint.map f
    nameType := m.nameType.map f
    annot := m.annot.map f }

@[simp]
def PropertySignature.map (f : Node → Node) (p : PropertySignature) : PropertySignature :=
  { p with key := f p.key, annot := p.annot.map f }

@[simp]
def MethodSignature.map (f : Node → Node) (m : MethodSignature) : MethodSignature :=
  { m with
    key := f m.key
    params := m.params.map f
    returnType := m.returnType.map f
    typeParameters := m.typeParameters.map f }

@[simp]
def TypeParameterName.map (f : Node → Node) : TypeParameterName → TypeParameterName
  | .node n => .node (f n)
  | .plain s => .plain s

@[simp]
def TypeParameter.map (f : Node → Node) (p : TypeParameter) : TypeParameter :=
  { p with
    name := p.name.map f
    constraint := p.constraint.map f
    fallback := p.fallback.map f }

namespace Node

/-- The node with a function applied to every child. -/
@[simp]
def map (f : Node → Node) : Node → Node
  | .program body => .program (body.map f)
  | .block form body => .block form (body.map f)
  | .emptyStatement => .emptyStatement
  | .debuggerStatement => .debuggerStatement
  | .expressionStatement expression directive => .expressionStatement (f expression) directive
  | .ifStatement test consequent alternate => .ifStatement (f test) (f consequent) (alternate.map f)
  | .labeledStatement label body => .labeledStatement (f label) (f body)
  | .breakStatement label => .breakStatement (label.map f)
  | .continueStatement label => .continueStatement (label.map f)
  | .withStatement object body => .withStatement (f object) (f body)
  | .switchStatement discriminant cases =>
    .switchStatement (f discriminant) (cases.map (SwitchCase.map f))
  | .returnStatement argument => .returnStatement (argument.map f)
  | .throwStatement argument => .throwStatement (f argument)
  | .tryStatement tried handler finalizer =>
    .tryStatement (f tried) (handler.map (CatchClause.map f)) (finalizer.map f)
  | .whileStatement test body => .whileStatement (f test) (f body)
  | .doWhileStatement test body => .doWhileStatement (f test) (f body)
  | .forStatement init test update body =>
    .forStatement (init.map f) (test.map f) (update.map f) (f body)
  | .forInStatement left right body await => .forInStatement (f left) (f right) (f body) await
  | .forOfStatement left right body await => .forOfStatement (f left) (f right) (f body) await
  | .function form x => .function form (x.map f)
  | .arrowFunctionExpression x => .arrowFunctionExpression (x.map f)
  | .variableDeclaration kind declarations declare =>
    .variableDeclaration kind (declarations.map f) declare
  | .variableDeclarator id init definite => .variableDeclarator (f id) (init.map f) definite
  | .classDeclaration c => .classDeclaration (c.map f)
  | .classExpression c => .classExpression (c.map f)
  | .methodDefinition m => .methodDefinition (m.map f)
  | .tsAbstractMethodDefinition m => .tsAbstractMethodDefinition (m.map f)
  | .classField form x => .classField form (x.map f)
  | .decorator expression => .decorator (f expression)
  | .tsParameterProperty p => .tsParameterProperty (p.map f)
  | .importDeclaration specifiers source importKind attributes =>
    .importDeclaration (specifiers.map f) (f source) importKind (attributes.map f)
  | .importSpecifier imported localName importKind =>
    .importSpecifier (f imported) (f localName) importKind
  | .importDefaultSpecifier localName => .importDefaultSpecifier (f localName)
  | .importNamespaceSpecifier localName => .importNamespaceSpecifier (f localName)
  | .importAttribute key value => .importAttribute (f key) (f value)
  | .importExpression source arguments options =>
    .importExpression (f source) (arguments.map f) (options.map f)
  | .exportNamedDeclaration d => .exportNamedDeclaration (d.map f)
  | .exportSpecifier localName exported exportKind =>
    .exportSpecifier (f localName) (f exported) exportKind
  | .exportDefaultDeclaration declaration => .exportDefaultDeclaration (f declaration)
  | .exportAllDeclaration exported source exportKind attributes =>
    .exportAllDeclaration (exported.map f) (f source) exportKind (attributes.map f)
  | .thisExpression => .thisExpression
  | .super => .super
  | .restElement argument annot => .restElement (f argument) (annot.map f)
  | .spreadElement argument annot => .spreadElement (f argument) (annot.map f)
  | .yieldExpression argument delegate => .yieldExpression (argument.map f) delegate
  | .awaitExpression argument => .awaitExpression (f argument)
  | .templateLiteral quasis expressions => .templateLiteral (quasis.map f) (expressions.map f)
  | .templateElement value tail => .templateElement value tail
  | .taggedTemplateExpression tag quasi => .taggedTemplateExpression (f tag) (f quasi)
  | .arrayExpression elements annot => .arrayExpression (elements.map (Option.map f)) (annot.map f)
  | .arrayPattern elements annot => .arrayPattern (elements.map (Option.map f)) (annot.map f)
  | .objectExpression properties annot => .objectExpression (properties.map f) (annot.map f)
  | .objectPattern properties annot => .objectPattern (properties.map f) (annot.map f)
  | .property p => .property (p.map f)
  | .sequenceExpression expressions => .sequenceExpression (expressions.map f)
  | .unaryExpression operator isPrefix argument => .unaryExpression operator isPrefix (f argument)
  | .updateExpression operator isPrefix argument => .updateExpression operator isPrefix (f argument)
  | .assignmentExpression operator left right => .assignmentExpression operator (f left) (f right)
  | .binaryExpression operator left right => .binaryExpression operator (f left) (f right)
  | .logicalExpression operator left right => .logicalExpression operator (f left) (f right)
  | .assignmentPattern left right => .assignmentPattern (f left) (f right)
  | .conditionalExpression test consequent alternate =>
    .conditionalExpression (f test) (f consequent) (f alternate)
  | .newExpression callee arguments optional typeArguments =>
    .newExpression (f callee) (arguments.map f) optional (typeArguments.map f)
  | .callExpression callee arguments optional typeArguments =>
    .callExpression (f callee) (arguments.map f) optional (typeArguments.map f)
  | .chainExpression expression => .chainExpression (f expression)
  | .memberExpression object name computed optional =>
    .memberExpression (f object) (f name) computed optional
  | .metaProperty object name => .metaProperty (f object) (f name)
  | .identifier name optional annot decorators =>
    .identifier name optional (annot.map f) (decorators.map f)
  | .privateIdentifier name => .privateIdentifier name
  | .literal l => .literal l
  | .regExpLiteral l => .regExpLiteral l
  | .tsAsExpression expression annot => .tsAsExpression (f expression) (f annot)
  | .tsSatisfiesExpression expression annot => .tsSatisfiesExpression (f expression) (f annot)
  | .tsTypeAssertion expression annot => .tsTypeAssertion (f expression) (f annot)
  | .tsNonNullExpression expression => .tsNonNullExpression (f expression)
  | .tsInterfaceDeclaration i => .tsInterfaceDeclaration (i.map f)
  | .tsInterfaceBody body => .tsInterfaceBody (body.map f)
  | .heritage form expression typeArguments => .heritage form (f expression) (typeArguments.map f)
  | .tsTypeAliasDeclaration id annot typeParameters declare =>
    .tsTypeAliasDeclaration (f id) (f annot) (typeParameters.map f) declare
  | .tsEnumDeclaration e => .tsEnumDeclaration (e.map f)
  | .tsEnumMember id initializer computed => .tsEnumMember (f id) (initializer.map f) computed
  | .tsModuleDeclaration m => .tsModuleDeclaration (m.map f)
  | .tsTypeAnnot type => .tsTypeAnnot (f type)
  | .keywordType k => .keywordType k
  | .tsLiteralType lit => .tsLiteralType (f lit)
  | .tsTemplateLiteralType quasis types => .tsTemplateLiteralType (quasis.map f) (types.map f)
  | .tsTypeReference typeName typeArguments => .tsTypeReference (f typeName) (typeArguments.map f)
  | .tsQualifiedName left right => .tsQualifiedName (f left) (f right)
  | .tsTypeQuery exprName typeArguments => .tsTypeQuery (f exprName) (typeArguments.map f)
  | .tsUnionType types => .tsUnionType (types.map f)
  | .tsIntersectionType types => .tsIntersectionType (types.map f)
  | .tsTupleType elementTypes => .tsTupleType (elementTypes.map f)
  | .tsOptionalType type => .tsOptionalType (f type)
  | .tsRestType type => .tsRestType (f type)
  | .tsParenthesizedType type => .tsParenthesizedType (f type)
  | .tsNamedTupleMember label elementType optional =>
    .tsNamedTupleMember (f label) (f elementType) optional
  | .tsArrayType elementType => .tsArrayType (f elementType)
  | .tsIndexedAccessType objectType indexType => .tsIndexedAccessType (f objectType) (f indexType)
  | .tsTypeOperator operator type => .tsTypeOperator operator (f type)
  | .tsConditionalType checkType extendsType trueType falseType =>
    .tsConditionalType (f checkType) (f extendsType) (f trueType) (f falseType)
  | .tsInferType typeParameter => .tsInferType (f typeParameter)
  | .tsTypePredicate parameterName annot asserts =>
    .tsTypePredicate (f parameterName) (annot.map f) asserts
  | .signature form params returnType typeParameters abstract =>
    .signature form (params.map f) (returnType.map f) (typeParameters.map f) abstract
  | .tsMappedType m => .tsMappedType (m.map f)
  | .tsTypeLiteral members => .tsTypeLiteral (members.map f)
  | .tsPropertySignature p => .tsPropertySignature (p.map f)
  | .tsMethodSignature m => .tsMethodSignature (m.map f)
  | .tsIndexSignature parameters annot readonly static =>
    .tsIndexSignature (parameters.map f) (annot.map f) readonly static
  | .tsTypeParameterDeclaration params => .tsTypeParameterDeclaration (params.map f)
  | .tsTypeParameterInstantiation params => .tsTypeParameterInstantiation (params.map f)
  | .tsTypeParameter p => .tsTypeParameter (p.map f)

end Node

/-! ## §2. Erasing. -/

/-- The function without what only the typed dialect writes. -/
@[simp]
def FunctionLike.clear (f : FunctionLike) : FunctionLike :=
  { f with typeParameters := none, returnType := none }

/-- The class without what only the typed dialect writes. -/
@[simp]
def ClassLike.clear (c : ClassLike) : ClassLike :=
  { id := c.id, superClass := c.superClass, body := c.body }

/-- The method without what only the typed dialect writes. -/
@[simp]
def Method.clear (m : Method) : Method :=
  { key := m.key, value := m.value, kind := m.kind, computed := m.computed, static := m.static }

/-- The field without what only the typed dialect writes. -/
@[simp]
def ClassField.clear (f : ClassField) : ClassField :=
  { key := f.key, value := f.value, computed := f.computed, static := f.static }

namespace Node

/-- The node without the fields that only the typed dialect writes. -/
@[simp]
def clear : Node → Node
  | .identifier name _ _ _ => .identifier name false none []
  | .restElement argument _ => .restElement argument none
  | .arrayPattern elements _ => .arrayPattern elements none
  | .objectPattern properties _ => .objectPattern properties none
  | .function form f => .function form f.clear
  | .arrowFunctionExpression f =>
    .arrowFunctionExpression { f with typeParameters := none, returnType := none }
  | .variableDeclaration kind declarations _ => .variableDeclaration kind declarations false
  | .variableDeclarator id init _ => .variableDeclarator id init false
  | .classDeclaration c => .classDeclaration c.clear
  | .classExpression c => .classExpression c.clear
  | .methodDefinition m => .methodDefinition m.clear
  | .tsAbstractMethodDefinition m => .tsAbstractMethodDefinition m.clear
  | .classField form f => .classField form f.clear
  | .callExpression callee arguments optional _ => .callExpression callee arguments optional none
  | .newExpression callee arguments optional _ => .newExpression callee arguments optional none
  | .importDeclaration specifiers source _ attributes =>
    .importDeclaration specifiers source none attributes
  | .importSpecifier imported localName _ => .importSpecifier imported localName none
  | .exportNamedDeclaration d => .exportNamedDeclaration { d with exportKind := none }
  | .exportSpecifier localName exported _ => .exportSpecifier localName exported none
  | .exportAllDeclaration exported source _ attributes =>
    .exportAllDeclaration exported source none attributes
  | .importExpression source _ _ => .importExpression source [] none
  | n => n

/-- Erasing down to a depth. -/
def eraseWithin : Nat → Node → Node
  | 0, n => n
  | depth + 1, n => (n.map (eraseWithin depth)).clear

/-- The tree without what only the typed dialect writes. -/
def erase (n : Node) : Node := eraseWithin n.height n

/-- Functions that agree on what is there. -/
theorem option_map_eq_iff {f g : Node → Node} {o : Option Node} :
    o.map f = o.map g ↔ ∀ c, o = some c → f c = g c := by
  cases o <;> simp

/-- A node is mapped by what is done to its children. -/
theorem map_congr {f g : Node → Node} {n : Node} (h : ∀ c ∈ n.children, f c = g c) :
    n.map f = n.map g := by
  cases n with
  | switchStatement discriminant cases =>
    simp [option_map_eq_iff] at h ⊢
    exact ⟨h.1, fun x hx => ⟨fun c hc => h.2 c x hx (.inl hc), fun c hc => h.2 c x hx (.inr hc)⟩⟩
  | tryStatement tried handler finalizer =>
    cases handler <;> simp_all [option_map_eq_iff]
  | arrayExpression elements _ | arrayPattern elements _ =>
    simp [option_map_eq_iff] at h ⊢
    exact ⟨fun o ho c hc => h c (.inl (hc ▸ ho)), fun c hc => h c (.inr hc)⟩
  | tsEnumDeclaration e =>
    obtain ⟨_, _, body, _, _⟩ := e
    cases body <;> simp_all
  | tsTypeParameter p =>
    obtain ⟨name, _, _, _, _, _⟩ := p
    cases name <;> simp_all [option_map_eq_iff]
  | _ => simp_all [option_map_eq_iff]

/-- A bound of the height is enough, and more makes no difference. -/
theorem eraseWithin_stable (n : Node) :
    ∀ {b c : Nat}, n.height ≤ b → n.height ≤ c → eraseWithin b n = eraseWithin c n := by
  induction n using below_induction with
  | step n ih =>
    intro b c hb hc
    have hpos := n.height_pos
    obtain ⟨b, rfl⟩ : ∃ b', b = b' + 1 := ⟨b - 1, by omega⟩
    obtain ⟨c, rfl⟩ : ∃ c', c = c' + 1 := ⟨c - 1, by omega⟩
    refine congrArg clear (map_congr fun m hm => ih m (.child hm) ?_ ?_) <;>
    · have := height_lt_of_mem_children hm
      omega

/-- **Erasing goes through the whole tree.** -/
theorem erase_eq (n : Node) : n.erase = (n.map erase).clear := by
  rw [erase, eraseWithin_stable n (Nat.le_refl _) (Nat.le_succ _)]
  refine congrArg clear (map_congr fun m hm => eraseWithin_stable m ?_ (Nat.le_refl _))
  exact Nat.le_of_lt (height_lt_of_mem_children hm)

/-- There is nothing to clear in an erased tree. -/
theorem clear_erase (n : Node) : n.erase.clear = n.erase := by
  rw [erase_eq]
  cases n <;> rfl

/-- The children of a mapped node. -/
theorem children_map (f : Node → Node) (n : Node) : (n.map f).children = n.children.map f := by
  cases n with
  | switchStatement | arrayExpression | arrayPattern =>
    simp [List.flatMap_map, List.map_flatMap, Option.toList_map]
  | tryStatement _ handler _ => cases handler <;> simp [Option.toList_map]
  | tsEnumDeclaration e =>
    obtain ⟨_, _, body, _, _⟩ := e
    cases body <;> simp
  | tsTypeParameter p =>
    obtain ⟨name, _, _, _, _, _⟩ := p
    cases name <;> simp [Option.toList_map]
  | _ => simp [Option.toList_map]

/-- Clearing a node drops children and adds none. -/
theorem children_clear_subset (n : Node) : n.clear.children ⊆ n.children := by
  intro c
  unfold clear
  split <;> simp +contextual [or_imp]

/-- Every node inside an erased tree is erased. -/
theorem clear_of_below_erase {c n : Node} (h : c.Below n.erase) : c.clear = c := by
  have hchild : ∀ {c n : Node}, c ∈ n.erase.children → ∃ m, Node.erase m = c := by
    intro c n hc
    rw [erase_eq] at hc
    have hm := children_clear_subset _ hc
    rw [children_map] at hm
    obtain ⟨m, -, hm⟩ := List.mem_map.mp hm
    exact ⟨m, hm⟩
  generalize he : n.erase = e at h
  induction h generalizing n with
  | child h =>
    subst he
    obtain ⟨m, rfl⟩ := hchild h
    exact m.clear_erase
  | deeper _ h ih =>
    subst he
    obtain ⟨m, rfl⟩ := hchild h
    exact ih rfl

/-! ## §3. What stays. -/

/-- Erasure keeps the kind of a node. -/
@[simp] theorem kind_erase (n : Node) : n.erase.kind = n.kind := by
  rw [erase_eq]
  cases n <;> rfl

@[simp] theorem operator?_erase (n : Node) : n.erase.operator? = n.operator? := by
  rw [erase_eq]
  cases n <;> rfl

@[simp] theorem identifierName?_erase (n : Node) : n.erase.identifierName? = n.identifierName? := by
  rw [erase_eq]
  cases n <;> rfl

@[simp] theorem exportName?_erase (n : Node) : n.erase.exportName? = n.exportName? := by
  rw [erase_eq]
  cases n <;> rfl

/-- The function of a node is erased with it. -/
@[simp] theorem function?_erase (n : Node) :
    n.erase.function? = n.function?.map fun f => (f.map erase).clear := by
  rw [erase_eq]
  cases n <;> rfl

@[simp] theorem identifierName_erase (n : Node) : n.erase.identifierName = n.identifierName := by
  simp only [identifierName, identifierName?_erase, kind_erase]

@[simp] theorem exportName_erase (n : Node) : n.erase.exportName = n.exportName := by
  simp only [exportName, exportName?_erase, kind_erase]

/-- Erasure neither adds nor takes away a call. -/
@[simp] theorem hasCall_erase (n : Node) : n.erase.hasCall = n.hasCall := by
  induction n using below_induction with
  | step n ih =>
    rw [erase_eq]
    cases n with
    | memberExpression object name _ _ =>
      simp only [map, clear, hasCall]
      exact ih object (.child (by simp))
    | _ => rfl

end Node

end Estree
