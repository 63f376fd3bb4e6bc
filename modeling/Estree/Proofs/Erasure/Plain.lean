import Estree.Emit
import Estree.Registry
import Estree.Proofs.Alike.Basic
import Estree.Proofs.Erasure.Node
import Estree.Proofs.Writing

/-!
# The plain dialect does not read what is erased

A procedure of the plain dialect makes of an erased node what it makes of the node itself, in a
scope that erases every node before it is dispatched (`Scope.erased`).

Main results:

* `Registry.base_doc_erase`: all procedures of the plain dialect, from one lemma for each.
-/

namespace Estree

/-! ## §1. Scopes that erase. -/

/-- The scope that erases what it dispatches. -/
def Scope.erased (s : Scope) : Scope where
  emitAs k n := s.emitAs k n.erase
  rank := s.rank

namespace Scope

variable (s : Scope)

/-- Ranks do not see types. -/
@[simp] theorem rank_erased : s.erased.rank = s.rank := rfl

/-- A node without its types, dispatched as a kind. -/
@[simp] theorem emitAs_erase (k : Kind) (n : Node) : s.emitAs k n.erase = s.erased.emitAs k n := rfl

/-- A node without its types, dispatched as what it is. -/
@[simp] theorem emit_erase (n : Node) : s.emit n.erase = s.erased.emit n := by
  simp [emit]

@[simp] theorem emit?_erase (o : Option Node) : s.emit? (o.map .erase) = s.erased.emit? o := by
  cases o
  · rfl
  · exact s.emit_erase _

/-- Nodes with a separator between them. -/
@[simp] theorem joined_erase (sep : String) (ns : List Node) :
    s.joined sep (ns.map .erase) = s.erased.joined sep ns := by
  simp [joined, Function.comp_def]

@[simp] theorem sequence_erase (ns : List Node) :
    s.sequence (ns.map .erase) = s.erased.sequence ns := by
  simp [sequence]

@[simp] theorem parenthesized_erase (n : Node) :
    s.parenthesized n.erase = s.erased.parenthesized n := by
  simp [parenthesized]

@[simp] theorem lines_erase (ns : List Node) : s.lines (ns.map .erase) = s.erased.lines ns := by
  simp [lines, Function.comp_def]

/-- Nodes on lines in braces. -/
@[simp] theorem block_erase (ns : List Node) : s.block (ns.map .erase) = s.erased.block ns := by
  simp [block]

/-- A key, in brackets if it is computed. -/
@[simp] theorem key_erase (n : Node) (computed : Bool) :
    s.key n.erase computed = s.erased.key n computed := by
  simp [key]

@[simp] theorem ranksBelow_erased (k t : Kind) : s.erased.ranksBelow k t = s.ranksBelow k t := rfl

/-- Of the parent only its kind and its operator matter. -/
theorem needsParens_erase (n : Node) {m m' : Node} (right : Bool) (hk : m'.kind = m.kind)
    (ho : m'.operator? = m.operator?) :
    s.needsParens n.erase m' right = s.erased.needsParens n m right := by
  simp [needsParens, equalRankNeedsParens, hk, ho]

/-- An operand in parentheses where its parent asks for them: ranks go by kinds, and kinds stay. -/
theorem operandOf_erase (n : Node) {m m' : Node} (right : Bool) (hk : m'.kind = m.kind)
    (ho : m'.operator? = m.operator?) :
    s.operandOf n.erase m' right = s.erased.operandOf n m right := by
  simp [operandOf, s.needsParens_erase n right hk ho]

/-- An operand in parentheses where its position asks for them. -/
@[simp] theorem operand_erase (n : Node) (position : Kind) :
    s.operand n.erase position = s.erased.operand n position := by
  simp [operand]

end Scope

namespace Emit

variable (s : Scope)

/-! ## §2. Parts of statements. -/

/-- Whether a key is a function. -/
@[simp] theorem isFunctionKey_erase (n : Node) : isFunctionKey n.erase = isFunctionKey n := by
  rw [Node.erase_eq]
  cases n with
  | function form f => cases form <;> rfl
  | _ => rfl

/-- Whether a default export is a declaration. -/
@[simp] theorem isDeclarationLike_erase (n : Node) :
    isDeclarationLike n.erase = isDeclarationLike n := by
  rw [Node.erase_eq]
  cases n with
  | function form f => cases form <;> rfl
  | _ => rfl

/-- Whether a specifier comes before the braces. -/
@[simp] theorem isLeading_erase (n : Node) : isLeading n.erase = isLeading n := by
  rw [Node.erase_eq]
  cases n <;> rfl

/-- A quasi has no types. -/
@[simp] theorem templateElement_erase (n : Node) : templateElement n.erase = templateElement n := by
  rw [Node.erase_eq]
  cases n <;> rfl

/-- Whether an operand begins with the sign of its operator. -/
@[simp] theorem repeatsSign_erase (n : Node) (operator : String) :
    repeatsSign n.erase operator = repeatsSign n operator := by
  rw [Node.erase_eq]
  cases n <;> rfl

/-- Whether a statement begins with an object pattern. -/
@[simp] theorem assignsObject_erase (n : Node) : assignsObject n.erase = assignsObject n := by
  rw [Node.erase_eq]
  cases n with
  | assignmentExpression operator left right =>
    simp only [Node.map, Node.clear]
    rw [Node.erase_eq left]
    cases left <;> rfl
  | _ => rfl

@[simp] theorem switchCase_erase (c : SwitchCase) :
    switchCase s (c.map .erase) = switchCase s.erased c := by
  obtain ⟨test, consequent⟩ := c
  cases test <;> simp [switchCase, caseHead]

@[simp] theorem handler_erase (c : CatchClause) :
    handler s (c.map .erase) = handler s.erased c := by
  obtain ⟨param, body⟩ := c
  cases param <;> simp [handler]

@[simp] theorem declarators_erase (kind : String) (declarations : List Node) :
    declarators s kind (declarations.map .erase) = declarators s.erased kind declarations := by
  simp [declarators, Function.comp_def]

/-- A clause in the head of a loop. -/
@[simp] theorem loopHead_erase (n : Node) : loopHead s n.erase = loopHead s.erased n := by
  have hemit : s.emit (n.map .erase).clear = s.erased.emit n := by
    rw [← Node.erase_eq, s.emit_erase]
  rw [Node.erase_eq]
  cases n with
  | variableDeclaration kind declarations declare => simp [loopHead]
  | _ => exact hemit

/-! ## §3. Parts of functions and classes. -/

/-- A function, whose types the plain dialect does not look at. -/
theorem functionWithBody_erase (f : FunctionLike) {n n' : Node} (hk : n'.kind = n.kind) :
    Plain.functionWithBody s n' (f.map .erase).clear = Plain.functionWithBody s.erased n f := by
  have hhead : functionHead (f.map .erase).clear = functionHead f := by
    simp only [functionHead, FunctionLike.clear, FunctionLike.map, Doc.ofOption_map,
      Node.identifierName_erase]
    rfl
  rw [Plain.functionWithBody, Plain.functionWithBody, hhead]
  cases hb : f.body <;> simp [hb, Doc.malformed, hk]

@[simp] theorem arrowBody_erase (n : Node) : arrowBody s n.erase = arrowBody s.erased n := by
  have hemit : s.emit (n.map .erase).clear = s.erased.emit n := by
    rw [← Node.erase_eq, s.emit_erase]
  have hemitAs : s.emitAs .objectExpression (n.map .erase).clear
      = s.erased.emitAs .objectExpression n := by
    rw [← Node.erase_eq]
    rfl
  rw [Node.erase_eq]
  cases n with
  | objectExpression properties annot =>
    exact congrArg (fun d : Doc => Doc.text " => " ++ d.parens) hemitAs
  | objectPattern properties annot =>
    exact congrArg (fun d : Doc => Doc.text " => " ++ d.parens) hemitAs
  | _ => exact congrArg (Doc.text " => " ++ ·) hemit

/-- A lone name has no parentheses with or without its types. -/
@[simp] theorem arrowParams_erase (params : List Node) :
    arrowParams s (params.map .erase) = arrowParams s.erased params := by
  match params with
  | [] => rfl
  | [n] =>
    have hseq : s.sequence [(n.map .erase).clear] = s.erased.sequence [n] := by
      rw [← Node.erase_eq, ← s.sequence_erase [n], List.map_singleton]
    rw [List.map_singleton, Node.erase_eq]
    cases n with
    | identifier => rfl
    | _ => exact hseq
  | m :: n :: rest => simp [arrowParams, -List.map_cons]

@[simp] theorem superclass_erase (n : Node) : superclass s n.erase = superclass s.erased n := by
  simp [superclass]

/-- A class, whose types and modifiers the plain dialect does not look at. -/
theorem classOf_erase (c : ClassLike) :
    Plain.classOf s (c.map .erase).clear = Plain.classOf s.erased c := by
  simp [Plain.classOf]

theorem classField_erase (f : ClassField) :
    Plain.classField s (.classField .property (f.map .erase).clear)
      = Plain.classField s.erased (.classField .property f) := by
  cases hv : f.value <;> simp [Plain.classField, hv]

/-- The function that a method holds. -/
theorem methodValue_erase (value : Node) :
    methodValue value.erase = (methodValue value).map fun f => (f.map .erase).clear := by
  unfold methodValue
  cases h : value.function? <;> simp [h, Except.map]

theorem classMethod_erase (m : Method) :
    Plain.method s (.methodDefinition (m.map .erase).clear)
      = Plain.method s.erased (.methodDefinition m) := by
  simp only [Plain.method, MethodParts.of, MethodParts.ofMethod, Method.map, Method.clear,
    methodValue_erase]
  cases methodValue m.value with
  | error e => rfl
  | ok f => simp [Except.map, Doc.ofExcept, Plain.methodOf, methodHead]

theorem objectMethod_erase (p : Property) :
    Plain.method s (.property (p.map .erase)) = Plain.method s.erased (.property p) := by
  simp only [Plain.method, MethodParts.of, Property.map, methodValue_erase]
  cases methodValue p.value with
  | error e => rfl
  | ok f => simp [Except.map, Doc.ofExcept, Plain.methodOf, methodHead]

/-! ## §4. Parts of imports and exports. -/

@[simp] theorem attributeClause_erase (attributes : List Node) :
    attributeClause s (attributes.map .erase) = attributeClause s.erased attributes := by
  simp [attributeClause, Function.comp_def]

/-- The name of a specifier before the braces. -/
@[simp] theorem leadingName_erase (n : Node) : leadingName n.erase = leadingName n := by
  rw [Node.erase_eq]
  cases n with
  | importDefaultSpecifier localName => simp [leadingName]
  | importNamespaceSpecifier localName => simp [leadingName]
  | _ => rfl

/-- Specifiers before the braces. -/
@[simp] theorem leadingSpecifiers_erase (sep : Doc) (ns : List Node) :
    leadingSpecifiers sep (ns.map .erase) = leadingSpecifiers sep ns := by
  induction ns generalizing sep with
  | nil => rfl
  | cons n rest ih => simp [leadingSpecifiers, ih]

/-- A specifier of an import: its kind is not written. -/
@[simp] theorem importSpecifier_erase (n : Node) :
    importSpecifier .plain n.erase = importSpecifier .plain n := by
  rw [Node.erase_eq]
  cases n with
  | importSpecifier imported localName kind => simp [importSpecifier, kindWord, Dialect.typedOnly]
  | _ => rfl

/-- The specifiers of an import. -/
@[simp] theorem importSpecifiers_erase (ns : List Node) :
    importSpecifiers .plain (ns.map .erase) = importSpecifiers .plain ns := by
  have hlead : isLeading ∘ Node.erase = isLeading := funext isLeading_erase
  have hspec : importSpecifier .plain ∘ Node.erase = importSpecifier .plain :=
    funext importSpecifier_erase
  simp [importSpecifiers, List.takeWhile_map, List.dropWhile_map, hlead, hspec]

/-- A specifier of an export: its kind is not written. -/
@[simp] theorem exportSpecifier_erase (n : Node) :
    exportSpecifier .plain n.erase = exportSpecifier .plain n := by
  rw [Node.erase_eq]
  cases n with
  | exportSpecifier localName exported kind => simp [exportSpecifier, kindWord, Dialect.typedOnly]
  | _ => rfl

/-- An export: its kind is not written. -/
theorem exportNamed_erase (e : ExportNamed) :
    exportNamed .plain s (.exportNamedDeclaration { e.map .erase with exportKind := none })
      = exportNamed .plain s.erased (.exportNamedDeclaration e) := by
  have hspec : exportSpecifier .plain ∘ Node.erase = exportSpecifier .plain :=
    funext exportSpecifier_erase
  cases hd : e.declaration <;> simp [exportNamed, kindWord, Dialect.typedOnly, hd, hspec]

/-! ## §5. Parts of expressions. -/

/-- An operator before its operand. -/
theorem prefixed_erase (argument : Node) (operator : String) {n n' : Node} (hk : n'.kind = n.kind)
    (ho : n'.operator? = n.operator?) :
    prefixed s n' operator argument.erase = prefixed s.erased n operator argument := by
  simp [prefixed, s.needsParens_erase argument false hk ho]

/-- An operator between its operands. -/
theorem infixed_erase (left right : Node) (operator : String) {n n' : Node} (hk : n'.kind = n.kind)
    (ho : n'.operator? = n.operator?) :
    infixed s n' operator left.erase right.erase = infixed s.erased n operator left right := by
  rw [infixed, infixed, s.operandOf_erase left false hk ho, s.operandOf_erase right true hk ho]

/-- Whether the test of a conditional is in parentheses. -/
@[simp] theorem testNeedsParens_erase (n : Node) :
    testNeedsParens s n.erase = testNeedsParens s.erased n := by
  simp [testNeedsParens]

/-- A callee after `new`: calls along members stay. -/
@[simp] theorem newCallee_erase (n : Node) : newCallee s n.erase = newCallee s.erased n := by
  simp [newCallee]

@[simp] theorem memberName_erase (n : Node) (computed optional : Bool) :
    memberName s n.erase computed optional = memberName s.erased n computed optional := by
  simp [memberName]

/-- The elements of a list, with holes. -/
@[simp] theorem elements_erase (es : List (Option Node)) :
    elements s (es.map (Option.map .erase)) = elements s.erased es := by
  have hlist : elementList s (es.map (Option.map .erase)) = elementList s.erased es := by
    fun_induction elementList s.erased es <;> simp_all [elementList]
  rw [elements, elements, hlist]

@[simp] theorem objectBraces_erase (ns : List Node) :
    objectBraces s (ns.map .erase) = objectBraces s.erased ns := by
  simp [objectBraces]

@[simp] theorem objectLines_erase (ns : List Node) :
    objectLines s (ns.map .erase) = objectLines s.erased ns := by
  simp [objectLines, Function.comp_def]

/-- Quasis and holes in turn. -/
@[simp] theorem interleaved_erase (quasis holes : List Node) :
    interleaved s (quasis.map .erase) (holes.map .erase) = interleaved s.erased quasis holes := by
  induction quasis generalizing holes with
  | nil => cases holes <;> rfl
  | cons quasi quasis ih =>
    cases holes with
    | nil => cases quasis <;> simp [interleaved]
    | cons hole holes => simp [interleaved, ih]

/-- A template, whose counts stay. -/
theorem template_erase (quasis holes : List Node) {n n' : Node} (hk : n'.kind = n.kind) :
    template s n' (quasis.map .erase) (holes.map .erase) = template s.erased n quasis holes := by
  simp [template, Doc.malformed, hk]

end Emit

/-! ## §6. Procedures. -/

namespace Node

/-- The value of a method, be it one of a class or of an object. -/
def methodValue? : Node → Option Node
  | .methodDefinition m => some m.value
  | .property p => if p.method || p.kind != "init" then some p.value else none
  | _ => none

/-- Nodes of the kinds that are taken apart below. -/
theorem exists_of_kind (n : Node) :
    (n.kind = .classExpression → ∃ c, n = .classExpression c) ∧
    (n.kind = .propertyDefinition → ∃ f, n = .classField .property f) ∧
    (n.kind = .restElement → ∃ argument annot, n = .restElement argument annot) ∧
    (n.kind = .arrayPattern → ∃ elements annot, n = .arrayPattern elements annot) := by
  cases n with
  | block form | function form | classField form | heritage form | keywordType form
  | signature form => cases form <;> simp [kind, BlockForm.kind, FunctionForm.kind,
      FieldForm.kind, HeritageForm.kind, KeywordType.kind, SignatureForm.kind]
  | _ => simp [kind]

/-- The kinds under which the registries of the two dialects dispatch a node. -/
inductive DispatchedAs (n : Node) : Kind → Prop where
  | own : n.DispatchedAs n.kind
  | assigned {k : Kind} : k ∈ assignedKinds → n.DispatchedAs k
  | classExpression : n.kind = .classExpression → n.DispatchedAs .classDeclaration
  | method {value : Node} : n.methodValue? = some value → n.DispatchedAs .methodDefinition

/-- Nodes are dispatched as what they are, or as one of the kinds that procedures assign. -/
theorem DispatchedAs.of_or {n : Node} {k : Kind} (h : k = n.kind ∨ k ∈ assignedKinds) :
    n.DispatchedAs k := by
  rcases h with rfl | h
  · exact .own
  · exact .assigned h

/-- Under most kinds only nodes of the kind are dispatched. -/
theorem DispatchedAs.eq_kind {n : Node} {k : Kind} (h : n.DispatchedAs k)
    (hk : k ∉ [.classDeclaration, .methodDefinition] ++ assignedKinds) : n.kind = k := by
  cases h with
  | own => rfl
  | assigned h => exact absurd (List.mem_append_right _ h) hk
  | classExpression | method => exact absurd (by decide) hk

/-- An entry of an object that is dispatched as a method is one. -/
theorem DispatchedAs.isMethod {p : Property}
    (h : (Node.property p).DispatchedAs .methodDefinition) :
    (p.method || p.kind != "init") = true := by
  generalize hk : Kind.methodDefinition = k at h
  cases h with
  | own | classExpression => cases hk
  | assigned h =>
    subst hk
    exact absurd h (by decide)
  | method h => exact Decidable.byContradiction fun hm => nomatch (if_neg hm).symm.trans h

end Node

namespace Registry

open Emit in
/-- A node under its own kind. -/
theorem base_doc_erase_own {p : Procedure} {n : Node} (hp : base.get? n.kind = some p) (s : Scope) :
    p.doc s n.erase = p.doc s.erased n := by
  rw [Node.erase_eq]
  cases n with
  -- statements
  | program => cases hp; simp [Procedure.doc, program]
  | block form => cases form <;> cases hp <;> simp [Procedure.doc, block, staticBlock]
  | emptyStatement | debuggerStatement => cases hp; rfl
  | expressionStatement => cases hp; simp [Procedure.doc, expressionStatement]
  | ifStatement => cases hp; simp [Procedure.doc, ifStatement]
  | labeledStatement => cases hp; simp [Procedure.doc, labeledStatement]
  | breakStatement | continueStatement => cases hp; simp [Procedure.doc, jump, jumpTo]
  | withStatement => cases hp; simp [Procedure.doc, withStatement]
  | switchStatement =>
    cases hp; simp [Procedure.doc, switchStatement, Function.comp_def, -SwitchCase.map]
  | returnStatement => cases hp; simp [Procedure.doc, returnStatement]
  | throwStatement => cases hp; simp [Procedure.doc, throwStatement]
  | tryStatement => cases hp; simp [Procedure.doc, tryStatement, -CatchClause.map]
  | whileStatement => cases hp; simp [Procedure.doc, whileStatement]
  | doWhileStatement => cases hp; simp [Procedure.doc, doWhileStatement]
  | forStatement => cases hp; simp [Procedure.doc, forStatement]
  | forInStatement | forOfStatement => cases hp; simp [Procedure.doc, forEach, loopOver]
  -- functions, variables and classes
  | function form f => cases form <;> cases hp <;> exact functionWithBody_erase s f rfl
  | arrowFunctionExpression => cases hp; simp [Procedure.doc, Plain.arrowFunction]
  | variableDeclaration => cases hp; simp [Procedure.doc, Plain.variableDeclaration]
  | variableDeclarator => cases hp; simp [Procedure.doc, Plain.variableDeclarator]
  | classDeclaration c => cases hp; exact classOf_erase s c
  | classExpression c =>
    cases hp
    exact congrArg (s.emitAs .classDeclaration) (Node.erase_eq (.classExpression c)).symm
  | methodDefinition m => cases hp; exact classMethod_erase s m
  | classField form f => cases form <;> cases hp; exact classField_erase s f
  -- imports and exports
  | importDeclaration =>
    cases hp; simp [Procedure.doc, importDeclaration, kindWord, Dialect.typedOnly]
  | importAttribute => cases hp; simp [Procedure.doc, importAttribute]
  | importExpression => cases hp; simp [Procedure.doc, Plain.importExpression]
  | exportNamedDeclaration e => cases hp; exact exportNamed_erase s e
  | exportDefaultDeclaration => cases hp; simp [Procedure.doc, exportDefault]
  | exportAllDeclaration =>
    cases hp; simp [Procedure.doc, exportAll, kindWord, Dialect.typedOnly]
  -- expressions and patterns
  | thisExpression | super => cases hp; rfl
  | restElement | spreadElement => cases hp; simp [Procedure.doc, Plain.restElement]
  | yieldExpression => cases hp; simp [Procedure.doc, yieldExpression]
  | awaitExpression argument =>
    cases hp
    exact congrArg (Doc.text "await " ++ ·) (s.operandOf_erase argument false rfl rfl)
  | templateLiteral quasis holes => cases hp; exact template_erase s quasis holes rfl
  | templateElement => cases hp; rfl
  | taggedTemplateExpression => cases hp; simp [Procedure.doc, taggedTemplate]
  | arrayExpression | arrayPattern => cases hp; simp [Procedure.doc, arrayExpression]
  | objectExpression => cases hp; simp [Procedure.doc, objectExpression]
  | objectPattern => cases hp; simp [Procedure.doc, Plain.objectPattern]
  | property p =>
    cases hp
    have hmethod : s.emitAs .methodDefinition (.property (p.map .erase))
        = s.erased.emitAs .methodDefinition (.property p) :=
      congrArg (s.emitAs .methodDefinition) (Node.erase_eq (.property p)).symm
    change Emit.property s (.property (p.map .erase)) = Emit.property s.erased (.property p)
    simp only [Emit.property, hmethod]
    simp
  | sequenceExpression => cases hp; simp [Procedure.doc, sequenceExpression]
  | unaryExpression operator isPrefix argument =>
    cases hp
    cases isPrefix
    · simp [Procedure.doc, unaryExpression]
    · exact prefixed_erase s argument operator rfl rfl
  | updateExpression _ isPrefix =>
    cases hp; cases isPrefix <;> simp [Procedure.doc, updateExpression]
  | assignmentExpression => cases hp; simp [Procedure.doc, assignmentExpression]
  | binaryExpression operator left right | logicalExpression operator left right =>
    cases hp; exact infixed_erase s left right operator rfl rfl
  | assignmentPattern => cases hp; simp [Procedure.doc, assignmentPattern]
  | conditionalExpression => cases hp; simp [Procedure.doc, conditionalExpression]
  | newExpression => cases hp; simp [Procedure.doc, Plain.newExpression]
  | callExpression => cases hp; simp [Procedure.doc, Plain.callExpression]
  | chainExpression => cases hp; simp [Procedure.doc, chainExpression]
  | memberExpression => cases hp; simp [Procedure.doc, memberExpression]
  | metaProperty => cases hp; simp [Procedure.doc, metaProperty]
  | identifier => cases hp; rfl
  | privateIdentifier | literal | regExpLiteral => cases hp; rfl
  | keywordType k => cases k <;> cases hp
  | heritage form | signature form => cases form <;> cases hp
  | _ => cases hp

open Emit in
/-- Nodes that are dispatched under a kind that is not theirs. -/
theorem base_doc_erase_assigned {p : Procedure} {k : Kind} (hk : k ∈ assignedKinds)
    (hp : base.get? k = some p) (s : Scope) (n : Node) : p.doc s n.erase = p.doc s.erased n := by
  simp only [assignedKinds, List.mem_cons, List.not_mem_nil, or_false] at hk
  rw [Node.erase_eq]
  rcases hk with rfl | rfl | rfl | rfl | rfl <;> cases hp
  · cases n with
    | variableDeclarator => simp [Procedure.doc, Plain.variableDeclarator]
    | _ => rfl
  · cases n with
    | block form =>
      cases form <;> simp [Procedure.doc, block, Doc.expected, Doc.malformed, Node.kind]
    | _ => rfl
  · cases n with
    | objectExpression | objectPattern => simp [Procedure.doc, objectExpression]
    | _ => rfl
  · cases n <;> rfl
  · cases n with
    | importAttribute => simp [Procedure.doc, importAttribute]
    | _ => rfl

/-- **A procedure of the plain dialect makes of an erased node what it makes of the node.** -/
theorem base_doc_erase {p : Procedure} {k : Kind} {n : Node} (hk : n.DispatchedAs k)
    (hp : base.get? k = some p) (s : Scope) : p.doc s n.erase = p.doc s.erased n := by
  cases hk with
  | own => exact base_doc_erase_own hp s
  | assigned h => exact base_doc_erase_assigned h hp s n
  | classExpression h =>
    cases hp
    obtain ⟨c, rfl⟩ := n.exists_of_kind.1 h
    rw [Node.erase_eq]
    exact Emit.classOf_erase s c
  | method h =>
    cases hp
    unfold Node.methodValue? at h
    split at h
    · rw [Node.erase_eq]
      exact Emit.classMethod_erase s _
    · rw [Node.erase_eq]
      exact Emit.objectMethod_erase s _
    · cases h

end Registry

end Estree
