import Estree.Emit
import Estree.Proofs.Alike.Declaration
import Estree.Proofs.Alike.Expression
import Estree.Proofs.Alike.Statement
import Estree.Proofs.Alike.Typed

/-!
# What a procedure does with a node

A procedure either dispatches the node that it is given once more, under another kind
(`Procedure.redirect`), or writes it from texts and the dispatches of nodes inside it
(`Procedure.alike`). It goes two levels deeper at most, comes back from them, and only a program
ends with a line end.

Main results:

* `Procedure.alike`: a procedure that does not dispatch its own node again makes documents of it
  that are alike in any two scopes, from depth zero to depth zero.
* `Procedure.redirect`: the procedures that do dispatch it again, and under which kind.
-/

namespace Estree

namespace Procedure

/-- The kind under which a procedure dispatches its own node again, if it does. -/
def redirect : Procedure → Node → Option Kind
  | .classExpression, _ => some .classDeclaration
  | .property, .property p =>
    if p.method || p.kind != "init" then some .methodDefinition else none
  | _, _ => none

theorem doc_of_redirect {p : Procedure} {s : Scope} {n : Node} {k : Kind}
    (h : p.redirect n = some k) : p.doc s n = s.emitAs k n := by
  unfold redirect at h
  split at h
  · cases h
    rfl
  next p =>
    change Emit.property s (.property p) = _
    unfold Emit.property
    split at h
    next hm =>
      cases h
      simp only [hm, if_true]
    next => cases h
  · cases h

/-- Nothing but a class declaration or a method is ever dispatched again. -/
theorem redirect_mem {p : Procedure} {n : Node} {k : Kind} (h : p.redirect n = some k) :
    k = .classDeclaration ∨ k = .methodDefinition := by
  unfold redirect at h
  split at h
  · exact .inl (Option.some.inj h).symm
  · split at h
    · exact .inr (Option.some.inj h).symm
    · cases h
  · cases h

/-- Everything but a program is written within a line. -/
theorem alike_inside {p : Procedure} {n : Node} (h : p.redirect n = none) (hp : p ≠ .program)
    (s₁ s₂ : Scope) : Inline s₁ s₂ n .zero (p.doc s₁ n) (p.doc s₂ n) := by
  cases p with
  | program => exact absurd rfl hp
  | classExpression => cases h
  | property =>
    refine Alike.property fun p hp => ?_
    subst hp
    simpa [redirect] using h
  -- statements
  | block => exact Alike.blockStatement
  | staticBlock => exact Alike.staticBlock
  | expressionStatement => exact Alike.expressionStatement
  | ifStatement => exact Alike.ifStatement
  | labeledStatement => exact Alike.labeledStatement
  | jump => exact Alike.jump
  | withStatement => exact Alike.withStatement
  | switchStatement => exact Alike.switchStatement
  | returnStatement => exact Alike.returnStatement
  | throwStatement => exact Alike.throwStatement
  | tryStatement => exact Alike.tryStatement
  | whileStatement => exact Alike.whileStatement
  | doWhileStatement => exact Alike.doWhileStatement
  | forStatement => exact Alike.forStatement
  | forEach => exact Alike.forEach
  | emptyStatement | debuggerStatement | thisExpression | superExpression =>
    exact .text _
  -- functions, variables and classes
  | function d =>
    cases d with
    | plain => exact Alike.Plain.function
    | typed => exact Alike.Typed.function
  | bodilessFunction => exact Alike.bodilessFunction
  | arrowFunction d =>
    cases d with
    | plain => exact Alike.Plain.arrowFunction
    | typed => exact Alike.Typed.arrowFunction
  | variableDeclaration d =>
    cases d with
    | plain => exact Alike.Plain.variableDeclaration
    | typed => exact Alike.Typed.variableDeclaration
  | variableDeclarator d =>
    cases d with
    | plain => exact Alike.Plain.variableDeclarator
    | typed => exact Alike.Typed.variableDeclarator
  | classLike d =>
    cases d with
    | plain => exact Alike.Plain.classLike
    | typed => exact Alike.Typed.classLike
  | method d =>
    cases d with
    | plain => exact Alike.Plain.method
    | typed => exact Alike.Typed.method
  | classField d =>
    cases d with
    | plain => exact Alike.Plain.classField
    | typed => exact Alike.Typed.classField
  | parameterProperty => exact Alike.parameterProperty
  | decorator => exact Alike.decorator
  -- imports, exports and namespaces
  | importDeclaration d => exact Alike.importDeclaration d
  | importAttribute => exact Alike.importAttribute
  | importExpression d =>
    cases d with
    | plain => exact Alike.Plain.importExpression
    | typed => exact Alike.Typed.importExpression
  | exportNamed d => exact Alike.exportNamed d
  | exportDefault => exact Alike.exportDefault
  | exportAll d => exact Alike.exportAll d
  | moduleDeclaration => exact Alike.moduleDeclaration
  | moduleBlock => exact Alike.moduleBlock
  -- expressions and patterns
  | restElement d =>
    cases d with
    | plain => exact Alike.Plain.restElement
    | typed => exact Alike.Typed.restElement
  | yieldExpression => exact Alike.yieldExpression
  | awaitExpression => exact Alike.awaitExpression
  | templateLiteral => exact Alike.templateLiteral
  | templateElement => exact Alike.templateElement (.inl rfl)
  | taggedTemplate => exact Alike.taggedTemplate
  | arrayExpression => exact Alike.arrayExpression
  | arrayPattern => exact Alike.arrayPattern
  | objectExpression => exact Alike.objectExpression
  | objectPattern d =>
    cases d with
    | plain => exact Alike.Plain.objectPattern
    | typed => exact Alike.Typed.objectPattern
  | sequenceExpression => exact Alike.sequenceExpression
  | unaryExpression => exact Alike.unaryExpression
  | updateExpression => exact Alike.updateExpression
  | assignmentExpression => exact Alike.assignmentExpression
  | assignmentPattern => exact Alike.assignmentPattern
  | binaryExpression => exact Alike.binaryExpression
  | conditionalExpression => exact Alike.conditionalExpression
  | newExpression d =>
    cases d with
    | plain => exact Alike.Plain.newExpression
    | typed => exact Alike.Typed.newExpression
  | callExpression d =>
    cases d with
    | plain => exact Alike.Plain.callExpression
    | typed => exact Alike.Typed.callExpression
  | chainExpression => exact Alike.chainExpression
  | memberExpression => exact Alike.memberExpression
  | metaProperty => exact Alike.metaProperty
  | identifier d =>
    cases d with
    | plain => exact Alike.Plain.identifier
    | typed => exact Alike.Typed.identifier
  | privateIdentifier => exact Alike.privateIdentifier
  | literal => exact Alike.literal
  | regExpLiteral => exact Alike.regExpLiteral
  -- typed expressions and declarations of types
  | asExpression => exact Alike.asExpression
  | satisfiesExpression => exact Alike.satisfiesExpression
  | typeAssertion => exact Alike.typeAssertion
  | nonNullExpression => exact Alike.nonNullExpression
  | interfaceDeclaration => exact Alike.interfaceDeclaration
  | interfaceBody => exact Alike.interfaceBody
  | heritage => exact Alike.heritage
  | typeAlias => exact Alike.typeAlias
  | enumDeclaration => exact Alike.enumDeclaration
  | enumMember => exact Alike.enumMember
  | typeLiteral => exact Alike.typeLiteral
  | propertySignature => exact Alike.propertySignature
  | methodSignature => exact Alike.methodSignature
  | indexSignature => exact Alike.indexSignature
  | callSignature => exact Alike.callSignature
  -- types
  | typeAnnot => exact Alike.typeAnnot
  | keywordType => exact Alike.keywordType
  | literalType => exact Alike.literalType
  | templateLiteralType => exact Alike.templateLiteralType
  | typeReference => exact Alike.typeReference
  | qualifiedName => exact Alike.qualifiedName
  | typeQuery => exact Alike.typeQuery
  | unionType => exact Alike.unionType
  | intersectionType => exact Alike.intersectionType
  | functionType => exact Alike.functionType
  | tupleType => exact Alike.tupleType
  | optionalType => exact Alike.optionalType
  | restType => exact Alike.restType
  | parenthesizedType => exact Alike.parenthesizedType
  | namedTupleMember => exact Alike.namedTupleMember
  | arrayType => exact Alike.arrayType
  | indexedAccessType => exact Alike.indexedAccessType
  | typeOperator => exact Alike.typeOperator
  | conditionalType => exact Alike.conditionalType
  | inferType => exact Alike.inferType
  | typePredicate => exact Alike.typePredicate
  | mappedType => exact Alike.mappedType
  | typeParameters => exact Alike.typeParameters
  | typeParameter => exact Alike.typeParameter

/-- **A procedure writes a node alike in all scopes** unless it dispatches the node again. -/
theorem alike {p : Procedure} {n : Node} (h : p.redirect n = none) (s₁ s₂ : Scope) :
    Inline s₁ s₂ n .zero (p.doc s₁ n) (p.doc s₂ n) ∨
      n.kind = .program ∧
        Alike s₁ s₂ n (.inside .zero) (.lineStart .zero) (p.doc s₁ n) (p.doc s₂ n) := by
  by_cases hp : p = .program
  · subst hp
    exact Alike.program
  · exact .inl (alike_inside h hp s₁ s₂)

/-- Wherever in a line its document ends, a procedure comes back to the level at which it began. -/
theorem exists_alike {p : Procedure} {n : Node} (h : p.redirect n = none) (s₁ s₂ : Scope) :
    ∃ line, Alike s₁ s₂ n (.inside .zero) ⟨line, .zero⟩ (p.doc s₁ n) (p.doc s₂ n) := by
  rcases alike h s₁ s₂ with ha | ⟨-, ha⟩
  · exact ⟨_, ha⟩
  · exact ⟨_, ha⟩

end Procedure

end Estree
