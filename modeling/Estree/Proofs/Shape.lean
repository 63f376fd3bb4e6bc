import Estree.Proofs.Shape.Procedures

/-!
# Success is a matter of shape

In the typed dialect a tree is written if and only if every node on the way is well shaped:

    (∃ text, generate t = .ok text) ↔ ∀ k n, Visited t k n → n.wellShaped k

whatever the ranks and the layout. One step is one node (`Grammar.completes_iff`): what its
procedure makes of it completes when the node is well shaped and the nodes that it visits are
written to their end. The whole tree follows by induction, because a node visits nodes inside it
only.

Main results:

* `Procedure.completes_doc`: one procedure.
* `Grammar.completes_iff`: one node.
* `Grammar.completes_iff_visited`: all the nodes of a tree.
* `Generator.exists_generate_iff_wellShaped`: a tree has a text when all that is visited is well
  shaped.
-/

namespace Estree

open Node

/-! ## §1. What a procedure does with a node of its own. -/

open Emit in
/-- **One procedure**: what it makes of a node that is written as what it is. -/
theorem Procedure.completes_doc (s : Scope) {n : Node} {p : Procedure}
    (hp : Registry.full.get? n.kind = some p) (hr : p.redirect n = none) :
    (p.doc s n).Completes ↔ n.hasShape n.kind ∧ s.Writes (n.visits n.kind) := by
  cases n with
  -- specifiers are not written by themselves, and class expressions as declarations
  | importSpecifier | importDefaultSpecifier | importNamespaceSpecifier | exportSpecifier =>
    cases hp
  | classExpression =>
    obtain rfl := Option.some.inj hp
    cases hr
  -- statements
  | program => cases hp; exact followsShape_program _ s
  | emptyStatement => cases hp; exact followsShape_word ";" rfl rfl s
  | debuggerStatement => cases hp; exact followsShape_word "debugger;" rfl rfl s
  | expressionStatement => cases hp; exact followsShape_expressionStatement _ _ s
  | ifStatement => cases hp; exact followsShape_ifStatement _ _ _ s
  | labeledStatement => cases hp; exact followsShape_labeledStatement _ _ s
  | breakStatement => cases hp; exact (followsShape_jump _).1 s
  | continueStatement => cases hp; exact (followsShape_jump _).2 s
  | withStatement => cases hp; exact followsShape_withStatement _ _ s
  | switchStatement => cases hp; exact followsShape_switchStatement _ _ s
  | returnStatement => cases hp; exact followsShape_returnStatement _ s
  | throwStatement => cases hp; exact followsShape_throwStatement _ s
  | tryStatement => cases hp; exact followsShape_tryStatement _ _ _ s
  | whileStatement => cases hp; exact followsShape_whileStatement _ _ s
  | doWhileStatement => cases hp; exact followsShape_doWhileStatement _ _ s
  | forStatement => cases hp; exact followsShape_forStatement _ _ _ _ s
  | forInStatement => cases hp; exact (followsShape_forEach _ _ _ _).1 s
  | forOfStatement => cases hp; exact (followsShape_forEach _ _ _ _).2 s
  | block form =>
    cases form with
    | statement => cases hp; exact (followsShape_block _).1 s
    | classBody => cases hp; exact (followsShape_block _).2 s
    | static => cases hp; exact followsShape_staticBlock _ s
    | module => cases hp; exact followsShape_moduleBlock _ s
  -- functions, variables and classes
  | function form =>
    cases form with
    | declaration => cases hp; exact (followsShape_function _).1 s
    | expression => cases hp; exact (followsShape_function _).2 s
    | declared => cases hp; exact (followsShape_bodilessFunction _).1 s
    | emptyBody => cases hp; exact (followsShape_bodilessFunction _).2 s
  | arrowFunctionExpression => cases hp; exact followsShape_arrowFunction _ s
  | variableDeclaration => cases hp; exact followsShape_variableDeclaration _ _ _ s
  | variableDeclarator => cases hp; exact followsShape_variableDeclarator _ _ _ s
  | classDeclaration => cases hp; exact (followsShape_classLike _).1 s
  | methodDefinition => cases hp; exact (followsShape_method _).1 s
  | tsAbstractMethodDefinition => cases hp; exact (followsShape_method _).2 s
  | classField form => cases form <;> cases hp <;> exact followsShape_classField _ _ s
  | decorator => cases hp; exact followsShape_decorator _ s
  | tsParameterProperty => cases hp; exact followsShape_parameterProperty _ s
  -- imports, exports and namespaces
  | importDeclaration => cases hp; exact followsShape_importDeclaration _ _ _ _ s
  | importAttribute => cases hp; exact followsShape_importAttribute _ _ s
  | importExpression => cases hp; exact followsShape_importExpression _ _ _ s
  | exportNamedDeclaration => cases hp; exact followsShape_exportNamed _ s
  | exportDefaultDeclaration => cases hp; exact followsShape_exportDefault _ s
  | exportAllDeclaration => cases hp; exact followsShape_exportAll _ _ _ _ s
  | tsModuleDeclaration => cases hp; exact followsShape_moduleDeclaration _ s
  -- expressions and patterns
  | thisExpression => cases hp; exact followsShape_word "this" rfl rfl s
  | super => cases hp; exact followsShape_word "super" rfl rfl s
  | restElement => cases hp; exact followsShape_restElement _ _ s
  | spreadElement => cases hp; exact followsShape_spreadElement _ _ s
  | yieldExpression => cases hp; exact followsShape_yieldExpression _ _ s
  | awaitExpression => cases hp; exact followsShape_awaitExpression _ s
  | templateLiteral => cases hp; exact followsShape_templateLiteral _ _ s
  | templateElement => cases hp; exact followsShape_templateElement _ _ s
  | taggedTemplateExpression => cases hp; exact followsShape_taggedTemplate _ _ s
  | arrayExpression => cases hp; exact followsShape_arrayExpression _ _ s
  | arrayPattern => cases hp; exact followsShape_arrayPattern _ _ s
  | objectExpression => cases hp; exact followsShape_objectExpression _ _ s
  | objectPattern => cases hp; exact followsShape_objectPattern _ _ s
  | property p =>
    cases hp
    exact followsShape_property (by simpa [redirect, isMethodEntry] using hr) s
  | sequenceExpression => cases hp; exact followsShape_sequenceExpression _ s
  | unaryExpression => cases hp; exact followsShape_unaryExpression _ _ _ s
  | updateExpression => cases hp; exact followsShape_updateExpression _ _ _ s
  | assignmentExpression => cases hp; exact followsShape_assignmentExpression _ _ _ s
  | assignmentPattern => cases hp; exact followsShape_assignmentPattern _ _ s
  | binaryExpression => cases hp; exact (followsShape_binaryExpression _ _ _).1 s
  | logicalExpression => cases hp; exact (followsShape_binaryExpression _ _ _).2 s
  | conditionalExpression => cases hp; exact followsShape_conditionalExpression _ _ _ s
  | newExpression => cases hp; exact followsShape_newExpression _ _ _ _ s
  | callExpression => cases hp; exact followsShape_callExpression _ _ _ _ s
  | chainExpression => cases hp; exact followsShape_chainExpression _ s
  | memberExpression => cases hp; exact followsShape_memberExpression _ _ _ _ s
  | metaProperty => cases hp; exact followsShape_metaProperty _ _ s
  | identifier => cases hp; exact followsShape_identifier _ _ _ _ s
  | privateIdentifier => cases hp; exact followsShape_privateIdentifier _ s
  | literal => cases hp; exact followsShape_literal _ s
  | regExpLiteral => cases hp; exact followsShape_regExpLiteral _ s
  | tsAsExpression => cases hp; exact followsShape_asExpression _ _ s
  | tsSatisfiesExpression => cases hp; exact followsShape_satisfiesExpression _ _ s
  | tsTypeAssertion => cases hp; exact followsShape_typeAssertion _ _ s
  | tsNonNullExpression => cases hp; exact followsShape_nonNullExpression _ s
  -- declarations of types
  | tsInterfaceDeclaration => cases hp; exact followsShape_interfaceDeclaration _ s
  | tsInterfaceBody => cases hp; exact followsShape_interfaceBody _ s
  | heritage form => cases form <;> cases hp <;> exact followsShape_heritage _ _ _ s
  | tsTypeAliasDeclaration => cases hp; exact followsShape_typeAlias _ _ _ _ s
  | tsEnumDeclaration => cases hp; exact followsShape_enumDeclaration _ s
  | tsEnumMember => cases hp; exact followsShape_enumMember _ _ _ s
  | tsTypeLiteral => cases hp; exact followsShape_typeLiteral _ s
  | tsPropertySignature => cases hp; exact followsShape_propertySignature _ s
  | tsMethodSignature => cases hp; exact followsShape_methodSignature _ s
  | tsIndexSignature => cases hp; exact followsShape_indexSignature _ _ _ _ s
  | signature form =>
    cases form with
    | function => cases hp; exact (followsShape_functionType _ _ _ _).1 s
    | constructor => cases hp; exact (followsShape_functionType _ _ _ _).2 s
    | construct => cases hp; exact (followsShape_callSignature _ _ _ _).1 s
    | call => cases hp; exact (followsShape_callSignature _ _ _ _).2 s
  -- types
  | tsTypeAnnot => cases hp; exact followsShape_typeAnnot _ s
  | keywordType k => cases k <;> cases hp <;> exact followsShape_keywordType _ s
  | tsLiteralType => cases hp; exact followsShape_literalType _ s
  | tsTemplateLiteralType => cases hp; exact followsShape_templateLiteralType _ _ s
  | tsTypeReference => cases hp; exact followsShape_typeReference _ _ s
  | tsQualifiedName => cases hp; exact followsShape_qualifiedName _ _ s
  | tsTypeQuery => cases hp; exact followsShape_typeQuery _ _ s
  | tsUnionType => cases hp; exact followsShape_unionType _ s
  | tsIntersectionType => cases hp; exact followsShape_intersectionType _ s
  | tsTupleType => cases hp; exact followsShape_tupleType _ s
  | tsOptionalType => cases hp; exact followsShape_optionalType _ s
  | tsRestType => cases hp; exact followsShape_restType _ s
  | tsParenthesizedType => cases hp; exact followsShape_parenthesizedType _ s
  | tsNamedTupleMember => cases hp; exact followsShape_namedTupleMember _ _ _ s
  | tsArrayType => cases hp; exact followsShape_arrayType _ s
  | tsIndexedAccessType => cases hp; exact followsShape_indexedAccessType _ _ s
  | tsTypeOperator => cases hp; exact followsShape_typeOperator _ _ s
  | tsConditionalType => cases hp; exact followsShape_conditionalType _ _ _ _ s
  | tsInferType => cases hp; exact followsShape_inferType _ s
  | tsTypePredicate => cases hp; exact followsShape_typePredicate _ _ _ s
  | tsMappedType => cases hp; exact followsShape_mappedType _ s
  | tsTypeParameterDeclaration => cases hp; exact (followsShape_typeParameters _).1 s
  | tsTypeParameterInstantiation => cases hp; exact (followsShape_typeParameters _).2 s
  | tsTypeParameter => cases hp; exact followsShape_typeParameter _ s

namespace Grammar

variable {t : PrecedenceTable} {k : Kind} {n : Node}

/-! ## §2. One node. -/

/-- A kind of the full registry is written by its procedure. -/
theorem emitAs_full {p : Procedure} (h : Registry.full.get? k = some p) :
    (Grammar.mk .full t).scope.emitAs k n = p.doc (Grammar.mk .full t).scope n := by
  rw [scope_emitAs]
  simp only [h]

/-- All kinds are bound but those of specifiers. -/
theorem isNone_get?_full (k : Kind) :
    (Registry.full.get? k).isNone = specifierKinds.contains k := by cases k <;> rfl

/-- Only class expressions have the procedure that redirects. -/
theorem get?_full_eq_classExpression (h : Registry.full.get? k = some .classExpression) :
    k = .classExpression := by
  cases k <;> first | rfl | cases h

/-- A node can be what it is when there is a procedure for it. -/
theorem canBe_kind (n : Node) : n.canBe n.kind = (Registry.full.get? n.kind).isSome := by
  rw [← Option.not_isNone, isNone_get?_full, canBe, isA, isA, contains_standIns_self]
  simp

/-- It can be something else when it stands in for that. -/
theorem canBe_of_ne (h : k ≠ n.kind) : n.canBe k = n.isA (standIns k) := by
  simp [canBe, beq_false_of_ne h]

/-- The procedure that writes a node as a kind in the end, and when it does so. -/
structure WrittenBy (k : Kind) (n : Node) (p : Procedure) : Prop where
  direct : p.redirect n = none
  emitAs_eq (t : PrecedenceTable) :
    (Grammar.mk .full t).scope.emitAs k n = p.doc (Grammar.mk .full t).scope n
  completes_iff (s : Scope) : (p.doc s n).Completes ↔ n.hasShape k ∧ s.Writes (n.visits k)

/-- A node that can be what it is, is written by some procedure. -/
theorem exists_writtenBy_own (h : n.canBe n.kind) : ∃ p, WrittenBy n.kind n p := by
  rw [canBe_kind] at h
  obtain ⟨p, hp⟩ := Option.isSome_iff_exists.mp h
  cases hr : p.redirect n with
  | none => exact ⟨p, hr, fun _ => emitAs_full hp, fun s => p.completes_doc s hp hr⟩
  | some k' =>
    unfold Procedure.redirect at hr
    split at hr
    next =>
      -- a class expression is written by whatever writes class declarations
      have hkind := get?_full_eq_classExpression hp
      obtain ⟨c, rfl⟩ := (isA_classExpression n).mp (by simp [isA, hkind])
      refine ⟨.classLike .typed, rfl, fun t => ?_, fun s => ?_⟩
      · rw [emitAs_full hp]
        show (Grammar.mk .full t).scope.emitAs .classDeclaration _ = _
        rw [emitAs_full rfl]
      · exact (Emit.followsShape_classLike c).2 s
    next p =>
      -- a method of an object is written by whatever writes methods of classes
      have hm : isMethodEntry p = true := by
        split at hr
        · assumption
        · cases hr
      refine ⟨.method .typed, rfl, fun t => ?_, fun s => ?_⟩
      · have hentry : Procedure.property.doc (Grammar.mk .full t).scope (.property p) =
            (Grammar.mk .full t).scope.emitAs .methodDefinition (.property p) := if_pos hm
        rw [emitAs_full hp, hentry, emitAs_full rfl]
      · simpa [Procedure.doc, hasShape, visits, hm] using Emit.completes_methodEntry s p
    next => cases hr

/-- A node that stands in for a kind is written by some procedure. -/
theorem exists_writtenBy_standIn (h : n.isA (standIns k)) : ∃ p, WrittenBy k n p := by
  rcases standIns_cases h with ⟨rfl, body, rfl⟩ | ⟨rfl, properties, annot, rfl⟩ | ⟨rfl, l, rfl⟩
  · refine ⟨.block, rfl, fun _ => emitAs_full rfl, fun s => ?_⟩
    simp [Procedure.doc, Emit.block, hasShape, visits]
  · refine ⟨.objectExpression, rfl, fun _ => emitAs_full rfl, fun s => ?_⟩
    simp [Procedure.doc, Emit.objectExpression, hasShape, visits]
  · refine ⟨.literal, rfl, fun _ => emitAs_full rfl, fun s => ?_⟩
    simp [Procedure.doc, Emit.literal, hasShape, visits]

/-- Any node is written by some procedure as what it can be. -/
theorem exists_writtenBy (h : n.canBe k) : ∃ p, WrittenBy k n p := by
  by_cases hown : k = n.kind
  · subst hown
    exact exists_writtenBy_own h
  · rw [canBe_of_ne hown] at h
    exact exists_writtenBy_standIn h

/-- A node as what it cannot be is not written to the end. -/
theorem not_completes (hk : k = n.kind ∨ k ∈ assignedKinds) (h : n.canBe k = false) :
    ¬((Grammar.mk .full t).scope.emitAs k n).Completes := by
  by_cases hown : k = n.kind
  · subst hown
    rw [canBe_kind, Option.isSome_eq_false_iff, Option.isNone_iff_eq_none] at h
    rw [scope_emitAs]
    simp [h, Doc.Completes, Doc.fail]
  · rw [canBe_of_ne hown] at h
    have hk := hk.resolve_left hown
    simp only [assignedKinds, List.mem_cons, List.not_mem_nil, or_false] at hk
    -- each of these procedures knows nodes of its own kind and their stand-ins only
    rcases hk with rfl | rfl | rfl | rfl | rfl <;> rw [emitAs_full rfl] <;>
      simp only [Procedure.doc, Emit.Typed.variableDeclarator, Emit.block,
        Emit.objectExpression, Emit.literal, Emit.importAttribute] <;>
      split <;> first | exact absurd rfl hown | exact Doc.not_completes_expected _ _ | cases h

/-- **One node** is written to its end when it is well shaped and so are the nodes that it visits.
-/
theorem completes_iff (hk : k = n.kind ∨ k ∈ assignedKinds) :
    ((Grammar.mk .full t).scope.emitAs k n).Completes ↔
      n.wellShaped k ∧ (Grammar.mk .full t).scope.Writes (n.visits k) := by
  cases hcan : n.canBe k with
  | false =>
    have h := not_completes (t := t) hk hcan
    simp [wellShaped, hcan, h]
  | true =>
    obtain ⟨p, hp⟩ := exists_writtenBy hcan
    rw [hp.emitAs_eq, hp.completes_iff]
    simp [wellShaped, hcan]

/-! ## §3. Whole trees. -/

/-- A node visits nodes inside it only. Otherwise a scope that fails at the one visit and nowhere
else would stop the procedure, but a procedure asks for nodes inside only and would not notice. -/
theorem below_of_mem_visits {k' : Kind} {c : Node} (h : n.wellShaped k)
    (hc : (k', c) ∈ n.visits k) : c.Below n ∧ (k' = c.kind ∨ k' ∈ assignedKinds) := by
  obtain ⟨hcan, hshape⟩ : n.canBe k ∧ n.hasShape k := by simpa [wellShaped] using h
  obtain ⟨p, hp⟩ := exists_writtenBy hcan
  refine Classical.byContradiction fun hno => ?_
  classical
  let all : Scope := ⟨fun _ _ => .nil, fun _ => none⟩
  let others : Scope :=
    ⟨fun k m => if (k, m) = (k', c) then .stop .unfinished else .nil, fun _ => none⟩
  have hall : (p.doc all n).Completes := (hp.completes_iff all).mpr ⟨hshape, fun _ _ => rfl⟩
  obtain ⟨_, halike⟩ := Procedure.exists_alike hp.direct all others
  -- the two scopes differ at no node that the procedure dispatches
  have hsame : p.doc all n = p.doc others n := by
    refine halike.eq (fun _ _ => rfl) fun k m hm hk => ?_
    have hne : (k, m) ≠ (k', c) := by
      rintro ⟨⟩
      exact hno ⟨hm, hk⟩
    simp [all, others, hne]
  rw [hsame, hp.completes_iff] at hall
  have hstop : (others.emitAs k' c).Completes := hall.2 _ hc
  simp [others, Doc.Completes] at hstop

/-- **All the nodes**: a node is written to its end when all that is visited on the way is well
shaped. -/
theorem completes_iff_visited (t : PrecedenceTable) (n : Node) :
    ∀ k, k = n.kind ∨ k ∈ assignedKinds →
      (((Grammar.mk .full t).scope.emitAs k n).Completes ↔
        ∀ k' c, Visited k n k' c → c.wellShaped k') := by
  induction n using Node.below_induction with
  | step n ih =>
    intro k hk
    rw [completes_iff hk]
    constructor
    · rintro ⟨hshape, hwrites⟩ k' c hvisited
      cases hvisited with
      | root => exact hshape
      -- what is visited is inside, so the induction applies to it
      | inside hm hrest =>
        obtain ⟨hbelow, hkm⟩ := below_of_mem_visits hshape hm
        exact (ih _ hbelow _ hkm).mp (hwrites _ hm) _ _ hrest
    · intro h
      have hshape := h k n .root
      refine ⟨hshape, fun v hv => ?_⟩
      obtain ⟨hbelow, hkv⟩ := below_of_mem_visits hshape hv
      exact (ih _ hbelow _ hkv).mpr fun k' c hc => h k' c (.inside hv hc)

end Grammar

/-- **Success is a matter of shape.** In the typed dialect there is a text for a tree if and only if
every node that is visited on the way has the shape that is asked of it, whatever the ranks and the
layout. -/
theorem Generator.exists_generate_iff_wellShaped (p : PrecedenceTable) (l : Layout) (t : Node) :
    (∃ text, (Generator.mk ⟨.full, p⟩ l).generate t = .ok text) ↔
      ∀ k n, Visited t.kind t k n → n.wellShaped k := by
  rw [← Grammar.completes_iff_visited p t t.kind (.inl rfl)]
  show _ ↔ ((Grammar.mk .full p).emit t).halt? = none
  rw [generate_eq]
  cases ((Grammar.mk .full p).emit t).halt? <;> simp

end Estree
