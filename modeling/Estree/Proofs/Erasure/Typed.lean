import Estree.Emit
import Estree.Registry
import Estree.Proofs.Erasure.Plain

/-!
# The typed dialect on erased nodes

Where the two dialects have procedures of their own for a kind, the two write an erased node alike,
but for three things: the nodes that only the typed dialect writes, an arrow function whose only
parameter is a name, and a method without a body.

Main results:

* `Emit.classHeader_typed`: the headers of classes.
* `Emit.methodOf_typed`: the parts of methods.
* `Registry.full_doc`: all procedures that the dialects do not share.
-/

namespace Estree

/-! ## §1. Nodes of both dialects. -/

/-- The kinds that only the typed dialect writes. -/
def Kind.isTyped : Kind → Bool
  | .accessorProperty | .decorator
  | .tsAsExpression | .tsSatisfiesExpression | .tsTypeAssertion | .tsNonNullExpression
  | .tsDeclareFunction | .tsEmptyBodyFunctionExpression | .tsAbstractMethodDefinition
  | .tsAbstractPropertyDefinition | .tsAbstractAccessorProperty | .tsParameterProperty
  | .tsInterfaceDeclaration | .tsInterfaceBody | .tsInterfaceHeritage
  | .tsExpressionWithTypeArguments | .tsClassImplements | .tsTypeAliasDeclaration
  | .tsEnumDeclaration | .tsEnumMember | .tsModuleDeclaration | .tsModuleBlock
  | .tsTypeAnnot | .tsAnyKeyword | .tsBigIntKeyword | .tsBooleanKeyword | .tsIntrinsicKeyword
  | .tsNeverKeyword | .tsNullKeyword | .tsNumberKeyword | .tsObjectKeyword | .tsStringKeyword
  | .tsSymbolKeyword | .tsUndefinedKeyword | .tsUnknownKeyword | .tsVoidKeyword | .tsThisType
  | .tsLiteralType | .tsTemplateLiteralType | .tsTypeReference | .tsQualifiedName | .tsTypeQuery
  | .tsUnionType | .tsIntersectionType | .tsTupleType | .tsOptionalType | .tsRestType
  | .tsParenthesizedType | .tsNamedTupleMember | .tsArrayType | .tsIndexedAccessType
  | .tsTypeOperator | .tsConditionalType | .tsInferType | .tsTypePredicate | .tsFunctionType
  | .tsConstructorType | .tsConstructSignatureDeclaration | .tsCallSignatureDeclaration
  | .tsMappedType | .tsTypeLiteral | .tsPropertySignature | .tsMethodSignature | .tsIndexSignature
  | .tsTypeParameterDeclaration | .tsTypeParameterInstantiation | .tsTypeParameter => true
  | _ => false

/-- Every other kind has a procedure in both dialects or in neither. -/
theorem Registry.full_eq_none {k : Kind} (hk : base.get? k = none) (ht : k.isTyped = false) :
    full.get? k = none := by
  revert hk ht
  cases k <;> decide

/-- The dialects rank every other kind alike. -/
theorem PrecedenceTable.rank_eq {k : Kind} (ht : k.isTyped = false) :
    javaScript.rank k = typeScript.rank k := by
  revert ht
  cases k <;> decide

namespace Node

/-- The node is one that both dialects write alike when it is erased. -/
structure Plain (n : Node) : Prop where
  /-- The plain dialect has the kind. -/
  kind : n.kind.isTyped = false
  /-- An arrow function does not have a name as its only parameter. -/
  params : ∀ f p, n = .arrowFunctionExpression f → f.params = [p] → p.kind ≠ .identifier
  /-- A method has a body. -/
  body : ∀ value f, n.methodValue? = some value → value.function? = some f → f.body ≠ none

/-- The node and all the nodes inside are plain. -/
def AllPlain (n : Node) : Prop := n.Plain ∧ ∀ c : Node, c.Below n → c.Plain

/-- A tree is plain when its root is and the trees below it are. -/
theorem allPlain_iff {n : Node} : n.AllPlain ↔ n.Plain ∧ ∀ m ∈ n.children, m.AllPlain :=
  and_congr_right fun _ => forall_below_iff

/-- What is below a plain tree is plain. -/
theorem AllPlain.below {c n : Node} (h : n.AllPlain) (hc : c.Below n) : c.AllPlain :=
  ⟨h.2 c hc, fun m hm => h.2 m (hm.trans hc)⟩

end Node

namespace Emit

variable (s : Scope)

/-! ## §2. Documents of both dialects. -/

/-- Only a lone name stands without parentheses. -/
theorem arrowParams_eq_sequence {params : List Node}
    (h : ∀ p, params = [p] → p.kind ≠ .identifier) :
    arrowParams s params = s.sequence params := by
  unfold arrowParams
  split
  · exact absurd rfl (h _ rfl)
  · rfl

/-- An identifier without a type and a question mark. -/
theorem identifier_typed {n : Node} (h : n.clear = n) :
    (Plain.identifier n).SameUpTo id (Typed.identifier s n) := by
  unfold Plain.identifier Typed.identifier
  split
  · rw [Node.clear, Node.identifier.injEq] at h
    obtain ⟨-, rfl, rfl, rfl⟩ := h
    exact .of_eq rfl (fun _ => rfl) fun _ _ => rfl
  · exact .refl _

/-- A declaration that is not `declare`. -/
theorem variableDeclaration_typed {n : Node} (h : n.clear = n) :
    (Plain.variableDeclaration s n).SameUpTo id (Typed.variableDeclaration s n) := by
  unfold Plain.variableDeclaration Typed.variableDeclaration
  split
  · rw [Node.clear, Node.variableDeclaration.injEq] at h
    obtain ⟨-, -, rfl⟩ := h
    exact .append (.nil_append _) (.refl _)
  · exact .refl _

/-- A declarator that is not definite. -/
theorem variableDeclarator_typed {n : Node} (h : n.clear = n) :
    (Plain.variableDeclarator s n).SameUpTo id (Typed.variableDeclarator s n) := by
  unfold Plain.variableDeclarator Typed.variableDeclarator
  split
  · rw [Node.clear, Node.variableDeclarator.injEq] at h
    obtain ⟨-, -, rfl⟩ := h
    rw [Typed.declared_false]
    exact .refl _
  · exact .refl _

/-- Without type parameters and a result type, a signature is the parameters. -/
theorem functionSignature_typed {f : FunctionLike} (h : f.clear = f) :
    (s.sequence f.params).SameUpTo id (Typed.functionSignature s f) := by
  rw [← h]
  exact (Doc.SameUpTo.nil_append _).trans (.append_nil _)

/-- A function without type parameters and a return type. -/
theorem functionWithBody_typed (n : Node) {f : FunctionLike} (h : f.clear = f) :
    (Plain.functionWithBody s n f).SameUpTo id (Typed.functionWithBody s n f) := by
  unfold Plain.functionWithBody Typed.functionWithBody
  exact .append (.append (.append (.refl _) (functionSignature_typed s h)) (.refl _)) (.refl _)

/-- A function or a function expression. -/
theorem function_typed {n : Node} (h : n.clear = n) :
    (Plain.function s n).SameUpTo id (Typed.function s n) := by
  unfold Plain.function Typed.function
  split
  · rw [Node.clear, Node.function.injEq] at h
    exact functionWithBody_typed s _ h.2
  · rw [Node.clear, Node.function.injEq] at h
    exact functionWithBody_typed s _ h.2
  · exact .refl _

/-- An arrow: its one parameter has no type either. -/
theorem arrowFunction_typed {n : Node} (h : n.clear = n) (hn : n.Plain) :
    (Plain.arrowFunction s n).SameUpTo id (Typed.arrowFunction s n) := by
  unfold Plain.arrowFunction Typed.arrowFunction
  split
  next f =>
    rw [Node.clear, Node.arrowFunctionExpression.injEq] at h
    rw [arrowParams_eq_sequence s fun p => hn.params f p rfl, ← h]
    refine .append ?_ (.refl _)
    exact (Doc.SameUpTo.append (.nil_append _) (.refl _)).trans (.append_nil _)
  next => exact .refl _

/-- **The header of a class**: the plain dialect writes a space after `class` and after the name,
the typed one before the name and after what follows it. -/
theorem classHeader_typed (name : Option Node) :
    ("class "
      ++ .ofOption name fun n => .ofExcept n.identifierName Doc.text ++ " " : Doc).SameUpTo id
      (.nil ++ .nil ++ .nil ++ "class"
        ++ .ofOption name (fun n => " " ++ .ofExcept n.identifierName Doc.text)
        ++ .nil ++ " ") := by
  have hword : ∀ t, "class " ++ t = "class" ++ (" " ++ t) := by
    intro t
    rw [← String.append_assoc]
    rfl
  cases name with
  | none =>
    refine .of_eq rfl (fun _ => rfl) fun l level => ?_
    show Piece.renderAll l [.text "class "] = Piece.renderAll l [.text "class", .text " "]
    simp [Piece.renderAll, String.join_cons, Piece.render]
  | some n =>
    cases hn : n.identifierName with
    | error e =>
      -- both dialects stop at the name, after the same text
      refine .of_eq ?_ (fun level => ?_) fun l level => ?_
      · simp [Doc.ofOption, Doc.ofExcept, hn]
      · simp [Doc.ofOption, Doc.ofExcept, hn, Doc.levelAfter, Doc.levelAfter_append, Doc.fail]
      · simp [Doc.ofOption, Doc.ofExcept, hn, Doc.pieces, Doc.pieces_append, Doc.fail,
          Piece.renderAll, String.join_cons, Piece.render]
    | ok name =>
      refine .of_eq ?_ (fun level => ?_) fun l level => ?_
      · simp [Doc.ofOption, Doc.ofExcept, hn]
      · simp [Doc.ofOption, Doc.ofExcept, hn, Doc.levelAfter, Doc.levelAfter_append]
      · simp [Doc.ofOption, Doc.ofExcept, hn, Doc.pieces, Doc.pieces_append, Piece.renderAll,
          String.join_cons, Piece.render, hword]

/-- The superclass without type arguments. -/
theorem superclass_typed (superClass : Option Node) :
    (Doc.ofOption superClass fun n => superclass s n ++ " ").SameUpTo id
      (.ofOption superClass fun n => superclass s n ++ .nil ++ " ") := by
  cases superClass with
  | none => exact .refl _
  | some n => exact .append (.append_nil _) (.refl _)

/-- **A class header**: the plain procedure writes the name, the superclass and the blanks in its
own order, and the texts come out the same. -/
theorem classOf_typed {c : ClassLike} (h : c.clear = c) :
    (Plain.classOf s c).SameUpTo id (Typed.classOf s c) := by
  rw [← h]
  have hhead := (classHeader_typed c.id).append (superclass_typed s c.superClass)
  exact (hhead.trans (.append_nil _)).append (.refl _)

/-- A class or a class expression. -/
theorem classLike_typed {n : Node} (h : n.clear = n) :
    (Plain.classLike s n).SameUpTo id (Typed.classLike s n) := by
  unfold Plain.classLike Typed.classLike
  split
  · rw [Node.clear, Node.classDeclaration.injEq] at h
    exact classOf_typed s h
  · rw [Node.clear, Node.classExpression.injEq] at h
    exact classOf_typed s h
  · exact .refl _

/-- A field without modifiers and annotation. -/
theorem classField_typed {f : ClassField} (h : f.clear = f) :
    (Plain.classField s (.classField .property f)).SameUpTo id
      (Typed.classField s (.classField .property f)) := by
  rw [← h]
  have hstatic : (Doc.onlyIf f.static "static ").SameUpTo id
      (.nil ++ .nil ++ .onlyIf f.static "static ") := .of_eq rfl (fun _ => rfl) fun _ _ => rfl
  have hmodifiers : Doc.nil.SameUpTo id (fieldModifiers .property f.clear) :=
    .of_eq rfl (fun _ => rfl) fun _ _ => rfl
  have hkey := (hstatic.append_blank hmodifiers).append (.refl (s.key f.key f.computed))
  have hmarks := ((hkey.append_blank (.refl _)).append_blank (.refl _)).append_blank (.refl _)
  exact hmarks.append (.refl _)

/-- The end of a method that has a body. -/
theorem methodBody_typed {body : Option Node} (h : body ≠ none) :
    Typed.methodBody s body = .ofOption body fun b => " " ++ s.emit b := by
  cases body with
  | none => exact absurd rfl h
  | some b => rfl

/-- **The parts of a method** that is not abstract and has a body, with none of the modifiers. -/
theorem methodOf_typed {p : MethodParts} (hv : p.value.clear = p.value) (hb : p.value.body ≠ none)
    (ha : p.abstract = false) (hd : ∀ m, p.definition = some m → m.clear = m) :
    (Plain.methodOf s p).SameUpTo id (Typed.methodOf s p) := by
  obtain ⟨key, value, kind, computed, isStatic, _, definition⟩ := p
  subst ha
  -- what the typed procedure writes besides is empty in a cleared definition
  have hstatic : (Doc.onlyIf isStatic "static ").SameUpTo id
      (.ofOption definition (fun m => decoratorLines s m.decorators)
        ++ .onlyIf isStatic "static ") := by
    cases definition with
    | none => exact .nil_append _
    | some m =>
      rw [← hd m rfl]
      exact .nil_append _
  have hmodifiers : Doc.nil.SameUpTo id
      (methodModifiers ⟨key, value, kind, computed, isStatic, false, definition⟩) := by
    cases definition with
    | none => exact .refl _
    | some m =>
      rw [← hd m rfl]
      exact .of_eq rfl (fun _ => rfl) fun _ _ => rfl
  have hmarks : Doc.nil.SameUpTo id
      (.ofOption definition fun m => .onlyIf m.optional "?" ++ s.emit? m.typeParameters) := by
    cases definition with
    | none => exact .refl _
    | some m =>
      rw [← hd m rfl]
      exact .of_eq rfl (fun _ => rfl) fun _ _ => rfl
  have hhead := (hstatic.append_blank hmodifiers).append
    (.refl (methodHead s ⟨key, value, kind, computed, isStatic, false, definition⟩))
  unfold Plain.methodOf Typed.methodOf
  rw [methodBody_typed s hb]
  exact ((hhead.append_blank hmarks).append (functionSignature_typed s hv)).append (.refl _)

/-- The function that an erased method holds is erased. -/
theorem methodValue_cases {value : Node} (hv : value.clear = value) :
    (∃ e, methodValue value = .error e) ∨
      ∃ f, methodValue value = .ok f ∧ value.function? = some f ∧ f.clear = f := by
  unfold methodValue
  cases hf : value.function? with
  | none => exact .inl ⟨_, rfl⟩
  | some f =>
    refine .inr ⟨f, rfl, rfl, ?_⟩
    unfold Node.function? at hf
    split at hf
    · rw [Node.clear, Node.function.injEq] at hv
      exact Option.some.inj hf ▸ hv.2
    · cases hf

/-- A method: its function is cleared with it. -/
theorem method_typed {n : Node} (h : n.clear = n) (hch : ∀ c ∈ n.children, c.clear = c)
    (hn : n.Plain) (hm : ∀ p, n = .property p → (p.method || p.kind != "init") = true) :
    (Plain.method s n).SameUpTo id (Typed.method s n) := by
  cases n with
  | methodDefinition m =>
    rw [Node.clear, Node.methodDefinition.injEq] at h
    -- a value that is no function stops both dialects at the same point
    rcases methodValue_cases (hch m.value (by simp)) with ⟨e, he⟩ | ⟨f, hf, hfn, hfc⟩
    · simp only [Plain.method, Typed.method, MethodParts.of, MethodParts.ofMethod, he]
      exact .refl _
    · simp only [Plain.method, Typed.method, MethodParts.of, MethodParts.ofMethod, hf, Except.map,
        Doc.ofExcept]
      have habstract : m.abstract = false := congrArg Method.abstract h.symm
      refine methodOf_typed s hfc (hn.body m.value f rfl hfn) (by simp [habstract]) ?_
      rintro _ ⟨⟩
      exact h
  | property p =>
    -- an entry of an object comes here only if it is a method, so its body is known to be plain
    have hmethod : Node.methodValue? (.property p) = some p.value := if_pos (hm p rfl)
    rcases methodValue_cases (hch p.value (by simp)) with ⟨e, he⟩ | ⟨f, hf, hfn, hfc⟩
    · simp only [Plain.method, Typed.method, MethodParts.of, he]
      exact .refl _
    · simp only [Plain.method, Typed.method, MethodParts.of, hf, Except.map, Doc.ofExcept]
      exact methodOf_typed s hfc (hn.body p.value f hmethod hfn) rfl fun _ h => (by cases h)
  | tsAbstractMethodDefinition m => cases hn.kind
  | _ => exact .refl _

/-- A `new` without type arguments. -/
theorem newExpression_typed {n : Node} (h : n.clear = n) :
    (Plain.newExpression s n).SameUpTo id (Typed.newExpression s n) := by
  unfold Plain.newExpression Typed.newExpression
  split
  · rw [Node.clear, Node.newExpression.injEq] at h
    obtain ⟨-, -, -, rfl⟩ := h
    exact .append (.append_nil _) (.refl _)
  · exact .refl _

/-- A call without type arguments. -/
theorem callExpression_typed {n : Node} (h : n.clear = n) :
    (Plain.callExpression s n).SameUpTo id (Typed.callExpression s n) := by
  unfold Plain.callExpression Typed.callExpression
  split
  · rw [Node.clear, Node.callExpression.injEq] at h
    obtain ⟨-, -, -, rfl⟩ := h
    exact .append (.append_nil _) (.refl _)
  · exact .refl _

/-- A pattern without a type. -/
theorem objectPattern_typed {n : Node} (h : n.clear = n) :
    (Plain.objectPattern s n).SameUpTo id (Typed.objectPattern s n) := by
  unfold Plain.objectPattern Typed.objectPattern
  split
  · rw [Node.clear, Node.objectPattern.injEq] at h
    obtain ⟨-, rfl⟩ := h
    exact .append_nil _
  · exact .refl _

/-- A specifier without a kind. -/
theorem importSpecifier_typed {n : Node} (h : n.clear = n) :
    importSpecifier .typed n = importSpecifier .plain n := by
  unfold importSpecifier
  split
  · rw [Node.clear, Node.importSpecifier.injEq] at h
    obtain ⟨-, -, rfl⟩ := h
    rfl
  · rfl

/-- An import: its specifiers are cleared as well. -/
theorem importDeclaration_typed {n : Node} (h : n.clear = n) (hch : ∀ c ∈ n.children, c.clear = c) :
    (importDeclaration .plain s n).SameUpTo id (importDeclaration .typed s n) := by
  unfold importDeclaration
  split
  next specifiers source kind attributes =>
    have hspec : importSpecifiers .typed specifiers = importSpecifiers .plain specifiers := by
      have hmap : (specifiers.dropWhile isLeading).map (importSpecifier .typed)
          = (specifiers.dropWhile isLeading).map (importSpecifier .plain) := by
        refine List.map_congr_left fun c hc => importSpecifier_typed (hch c ?_)
        simp [(List.dropWhile_sublist _).subset hc]
      simp only [importSpecifiers, hmap]
    rw [Node.clear, Node.importDeclaration.injEq] at h
    obtain ⟨-, -, rfl, -⟩ := h
    rw [hspec]
    exact .refl _
  next => exact .refl _

theorem importExpression_typed {n : Node} (h : n.clear = n) :
    (Plain.importExpression s n).SameUpTo id (Typed.importExpression s n) := by
  unfold Plain.importExpression Typed.importExpression
  split
  · rw [Node.clear, Node.importExpression.injEq] at h
    obtain ⟨-, rfl, rfl⟩ := h
    exact .append ((Doc.SameUpTo.append_nil _).trans (.append_nil _)) (.refl _)
  · exact .refl _

/-- A specifier of an export. -/
theorem exportSpecifier_typed {n : Node} (h : n.clear = n) :
    exportSpecifier .typed n = exportSpecifier .plain n := by
  unfold exportSpecifier
  split
  · rw [Node.clear, Node.exportSpecifier.injEq] at h
    obtain ⟨-, -, rfl⟩ := h
    rfl
  · rfl

/-- An export: so are its specifiers. -/
theorem exportNamed_typed {n : Node} (h : n.clear = n) (hch : ∀ c ∈ n.children, c.clear = c) :
    (exportNamed .plain s n).SameUpTo id (exportNamed .typed s n) := by
  unfold exportNamed
  split
  next e =>
    have hspec : e.specifiers.map (exportSpecifier .typed)
        = e.specifiers.map (exportSpecifier .plain) :=
      List.map_congr_left fun c hc => exportSpecifier_typed (hch c (by simp [hc]))
    have hkind : e.exportKind = none := by
      rw [Node.clear, Node.exportNamedDeclaration.injEq] at h
      rw [← h]
    rw [hspec, hkind]
    exact .refl _
  next => exact .refl _

theorem exportAll_typed {n : Node} (h : n.clear = n) :
    (exportAll .plain s n).SameUpTo id (exportAll .typed s n) := by
  unfold exportAll
  split
  · rw [Node.clear, Node.exportAllDeclaration.injEq] at h
    obtain ⟨-, -, rfl, -⟩ := h
    exact .refl _
  · exact .refl _

end Emit

/-! ## §3. Procedures. -/

namespace Registry

/-- **The procedures of the two dialects write an erased node alike.** -/
theorem full_doc {k : Kind} {p p' : Procedure} {n : Node} (hp : base.get? k = some p)
    (hp' : full.get? k = some p') (h : n.clear = n) (hch : ∀ c ∈ n.children, c.clear = c)
    (hn : n.Plain) (hk : n.DispatchedAs k) (s : Scope) :
    (p.doc s n).SameUpTo id (p'.doc s n) := by
  cases k with
  | identifier => cases hp; cases hp'; exact Emit.identifier_typed s h
  | variableDeclaration => cases hp; cases hp'; exact Emit.variableDeclaration_typed s h
  | variableDeclarator => cases hp; cases hp'; exact Emit.variableDeclarator_typed s h
  | functionDeclaration | functionExpression => cases hp; cases hp'; exact Emit.function_typed s h
  | arrowFunctionExpression => cases hp; cases hp'; exact Emit.arrowFunction_typed s h hn
  | classDeclaration => cases hp; cases hp'; exact Emit.classLike_typed s h
  | newExpression => cases hp; cases hp'; exact Emit.newExpression_typed s h
  | callExpression => cases hp; cases hp'; exact Emit.callExpression_typed s h
  | objectPattern => cases hp; cases hp'; exact Emit.objectPattern_typed s h
  | importDeclaration => cases hp; cases hp'; exact Emit.importDeclaration_typed s h hch
  | importExpression => cases hp; cases hp'; exact Emit.importExpression_typed s h
  | exportNamedDeclaration => cases hp; cases hp'; exact Emit.exportNamed_typed s h hch
  | exportAllDeclaration => cases hp; cases hp'; exact Emit.exportAll_typed s h
  | methodDefinition =>
    cases hp; cases hp'
    refine Emit.method_typed s h hch hn fun p hnp => ?_
    subst hnp
    exact hk.isMethod
  | propertyDefinition =>
    obtain ⟨f, rfl⟩ := n.exists_of_kind.2.1 (hk.eq_kind (by decide))
    rw [Node.clear, Node.classField.injEq] at h
    cases hp; cases hp'; exact Emit.classField_typed s h.2
  | restElement =>
    obtain ⟨argument, annot, rfl⟩ := n.exists_of_kind.2.2.1 (hk.eq_kind (by decide))
    rw [Node.clear, Node.restElement.injEq] at h
    obtain ⟨-, rfl⟩ := h
    cases hp; cases hp'; exact .append_nil _
  | arrayPattern =>
    obtain ⟨es, annot, rfl⟩ := n.exists_of_kind.2.2.2 (hk.eq_kind (by decide))
    rw [Node.clear, Node.arrayPattern.injEq] at h
    obtain ⟨-, rfl⟩ := h
    cases hp; cases hp'; exact .append_nil _
  -- every other kind has one procedure for both dialects
  | _ => cases hp <;> cases hp' <;> exact .refl _

end Registry

end Estree
