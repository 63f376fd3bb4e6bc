import Estree.Emit.Assertion
import Estree.Emit.Namespace
import Estree.Emit.TypeDeclaration
import Estree.Emit.TypeExpression
import Estree.Proofs.Alike.Basic

/-!
# Types are written alike

One lemma for each procedure that writes assertions, namespaces, types and declarations of types.
-/

namespace Estree

namespace Alike

variable {s₁ s₂ : Scope} {n : Node} {r : Depth}

/-! ## §1. Assertions. -/

theorem asserted {c : Node} (h : c ∈ n.children)
    (hn : n.kind = .tsAsExpression ∨ n.kind = .tsSatisfiesExpression) :
    Inline s₁ s₂ n r (Emit.asserted s₁ c) (Emit.asserted s₂ c) := by
  refine .parensIf (fun hr => ?_) (emit h)
  have hs : s₁.rank .tsSatisfiesExpression = s₂.rank .tsSatisfiesExpression := by
    rcases hn with hn | hn
    · exact hr _ (.inr (.inr (.inr ⟨rfl, hn⟩)))
    · exact hn ▸ hr.self
  rw [ranksBelow_congr (hr.child h) hs]

theorem asExpression :
    Inline s₁ s₂ n r (Emit.asExpression s₁ n) (Emit.asExpression s₂ n) := by
  unfold Emit.asExpression
  split
  · exact parens (.append (.append (asserted (by simp) (.inl rfl)) (.text _)) (emit (by simp)))
  · exact expected _

theorem satisfiesExpression :
    Inline s₁ s₂ n r (Emit.satisfiesExpression s₁ n)
      (Emit.satisfiesExpression s₂ n) := by
  unfold Emit.satisfiesExpression
  split
  · exact .append (.append (asserted (by simp) (.inr rfl)) (.text _)) (emit (by simp))
  · exact expected _

theorem typeAssertion :
    Inline s₁ s₂ n r (Emit.typeAssertion s₁ n) (Emit.typeAssertion s₂ n) := by
  unfold Emit.typeAssertion
  split
  · exact .append (.append (.append (.text _) (emit (by simp))) (.text _))
      (operandOwn (by simp) rfl)
  · exact expected _

theorem nonNullExpression :
    Inline s₁ s₂ n r (Emit.nonNullExpression s₁ n)
      (Emit.nonNullExpression s₂ n) := by
  unfold Emit.nonNullExpression
  split
  · exact .append (operandOwn (by simp) rfl) (.text _)
  · exact expected _

/-! ## §2. Namespaces. -/

theorem moduleNamePart {c : Node} (h : c.Below n) :
    Inline s₁ s₂ n r (Emit.moduleNamePart s₁ c) (Emit.moduleNamePart s₂ c) := by
  unfold Emit.moduleNamePart
  split
  · split
    · exact .append (.append (.text _) (.text _)) (.text _)
    · exact .emitAs h (.inl rfl)
  · exact .emitAs h (.inl rfl)

theorem moduleBody {o : Option Node} (h : ∀ c, o = some c → c.Below n) :
    Inline s₁ s₂ n r (Emit.moduleBody s₁ o) (Emit.moduleBody s₂ o) := by
  cases o with
  | none => exact .text _
  | some c => exact .append (.text _) (.emitAs (h c rfl) (.inl rfl))

/-- The recursion goes through the bodies that are declarations in turn. -/
theorem moduleRest {o : Option Node} (h : ∀ c, o = some c → c.Below n) :
    Inline s₁ s₂ n r (Emit.moduleRest s₁ o) (Emit.moduleRest s₂ o) := by
  fun_induction Emit.moduleRest s₁ o with
  | case1 id body declare global kind ih =>
    have hm := h _ rfl
    rw [Emit.moduleRest]
    refine .append (.append (.text _) (moduleNamePart (.trans (.child ?_) hm)))
      (ih fun c hc => .trans (.child ?_) hm)
    · simp
    · simp [hc]
  | case2 body hb =>
    rw [Emit.moduleRest]
    · exact .append (.text _) (.emitAs (h _ rfl) (.inl rfl))
    · exact hb
  | case3 =>
    rw [Emit.moduleRest]
    exact .text _

theorem moduleDeclaration :
    Inline s₁ s₂ n r (Emit.moduleDeclaration s₁ n)
      (Emit.moduleDeclaration s₂ n) := by
  unfold Emit.moduleDeclaration
  split
  next m =>
    refine beside (onlyIf _ (.text _)) ?_
    split
    · exact .append (.text _) (moduleBody fun c hc => .child (by simp [hc]))
    · exact .append (.append (.text _) (moduleNamePart (.child (by simp))))
        (moduleRest fun c hc => .child (by simp [hc]))
  next => exact expected _

theorem moduleBlock :
    Inline s₁ s₂ n .zero (Emit.moduleBlock s₁ n) (Emit.moduleBlock s₂ n) := by
  unfold Emit.moduleBlock
  split
  · exact block fun _ h => h
  · exact expected _

/-! ## §3. Declarations of types. -/

theorem interfaceDeclaration :
    Inline s₁ s₂ n r (Emit.interfaceDeclaration s₁ n)
      (Emit.interfaceDeclaration s₂ n) := by
  unfold Emit.interfaceDeclaration
  split
  · exact .append (.append (.append (.append (.append (.append (onlyIf _ (.text _)) (.text _))
      (identifierName (.inr (.child (by simp))) .text)) (emit? (by simp +contextual))) (.text _))
      (onlyIf _ (.append (.append (.text _) (joined (by simp +contextual))) (.text _))))
      (emit (by simp))
  · exact expected _

theorem interfaceBody :
    Inline s₁ s₂ n .zero (Emit.interfaceBody s₁ n) (Emit.interfaceBody s₂ n) := by
  unfold Emit.interfaceBody
  split
  · refine braces ?_
    split
    · exact .nil
    · exact .append (.append (.append (.append (.deeper (by decide)) .lineEnd)
        (concat fun c hc => line (.append (emit hc) (.text _)))) .shallower) .indent
  · exact expected _

theorem heritage : Inline s₁ s₂ n r (Emit.heritage s₁ n) (Emit.heritage s₂ n) := by
  unfold Emit.heritage
  split
  · exact .append (emit (by simp)) (emit? (by simp +contextual))
  · exact expected _

theorem typeLiteral :
    Inline s₁ s₂ n r (Emit.typeLiteral s₁ n) (Emit.typeLiteral s₂ n) := by
  unfold Emit.typeLiteral
  split
  · exact braces (joined fun _ h => h)
  · exact expected _

theorem propertySignature :
    Inline s₁ s₂ n r (Emit.propertySignature s₁ n)
      (Emit.propertySignature s₂ n) := by
  unfold Emit.propertySignature
  split
  · exact .append (.append (.append (.append (onlyIf _ (.text _)) (onlyIf _ (.text _)))
      (key (by simp))) (onlyIf _ (.text _))) (annot (by simp +contextual))
  · exact expected _

theorem methodSignature :
    Inline s₁ s₂ n r (Emit.methodSignature s₁ n) (Emit.methodSignature s₂ n) := by
  unfold Emit.methodSignature
  split
  · exact .append (.append (.append (.append (.append (onlyIf _ (.append (.text _) (.text _)))
      (key (by simp))) (onlyIf _ (.text _))) (emit? (by simp +contextual)))
      (sequence (by simp +contextual))) (annot (by simp +contextual))
  · exact expected _

theorem indexSignature :
    Inline s₁ s₂ n r (Emit.indexSignature s₁ n) (Emit.indexSignature s₂ n) := by
  unfold Emit.indexSignature
  split
  · exact .append (.append (.append (onlyIf _ (.text _)) (onlyIf _ (.text _)))
      (brackets (joined (by simp +contextual)))) (annot (by simp +contextual))
  · exact expected _

theorem signatureOf {params : List Node} {returnType typeParameters : Option Node}
    (hp : ∀ c ∈ params, c ∈ n.children) (hr : ∀ c, returnType = some c → c ∈ n.children)
    (ht : ∀ c, typeParameters = some c → c ∈ n.children) :
    Inline s₁ s₂ n r (Emit.signatureOf s₁ params returnType typeParameters)
      (Emit.signatureOf s₂ params returnType typeParameters) :=
  .append (.append (emit? ht) (sequence hp)) (annot hr)

theorem callSignature :
    Inline s₁ s₂ n r (Emit.callSignature s₁ n) (Emit.callSignature s₂ n) := by
  unfold Emit.callSignature
  split
  · apply signatureOf <;> simp +contextual
  · refine .append (.text _) ?_
    apply signatureOf <;> simp +contextual
  · exact expected _

theorem typeAlias :
    Inline s₁ s₂ n r (Emit.typeAlias s₁ n) (Emit.typeAlias s₂ n) := by
  unfold Emit.typeAlias
  split
  · exact .append (.append (.append (.append (.append (.append (onlyIf _ (.text _)) (.text _))
      (identifierName (.inr (.child (by simp))) .text)) (emit? (by simp +contextual))) (.text _))
      (emit (by simp))) (.text _)
  · exact expected _

theorem enumDeclaration :
    Inline s₁ s₂ n r (Emit.enumDeclaration s₁ n) (Emit.enumDeclaration s₂ n) := by
  unfold Emit.enumDeclaration
  split
  next e =>
    refine .append (.append (.append (.append (.append (onlyIf _ (.text _)) (onlyIf _ (.text _)))
      (.text _)) (identifierName (.inr (.child (by simp))) .text)) (.text _))
      (braces (joined fun c hc => ?_))
    unfold EnumDeclaration.allMembers at hc
    split at hc <;> simp_all
  next => exact expected _

theorem enumMember :
    Inline s₁ s₂ n r (Emit.enumMember s₁ n) (Emit.enumMember s₂ n) := by
  unfold Emit.enumMember
  split
  · exact .append (key (by simp)) (lead _ (by simp +contextual))
  · exact expected _

/-! ## §4. Types. -/

theorem typeAnnot :
    Inline s₁ s₂ n r (Emit.typeAnnot s₁ n) (Emit.typeAnnot s₂ n) := by
  unfold Emit.typeAnnot
  split
  · exact emit (by simp)
  · exact expected _

theorem keywordType :
    Inline s₁ s₂ n r (Emit.keywordType n) (Emit.keywordType n) := by
  unfold Emit.keywordType
  split
  · exact .text _
  · exact .malformed (.inl rfl) _

theorem literalType :
    Inline s₁ s₂ n r (Emit.literalType s₁ n) (Emit.literalType s₂ n) := by
  unfold Emit.literalType
  split
  · exact emit (by simp)
  · exact expected _

theorem typeReference :
    Inline s₁ s₂ n r (Emit.typeReference s₁ n) (Emit.typeReference s₂ n) := by
  unfold Emit.typeReference
  split
  · exact .append (emit (by simp)) (emit? (by simp +contextual))
  · exact expected _

theorem qualifiedName :
    Inline s₁ s₂ n r (Emit.qualifiedName s₁ n) (Emit.qualifiedName s₂ n) := by
  unfold Emit.qualifiedName
  split
  · exact .append (.append (emit (by simp)) (.text _)) (emit (by simp))
  · exact expected _

theorem typeQuery :
    Inline s₁ s₂ n r (Emit.typeQuery s₁ n) (Emit.typeQuery s₂ n) := by
  unfold Emit.typeQuery
  split
  · exact .append (.append (.text _) (emit (by simp))) (emit? (by simp +contextual))
  · exact expected _

theorem memberType {wrapped : List Kind} {c : Node} (h : c ∈ n.children) :
    Inline s₁ s₂ n r (Emit.memberType s₁ wrapped c)
      (Emit.memberType s₂ wrapped c) :=
  .parensIf (fun _ => rfl) (emit h)

theorem unionType :
    Inline s₁ s₂ n r (Emit.unionType s₁ n) (Emit.unionType s₂ n) := by
  unfold Emit.unionType
  split
  · exact joinText fun c hc => memberType hc
  · exact expected _

theorem intersectionType :
    Inline s₁ s₂ n r (Emit.intersectionType s₁ n) (Emit.intersectionType s₂ n) := by
  unfold Emit.intersectionType
  split
  · exact joinText fun c hc => memberType hc
  · exact expected _

theorem arrayType :
    Inline s₁ s₂ n r (Emit.arrayType s₁ n) (Emit.arrayType s₂ n) := by
  unfold Emit.arrayType
  split
  · exact .append (memberType (by simp)) (.text _)
  · exact expected _

theorem indexedAccessType :
    Inline s₁ s₂ n r (Emit.indexedAccessType s₁ n)
      (Emit.indexedAccessType s₂ n) := by
  unfold Emit.indexedAccessType
  split
  · exact .append (memberType (by simp)) (brackets (emit (by simp)))
  · exact expected _

theorem typeOperator :
    Inline s₁ s₂ n r (Emit.typeOperator s₁ n) (Emit.typeOperator s₂ n) := by
  unfold Emit.typeOperator
  split
  · exact .append (.append (.text _) (.text _)) (memberType (by simp))
  · exact expected _

theorem parenthesizedType :
    Inline s₁ s₂ n r (Emit.parenthesizedType s₁ n)
      (Emit.parenthesizedType s₂ n) := by
  unfold Emit.parenthesizedType
  split
  · exact parens (emit (by simp))
  · exact expected _

theorem tupleType :
    Inline s₁ s₂ n r (Emit.tupleType s₁ n) (Emit.tupleType s₂ n) := by
  unfold Emit.tupleType
  split
  · exact brackets (joined fun _ h => h)
  · exact expected _

theorem optionalType :
    Inline s₁ s₂ n r (Emit.optionalType s₁ n) (Emit.optionalType s₂ n) := by
  unfold Emit.optionalType
  split
  · exact .append (memberType (by simp)) (.text _)
  · exact expected _

theorem restType : Inline s₁ s₂ n r (Emit.restType s₁ n) (Emit.restType s₂ n) := by
  unfold Emit.restType
  split
  · exact .append (.text _) (emit (by simp))
  · exact expected _

theorem namedTupleMember :
    Inline s₁ s₂ n r (Emit.namedTupleMember s₁ n) (Emit.namedTupleMember s₂ n) := by
  unfold Emit.namedTupleMember
  split
  · exact .append (.append (.append (emit (by simp)) (onlyIf _ (.text _))) (.text _))
      (emit (by simp))
  · exact expected _

theorem functionTypeOf {form : SignatureForm} {params : List Node}
    {returnType typeParameters : Option Node} {abstract : Bool}
    (hp : ∀ c ∈ params, c ∈ n.children) (hr : ∀ c, returnType = some c → c ∈ n.children)
    (ht : ∀ c, typeParameters = some c → c ∈ n.children) :
    Inline s₁ s₂ n r
      (Emit.functionTypeOf s₁ form params returnType typeParameters abstract)
      (Emit.functionTypeOf s₂ form params returnType typeParameters abstract) :=
  .append (.append (.append (.append (onlyIf _ (.append (onlyIf _ (.text _)) (.text _)))
    (emit? ht)) (sequence hp)) (.text _)) (emit? hr)

theorem functionType :
    Inline s₁ s₂ n r (Emit.functionType s₁ n) (Emit.functionType s₂ n) := by
  unfold Emit.functionType
  split
  · apply functionTypeOf <;> simp +contextual
  · apply functionTypeOf <;> simp +contextual
  · exact expected _

theorem conditionalType :
    Inline s₁ s₂ n r (Emit.conditionalType s₁ n) (Emit.conditionalType s₂ n) := by
  unfold Emit.conditionalType
  split
  · exact .append (.append (.append (.append (.append (.append (emit (by simp)) (.text _))
      (emit (by simp))) (.text _)) (emit (by simp))) (.text _)) (emit (by simp))
  · exact expected _

theorem inferType :
    Inline s₁ s₂ n r (Emit.inferType s₁ n) (Emit.inferType s₂ n) := by
  unfold Emit.inferType
  split
  · exact .append (.text _) (emit (by simp))
  · exact expected _

theorem typePredicate :
    Inline s₁ s₂ n r (Emit.typePredicate s₁ n) (Emit.typePredicate s₂ n) := by
  unfold Emit.typePredicate
  split
  · exact .append (.append (onlyIf _ (.text _)) (emit (by simp))) (lead _ (by simp +contextual))
  · exact expected _

/-! ## §5. Type parameters and mapped types. -/

theorem typeParameterName {name : TypeParameterName} (h : ∀ c ∈ name.children, c.Below n) :
    Inline s₁ s₂ n r (Emit.typeParameterName s₁ name)
      (Emit.typeParameterName s₂ name) := by
  cases name with
  | node c => exact .emitAs (h c (by simp)) (.inl rfl)
  | plain _ => exact .text _

theorem typeParameter :
    Inline s₁ s₂ n r (Emit.typeParameter s₁ n) (Emit.typeParameter s₂ n) := by
  unfold Emit.typeParameter
  split
  · refine .append (.append (.append (.append (.append (onlyIf _ (.text _)) (onlyIf _ (.text _)))
      (onlyIf _ (.text _))) (typeParameterName fun c hc => .child ?_))
      (lead _ (by simp +contextual))) (lead _ (by simp +contextual))
    exact List.mem_append_left _ (List.mem_append_left _ hc)
  · exact expected _

theorem typeParameters :
    Inline s₁ s₂ n r (Emit.typeParameters s₁ n) (Emit.typeParameters s₂ n) := by
  unfold Emit.typeParameters
  split
  · exact .append (.append (.text _) (joined fun _ h => h)) (.text _)
  · exact .append (.append (.text _) (joined fun _ h => h)) (.text _)
  · exact expected _

theorem mappedModifier {m : Option MappedModifier} {word : String} :
    Inline s₁ s₂ n r (Emit.mappedModifier m word) (Emit.mappedModifier m word) :=
  ofOption fun _ _ => .append (.text _) (.text _)

theorem mappedKey {m : MappedType} (hn : n = .tsMappedType m) :
    Inline s₁ s₂ n r (Emit.mappedKey s₁ n m) (Emit.mappedKey s₂ n m) := by
  unfold Emit.mappedKey
  split
  next p hp =>
    have hc : (Node.tsTypeParameter p).Below n := .child (by simp [hn, hp])
    refine .append (.append (typeParameterName fun c hc' => .trans (.child ?_) hc) (.text _))
      (ofOption fun c hor => .emitAs ?_ (.inl rfl))
    · exact List.mem_append_left _ (List.mem_append_left _ hc')
    · -- the constraint is one of the type or one of its parameter
      rcases Option.or_eq_some_iff.mp hor with h | ⟨-, h⟩
      · exact .child (by simp [hn, h])
      · exact .trans (.child (by simp [h])) hc
  next other _ ho => exact .malformed (.inr (.child (by simp [hn, ho]))) _
  next key _ hk =>
    refine .append (.append (emit ?_) (.text _)) (emit? fun c hc => ?_)
    · simp [hn, hk]
    · simp [hn, hc]
  next => exact .malformed (.inl rfl) _

theorem mappedType :
    Inline s₁ s₂ n r (Emit.mappedType s₁ n) (Emit.mappedType s₂ n) := by
  unfold Emit.mappedType
  split
  · exact .append (.append (.append (.append (.append (.text _) mappedModifier)
      (brackets (.append (mappedKey rfl) (lead _ (by simp +contextual))))) mappedModifier)
      (annot (by simp +contextual))) (.text _)
  · exact expected _

end Alike

end Estree
