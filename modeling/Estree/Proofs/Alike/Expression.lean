import Estree.Emit.Operator
import Estree.Emit.Call
import Estree.Emit.Literal
import Estree.Emit.Collection
import Estree.Proofs.Alike.Basic

/-!
# Expressions are written alike

One lemma for each procedure that writes operators, calls, literals, arrays and objects. Ranks
decide about parentheses and, before a sign, about a space; everything else is the same in both
scopes.
-/

namespace Estree

namespace Alike

variable {s₁ s₂ : Scope} {n : Node} {r : Depth}

/-! ## §1. Unary operators. -/

/-- The two ways to write a prefix operator differ in a space and in parentheses. -/
theorem prefixed {operator : String} {argument : Node} (h : argument ∈ n.children) :
    Inline s₁ s₂ n r (Emit.prefixed s₁ n operator argument)
      (Emit.prefixed s₂ n operator argument) := by
  have hform : ∀ s : Scope, Emit.prefixed s n operator argument =
      .text operator
        ++ .onlyIf (Emit.isLong operator
            || (!s.needsParens argument n false && Emit.repeatsSign argument operator)) " "
        ++ (s.emit argument).parensIf (s.needsParens argument n false) := by
    intro s
    unfold Emit.prefixed
    cases hp : s.needsParens argument n false <;> simp [Doc.parensIf, Scope.parenthesized]
  rw [hform, hform]
  have hcongr (hr : s₁.RanksAgree s₂ n) :
      s₁.needsParens argument n false = s₂.needsParens argument n false :=
    needsParens_congr (hr.child h) hr.self
  refine .append (.append (.text _) (.mark (fun hr => ?_) (.inl rfl))) (.parensIf hcongr (emit h))
  rw [hcongr hr]

theorem unaryExpression :
    Inline s₁ s₂ n r (Emit.unaryExpression s₁ n) (Emit.unaryExpression s₂ n) := by
  unfold Emit.unaryExpression
  split
  · exact prefixed (by simp)
  · exact .append (emit (by simp)) (.text _)
  · exact expected _

theorem updateExpression :
    Inline s₁ s₂ n r (Emit.updateExpression s₁ n) (Emit.updateExpression s₂ n) := by
  unfold Emit.updateExpression
  split
  · exact .append (.text _) (emit (by simp))
  · exact .append (emit (by simp)) (.text _)
  · exact expected _

theorem awaitExpression :
    Inline s₁ s₂ n r (Emit.awaitExpression s₁ n) (Emit.awaitExpression s₂ n) := by
  unfold Emit.awaitExpression
  split
  · exact .append (.text _) (operandOf (by simp))
  · exact expected _

theorem yieldExpression :
    Inline s₁ s₂ n r (Emit.yieldExpression s₁ n) (Emit.yieldExpression s₂ n) := by
  unfold Emit.yieldExpression
  split
  · refine .append ?_ (lead _ (by simp))
    split
    · exact .text _
    · exact .text _
  · exact expected _

theorem Plain.restElement :
    Inline s₁ s₂ n r (Emit.Plain.restElement s₁ n) (Emit.Plain.restElement s₂ n) := by
  unfold Emit.Plain.restElement
  split
  · exact .append (.text _) (emit (by simp))
  · exact .append (.text _) (emit (by simp))
  · exact expected _

theorem Typed.restElement :
    Inline s₁ s₂ n r (Emit.Typed.restElement s₁ n) (Emit.Typed.restElement s₂ n) := by
  unfold Emit.Typed.restElement
  split
  · exact .append (.append (.text _) (emit (by simp))) (annot (by simp +contextual))
  · exact expected _

/-! ## §2. Binary operators. -/

theorem infixed {operator : String} {left right : Node} (hl : left ∈ n.children)
    (hr : right ∈ n.children) :
    Inline s₁ s₂ n r (Emit.infixed s₁ n operator left right)
      (Emit.infixed s₂ n operator left right) :=
  .parensIf (fun _ => rfl) (.append (.append (.append (.append (operandOf hl) (.text _)) (.text _))
    (.text _)) (operandOf hr))

theorem binaryExpression :
    Inline s₁ s₂ n r (Emit.binaryExpression s₁ n) (Emit.binaryExpression s₂ n) := by
  unfold Emit.binaryExpression
  split
  · exact infixed (by simp) (by simp)
  · exact infixed (by simp) (by simp)
  · exact expected _

theorem assignmentExpression :
    Inline s₁ s₂ n r (Emit.assignmentExpression s₁ n)
      (Emit.assignmentExpression s₂ n) := by
  unfold Emit.assignmentExpression
  split
  · exact .append (.append (.append (.append (emit (by simp)) (.text _)) (.text _)) (.text _))
      (emit (by simp))
  · exact expected _

theorem assignmentPattern :
    Inline s₁ s₂ n r (Emit.assignmentPattern s₁ n)
      (Emit.assignmentPattern s₂ n) := by
  unfold Emit.assignmentPattern
  split
  · exact .append (.append (emit (by simp)) (.text _)) (emit (by simp))
  · exact expected _

theorem conditionalExpression :
    Inline s₁ s₂ n r (Emit.conditionalExpression s₁ n)
      (Emit.conditionalExpression s₂ n) := by
  unfold Emit.conditionalExpression
  split
  next test consequent alternate =>
    refine .append (.append (.append (.append (.parensIf (fun hr => ?_) (emit (by simp))) (.text _))
      (emit (by simp))) (.text _)) (emit (by simp))
    unfold Emit.testNeedsParens
    rw [hr.child (c := test) (by simp), hr.position (by decide)]
  next => exact expected _

theorem sequenceExpression :
    Inline s₁ s₂ n r (Emit.sequenceExpression s₁ n)
      (Emit.sequenceExpression s₂ n) := by
  unfold Emit.sequenceExpression
  split
  · exact sequence (by simp)
  · exact expected _

/-! ## §3. Calls and members. -/

theorem newCallee {callee : Node} (h : callee ∈ n.children) :
    Inline s₁ s₂ n r (Emit.newCallee s₁ callee) (Emit.newCallee s₂ callee) := by
  refine .append (.text _) (.parensIf (fun hr => ?_) (emit h))
  rw [ranksBelow_congr (hr.child h) (hr.position (by decide))]

theorem Plain.newExpression :
    Inline s₁ s₂ n r (Emit.Plain.newExpression s₁ n) (Emit.Plain.newExpression s₂ n) := by
  unfold Emit.Plain.newExpression
  split
  · exact .append (newCallee (by simp)) (sequence (by simp +contextual))
  · exact expected _

theorem Typed.newExpression :
    Inline s₁ s₂ n r (Emit.Typed.newExpression s₁ n) (Emit.Typed.newExpression s₂ n) := by
  unfold Emit.Typed.newExpression
  split
  · exact .append (.append (newCallee (by simp)) (emit? (by simp +contextual)))
      (sequence (by simp +contextual))
  · exact expected _

theorem Plain.callExpression :
    Inline s₁ s₂ n r (Emit.Plain.callExpression s₁ n) (Emit.Plain.callExpression s₂ n) := by
  unfold Emit.Plain.callExpression
  split
  · exact .append (.append (operand (by simp) (by decide)) (onlyIf _ (.text _)))
      (sequence (by simp +contextual))
  · exact expected _

theorem Typed.callExpression :
    Inline s₁ s₂ n r (Emit.Typed.callExpression s₁ n) (Emit.Typed.callExpression s₂ n) := by
  unfold Emit.Typed.callExpression
  split
  · exact .append (.append (.append (operand (by simp) (by decide)) (onlyIf _ (.text _)))
      (emit? (by simp +contextual))) (sequence (by simp +contextual))
  · exact expected _

theorem chainExpression :
    Inline s₁ s₂ n r (Emit.chainExpression s₁ n) (Emit.chainExpression s₂ n) := by
  unfold Emit.chainExpression
  split
  · exact emit (by simp)
  · exact expected _

theorem memberName {name : Node} {computed optional : Bool} (h : name ∈ n.children) :
    Inline s₁ s₂ n r (Emit.memberName s₁ name computed optional)
      (Emit.memberName s₂ name computed optional) := by
  unfold Emit.memberName
  split
  · exact .append (onlyIf _ (.text _)) (brackets (emit h))
  · refine .append ?_ (emit h)
    split
    · exact .text _
    · exact .text _

theorem memberExpression :
    Inline s₁ s₂ n r (Emit.memberExpression s₁ n) (Emit.memberExpression s₂ n) := by
  unfold Emit.memberExpression
  split
  · exact .append (operand (by simp) (by decide)) (memberName (by simp))
  · exact expected _

theorem taggedTemplate :
    Inline s₁ s₂ n r (Emit.taggedTemplate s₁ n) (Emit.taggedTemplate s₂ n) := by
  unfold Emit.taggedTemplate
  split
  · exact .append (operand (by simp) (by decide)) (emit (by simp))
  · exact expected _

theorem metaProperty :
    Inline s₁ s₂ n r (Emit.metaProperty n) (Emit.metaProperty n) := by
  unfold Emit.metaProperty
  split
  · exact identifierName (.inr (.child (by simp))) fun t =>
      .append (.append (.text _) (.text _)) (identifierName (.inr (.child (by simp))) .text)
  · exact expected _

/-! ## §4. Literals and templates. -/

theorem regExp {l : Literal} :
    Inline s₁ s₂ n r (Emit.regExp n l) (Emit.regExp n l) := by
  unfold Emit.regExp
  split
  · exact .append (.append (.append (.text _) (.text _)) (.text _)) (.text _)
  · exact .malformed (.inl rfl) _

theorem literalText {l : Literal} :
    Inline s₁ s₂ n r (Emit.literalText n l) (Emit.literalText n l) := by
  unfold Emit.literalText
  split
  · exact .text _
  · exact regExp
  · exact .append (.text _) (.text _)
  · exact .text _

theorem literal : Inline s₁ s₂ n r (Emit.literal n) (Emit.literal n) := by
  unfold Emit.literal
  split
  · exact literalText
  · exact literalText
  · exact expected _

theorem regExpLiteral :
    Inline s₁ s₂ n r (Emit.regExpLiteral n) (Emit.regExpLiteral n) := by
  unfold Emit.regExpLiteral
  split
  · exact regExp
  · exact regExp
  · exact expected _

theorem templateElement {c : Node} (hc : c = n ∨ c.Below n) :
    Inline s₁ s₂ n r (Emit.templateElement c) (Emit.templateElement c) := by
  unfold Emit.templateElement
  split
  · exact .text _
  · exact .malformed hc _

theorem interleaved {quasis holes : List Node} (hq : ∀ c ∈ quasis, c ∈ n.children)
    (hh : ∀ c ∈ holes, c ∈ n.children) :
    Inline s₁ s₂ n r (Emit.interleaved s₁ quasis holes)
      (Emit.interleaved s₂ quasis holes) := by
  induction quasis generalizing holes with
  | nil => cases holes <;> exact .nil
  | cons quasi quasis ih =>
    have hquasi : Inline s₁ s₂ n r (Emit.templateElement quasi)
        (Emit.templateElement quasi) :=
      templateElement (.inr (.child (hq _ List.mem_cons_self)))
    cases holes with
    | nil =>
      cases quasis with
      | nil => exact hquasi
      | cons _ _ => exact .nil
    | cons hole holes =>
      exact .append (.append (.append (.append hquasi (.text _)) (emit (hh _ List.mem_cons_self)))
        (.text _)) (ih (fun c hc => hq c (List.mem_cons_of_mem _ hc))
        (fun c hc => hh c (List.mem_cons_of_mem _ hc)))

theorem template {quasis holes : List Node} (hq : ∀ c ∈ quasis, c ∈ n.children)
    (hh : ∀ c ∈ holes, c ∈ n.children) :
    Inline s₁ s₂ n r (Emit.template s₁ n quasis holes)
      (Emit.template s₂ n quasis holes) := by
  unfold Emit.template
  split
  · exact .append (.append (.text _) (interleaved hq hh)) (.text _)
  · exact .malformed (.inl rfl) _

theorem templateLiteral :
    Inline s₁ s₂ n r (Emit.templateLiteral s₁ n) (Emit.templateLiteral s₂ n) := by
  unfold Emit.templateLiteral
  split
  · exact template (by simp +contextual) (by simp +contextual)
  · exact expected _

theorem templateLiteralType :
    Inline s₁ s₂ n r (Emit.templateLiteralType s₁ n)
      (Emit.templateLiteralType s₂ n) := by
  unfold Emit.templateLiteralType
  split
  · exact template (by simp +contextual) (by simp +contextual)
  · exact expected _

/-! ## §5. Arrays and objects. -/

theorem elements {es : List (Option Node)} (h : ∀ c ∈ es.flatMap Option.toList, c ∈ n.children) :
    Inline s₁ s₂ n r (Emit.elements s₁ es) (Emit.elements s₂ es) := by
  refine brackets ?_
  induction es with
  | nil => exact .nil
  | cons e rest ih =>
    have hrest := ih fun c hc => h c (List.mem_append_right _ hc)
    cases e with
    | none => exact .append (.text _) hrest
    | some m =>
      have hm : Inline s₁ s₂ n r (s₁.emit m) (s₂.emit m) := emit (h m (by simp))
      cases rest with
      | nil => exact hm
      | cons _ _ => exact .append (.append hm (.text _)) hrest

theorem arrayExpression :
    Inline s₁ s₂ n r (Emit.arrayExpression s₁ n) (Emit.arrayExpression s₂ n) := by
  unfold Emit.arrayExpression
  split
  · exact elements fun c hc => List.mem_append_left _ hc
  · exact elements fun c hc => List.mem_append_left _ hc
  · exact expected _

theorem arrayPattern :
    Inline s₁ s₂ n r (Emit.arrayPattern s₁ n) (Emit.arrayPattern s₂ n) := by
  unfold Emit.arrayPattern
  split
  · exact .append (elements fun c hc => List.mem_append_left _ hc) (annot (by simp +contextual))
  · exact expected _

theorem objectLines {properties : List Node} (h : ∀ c ∈ properties, c ∈ n.children) :
    Inline s₁ s₂ n .zero (Emit.objectLines s₁ properties)
      (Emit.objectLines s₂ properties) := by
  refine braces ?_
  split
  · exact .nil
  next hne =>
    -- a property starts right after a line end and ends inside its line
    refine .append (.append (.append (.append (.append (.deeper (by decide)) .lineEnd)
      (join (by simpa using hne) ?_ ?_)) .shallower) .lineEnd) .indent
    · exact .append (.text _) .lineEnd
    · intro c hc
      exact .append .indent (emit (h c hc))

theorem objectExpression :
    Inline s₁ s₂ n .zero (Emit.objectExpression s₁ n)
      (Emit.objectExpression s₂ n) := by
  unfold Emit.objectExpression
  split
  · exact objectLines (by simp +contextual)
  · exact objectLines (by simp +contextual)
  · exact expected _

theorem objectBraces {properties : List Node} (h : ∀ c ∈ properties, c ∈ n.children) :
    Inline s₁ s₂ n r (Emit.objectBraces s₁ properties) (Emit.objectBraces s₂ properties) :=
  braces (joined h)

theorem Plain.objectPattern :
    Inline s₁ s₂ n r (Emit.Plain.objectPattern s₁ n) (Emit.Plain.objectPattern s₂ n) := by
  unfold Emit.Plain.objectPattern
  split
  · exact objectBraces (by simp +contextual)
  · exact expected _

theorem Typed.objectPattern :
    Inline s₁ s₂ n r (Emit.Typed.objectPattern s₁ n) (Emit.Typed.objectPattern s₂ n) := by
  unfold Emit.Typed.objectPattern
  split
  · exact .append (objectBraces (by simp +contextual)) (annot (by simp +contextual))
  · exact expected _

/-- A property that is no method. -/
theorem property (h : ∀ p, n = .property p → (p.method || p.kind != "init") = false) :
    Inline s₁ s₂ n r (Emit.property s₁ n) (Emit.property s₂ n) := by
  unfold Emit.property
  split
  next p =>
    rw [h p rfl]
    exact .append (onlyIf _ (.append (key (by simp)) (.text _))) (emit (by simp))
  next => exact expected _

end Alike

end Estree
