import Estree.Emit.Statement
import Estree.Proofs.Alike.Basic

/-!
# Statements and bindings are written alike

One lemma for each procedure that writes statements, names and variables. Each follows the document
of its procedure; a node that the procedure does not expect is a defect in both scopes.
-/

namespace Estree

namespace Alike

variable {s₁ s₂ : Scope} {n : Node} {r : Depth}

/-! ## §1. Blocks. -/

/-- The lines of a program end with a line end, all other documents inside a line. -/
theorem program : Inline s₁ s₂ n r (Emit.program s₁ n) (Emit.program s₂ n) ∨
    n.kind = .program ∧
      Alike s₁ s₂ n (.inside r) (.lineStart r) (Emit.program s₁ n) (Emit.program s₂ n) := by
  unfold Emit.program
  split
  · exact .inr ⟨rfl, .anywhere (lines fun _ h => h)⟩
  · exact .inl (expected _)

theorem blockStatement :
    Inline s₁ s₂ n .zero (Emit.block s₁ n) (Emit.block s₂ n) := by
  unfold Emit.block
  split
  · exact block fun _ h => h
  · exact block fun _ h => h
  · exact expected _

theorem staticBlock :
    Inline s₁ s₂ n .zero (Emit.staticBlock s₁ n) (Emit.staticBlock s₂ n) := by
  unfold Emit.staticBlock
  split
  · exact .append (.text _) (block fun _ h => h)
  · exact expected _

/-! ## §2. Simple statements. -/

theorem expressionStatement :
    Inline s₁ s₂ n r (Emit.expressionStatement s₁ n)
      (Emit.expressionStatement s₂ n) := by
  unfold Emit.expressionStatement
  split
  next e _ =>
    refine .append (.parensIf (fun hr => ?_) (emit (by simp))) (.text _)
    rw [hr.child (c := e) (by simp)]
  next => exact expected _

theorem jump : Inline s₁ s₂ n r (Emit.jump s₁ n) (Emit.jump s₂ n) := by
  unfold Emit.jump Emit.jumpTo
  split
  · exact .append (.append (.text _) (lead _ (by simp))) (.text _)
  · exact .append (.append (.text _) (lead _ (by simp))) (.text _)
  · exact expected _

theorem returnStatement :
    Inline s₁ s₂ n r (Emit.returnStatement s₁ n) (Emit.returnStatement s₂ n) := by
  unfold Emit.returnStatement
  split
  · exact .append (.append (.text _) (lead _ (by simp))) (.text _)
  · exact expected _

theorem throwStatement :
    Inline s₁ s₂ n r (Emit.throwStatement s₁ n) (Emit.throwStatement s₂ n) := by
  unfold Emit.throwStatement
  split
  · exact .append (.append (.text _) (emit (by simp))) (.text _)
  · exact expected _

/-! ## §3. Branches. -/

theorem ifStatement :
    Inline s₁ s₂ n r (Emit.ifStatement s₁ n) (Emit.ifStatement s₂ n) := by
  unfold Emit.ifStatement
  split
  · refine .append (.append (.append (.append (.text _) (emit ?_)) (.text _)) (emit ?_))
      (lead _ ?_)
    all_goals simp +contextual
  · exact expected _

theorem labeledStatement :
    Inline s₁ s₂ n r (Emit.labeledStatement s₁ n) (Emit.labeledStatement s₂ n) := by
  unfold Emit.labeledStatement
  split
  · exact .append (.append (emit (by simp)) (.text _)) (emit (by simp))
  · exact expected _

theorem withStatement :
    Inline s₁ s₂ n r (Emit.withStatement s₁ n) (Emit.withStatement s₂ n) := by
  unfold Emit.withStatement
  split
  · exact .append (.append (.append (.text _) (emit (by simp))) (.text _)) (emit (by simp))
  · exact expected _

theorem caseHead {test : Option Node} (h : ∀ c, test = some c → c ∈ n.children) :
    Inline s₁ s₂ n r (Emit.caseHead s₁ test) (Emit.caseHead s₂ test) := by
  cases test with
  | none => exact .text _
  | some c => exact .append (.append (.text _) (emit (h c rfl))) (.text _)

/-- A case begins and ends right after a line end, at the level of its statements. -/
theorem switchCase {i : Nat} {c : SwitchCase} (h : ∀ m ∈ c.children, m ∈ n.children) :
    Alike s₁ s₂ n (.lineStart ⟨i, true⟩) (.lineStart ⟨i, true⟩) (Emit.switchCase s₁ c)
      (Emit.switchCase s₂ c) := by
  have hhead : Inline s₁ s₂ n ⟨i, true⟩ (Emit.caseHead s₁ c.test) (Emit.caseHead s₂ c.test) :=
    caseHead fun m hm => h m (by simp [hm])
  exact .append (.append (.append (.indentAt 1) hhead) .lineEnd)
    (lines fun m hm => h m (by simp [hm]))

/-- A `switch` goes two levels deeper before its discriminant and comes back after its cases. -/
theorem switchStatement :
    Inline s₁ s₂ n .zero (Emit.switchStatement s₁ n) (Emit.switchStatement s₂ n) := by
  unfold Emit.switchStatement
  split
  next discriminant cases =>
    refine .anchored (.append (.append (.append (.append (.append (b := .lineStart ⟨2, true⟩) ?_
      (concat fun c hc => switchCase ?_)) .shallower) .shallower) .indent) (.text _))
    · exact .append (.append (.append (.append (.append (.deeper (by decide))
        (.deeper (by decide))) (.text _)) (emit (by simp))) (.text _)) .lineEnd
    · intro m hm
      exact List.mem_cons_of_mem _ (List.mem_flatMap.mpr ⟨c, hc, hm⟩)
  next => exact expected _

theorem handler {c : CatchClause} (h : ∀ m ∈ c.children, m ∈ n.children) :
    Inline s₁ s₂ n r (Emit.handler s₁ c) (Emit.handler s₂ c) := by
  unfold Emit.handler
  refine .append ?_ (emit (h _ (by simp)))
  split
  next param hp => exact .append (.append (.text _) (emit (h _ (by simp [hp])))) (.text _)
  next => exact .text _

theorem tryStatement :
    Inline s₁ s₂ n r (Emit.tryStatement s₁ n) (Emit.tryStatement s₂ n) := by
  unfold Emit.tryStatement
  split
  · refine .append (.append (.append (.text _) (emit (by simp))) (ofOption fun c hc => ?_))
      (lead _ (by simp +contextual))
    exact handler fun m hm => by
      rw [Node.children, hc]
      simp only [Option.toList_some, List.flatMap_singleton]
      exact List.mem_append_left _ (List.mem_cons_of_mem _ hm)
  · exact expected _

/-! ## §4. Loops. -/

theorem whileStatement :
    Inline s₁ s₂ n r (Emit.whileStatement s₁ n) (Emit.whileStatement s₂ n) := by
  unfold Emit.whileStatement
  split
  · exact .append (.append (.append (.text _) (emit (by simp))) (.text _)) (emit (by simp))
  · exact expected _

theorem doWhileStatement :
    Inline s₁ s₂ n r (Emit.doWhileStatement s₁ n) (Emit.doWhileStatement s₂ n) := by
  unfold Emit.doWhileStatement
  split
  · exact .append (.append (.append (.append (.text _) (emit (by simp))) (.text _))
      (emit (by simp))) (.text _)
  · exact expected _

/-- The declarators of a declaration at or below the node. -/
theorem declarators {kind : String} {declarations : List Node}
    (h : ∀ c ∈ declarations, c.Below n) :
    Inline s₁ s₂ n r (Emit.declarators s₁ kind declarations)
      (Emit.declarators s₂ kind declarations) :=
  .append (.append (.text _) (.text _)) (joinText fun c hc => .emitAs (h c hc) (.inr (by decide)))

theorem loopHead {c : Node} (h : c ∈ n.children) :
    Inline s₁ s₂ n r (Emit.loopHead s₁ c) (Emit.loopHead s₂ c) := by
  unfold Emit.loopHead
  split
  next kind declarations declare =>
    exact declarators fun m hm =>
      .deeper (.child (n := .variableDeclaration kind declarations declare) hm) h
  next => exact emit h

theorem forStatement :
    Inline s₁ s₂ n r (Emit.forStatement s₁ n) (Emit.forStatement s₂ n) := by
  unfold Emit.forStatement
  split
  · refine .append (.append (.append (.append (.append (.append (.append (.text _)
      (ofOption fun c hc => loopHead ?_)) (.text _)) (emit? ?_)) (.text _)) (emit? ?_)) (.text _))
      (emit ?_)
    all_goals simp_all
  · exact expected _

theorem loopOver {word : String} {left right body : Node} {await : Bool}
    (hl : left ∈ n.children) (hr : right ∈ n.children) (hb : body ∈ n.children) :
    Inline s₁ s₂ n r (Emit.loopOver s₁ word left right body await)
      (Emit.loopOver s₂ word left right body await) := by
  refine .append (.append (.append (.append (.append ?_ (loopHead hl)) (.text _)) (emit hr))
    (.text _)) (emit hb)
  split
  · exact .text _
  · exact .text _

theorem forEach : Inline s₁ s₂ n r (Emit.forEach s₁ n) (Emit.forEach s₂ n) := by
  unfold Emit.forEach
  split
  · exact loopOver (by simp) (by simp) (by simp)
  · exact loopOver (by simp) (by simp) (by simp)
  · exact expected _

end Alike

end Estree
