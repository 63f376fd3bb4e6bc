import Estree.Proofs.Expression.Spelling
import Estree.Proofs.Statement.Reading

/-!
# What the text of a statement shows

No `if` puts braces around its body, so the text of a tree of conditionals, loops, labels and blocks
shows the settled tree, in which every `else` belongs to the last `if` before it that can take one,
and nothing else: trees have the same text if they settle to the same tree, and only then. A tree
that is settled is shown as it is (`generate_eq_iff_settle_eq`). Where the body of an `if` with an
`else` ends in an `if` without one, the text is that of another tree (`generate_outerElse_eq`).

Main results:

  * `Tree.generate_settle`: a tree and the settled tree have the same text;
  * `Tree.eq_of_settled`: settled trees with the same text are the same, by reading its tokens;
  * `generate_eq_iff_settle_eq`: both.
-/

namespace Estree.Statement

open Expression (IsIdentifier named)

variable {s s₁ s₂ : Node} {d : Dialect} {l : Layout}

theorem Tree.generate (h : Tree s) :
    (Generator.ofDialect d l).generate s = .ok (Piece.renderAll l ((d.doc s).pieces .start)) := by
  have hhalt : ((Generator.ofDialect d l).grammar.emit s).halt? = none := h.halt?_eq_none
  rw [Generator.generate_eq, hhalt]
  rfl

/-- A tree and the settled tree have the same text. -/
theorem Tree.generate_settle (h : Tree s) :
    (Generator.ofDialect d l).generate (Statement.settle s) =
      (Generator.ofDialect d l).generate s := by
  rw [h.settle.generate, h.generate, h.pieces_settle]

/-- Settled trees with the same text are the same. -/
theorem Tree.eq_of_settled (h₁ : Tree s₁) (h₂ : Tree s₂) (hs₁ : Settled s₁) (hs₂ : Settled s₂)
    (hl : blankLayout l = true)
    (h : (Generator.ofDialect d l).generate s₁ = (Generator.ofDialect d l).generate s₂) :
    s₁ = s₂ := by
  obtain ⟨ts, hts, hfound₁⟩ := h₁.spelled (d := d) hs₁
  obtain ⟨us, hus, hfound₂⟩ := h₂.spelled (d := d) hs₂
  rw [h₁.generate, h₂.generate] at h
  have htext := Except.ok.inj h
  -- the tokens are a function of the text
  obtain rfl : ts = us := by
    have hcut := hts .start l hl []
    rw [htext, hus .start l hl []] at hcut
    simpa [Expression.Words.tokens] using hcut.symm
  have hrun : ∀ {s : Node}, Found ts s →
      Reading.Reaches reader (.part .statement .done, ts ++ []) (.done s, []) :=
    fun h => h.part fun _ => by simp
  exact (hrun hfound₁).unique (hrun hfound₂)

/-- **The text of a tree shows the settled tree**, and so the tree itself when it is settled. -/
theorem generate_eq_iff_settle_eq (h₁ : Tree s₁) (h₂ : Tree s₂) (d : Dialect)
    (hl : blankLayout l = true) :
    (∃ text, (Generator.ofDialect d l).generate s₁ = .ok text) ∧
    ((Generator.ofDialect d l).generate s₁ = (Generator.ofDialect d l).generate s₂ ↔
      settle s₁ = settle s₂) ∧
    (Settled s₁ → Settled s₂ →
      (Generator.ofDialect d l).generate s₁ = (Generator.ofDialect d l).generate s₂ → s₁ = s₂) := by
  have hsettle : (Generator.ofDialect d l).generate s₁ = (Generator.ofDialect d l).generate s₂ →
      settle s₁ = settle s₂ := by
    intro h
    rw [← h₁.generate_settle, ← h₂.generate_settle] at h
    exact h₁.settle.eq_of_settled h₂.settle h₁.settled_settle h₂.settled_settle hl h
  refine ⟨⟨_, h₁.generate⟩, ⟨hsettle, fun h => ?_⟩, fun hs₁ hs₂ h => ?_⟩
  · rw [← h₁.generate_settle, ← h₂.generate_settle, h]
  · rw [← h₁.settle_eq_self hs₁, ← h₂.settle_eq_self hs₂, hsettle h]

/-- An `else` after a loop with a block, `if (a) while (b) { if (c) x; } else if (e) y;`, and the
same `else` in the block. -/
theorem generate_ne_of_braces :
    let x : Node := .expressionStatement (named "x") none
    let rest : Node := .ifStatement (named "e") (.expressionStatement (named "y") none) none
    let s₁ : Node := .ifStatement (named "a")
      (.whileStatement (named "b")
        (.block .statement [.ifStatement (named "c") x none])) (some rest)
    let s₂ : Node := .ifStatement (named "a")
      (.whileStatement (named "b")
        (.block .statement [.ifStatement (named "c") x (some rest)])) none
    (Tree s₁ ∧ Settled s₁) ∧ (Tree s₂ ∧ Settled s₂) ∧ blankLayout {} = true ∧
      ∀ d, (Generator.ofDialect d {}).generate s₁ ≠ (Generator.ofDialect d {}).generate s₂ := by
  intro x rest s₁ s₂
  have hname : ∀ x ∈ ["a", "b", "c", "e", "x", "y"], IsIdentifier x := by
    unfold IsIdentifier
    decide
  have hx : Tree x := .expression (hname "x" (by decide))
  have hrest : Tree rest := .when (hname "e" (by decide)) (.expression (hname "y" (by decide)))
  -- a loop with a block around a statement is settled as the statement is, and takes no `else`
  have hloop : ∀ {s : Node}, Tree s → Tree (.whileStatement (named "b") (.block .statement [s])) :=
    fun h => .headed (h := .loop "b") (hname "b" (by decide))
      (.block (List.forall_mem_singleton.mpr h))
  have hsettled : ∀ {s : Node}, Settled s →
      Settled (.whileStatement (named "b") (.block .statement [s])) :=
    fun h => (settled_node (h := .loop "b")).mpr
      (settled_block.mpr (List.forall_mem_singleton.mpr h))
  have hleaf : ∀ x, Settled (.expressionStatement (named x) none) := fun x =>
    settled_iff.mpr ⟨rfl, List.forall_mem_singleton.mpr settled_named⟩
  have hs : Settled rest := settled_when.mpr (hleaf "y")
  have h₁ : Tree s₁ :=
    .choice (hname "a" (by decide)) (hloop (.when (hname "c" (by decide)) hx)) hrest
  have hs₁ : Settled s₁ :=
    settled_choice.mpr ⟨rfl, hsettled (settled_when.mpr (hleaf "x")), hs⟩
  have h₂ : Tree s₂ :=
    .when (hname "a" (by decide)) (hloop (.choice (hname "c" (by decide)) hx hrest))
  have hs₂ : Settled s₂ :=
    settled_when.mpr (hsettled (settled_choice.mpr ⟨rfl, hleaf "x", hs⟩))
  have hl : blankLayout {} = true := by decide
  refine ⟨⟨h₁, hs₁⟩, ⟨h₂, hs₂⟩, hl, fun d h => ?_⟩
  have heq : s₁ = s₂ := (generate_eq_iff_settle_eq h₁ h₂ d hl).2.2 hs₁ hs₂ h
  simp [s₁, s₂] at heq

/-- The outer of two conditionals has the `else`. -/
def outerElse : Node :=
  .ifStatement (named "a")
    (.ifStatement (named "b") (.expressionStatement (named "x") none) none)
    (some (.expressionStatement (named "y") none))

/-- The inner of two conditionals has the `else`. -/
def innerElse : Node :=
  .ifStatement (named "a")
    (.ifStatement (named "b") (.expressionStatement (named "x") none)
      (some (.expressionStatement (named "y") none)))
    none

/-- **The `else` of the outer conditional dangles**: the text says that it belongs to the inner
one. -/
theorem generate_outerElse_eq :
    (Tree outerElse ∧ Tree innerElse ∧ outerElse ≠ innerElse) ∧
      ∀ d l, (Generator.ofDialect d l).generate outerElse = .ok "if (a) if (b) x; else y;" ∧
        (Generator.ofDialect d l).generate innerElse = .ok "if (a) if (b) x; else y;" := by
  have hname : ∀ x ∈ ["a", "b", "x", "y"], IsIdentifier x := by
    unfold IsIdentifier
    decide
  have hx : Tree (.expressionStatement (named "x") none) := .expression (hname "x" (by decide))
  have hy : Tree (.expressionStatement (named "y") none) := .expression (hname "y" (by decide))
  -- neither has a line end, so the text is the same in all layouts
  have hline : ∀ d : Dialect, ∀ n ∈ [outerElse, innerElse],
      ((Grammar.ofDialect d).scope.emit n).line? = some "if (a) if (b) x; else y;".toList := by
    intro d
    cases d <;> exact List.forall_mem_cons.mpr ⟨rfl, List.forall_mem_singleton.mpr rfl⟩
  refine ⟨⟨?_, ?_, ?_⟩, fun d l => ⟨?_, ?_⟩⟩
  · exact .choice (hname "a" (by decide)) (.when (hname "b" (by decide)) hx) hy
  · exact .when (hname "a" (by decide)) (.choice (hname "b" (by decide)) hx hy)
  · intro h
    cases h
  · exact Generator.generate_of_line? (hline d _ List.mem_cons_self) l
  · exact Generator.generate_of_line? (hline d _ (List.mem_cons_of_mem _ List.mem_cons_self)) l

end Estree.Statement
