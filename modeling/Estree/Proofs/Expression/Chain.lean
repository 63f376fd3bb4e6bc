import Estree.Proofs.Expression.Chain.Reading

/-!
# What the text of an optional chain shows

The text of a tree of names, members, calls and chains shows the tree without the boundaries of its
chains and nothing else: trees have the same text if they are the same without boundaries, and only
then. Where no member and no call goes on with a chain, the optional links say where the boundaries
were, and the text shows the whole tree (`generate_eq_iff_unchained_eq`). Where one does, a boundary
is lost (`generate_memberOfChain_eq`).

Main results:

  * `Tree.unchained_eq`, `Tree.generate_eq`: the two directions, by reading the tokens of the text
    and
    by writing the tree without its boundaries;
  * `generate_eq_iff_unchained_eq`: both, and the boundaries where they can be put back.
-/

namespace Estree.Expression.Chain

variable {spine : Bool} {e₁ e₂ : Node}

/-- A tree has one text, whatever the layout, and its tokens are read as the tree without chains. -/
theorem Tree.generate (h : Tree spine e₁) (d : Dialect) :
    ∃ text ts, (∀ l, (Generator.ofDialect d l).generate e₁ = .ok text) ∧ Lexes text.toList ts ∧
      Found ts (unchained e₁) := by
  obtain ⟨ts, hspells, hfound⟩ := h.spelled d
  obtain ⟨text, hgenerate, hlex⟩ := hspells.generate
  exact ⟨text, ts, hgenerate, hlex, hfound⟩

/-- Trees with one text are the same without their boundaries. -/
theorem Tree.unchained_eq (h₁ : Tree spine e₁) (h₂ : Tree spine e₂) {d : Dialect} {l : Layout}
    (h : (Generator.ofDialect d l).generate e₁ = (Generator.ofDialect d l).generate e₂) :
    unchained e₁ = unchained e₂ := by
  obtain ⟨text₁, ts₁, hgenerate₁, hlex₁, hfound₁⟩ := h₁.generate d
  obtain ⟨text₂, ts₂, hgenerate₂, hlex₂, hfound₂⟩ := h₂.generate d
  rw [hgenerate₁, hgenerate₂] at h
  obtain rfl := Except.ok.inj h
  obtain rfl := hlex₁.unique hlex₂
  exact hfound₁.unique hfound₂

/-- Trees that are the same without their boundaries have one text. -/
theorem Tree.generate_eq (h₁ : Tree spine e₁) (h₂ : Tree spine e₂)
    (h : unchained e₁ = unchained e₂) (d : Dialect) (l : Layout) :
    (Generator.ofDialect d l).generate e₁ = (Generator.ofDialect d l).generate e₂ := by
  obtain ⟨ts, ⟨cs, hline₁, -⟩, -⟩ := h₁.spelled d
  have hline₂ : (d.doc e₂).line? = some cs := by
    rw [← h₂.line?_unchained, ← h, h₁.line?_unchained, hline₁]
  rw [Generator.generate_of_line? hline₁, Generator.generate_of_line? hline₂]

/-- **The text of a tree shows the tree without its boundaries**, and the boundaries too where no
member and no call goes on with a chain. -/
theorem generate_eq_iff_unchained_eq (h₁ : Tree false e₁) (h₂ : Tree false e₂) (d : Dialect)
    (l : Layout) :
    (∃ text, (Generator.ofDialect d l).generate e₁ = .ok text) ∧
    ((Generator.ofDialect d l).generate e₁ = (Generator.ofDialect d l).generate e₂ ↔
      unchained e₁ = unchained e₂) ∧
    (NoneContinued e₁ → NoneContinued e₂ →
      (Generator.ofDialect d l).generate e₁ = (Generator.ofDialect d l).generate e₂ → e₁ = e₂) := by
  refine ⟨?_, ⟨h₁.unchained_eq h₂, fun h => h₁.generate_eq h₂ h d l⟩, fun hn₁ hn₂ h => ?_⟩
  · obtain ⟨text, -, hgenerate, -⟩ := h₁.generate d
    exact ⟨text, hgenerate l⟩
  · rw [← (h₁.restored hn₁).whole rfl, ← (h₂.restored hn₂).whole rfl, h₁.unchained_eq h₂ h]

/-- A chain inside the arguments of a chain, `a?.(b?.c)`, and one chain with the same names,
`a?.(b).c`. -/
theorem generate_ne_of_arguments :
    let e₁ : Node := .chainExpression (.callExpression (named "a")
      [.chainExpression (.memberExpression (named "b") (named "c") false true)] true none)
    let e₂ : Node := .chainExpression (.memberExpression
      (.callExpression (named "a") [named "b"] true none) (named "c") false false)
    (Tree false e₁ ∧ NoneContinued e₁) ∧ (Tree false e₂ ∧ NoneContinued e₂) ∧
      ∀ d l, (Generator.ofDialect d l).generate e₁ ≠ (Generator.ofDialect d l).generate e₂ := by
  intro e₁ e₂
  have hx : ∀ x ∈ ["a", "b", "c"], IsIdentifier x := by
    unfold IsIdentifier
    decide
  have hname : ∀ spine, ∀ x ∈ ["a", "b", "c"], Tree spine (named x) := fun _ x h => .name (hx x h)
  have hleaf : ∀ x, NoneContinued (named x) := fun x => .of_children rfl nofun
  have h₁ : Tree false e₁ :=
    .chain rfl (.call (fun _ => rfl) (hname true "a" (by decide)) (by
      simpa using Tree.chain rfl (.field (fun _ => rfl) (hname true "b" (by decide))
        (hx "c" (by decide)))))
  have hn₁ : NoneContinued e₁ := by
    have hlink : NoneContinued (.memberExpression (named "b") (named "c") false true) :=
      .of_children rfl (by simpa using ⟨hleaf "b", hleaf "c"⟩)
    have hchain : NoneContinued
        (.chainExpression (.memberExpression (named "b") (named "c") false true)) :=
      .of_children rfl (List.forall_mem_singleton.mpr hlink)
    have hcall : NoneContinued (.callExpression (named "a") [.chainExpression (.memberExpression
        (named "b") (named "c") false true)] true none) :=
      .of_children rfl (by simpa using ⟨hleaf "a", hchain⟩)
    exact .of_children rfl (List.forall_mem_singleton.mpr hcall)
  have h₂ : Tree false e₂ :=
    .chain rfl (.field nofun (.call (fun _ => rfl) (hname true "a" (by decide))
      (by simpa using hname false "b" (by decide))) (hx "c" (by decide)))
  have hn₂ : NoneContinued e₂ := by
    have hcall : NoneContinued (.callExpression (named "a") [named "b"] true none) :=
      .of_children rfl (by simpa using ⟨hleaf "a", hleaf "b"⟩)
    have hmember : NoneContinued (.memberExpression
        (.callExpression (named "a") [named "b"] true none) (named "c") false false) :=
      .of_children rfl (by simpa using ⟨hcall, hleaf "c"⟩)
    exact .of_children rfl (List.forall_mem_singleton.mpr hmember)
  refine ⟨⟨h₁, hn₁⟩, ⟨h₂, hn₂⟩, fun d l h => ?_⟩
  have heq : e₁ = e₂ := (generate_eq_iff_unchained_eq h₁ h₂ d l).2.2 hn₁ hn₂ h
  simp [e₁, e₂] at heq

/-- A member of a chain, `(a?.b).c`. -/
def memberOfChain : Node :=
  .memberExpression (.chainExpression (.memberExpression (named "a") (named "b") false true))
    (named "c") false false

/-- The longer chain, `a?.b.c`. -/
def longerChain : Node :=
  .chainExpression (.memberExpression (.memberExpression (named "a") (named "b") false true)
    (named "c") false false)

/-- **A member of a chain has the text of the longer chain**, in which it is not evaluated when the
chain is cut short. -/
theorem generate_memberOfChain_eq :
    (Tree false memberOfChain ∧ Tree false longerChain ∧ memberOfChain ≠ longerChain) ∧
      ∀ d l, (Generator.ofDialect d l).generate memberOfChain = .ok "a?.b.c" ∧
        (Generator.ofDialect d l).generate longerChain = .ok "a?.b.c" := by
  have hx : ∀ x ∈ ["a", "b", "c"], IsIdentifier x := by
    unfold IsIdentifier
    decide
  have hlink : Tree true (.memberExpression (named "a") (named "b") false true) :=
    .field (fun _ => rfl) (.name (hx "a" (by decide))) (hx "b" (by decide))
  have hline : ∀ d : Dialect, ∀ n ∈ [memberOfChain, longerChain],
      ((Grammar.ofDialect d).scope.emit n).line? = some "a?.b.c".toList := by
    intro d
    cases d <;> exact List.forall_mem_cons.mpr ⟨rfl, List.forall_mem_singleton.mpr rfl⟩
  refine ⟨⟨?_, ?_, ?_⟩, fun d l => ⟨?_, ?_⟩⟩
  · exact .field nofun (.chain rfl hlink) (hx "c" (by decide))
  · exact .chain rfl (.field nofun hlink (hx "c" (by decide)))
  · intro h
    cases h
  · exact Generator.generate_of_line? (hline d _ List.mem_cons_self) l
  · exact Generator.generate_of_line? (hline d _ (List.mem_cons_of_mem _ List.mem_cons_self)) l

end Estree.Expression.Chain
