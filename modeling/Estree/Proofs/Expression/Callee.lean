import Estree.Proofs.Expression.Callee.Reading

/-!
# What the text of an instantiation shows

The text of a tree of names, members, calls, instantiations, tagged templates and `!` shows the tree
that it is regrouped to and nothing else: trees have the same text if they are regrouped to the same
tree, and only then. Where no call captures a `new`, the text shows the tree itself, and `new
(a()).b` is kept apart from `new a().b` (`generate_eq_iff_regrouped_eq`). A call that is reached
through a tag or through `!` does capture it (`generate_taggedCallee_eq`).

Main results:

  * `Tree.regrouped_eq`, `Tree.generate_eq`: the two directions, by reading the tokens of the text
    and
    by writing the regrouped tree;
  * `generate_eq_iff_regrouped_eq`: both, and the trees themselves where no `new` is captured.
-/

namespace Estree.Expression.Callee

variable {e₁ e₂ : Node}

/-- A tree has one text, whatever the layout, and its tokens are read as the regrouped tree. -/
theorem Tree.generate (h : Tree e₁) :
    ∃ text, (∀ l, (Generator.ofDialect .typed l).generate e₁ = .ok text) ∧
      Found (Words.tokens text.toList) (regrouped e₁) := by
  obtain ⟨ts, hspells, hfound⟩ := h.canonical.spelled
  obtain ⟨text, hgenerate, rfl⟩ := (hspells.of_line?_eq h.line?_regrouped.symm).generate
  exact ⟨text, hgenerate, hfound⟩

/-- Trees with one text are regrouped to one tree. -/
theorem Tree.regrouped_eq (h₁ : Tree e₁) (h₂ : Tree e₂) {l : Layout}
    (h : (Generator.ofDialect .typed l).generate e₁ = (Generator.ofDialect .typed l).generate e₂) :
    regrouped e₁ = regrouped e₂ := by
  obtain ⟨text₁, hgenerate₁, hfound₁⟩ := h₁.generate
  obtain ⟨text₂, hgenerate₂, hfound₂⟩ := h₂.generate
  rw [hgenerate₁, hgenerate₂] at h
  obtain rfl := Except.ok.inj h
  exact hfound₁.unique hfound₂

/-- Trees that are regrouped to one tree have one text. -/
theorem Tree.generate_eq (h₁ : Tree e₁) (h₂ : Tree e₂) (h : regrouped e₁ = regrouped e₂)
    (l : Layout) :
    (Generator.ofDialect .typed l).generate e₁ = (Generator.ofDialect .typed l).generate e₂ := by
  obtain ⟨ts, ⟨cs, hline, -⟩, -⟩ := h₁.canonical.spelled
  have hline₁ : (Dialect.doc .typed e₁).line? = some cs := by rw [← h₁.line?_regrouped, hline]
  have hline₂ : (Dialect.doc .typed e₂).line? = some cs := by rw [← h₂.line?_regrouped, ← h, hline]
  rw [Generator.generate_of_line? hline₁, Generator.generate_of_line? hline₂]

/-- **The text of a tree shows what it is regrouped to**, and this is the tree itself, but for the
fields of templates that are not written, where no call captures a `new`. -/
theorem generate_eq_iff_regrouped_eq (h₁ : Tree e₁) (h₂ : Tree e₂) (l : Layout) :
    (∃ text, (Generator.ofDialect .typed l).generate e₁ = .ok text) ∧
    ((Generator.ofDialect .typed l).generate e₁ = (Generator.ofDialect .typed l).generate e₂ ↔
      regrouped e₁ = regrouped e₂) ∧
    (NoneCaptured e₁ → NoneCaptured e₂ →
      (Generator.ofDialect .typed l).generate e₁ = (Generator.ofDialect .typed l).generate e₂ →
      bare e₁ = bare e₂) := by
  refine ⟨?_, ⟨h₁.regrouped_eq h₂, fun h => h₁.generate_eq h₂ h l⟩, fun hn₁ hn₂ h => ?_⟩
  · obtain ⟨text, hgenerate, -⟩ := h₁.generate
    exact ⟨text, hgenerate l⟩
  · rw [← h₁.regrouped_eq_bare hn₁, ← h₂.regrouped_eq_bare hn₂, h₁.regrouped_eq h₂ h]

/-- An instantiation of a member of a call, `new (a().b)()`, and a call of a member of an
instantiation, `new a().b()`. -/
theorem generate_ne_of_members :
    let e₁ : Node := .newExpression (.memberExpression
      (.callExpression (named "a") [] false none) (named "b") false false) [] false none
    let e₂ : Node := .callExpression (.memberExpression
      (.newExpression (named "a") [] false none) (named "b") false false) [] false none
    (Tree e₁ ∧ NoneCaptured e₁) ∧ (Tree e₂ ∧ NoneCaptured e₂) ∧
      ∀ l, (Generator.ofDialect .typed l).generate e₁ ≠
        (Generator.ofDialect .typed l).generate e₂ := by
  intro e₁ e₂
  have hx : ∀ x ∈ ["a", "b"], IsIdentifier x := by
    unfold IsIdentifier
    decide
  have hnone : ∀ n ∈ ([] : List Node), Tree n := fun n hn => absurd hn List.not_mem_nil
  have h₁ : Tree e₁ :=
    .new (.field (.call (.name (hx "a" (by decide))) hnone) (hx "b" (by decide))) hnone
  have h₂ : Tree e₂ :=
    .call (.field (.new (.name (hx "a" (by decide))) hnone) (hx "b" (by decide))) hnone
  have hleaf : ∀ x, NoneCaptured (named x) := fun x => .of_children rfl nofun
  have hn₁ : NoneCaptured e₁ := by
    have hcall : NoneCaptured (.callExpression (named "a") [] false none) :=
      .of_children rfl (List.forall_mem_singleton.mpr (hleaf "a"))
    have hmember : NoneCaptured (.memberExpression (.callExpression (named "a") [] false none)
        (named "b") false false) :=
      .of_children rfl (by simpa using ⟨hcall, hleaf "b"⟩)
    exact .of_children rfl (List.forall_mem_singleton.mpr hmember)
  have hn₂ : NoneCaptured e₂ := by
    have hnew : NoneCaptured (.newExpression (named "a") [] false none) :=
      .of_children rfl (List.forall_mem_singleton.mpr (hleaf "a"))
    have hmember : NoneCaptured (.memberExpression (.newExpression (named "a") [] false none)
        (named "b") false false) :=
      .of_children rfl (by simpa using ⟨hnew, hleaf "b"⟩)
    exact .of_children rfl (List.forall_mem_singleton.mpr hmember)
  refine ⟨⟨h₁, hn₁⟩, ⟨h₂, hn₂⟩, fun l h => ?_⟩
  have heq : bare e₁ = bare e₂ := (generate_eq_iff_regrouped_eq h₁ h₂ l).2.2 hn₁ hn₂ h
  cases heq

/-- An instantiation of a tagged template whose tag is a call. -/
def taggedCallee : Node :=
  .newExpression (.taggedTemplateExpression (.callExpression (named "a") [] false none)
    (plainTemplate "x")) [] false none

/-- A call of a tagged template whose tag is an instantiation. -/
def taggedNew : Node :=
  .callExpression (.taggedTemplateExpression (.newExpression (named "a") [] false none)
    (plainTemplate "x")) [] false none

/-- **A call that is reached through a tag captures the `new`**: the two trees have one text. -/
theorem generate_taggedCallee_eq :
    (Tree taggedCallee ∧ Tree taggedNew ∧ bare taggedCallee ≠ bare taggedNew) ∧
      ∀ l, (Generator.ofDialect .typed l).generate taggedCallee = .ok "new a()`x`()" ∧
        (Generator.ofDialect .typed l).generate taggedNew = .ok "new a()`x`()" := by
  have ha : IsIdentifier "a" := by
    unfold IsIdentifier
    decide
  have hnone : ∀ n ∈ ([] : List Node), Tree n := fun n hn => absurd hn List.not_mem_nil
  have hline : ∀ n ∈ [taggedCallee, taggedNew],
      ((Grammar.ofDialect .typed).scope.emit n).line? = some "new a()`x`()".toList :=
    List.forall_mem_cons.mpr ⟨rfl, List.forall_mem_singleton.mpr rfl⟩
  refine ⟨⟨?_, ?_, ?_⟩, fun l => ⟨?_, ?_⟩⟩
  · exact .new (.tagged (.call (.name ha) hnone) (by decide)) hnone
  · exact .call (.tagged (.new (.name ha) hnone) (by decide)) hnone
  · intro h
    cases h
  · exact Generator.generate_of_line? (hline _ List.mem_cons_self) l
  · exact Generator.generate_of_line? (hline _ (List.mem_cons_of_mem _ List.mem_cons_self)) l

end Estree.Expression.Callee
