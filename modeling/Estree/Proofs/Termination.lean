import Estree.Proofs.Dispatch

/-!
# When dispatch ends

Two procedures hand their own node back to dispatch: the one of class expressions hands it on as a
class declaration, and the one of properties hands on an entry that is a method as a method. Every
other procedure dispatches nodes inside its own node only, and these are lower. So dispatch can go
on for ever in one way only, by coming back to a kind at the same node, and a registry lets it do so
exactly when one of three bindings stands in it (`Registry.EndsDispatch` excludes them):

    ClassDeclaration ↦ class expression
    MethodDefinition ↦ property
    ClassDeclaration ↦ property   and   MethodDefinition ↦ class expression

Main results:

* `Registry.EndsDispatch`: the registries without a circle.
* `Registry.full_endsDispatch`: the registries of the two dialects are among them.
* `Registry.endsDispatch_decides`: dispatch ends exactly in these.
-/

namespace Estree

/-! ## §1. Registries without a circle. -/

/-- The registry has none of the bindings that lead a node back to where it was. -/
structure Registry.EndsDispatch (r : Registry) : Prop where
  classDeclaration : r.get? .classDeclaration ≠ some .classExpression
  methodDefinition : r.get? .methodDefinition ≠ some .property
  crossed : ¬(r.get? .classDeclaration = some .property ∧
    r.get? .methodDefinition = some .classExpression)

namespace Registry

/-- Dispatches end in the registry of the base. -/
theorem base_endsDispatch : base.EndsDispatch := ⟨by decide, by decide, by decide⟩

/-- Dispatches end in the registry of the extension. -/
theorem extension_endsDispatch : extension.EndsDispatch := ⟨by decide, by decide, by decide⟩

/-- Dispatches end in the full registry. -/
theorem full_endsDispatch : full.EndsDispatch := ⟨by decide, by decide, by decide⟩

end Registry

/-! ## §2. One node. -/

/-- The two procedures that dispatch their own node, with the kinds they do it under. -/
theorem Procedure.redirect_cases {p : Procedure} {n : Node} {k : Kind} (h : p.redirect n = some k) :
    (p = .classExpression ∧ k = .classDeclaration) ∨ (p = .property ∧ k = .methodDefinition) := by
  unfold redirect at h
  split at h
  next => exact .inl ⟨rfl, (Option.some.inj h).symm⟩
  next =>
    split at h
    next => exact .inr ⟨rfl, (Option.some.inj h).symm⟩
    next => cases h
  next => cases h

/-- A procedure that does not dispatch its own node ends if the dispatches of the nodes inside do.
-/
theorem Alike.halt?_ne_unfinished {s₁ s₂ : Scope} {n : Node} {a b : Spot} {d₁ d₂ : Doc}
    (h : Alike s₁ s₂ n a b d₁ d₂)
    (he : ∀ k c, c.Below n → (s₁.emitAs k c).halt? ≠ some .unfinished) :
    d₁.halt? ≠ some .unfinished := by
  intro hu
  rcases h.halt?_cases hu with ⟨_, _, -, hx⟩ | ⟨k, c, hc, -, hx⟩
  · cases hx
  · exact he k c hc hx

namespace Grammar

variable {g : Grammar}

/-- A dispatch is redirected by two procedures, each to one kind. -/
theorem redirect_cases {k k' : Kind} {n : Node} (h : g.redirect k n = some k') :
    (g.registry.get? k = some .classExpression ∧ k' = .classDeclaration) ∨
      (g.registry.get? k = some .property ∧ k' = .methodDefinition) := by
  obtain ⟨p, hp, hr⟩ := Option.bind_eq_some_iff.mp h
  rcases Procedure.redirect_cases hr with ⟨rfl, hk⟩ | ⟨rfl, hk⟩
  · exact .inl ⟨hp, hk⟩
  · exact .inr ⟨hp, hk⟩

/-- Without a circle a node is handed back to dispatch twice at most. -/
theorem redirect_eq_none (hg : g.registry.EndsDispatch) {k k₁ k₂ : Kind} {n : Node}
    (h₁ : g.redirect k n = some k₁) (h₂ : g.redirect k₁ n = some k₂) : g.redirect k₂ n = none := by
  refine Option.eq_none_iff_forall_ne_some.mpr fun k₃ h₃ => ?_
  -- the kinds alternate between the two, and the third step would close the circle
  rcases redirect_cases h₁ with ⟨-, rfl⟩ | ⟨-, rfl⟩ <;>
    rcases redirect_cases h₂ with ⟨hp₁, rfl⟩ | ⟨hp₁, rfl⟩ <;>
    rcases redirect_cases h₃ with ⟨hp₂, -⟩ | ⟨hp₂, -⟩
  · exact hg.classDeclaration hp₁
  · exact hg.classDeclaration hp₁
  · exact hg.crossed ⟨hp₁, hp₂⟩
  · exact hg.methodDefinition hp₂
  · exact hg.classDeclaration hp₂
  · exact hg.crossed ⟨hp₂, hp₁⟩
  · exact hg.methodDefinition hp₁
  · exact hg.methodDefinition hp₁

/-! ## §3. Whole trees. -/

/-- Without a circle every dispatch ends, by induction along the nodes inside. -/
theorem scope_halt?_ne_unfinished (hg : g.registry.EndsDispatch) (k : Kind) (n : Node) :
    (g.scope.emitAs k n).halt? ≠ some .unfinished := by
  induction n using Node.below_induction generalizing k with
  | step n ih =>
    have direct : ∀ k, g.redirect k n = none → (g.scope.emitAs k n).halt? ≠ some .unfinished := by
      intro k hk
      rw [scope_emitAs]
      cases hp : g.registry.get? k with
      | none => simp [Doc.fail]
      | some p =>
        obtain ⟨_, ha⟩ := Procedure.exists_alike (by simpa [redirect, hp] using hk) g.scope g.scope
        exact ha.halt?_ne_unfinished fun k' c hc => ih c hc k'
    -- a node is redirected twice at most, and then there would be a circle
    cases h₁ : g.redirect k n with
    | none => exact direct k h₁
    | some k₁ =>
      rw [scope_of_redirect h₁]
      cases h₂ : g.redirect k₁ n with
      | none => exact direct k₁ h₂
      | some k₂ =>
        rw [scope_of_redirect h₂]
        exact direct k₂ (redirect_eq_none hg h₁ h₂)

end Grammar

/-- An entry of an object that is a method: the node that both procedures hand back. -/
def Node.methodEntry : Node :=
  .property { key := .thisExpression, value := .thisExpression, method := true }

/-- With one of the excluded bindings dispatch of a method entry comes back to a kind. -/
theorem Registry.exists_circle {r : Registry} (hr : ¬r.EndsDispatch) :
    ∃ ks : List Kind, ks ≠ [] ∧ ∀ t : PrecedenceTable, ∀ k ∈ ks,
      ∃ k' ∈ ks, (Grammar.mk r t).redirect k .methodEntry = some k' := by
  -- each of the three bindings is a circle of its own
  by_cases hc : r.get? .classDeclaration = some .classExpression
  · refine ⟨[.classDeclaration], List.cons_ne_nil _ _, fun t k hk => ?_⟩
    obtain rfl := List.mem_singleton.mp hk
    exact ⟨.classDeclaration, by decide, by simp [Grammar.redirect, hc, Procedure.redirect]⟩
  by_cases hm : r.get? .methodDefinition = some .property
  · refine ⟨[.methodDefinition], List.cons_ne_nil _ _, fun t k hk => ?_⟩
    obtain rfl := List.mem_singleton.mp hk
    exact ⟨.methodDefinition, by decide,
      by simp [Grammar.redirect, hm, Procedure.redirect, Node.methodEntry]⟩
  by_cases hx : r.get? .classDeclaration = some .property ∧
      r.get? .methodDefinition = some .classExpression
  · refine ⟨[.classDeclaration, .methodDefinition], List.cons_ne_nil _ _, fun t k hk => ?_⟩
    have hk : k = .classDeclaration ∨ k = .methodDefinition := by simpa using hk
    rcases hk with rfl | rfl
    · exact ⟨.methodDefinition, by decide,
        by simp [Grammar.redirect, hx.1, Procedure.redirect, Node.methodEntry]⟩
    · exact ⟨.classDeclaration, by decide, by simp [Grammar.redirect, hx.2, Procedure.redirect]⟩
  exact absurd ⟨hc, hm, hx⟩ hr

/-- **Dispatch ends exactly in the registries without a circle.** If a registry has none of the
excluded bindings, the dispatch of every node under every kind ends; if it has one of them, there
are a kind and a node whose dispatch uses up every bound, whatever the table and wherever it is
written. The registries of the two languages and the extension have none. -/
theorem Registry.endsDispatch_decides (r : Registry) :
    (r.EndsDispatch → ∀ (t : PrecedenceTable) (k : Kind) (n : Node),
      (Grammar.mk r t).Terminates k n) ∧
    (¬r.EndsDispatch → ∃ (k : Kind) (n : Node), ∀ (t : PrecedenceTable) (bound : Nat) (w : Writer),
      (((Grammar.mk r t).emitAs bound k n).run w).1 = .error .unfinished) ∧
    base.EndsDispatch ∧ extension.EndsDispatch ∧ full.EndsDispatch := by
  refine ⟨fun hr t k n => ?_, fun hr => ?_, base_endsDispatch, extension_endsDispatch,
    full_endsDispatch⟩
  · exact Grammar.terminates_iff.mpr (Grammar.scope_halt?_ne_unfinished hr k n)
  · obtain ⟨ks, hne, hks⟩ := exists_circle hr
    obtain ⟨k, hk⟩ := List.exists_mem_of_ne_nil ks hne
    refine ⟨k, .methodEntry, fun t bound w => ?_⟩
    rw [Grammar.emitAs_of_circle (hks t) bound k hk]
    rfl

/-- Half of the crossed bindings is no circle: with class declarations bound to the procedure of
properties a class expression that is a method entry still ends. With both halves it does not. -/
theorem Registry.endsDispatch_decides_crossed :
    ((base.register .classDeclaration .property).EndsDispatch ∧
      (Grammar.mk (base.register .classDeclaration .property) .empty).Terminates .classExpression
        .methodEntry) ∧
    ∃ (k : Kind) (n : Node), ∀ (t : PrecedenceTable) (bound : Nat) (w : Writer),
      (((Grammar.mk ((base.register .classDeclaration .property).register .methodDefinition
        .classExpression) t).emitAs bound k n).run w).1 = .error .unfinished := by
  have hhalf : (base.register .classDeclaration .property).EndsDispatch :=
    ⟨by decide, by decide, by decide⟩
  refine ⟨⟨hhalf, (endsDispatch_decides _).1 hhalf .empty _ _⟩, (endsDispatch_decides _).2.1 ?_⟩
  exact fun h => h.crossed (by decide)

end Estree
