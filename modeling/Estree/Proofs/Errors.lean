import Estree.Proofs.Locality

/-!
# Errors point into the tree

An error of generation is about the tree. An unsupported node is the root or stands inside it, it
was dispatched under its own kind or under a forced kind, and the registry has no procedure for that
kind. A defect is named by the kind of the root or of a node inside it. Procedures may be bound to
any kinds: what a procedure stops at is a defect that it finds in its node or below, or the stop of
a dispatch below (`Alike.halt?_cases`).

Main results:

* `Grammar.emitAs_pointsInto`: every stop of a dispatch is about its node.
* `Generator.generate_error_pointsInto`: every error of a tree is about the tree.
-/

namespace Estree

/-- The error is about the tree `n`, given what the registry `r` binds. -/
inductive EmitError.PointsInto (r : Registry) (n : Node) : EmitError → Prop where
  /-- A node of the tree was dispatched under a kind that is not bound. -/
  | unsupported {k : Kind} {m : Node} : m = n ∨ m.Below n → r.get? k = none →
      k = m.kind ∨ k ∈ forcedKinds → PointsInto r n (.unsupported k m)
  /-- A node of the tree has a defect. -/
  | malformed {m : Node} {d : Defect} : m = n ∨ m.Below n → PointsInto r n (.malformed m.kind d)

/-- What is about a node inside a tree is about the tree. -/
theorem EmitError.PointsInto.of_below {r : Registry} {n c : Node} {e : EmitError}
    (h : e.PointsInto r c) (hc : c.Below n) : e.PointsInto r n := by
  have hup : ∀ m : Node, m = c ∨ m.Below c → m = n ∨ m.Below n := by
    rintro m (rfl | hm)
    · exact .inr hc
    · exact .inr (hm.trans hc)
  cases h with
  | unsupported hm hr hk => exact .unsupported (hup _ hm) hr hk
  | malformed hm => exact .malformed (hup _ hm)

/-- A registry that binds the kinds of the tree and the forced kinds supports every node of it. -/
theorem EmitError.PointsInto.ne_unsupported {r : Registry} {n : Node} {e : EmitError}
    (h : e.PointsInto r n) (hr : ∀ k, n.HasKind k ∨ k ∈ forcedKinds → r.contains k = true)
    (k : Kind) (m : Node) : e ≠ .unsupported k m := by
  rintro rfl
  cases h with
  | unsupported hm hnone hk =>
    have hbound := hr k (hk.imp_left fun hk => ⟨m, hm, hk⟩)
    rw [Registry.contains, hnone] at hbound
    cases hbound

/-- **Every stop of a dispatch is about its node**, by induction on the bound. -/
theorem Grammar.emitAs_pointsInto (g : Grammar) (bound : Nat) {k : Kind} {n : Node}
    (hk : k = n.kind ∨ k ∈ forcedKinds) {e : EmitError}
    (h : (g.emitAs bound k n).halt? = some (.error e)) : e.PointsInto g.registry n := by
  induction bound generalizing k n with
  | zero => cases h
  | succ bound ih =>
    unfold emitAs at h
    split at h
    next hnone =>
      cases h
      exact .unsupported (.inl rfl) hnone hk
    next p _ =>
      cases hr : p.redirect n with
      | some k' =>
        rw [Procedure.doc_of_redirect hr] at h
        exact ih (.inr (Procedure.mem_forcedKinds_of_redirect hr)) h
      | none =>
        -- the procedure stops at a defect that it sees, or a dispatch below does
        obtain ⟨_, ha⟩ := Procedure.exists_alike hr (Scope.mk (g.emitAs bound) g.table.rank)
          (Scope.mk (g.emitAs bound) g.table.rank)
        rcases ha.halt?_cases h with ⟨c, d, hc, hx⟩ | ⟨k', c, hc, hk', hx⟩
        · cases hx
          exact .malformed hc
        · exact (ih (hk'.imp_right mem_forcedKinds_of_assigned) hx).of_below hc

/-- **Errors point into the tree.** Where dispatch ends, the error of a tree is one of emission and
it is about the tree; and if the registry binds all the kinds of the tree and the forced kinds, it
is not that of an unsupported node. -/
theorem Generator.generate_error_pointsInto (g : Generator) {n : Node}
    (ht : g.grammar.Terminates n.kind n) {e : GenerateError} (h : g.generate n = .error e) :
    (∃ fault : EmitError, e = .emit fault ∧ fault.PointsInto g.grammar.registry n) ∧
    ((∀ k, n.HasKind k ∨ k ∈ forcedKinds → g.grammar.registry.contains k = true) →
      ∀ k m, e ≠ .emit (.unsupported k m)) := by
  have hfault : ∃ fault : EmitError, e = .emit fault ∧ fault.PointsInto g.grammar.registry n := by
    rw [generate_eq] at h
    split at h
    next => cases h
    next x hx =>
      cases h
      cases x with
      | unfinished => exact absurd hx (Grammar.terminates_iff.mp ht)
      | error fault => exact ⟨fault, rfl, g.grammar.emitAs_pointsInto _ (.inl rfl) hx⟩
  refine ⟨hfault, fun hr k m he => ?_⟩
  obtain ⟨fault, rfl, hp⟩ := hfault
  exact hp.ne_unsupported hr k m (GenerateError.emit.inj he)

/-- In plain text `return this!` stops at the assertion, which has no procedure there; a template
without texts is a defect, since all the kinds that it needs are bound. -/
theorem Generator.generate_error_pointsInto_plain :
    let statement : Node := .returnStatement (some (.tsNonNullExpression .thisExpression))
    let template : Node := .templateLiteral [] []
    (∃ e fault, (Generator.mk .javaScript {}).generate statement = .error e ∧ e = .emit fault ∧
      fault.PointsInto Registry.base statement) ∧
    ∃ e, (Generator.mk .javaScript {}).generate template = .error e ∧
      ∀ k m, e ≠ .emit (.unsupported k m) := by
  intro statement template
  have hends : ∀ (n : Node) (x : EmitError), (Grammar.javaScript.emit n).halt? = some (.error x) →
      Grammar.javaScript.Terminates n.kind n := by
    intro n x hx
    refine Grammar.terminates_iff.mpr fun hu => ?_
    cases hx.symm.trans hu
  have hstatement : (Generator.mk .javaScript {}).generate statement =
      .error (.emit (.unsupported .tsNonNullExpression (.tsNonNullExpression .thisExpression))) :=
    rfl
  have htemplate : (Generator.mk .javaScript {}).generate template =
      .error (.emit (.malformed .templateLiteral (.templateCounts 0 0))) := rfl
  constructor
  · obtain ⟨⟨fault, he, hp⟩, -⟩ :=
      generate_error_pointsInto ⟨.javaScript, {}⟩ (hends statement _ rfl) hstatement
    exact ⟨_, fault, hstatement, he, hp⟩
  · -- nothing stands inside, so all kinds of the tree are bound
    have hinside : ∀ c : Node, ¬c.Below template :=
      Node.forall_below_iff.mpr (List.forall_mem_nil _)
    have hbound : ∀ k ∈ Kind.templateLiteral :: forcedKinds, Registry.base.contains k = true := by
      decide
    have hall : ∀ k, template.HasKind k ∨ k ∈ forcedKinds → Registry.base.contains k = true := by
      rintro k (⟨c, rfl | hc, rfl⟩ | hk)
      · exact hbound _ List.mem_cons_self
      · exact absurd hc (hinside c)
      · exact hbound k (List.mem_cons_of_mem _ hk)
    exact ⟨_, htemplate,
      (generate_error_pointsInto ⟨.javaScript, {}⟩ (hends template _ rfl) htemplate).2 hall⟩

end Estree
