import Estree.Proofs.Dispatch

/-!
# What generation looks up

A tree is written by the procedures of its own kinds and of seven others (`forcedKinds`): the kinds
under which some procedure dispatches a part of its node, or the node itself, whatever the kind of
that. Ranks are asked of the kinds of the tree and of seven thresholds (`thresholdKinds`). Nothing
else in a registry or in a table matters for the tree:

    g₁.AgreeAt g₂ n → g₁.emitAs bound k n = g₂.emitAs bound k n

So an extension that binds none of these kinds changes nothing, and laying an extension over a
registry is looking into the extension first whenever a node is dispatched (`Grammar.emitOver`).

Main results:

* `Grammar.emitAs_eq_of_agreeAt`: grammars that agree on a tree dispatch it alike.
* `Grammar.emitOver`: dispatch that looks into an extension first.
* `Generator.generate_local`: the same for whole texts.
-/

namespace Estree

/-! ## §1. The kinds that are looked up. -/

/-- The kinds under which nodes are dispatched whatever their own kind. -/
def forcedKinds : List Kind :=
  [.variableDeclarator, .classBody, .classDeclaration, .methodDefinition, .objectExpression,
    .literal, .importAttribute]

/-- The kinds whose ranks are thresholds. -/
def thresholdKinds : List Kind :=
  [.callExpression, .memberExpression, .classExpression, .conditionalExpression,
    .tsSatisfiesExpression, .tsTypeAssertion, .tsNonNullExpression]

/-- A part of a node may be assigned one of the forced kinds. -/
theorem mem_forcedKinds_of_assigned {k : Kind} (hk : k ∈ assignedKinds) : k ∈ forcedKinds := by
  revert k
  decide

/-- A node is handed on under one of the forced kinds. -/
theorem Procedure.mem_forcedKinds_of_redirect {p : Procedure} {n : Node} {k : Kind}
    (h : p.redirect n = some k) : k ∈ forcedKinds := by
  rcases redirect_mem h with rfl | rfl <;> decide

/-- The kind is that of the node or of one inside it. -/
def Node.HasKind (n : Node) (k : Kind) : Prop := ∃ c : Node, (c = n ∨ c.Below n) ∧ k = c.kind

namespace Node.HasKind

variable {n c : Node} {k : Kind}

/-- A tree has the kind of its root. -/
theorem self (n : Node) : n.HasKind n.kind := ⟨n, .inl rfl, rfl⟩

/-- It has the kinds of the trees below it. -/
theorem of_below (h : c.HasKind k) (hc : c.Below n) : n.HasKind k := by
  obtain ⟨m, hm, rfl⟩ := h
  rcases hm with rfl | hm
  · exact ⟨m, .inr hc, rfl⟩
  · exact ⟨m, .inr (hm.trans hc), rfl⟩

end Node.HasKind

/-! ## §2. Grammars that agree on a tree. -/

/-- The grammars bind the kinds alike that the tree needs, and rank them alike. -/
structure Grammar.AgreeAt (g₁ g₂ : Grammar) (n : Node) : Prop where
  procedures : ∀ k, n.HasKind k ∨ k ∈ forcedKinds → g₁.registry.get? k = g₂.registry.get? k
  ranks : ∀ k, n.HasKind k ∨ k ∈ thresholdKinds → g₁.table.rank k = g₂.table.rank k

namespace Grammar

variable {g₁ g₂ : Grammar} {n c : Node}

/-- Grammars that agree at a tree agree at the trees below it. -/
theorem AgreeAt.below (h : g₁.AgreeAt g₂ n) (hc : c.Below n) : g₁.AgreeAt g₂ c where
  procedures k hk := h.procedures k (hk.imp_left (·.of_below hc))
  ranks k hk := h.ranks k (hk.imp_left (·.of_below hc))

/-- Grammars that agree on a tree rank all that a procedure asks for alike. -/
theorem AgreeAt.ranksAgree (h : g₁.AgreeAt g₂ n) {e₁ e₂ : Kind → Node → Doc} :
    (Scope.mk e₁ g₁.table.rank).RanksAgree (Scope.mk e₂ g₂.table.rank) n := by
  have hposition : ∀ k ∈ positionKinds, k ∈ thresholdKinds := by decide
  rintro k (rfl | ⟨c, hc, rfl⟩ | hk | ⟨rfl, -⟩)
  · exact h.ranks _ (.inl (.self n))
  · exact h.ranks _ (.inl ((Node.HasKind.self c).of_below hc))
  · exact h.ranks k (.inr (hposition k hk))
  · exact h.ranks _ (.inr (by decide))

/-- **Dispatch is local.** Two grammars that agree on a tree make the same document of it, by
induction on the bound: the two dispatches ask for the same procedure, and it asks for the same
dispatches and ranks. -/
theorem emitAs_eq_of_agreeAt (bound : Nat) {k : Kind} (h : g₁.AgreeAt g₂ n)
    (hk : k = n.kind ∨ k ∈ forcedKinds) : g₁.emitAs bound k n = g₂.emitAs bound k n := by
  induction bound generalizing k n with
  | zero => rfl
  | succ bound ih =>
    have hget : g₁.registry.get? k = g₂.registry.get? k := by
      rcases hk with rfl | hk
      · exact h.procedures _ (.inl (.self n))
      · exact h.procedures k (.inr hk)
    unfold emitAs
    rw [← hget]
    cases g₁.registry.get? k with
    | none => rfl
    | some p =>
      -- a redirection dispatches on the same node again, with a smaller bound
      cases hr : p.redirect n with
      | some k' =>
        simp only [Procedure.doc_of_redirect hr]
        exact ih h (.inr (Procedure.mem_forcedKinds_of_redirect hr))
      | none =>
        obtain ⟨_, ha⟩ := Procedure.exists_alike hr (Scope.mk (g₁.emitAs bound) g₁.table.rank)
          (Scope.mk (g₂.emitAs bound) g₂.table.rank)
        exact ha.eq h.ranksAgree fun k' c hc hk' =>
          ih (h.below hc) (hk'.imp_right mem_forcedKinds_of_assigned)

/-- **Agreement at a tree is enough**: both write it alike. -/
theorem emit_eq_of_agreeAt (h : g₁.AgreeAt g₂ n) : g₁.emit n = g₂.emit n :=
  emitAs_eq_of_agreeAt (bound n) h (.inl rfl)

/-! ## §3. Extensions. -/

variable {base extension : Registry} {t : PrecedenceTable}

theorem get?_layer (k : Kind) :
    (base.layer extension).get? k = (extension.get? k).or (base.get? k) := rfl

/-- An extension that binds nothing that the tree needs makes no difference. -/
theorem agreeAt_layer (h : ∀ k, n.HasKind k ∨ k ∈ forcedKinds → extension.get? k = none) :
    (Grammar.mk (base.layer extension) t).AgreeAt (Grammar.mk base t) n where
  procedures k hk := by
    rw [get?_layer, h k hk, Option.none_or]
  ranks _ _ := rfl

/-- Dispatch that looks a kind up in the extension and, if it is not bound there, in the base. -/
def emitOver (base extension : Registry) (t : PrecedenceTable) : (bound : Nat) → Kind → Node → Doc
  | 0, _, _ => .stop .unfinished
  | bound + 1, k, n =>
    let s : Scope := { emitAs := emitOver base extension t bound, rank := t.rank }
    match extension.get? k with
    | some p => p.doc s n
    | none =>
      match base.get? k with
      | some p => p.doc s n
      | none => .fail (.unsupported k n)

/-- Laying an extension over a registry is looking into the extension first. -/
theorem emitAs_layer (bound : Nat) :
    (Grammar.mk (base.layer extension) t).emitAs bound = emitOver base extension t bound := by
  induction bound with
  | zero => rfl
  | succ bound ih =>
    funext k n
    simp only [emitAs, emitOver, ih, get?_layer]
    cases extension.get? k with
    | some p => rfl
    | none =>
      rw [Option.none_or]
      cases base.get? k <;> rfl

end Grammar

/-! ## §4. Texts. -/

/-- **Generation is local.** Two grammars that agree on the kinds of a tree, on the forced kinds and
on the thresholds give it the same text or the same error in every layout. So an extension that
binds neither a kind of the tree nor a forced kind changes nothing for it. And an extension that is
laid over a base is asked first at every dispatch. -/
theorem Generator.generate_local (n : Node) :
    (∀ g₁ g₂ : Grammar, g₁.AgreeAt g₂ n → ∀ l : Layout,
      (Generator.mk g₁ l).generate n = (Generator.mk g₂ l).generate n) ∧
    (∀ (base extension : Registry) (t : PrecedenceTable),
      (∀ k, n.HasKind k ∨ k ∈ forcedKinds → extension.get? k = none) → ∀ l : Layout,
        (Generator.mk ⟨base.layer extension, t⟩ l).generate n =
          (Generator.mk ⟨base, t⟩ l).generate n) ∧
    ∀ (base extension : Registry) (t : PrecedenceTable) (bound : Nat) (k : Kind),
      (Grammar.mk (base.layer extension) t).emitAs bound k n =
        Grammar.emitOver base extension t bound k n := by
  have hlocal : ∀ g₁ g₂ : Grammar, g₁.AgreeAt g₂ n → ∀ l : Layout,
      (Generator.mk g₁ l).generate n = (Generator.mk g₂ l).generate n := by
    intro g₁ g₂ h l
    unfold generate
    rw [Grammar.emit_eq_of_agreeAt h]
  refine ⟨hlocal, fun base extension t h => hlocal _ _ (Grammar.agreeAt_layer h), ?_⟩
  intro base extension t bound k
  rw [Grammar.emitAs_layer]

/-- The declaration `let x = this;` needs the kinds of its nodes and the forced ones: a procedure
for `debugger` and a rank for `yield` make no difference to it. -/
theorem Generator.generate_local_declaration :
    let n : Node := .variableDeclaration "let"
      [.variableDeclarator (.identifier "x" false none []) (some .thisExpression) false] false
    let g : Grammar := ⟨
      Registry.base.layer (Registry.empty.register .debuggerStatement .emptyStatement),
      PrecedenceTable.javaScript.set .yieldExpression 5⟩
    g.AgreeAt .javaScript n ∧
      (Generator.mk g {}).generate n = (Generator.mk .javaScript {}).generate n := by
  intro n g
  have hinside : ∀ c : Node, c.Below n →
      c.kind ∈ [Kind.variableDeclarator, .identifier, .thisExpression] := by
    have hleaf : ∀ m : Node, m.children = [] → ∀ c : Node, c.Below m →
        c.kind ∈ [Kind.variableDeclarator, .identifier, .thisExpression] :=
      fun m hm => Node.forall_below_iff.mpr (hm ▸ List.forall_mem_nil _)
    refine Node.forall_below_iff.mpr (List.forall_mem_singleton.mpr ⟨by decide, ?_⟩)
    refine Node.forall_below_iff.mpr (List.forall_mem_cons.mpr ⟨⟨by decide, hleaf _ rfl⟩, ?_⟩)
    exact List.forall_mem_singleton.mpr ⟨by decide, hleaf _ rfl⟩
  have hkinds : ∀ k, n.HasKind k →
      k ∈ [Kind.variableDeclaration, .variableDeclarator, .identifier, .thisExpression] := by
    rintro k ⟨c, rfl | hc, rfl⟩
    · decide
    · exact List.mem_cons_of_mem _ (hinside c hc)
  have hprocedures : ∀ k ∈ [Kind.variableDeclaration, .variableDeclarator, .identifier,
      .thisExpression] ++ forcedKinds, g.registry.get? k = Registry.base.get? k := by
    simp only [forcedKinds]
    decide
  have hranks : ∀ k ∈ [Kind.variableDeclaration, .variableDeclarator, .identifier,
      .thisExpression] ++ thresholdKinds, g.table.rank k = PrecedenceTable.javaScript.rank k := by
    decide
  have hagree : g.AgreeAt .javaScript n :=
    ⟨fun k hk => hprocedures k (List.mem_append.mpr (hk.imp_left (hkinds k))),
      fun k hk => hranks k (List.mem_append.mpr (hk.imp_left (hkinds k)))⟩
  exact ⟨hagree, (generate_local n).1 g .javaScript hagree {}⟩

end Estree
