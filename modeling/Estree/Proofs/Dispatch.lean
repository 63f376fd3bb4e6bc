import Estree.Generator
import Estree.Proofs.Alike
import Estree.Proofs.Writing

/-!
# Dispatch

The bound on nested dispatches is a device to define `Grammar.emitAs`. It leaves no trace: from
three dispatches for each level of the tree on, every bound gives the same document
(`Grammar.emitAs_stable`), because a procedure that dispatches its own node again does so under one
of two kinds only. So the dispatch of a grammar satisfies the equation without a bound
(`Grammar.scope_emitAs`), whatever the registry. A dispatch that goes in a circle is unfinished at
every bound, and one that ends at some bound ends within the bound of the grammar
(`Grammar.terminates_iff`).

Every document of a dispatch is steady (`Grammar.steady_emitAs`): each procedure comes back from the
levels that it goes to, and so does, by induction on the dispatches, a whole tree. That is why the
text of a tree is read off its pieces, whatever the layout (`Generator.generate_eq`).

Main results:

* `Grammar.emitAs_stable`: bounds do not matter from some bound on.
* `Grammar.scope_emitAs`: the equation of dispatch, without a bound.
* `Grammar.terminates_iff`: the bound of the grammar is enough.
* `Grammar.steady_emitAs`: every document comes back to its level.
* `Generator.generate_eq`: the text of a tree, from the pieces of its document.
-/

namespace Estree

/-! ## §1. Scopes that agree. -/

/-- Scopes that agree on what a procedure asks for make the same document. -/
theorem Alike.eq {s₁ s₂ : Scope} {n : Node} {a b : Spot} {d₁ d₂ : Doc}
    (h : Alike s₁ s₂ n a b d₁ d₂) (hr : s₁.RanksAgree s₂ n)
    (he : ∀ k c, c.Below n → k = c.kind ∨ k ∈ assignedKinds → s₁.emitAs k c = s₂.emitAs k c) :
    d₁ = d₂ := by
  induction h with
  | append _ _ ihd ihe => rw [ihd, ihe]
  | anchored _ ih => rw [ih]
  | emitAs hc hk => exact he _ _ hc hk
  | parensIf hb _ ih => rw [hb hr, ih]
  | mark hb ht => rw [hb hr]
  | anywhere _ ih => exact ih
  | _ => rfl

/-- Scopes that dispatch alike make documents that are written alike. -/
theorem Alike.sameUpTo {s₁ s₂ : Scope} {n : Node} {a b : Spot} {d₁ d₂ : Doc}
    (h : Alike s₁ s₂ n a b d₁ d₂) {f : EmitError → EmitError}
    (hf : ∀ k d, f (.malformed k d) = .malformed k d) (hr : s₁.RanksAgree s₂ n)
    (he : ∀ k c, c.Below n → k = c.kind ∨ k ∈ assignedKinds →
      (s₁.emitAs k c).SameUpTo f (s₂.emitAs k c)) :
    d₁.SameUpTo f d₂ := by
  induction h with
  | append _ _ ihd ihe => exact ihd.append ihe
  | anchored _ ih => exact ih.anchored
  -- a defect is not about a dispatch, so the function leaves it alone
  | @malformed _ _ _ _ _ c _ d =>
    exact ⟨congrArg (fun e => some (Halt.error e)) (hf c.kind d).symm, fun _ => rfl,
      fun _ _ => rfl⟩
  | emitAs hc hk => exact he _ _ hc hk
  -- ranks agree, so both have the parentheses or neither has
  | parensIf hb _ ih =>
    rw [hb hr]
    exact ih.parensIf _
  | @mark _ b₁ b₂ hb t _ =>
    rw [hb hr]
    cases b₂ <;> exact .of_continues rfl
  | anywhere _ ih => exact ih
  | _ => exact .of_continues rfl

/-- A document of a procedure stops at a defect of the node or of one inside it, or where the
dispatch of a node inside stops. -/
theorem Alike.halt?_cases {s₁ s₂ : Scope} {n : Node} {a b : Spot} {d₁ d₂ : Doc}
    (h : Alike s₁ s₂ n a b d₁ d₂) {x : Halt} (hx : d₁.halt? = some x) :
    (∃ (c : Node) (d : Defect), (c = n ∨ c.Below n) ∧ x = .error (.malformed c.kind d)) ∨
      ∃ (k : Kind) (c : Node), c.Below n ∧ (k = c.kind ∨ k ∈ assignedKinds) ∧
        (s₁.emitAs k c).halt? = some x := by
  induction h with
  | append _ _ ihd ihe =>
    -- the first part that stops is what is reported
    rcases Option.or_eq_some_iff.mp hx with hx | ⟨-, hx⟩
    · exact ihd hx
    · exact ihe hx
  | anchored _ ih => exact ih hx
  | @malformed _ _ _ _ _ c hc d => exact .inl ⟨c, d, hc, (Option.some.inj hx).symm⟩
  | @emitAs _ k c hc hk => exact .inr ⟨k, c, hc, hk, hx⟩
  | @parensIf _ d₁ _ b₁ _ _ _ ih =>
    cases b₁ with
    | false => exact ih hx
    | true => exact ih (by simpa [Doc.parensIf, Doc.parens] using hx)
  | @mark _ b₁ => cases b₁ <;> cases hx
  | anywhere _ ih => exact ih hx
  | _ => cases hx

/-- The document `d₁` is unfinished, or it is written as `d₂` is. -/
def Doc.Refines (d₁ d₂ : Doc) : Prop :=
  d₁.halt? = some .unfinished ∨ (d₁.halt? = d₂.halt? ∧
    (∀ level, d₁.levelAfter level = d₂.levelAfter level) ∧
    ∀ level, d₁.pieces level = d₂.pieces level)

namespace Doc.Refines

/-- A document refines itself. -/
theorem refl (d : Doc) : d.Refines d := .inr ⟨rfl, fun _ => rfl, fun _ => rfl⟩

/-- Refinement goes from one document to the next. -/
theorem trans {d₁ d₂ d₃ : Doc} (h : d₁.Refines d₂) (h' : d₂.Refines d₃) : d₁.Refines d₃ := by
  rcases h with h | ⟨hh, hl, hp⟩
  · exact .inl h
  · rcases h' with h' | ⟨hh', hl', hp'⟩
    · exact .inl (hh.trans h')
    · exact .inr ⟨hh.trans hh', fun level => (hl level).trans (hl' level),
        fun level => (hp level).trans (hp' level)⟩

/-- It goes through appending. -/
theorem append {a₁ a₂ b₁ b₂ : Doc} (ha : a₁.Refines a₂) (hb : b₁.Refines b₂) :
    (a₁ ++ b₁).Refines (a₂ ++ b₂) := by
  rcases ha with ha | ⟨hh, hl, hp⟩
  · exact .inl (by simp [ha])
  · cases hstop : a₁.halt? with
    | some h =>
      -- nothing after the stop matters
      refine .inr ⟨?_, fun level => ?_, fun level => ?_⟩
      · simp [← hh, hstop]
      · simp [levelAfter_append, ← hh, hstop, hl]
      · simp [pieces_append, ← hh, hstop, hp]
    | none =>
      rcases hb with hb | ⟨hh', hl', hp'⟩
      · exact .inl (by simp [hstop, hb])
      · refine .inr ⟨?_, fun level => ?_, fun level => ?_⟩
        · simp [← hh, hstop, hh']
        · simp [levelAfter_append, ← hh, hstop, hl, hl']
        · simp [pieces_append, after, ← hh, hstop, hl, hp, hp']

/-- It goes through remembering a depth. -/
theorem anchored {d₁ d₂ : Doc} (h : d₁.Refines d₂) : (Doc.anchored d₁).Refines (Doc.anchored d₂) :=
  h.imp id fun ⟨hh, hl, hp⟩ => ⟨hh, hl, fun _ => hp _⟩

/-- It goes through parentheses. -/
theorem parensIf {d₁ d₂ : Doc} (b : Bool) (h : d₁.Refines d₂) :
    (d₁.parensIf b).Refines (d₂.parensIf b) := by
  cases b
  · exact h
  · exact append (append (refl _) h) (refl _)

end Doc.Refines

/-- A scope whose dispatches refine those of another makes documents that do. -/
theorem Alike.refines {s₁ s₂ : Scope} {n : Node} {a b : Spot} {d₁ d₂ : Doc}
    (h : Alike s₁ s₂ n a b d₁ d₂) (hr : s₁.RanksAgree s₂ n)
    (he : ∀ k c, (s₁.emitAs k c).Refines (s₂.emitAs k c)) : d₁.Refines d₂ := by
  induction h with
  | append _ _ ihd ihe => exact ihd.append ihe
  | anchored _ ih => exact ih.anchored
  | emitAs => exact he _ _
  | parensIf hb _ ih =>
    rw [hb hr]
    exact ih.parensIf _
  | mark hb ht =>
    rw [hb hr]
    exact .refl _
  | anywhere _ ih => exact ih
  | _ => exact .refl _

namespace Grammar

/-! ## §2. One dispatch. -/

/-- The kind under which a node is dispatched again without anything being written, if it is. -/
def redirect (g : Grammar) (k : Kind) (n : Node) : Option Kind :=
  (g.registry.get? k).bind fun p => p.redirect n

/-- A redirected dispatch goes on under the other kind. -/
theorem emitAs_of_redirect {g : Grammar} {k k' : Kind} {n : Node} (h : g.redirect k n = some k')
    (bound : Nat) : g.emitAs (bound + 1) k n = g.emitAs bound k' n := by
  obtain ⟨p, hp, hr⟩ := Option.bind_eq_some_iff.mp h
  simp only [emitAs, hp, Procedure.doc_of_redirect hr]

/-- Without a redirection only the dispatches of nodes inside matter. -/
theorem emitAs_congr {g : Grammar} {k : Kind} {n : Node} (h : g.redirect k n = none) {b c : Nat}
    (he : ∀ k' m, m.Below n → g.emitAs b k' m = g.emitAs c k' m) :
    g.emitAs (b + 1) k n = g.emitAs (c + 1) k n := by
  unfold emitAs
  split
  next => rfl
  next p hp =>
    have hr : p.redirect n = none := by simpa [redirect, hp] using h
    obtain ⟨_, ha⟩ := Procedure.exists_alike hr { emitAs := g.emitAs b, rank := g.table.rank }
      { emitAs := g.emitAs c, rank := g.table.rank }
    exact ha.eq (fun _ _ => rfl) fun k' m hm _ => he k' m hm

/-- A dispatch is redirected to classes and methods only. -/
theorem redirect_mem {g : Grammar} {k k' : Kind} {n : Node} (h : g.redirect k n = some k') :
    k' = .classDeclaration ∨ k' = .methodDefinition := by
  obtain ⟨p, -, hr⟩ := Option.bind_eq_some_iff.mp h
  exact Procedure.redirect_mem hr

/-- Dispatch that goes in a circle is unfinished at every bound. -/
theorem emitAs_of_circle {g : Grammar} {n : Node} {ks : List Kind}
    (hks : ∀ k ∈ ks, ∃ k' ∈ ks, g.redirect k n = some k') (bound : Nat) :
    ∀ k ∈ ks, g.emitAs bound k n = .stop .unfinished := by
  induction bound with
  | zero =>
    intro k _
    rfl
  | succ bound ih =>
    intro k hk
    obtain ⟨k', hk', hr⟩ := hks k hk
    rw [emitAs_of_redirect hr]
    exact ih k' hk'

/-- Three redirections in a row go in a circle: there are but two kinds to go to. -/
theorem circle_of_redirect {g : Grammar} {n : Node} {k k₁ k₂ k₃ : Kind}
    (h₁ : g.redirect k n = some k₁) (h₂ : g.redirect k₁ n = some k₂)
    (h₃ : g.redirect k₂ n = some k₃) :
    ∀ k ∈ [k₁, k₂], ∃ k' ∈ [k₁, k₂], g.redirect k n = some k' := by
  have hk₃ : k₃ ∈ [k₁, k₂] := by
    by_cases h12 : k₁ = k₂
    · rw [h12, h₃] at h₂
      simp [Option.some.inj h₂]
    · rcases redirect_mem h₁ with rfl | rfl <;> rcases redirect_mem h₂ with rfl | rfl <;>
        rcases redirect_mem h₃ with rfl | rfl <;> simp_all
  intro k hk
  simp only [List.mem_cons, List.not_mem_nil, or_false] at hk
  rcases hk with rfl | rfl
  · exact ⟨k₂, by simp, h₂⟩
  · exact ⟨k₃, hk₃, h₃⟩

/-- What holds of the document of every node: it is enough that a procedure passes it on from the
nodes inside to the node. -/
theorem emitAs_induction {g : Grammar} {motive : Kind → Node → Doc → Prop}
    (unfinished : ∀ k n, motive k n (.stop .unfinished))
    (unsupported : ∀ k n, g.registry.get? k = none → motive k n (.fail (.unsupported k n)))
    (redirected : ∀ k k' n d, motive k' n d → motive k n d)
    (direct : ∀ k n (p : Procedure) (s : Scope), p.redirect n = none → s.rank = g.table.rank →
      (∀ k' m, motive k' m (s.emitAs k' m)) → motive k n (p.doc s n))
    (bound : Nat) (k : Kind) (n : Node) : motive k n (g.emitAs bound k n) := by
  induction bound generalizing k n with
  | zero => exact unfinished k n
  | succ bound ih =>
    cases hr : g.redirect k n with
    | some k' =>
      rw [emitAs_of_redirect hr]
      exact redirected k k' n _ (ih k' n)
    | none =>
      unfold emitAs
      split
      next hk => exact unsupported k n hk
      next p hp => exact direct k n p _ (by simpa [redirect, hp] using hr) rfl ih

/-! ## §3. The bound. -/

/-- **Bounds do not matter** from three dispatches for each level of the tree on. -/
theorem emitAs_stable (g : Grammar) (n : Node) :
    ∀ {k : Kind} {b c : Nat}, bound n ≤ b → bound n ≤ c → g.emitAs b k n = g.emitAs c k n := by
  induction n using Node.below_induction with
  | step n ih =>
    intro k b c hb hc
    have hpos := n.height_pos
    -- a kind without a redirection is settled as soon as all the nodes inside are
    have direct : ∀ {k : Kind} {b c : Nat}, g.redirect k n = none →
        bound n ≤ b + 2 → bound n ≤ c + 2 → g.emitAs b k n = g.emitAs c k n := by
      intro k b c hk hb hc
      unfold bound at hb hc
      obtain ⟨b, rfl⟩ : ∃ b', b = b' + 1 := ⟨b - 1, by omega⟩
      obtain ⟨c, rfl⟩ : ∃ c', c = c' + 1 := ⟨c - 1, by omega⟩
      refine emitAs_congr hk fun k' m hm => ih m hm ?_ ?_ <;>
      · have := hm.height_lt
        unfold bound
        omega
    unfold bound at hb hc
    obtain ⟨b, rfl⟩ : ∃ b', b = b' + 3 := ⟨b - 3, by omega⟩
    obtain ⟨c, rfl⟩ : ∃ c', c = c' + 3 := ⟨c - 3, by omega⟩
    cases h₁ : g.redirect k n with
    | none => exact direct h₁ (by unfold bound; omega) (by unfold bound; omega)
    | some k₁ =>
      rw [emitAs_of_redirect h₁, emitAs_of_redirect h₁]
      cases h₂ : g.redirect k₁ n with
      | none => exact direct h₂ (by unfold bound; omega) (by unfold bound; omega)
      | some k₂ =>
        rw [emitAs_of_redirect h₂, emitAs_of_redirect h₂]
        cases h₃ : g.redirect k₂ n with
        | none => exact direct h₃ (by unfold bound; omega) (by unfold bound; omega)
        | some k₃ =>
          have hks := circle_of_redirect h₁ h₂ h₃
          rw [emitAs_of_circle hks _ k₂ (by simp), emitAs_of_circle hks _ k₂ (by simp)]

/-- A bound that is large enough is as good as the one of the tree. -/
theorem emitAs_eq_scope {g : Grammar} {k : Kind} {n : Node} {b : Nat} (h : bound n ≤ b) :
    g.emitAs b k n = g.scope.emitAs k n :=
  emitAs_stable g n h (Nat.le_refl _)

/-- A smaller tree needs a smaller bound. -/
theorem bound_le_of_below {c n : Node} (h : c.Below n) : bound c ≤ bound n :=
  Nat.mul_le_mul_left 3 (Nat.le_of_lt h.height_lt)

/-- **Dispatch without a bound**: a procedure works with the dispatch that it is part of. -/
theorem scope_emitAs (g : Grammar) (k : Kind) (n : Node) :
    g.scope.emitAs k n = match g.registry.get? k with
      | none => .fail (.unsupported k n)
      | some p => p.doc g.scope n := by
  rw [← emitAs_eq_scope (Nat.le_succ (bound n)), emitAs]
  cases g.registry.get? k with
  | none => rfl
  | some p =>
    simp only
    cases hr : p.redirect n with
    | some k' =>
      rw [Procedure.doc_of_redirect hr, Procedure.doc_of_redirect hr]
      rfl
    | none =>
      obtain ⟨_, ha⟩ := Procedure.exists_alike hr
        { emitAs := g.emitAs (bound n), rank := g.table.rank } g.scope
      exact ha.eq (fun _ _ => rfl) fun k' m hm _ => emitAs_eq_scope (bound_le_of_below hm)

/-- In the scope of a grammar a redirection is not seen. -/
theorem scope_of_redirect {g : Grammar} {k k' : Kind} {n : Node} (h : g.redirect k n = some k') :
    g.scope.emitAs k n = g.scope.emitAs k' n := by
  obtain ⟨p, hp, hr⟩ := Option.bind_eq_some_iff.mp h
  rw [scope_emitAs g k, hp]
  exact Procedure.doc_of_redirect hr

/-- A node is written by the procedure of its kind. -/
theorem scope_emit {g : Grammar} {n : Node} {p : Procedure} (hp : g.registry.get? n.kind = some p) :
    g.scope.emit n = p.doc g.scope n := by
  unfold Scope.emit
  rw [scope_emitAs, hp]

/-- A node without a procedure for its kind is not written. -/
theorem halt?_of_unbound {g : Grammar} {n : Node} (h : g.registry.get? n.kind = none) :
    (g.scope.emit n).halt? = some (.error (.unsupported n.kind n)) := by
  unfold Scope.emit
  rw [scope_emitAs, h]
  rfl

/-! ## §4. Termination. -/

/-- **A larger bound only goes further**: what was written stays. -/
theorem emitAs_refines_succ (g : Grammar) (bound : Nat) (k : Kind) (n : Node) :
    (g.emitAs bound k n).Refines (g.emitAs (bound + 1) k n) := by
  induction bound generalizing k n with
  | zero => exact .inl rfl
  | succ bound ih =>
    cases hr : g.redirect k n with
    | some k' =>
      rw [emitAs_of_redirect hr, emitAs_of_redirect hr]
      exact ih k' n
    | none =>
      unfold emitAs
      split
      next => exact .refl _
      next p hp =>
        have hr : p.redirect n = none := by simpa [redirect, hp] using hr
        obtain ⟨_, ha⟩ := Procedure.exists_alike hr
          { emitAs := g.emitAs bound, rank := g.table.rank }
          { emitAs := g.emitAs (bound + 1), rank := g.table.rank }
        exact ha.refines (fun _ _ => rfl) ih

/-- A larger bound keeps what is finished. -/
theorem emitAs_refines {g : Grammar} {b c : Nat} (h : b ≤ c) (k : Kind) (n : Node) :
    (g.emitAs b k n).Refines (g.emitAs c k n) := by
  induction h with
  | refl => exact .refl _
  | step _ ih => exact ih.trans (g.emitAs_refines_succ _ k n)

/-- Dispatch ends: some bound on nested dispatches is enough for the node. -/
def Terminates (g : Grammar) (k : Kind) (n : Node) : Prop :=
  ∃ bound, ∀ w, ((g.emitAs bound k n).run w).1 ≠ .error .unfinished

/-- **The bound of the grammar is enough** wherever any bound is. -/
theorem terminates_iff {g : Grammar} {k : Kind} {n : Node} :
    g.Terminates k n ↔ (g.scope.emitAs k n).halt? ≠ some .unfinished := by
  constructor
  · rintro ⟨b, hb⟩ hu
    -- both bounds are below their maximum
    rw [← emitAs_eq_scope (Nat.le_max_right b (bound n))] at hu
    have hfin : (g.emitAs b k n).halt? ≠ some .unfinished := by
      intro h
      refine hb ⟨"", "", 0, ""⟩ ?_
      rw [Doc.run_eq, h]
      rfl
    -- what is finished at the smaller bound stays as it is
    rcases emitAs_refines (g := g) (Nat.le_max_left b (bound n)) k n with h | ⟨h, -, -⟩
    · exact hfin h
    · exact hfin (h.trans hu)
  · intro h
    refine ⟨bound n, fun w hw => h ?_⟩
    change ((g.scope.emitAs k n).run w).1 = _ at hw
    rw [Doc.run_eq] at hw
    cases hh : (g.scope.emitAs k n).halt? with
    | none => simp [hh, Doc.outcome] at hw
    | some e => simpa [hh, Doc.outcome] using hw

end Grammar

/-! ## §5. Levels and texts. -/

/-- **A procedure comes back from the levels that it goes to**, when the dispatches of the nodes
inside do: its document leads from the level of the first spot to that of the second. -/
theorem Alike.moves {s₁ s₂ : Scope} {n : Node} {a b : Spot} {d₁ d₂ : Doc}
    (h : Alike s₁ s₂ n a b d₁ d₂) (he : ∀ k c, c.Below n → (s₁.emitAs k c).Steady) :
    d₁.Moves a.depth.anchored a.depth.levels b.depth.levels := by
  induction h with
  | nil => exact .nil
  | text t => exact .text t
  | lineEnd => exact .lineEnd
  | indent => exact .indent
  | indentAt levels => exact .indentAt levels
  | deeper => exact .deeper
  | shallower => exact .shallower
  -- the first part ends at the spot where the second starts, and keeps what is remembered
  | append hd _ ihd ihe => exact ihd.append (hd.anchored_eq ▸ ihe)
  | anchored _ ih => exact ih.anchored
  | malformed => exact .stop _
  -- a dispatch inside is steady from any level on
  | emitAs hc => exact (he _ _ hc).moves _ _
  | parensIf _ _ ih => exact ih.parensIf _
  | @mark _ b₁ _ _ t =>
    cases b₁
    · exact .nil
    · exact .text t
  | anywhere _ ih => exact ih

/-- **The document of every node is steady**: dispatch ends at the level at which it starts. -/
theorem Grammar.steady_emitAs (g : Grammar) (bound : Nat) (k : Kind) (n : Node) :
    (g.emitAs bound k n).Steady := by
  refine emitAs_induction (motive := fun _ _ d => d.Steady) ?_ ?_ ?_ ?_ bound k n
  · exact fun _ _ => .stop _
  · exact fun _ _ _ => .stop _
  · exact fun _ _ _ _ h => h
  · intro k n p s hr _ ih
    obtain ⟨line, ha⟩ := Procedure.exists_alike hr s s
    exact ha.moves fun k' c _ => ih k' c

/-- A dispatch ends at the level at which it starts. -/
theorem Grammar.steady_emit (g : Grammar) (n : Node) : (g.scope.emit n).Steady :=
  g.steady_emitAs (bound n) n.kind n

namespace Dialect

/-- The document of a node in a dialect. -/
abbrev doc (d : Dialect) (n : Node) : Doc := (Grammar.ofDialect d).scope.emit n

/-- A node is written by what the dialect has for its kind. -/
theorem doc_eq {d : Dialect} {n : Node} {p : Procedure}
    (hp : (Grammar.ofDialect d).registry.get? n.kind = some p) :
    d.doc n = p.doc (Grammar.ofDialect d).scope n :=
  Grammar.scope_emit hp

/-- The writing of a whole tree ends at the level at which it starts. -/
theorem steady_doc (d : Dialect) (n : Node) : (d.doc n).Steady :=
  (Grammar.ofDialect d).steady_emit n

end Dialect

/-- **The text of a tree** is that of the pieces of its document, unless the document stops. -/
theorem Generator.generate_eq (g : Generator) (root : Node) :
    g.generate root = match (g.grammar.emit root).halt? with
      | none => .ok (Piece.renderAll g.layout ((g.grammar.emit root).pieces .start))
      | some h => .error (.ofHalt h) := by
  rw [generate, Grammar.emit, (g.grammar.steady_emit root).render_eq]
  cases (g.grammar.scope.emit root).halt? <;> rfl

/-- A tree has a text exactly if its document does not stop. -/
theorem Generator.generate_eq_ok_iff {g : Generator} {root : Node} {text : String} :
    g.generate root = .ok text ↔ (g.grammar.emit root).halt? = none ∧
      Piece.renderAll g.layout ((g.grammar.emit root).pieces .start) = text := by
  rw [generate_eq]
  cases (g.grammar.emit root).halt? <;> simp

end Estree
