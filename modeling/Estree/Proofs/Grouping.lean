import Estree.Generator
import Estree.Proofs.Dispatch

/-!
# Ranks only group

Procedures ask for ranks in order to decide about parentheses, about the space after a sign and
about the terminator of a default export, and about nothing else. So two precedence tables lead to
the same error, or to texts that differ in these characters only:

    ungrouped text₁ = ungrouped text₂

The two runs go side by side: a step is one procedure (`Alike.sameUngrouped`), and the run follows
by induction on the bound of nested dispatches (`Grammar.emitAs_sameUngrouped`).

Main results:

* `Alike.sameUngrouped`: one procedure with two tables.
* `Grammar.emitAs_sameUngrouped`: a whole tree with two tables.
* `Generator.generate_ungrouped`: the same error, or texts that differ in grouping only.
-/

namespace Estree

/-! ## §1. Texts without grouping. -/

/-- The characters that ranks decide about. -/
def groupingChars : List Char := ['(', ')', ' ', ';']

/-- A text without the characters that ranks decide about. -/
def ungrouped (s : String) : String := .ofList (s.toList.filter fun c => !groupingChars.contains c)

/-- What counts of two texts is what counts of each. -/
theorem ungrouped_append (s t : String) : ungrouped (s ++ t) = ungrouped s ++ ungrouped t := by
  unfold ungrouped
  rw [String.toList_append, List.filter_append, String.ofList_append]

namespace Doc

/-- The documents have the same stop and lead to the same level, and up to there they have the same
text but for grouping, whatever the layout. -/
structure SameUngrouped (d₁ d₂ : Doc) : Prop where
  halt? : d₁.halt? = d₂.halt?
  levelAfter : ∀ level, d₁.levelAfter level = d₂.levelAfter level
  text : ∀ (l : Layout) (level : Level),
    ungrouped (Piece.renderAll l (d₁.pieces level)) =
      ungrouped (Piece.renderAll l (d₂.pieces level))

namespace SameUngrouped

variable {a b c d : Doc}

/-- A document is the same as itself. -/
theorem refl (d : Doc) : d.SameUngrouped d := ⟨rfl, fun _ => rfl, fun _ _ => rfl⟩

/-- It does not matter which is first. -/
theorem symm (h : a.SameUngrouped b) : b.SameUngrouped a :=
  ⟨h.halt?.symm, fun level => (h.levelAfter level).symm, fun l level => (h.text l level).symm⟩

/-- Sameness goes from one document to the next. -/
theorem trans (h : a.SameUngrouped b) (h' : b.SameUngrouped c) : a.SameUngrouped c :=
  ⟨h.halt?.trans h'.halt?, fun level => (h.levelAfter level).trans (h'.levelAfter level),
    fun l level => (h.text l level).trans (h'.text l level)⟩

/-- It goes through appending. -/
theorem append (hab : a.SameUngrouped b) (hcd : c.SameUngrouped d) :
    (a ++ c).SameUngrouped (b ++ d) := by
  refine ⟨?_, fun level => ?_, fun l level => ?_⟩
  · rw [halt?_append, halt?_append, hab.halt?, hcd.halt?]
  · simp only [levelAfter_append, hab.halt?, hab.levelAfter, hcd.levelAfter]
  · have hafter : a.after level = b.after level := by rw [after, after, hab.levelAfter]
    rw [pieces_append, pieces_append, hab.halt?, hafter, Piece.renderAll_append,
      Piece.renderAll_append, ungrouped_append, ungrouped_append, hab.text]
    -- what stands after a stop is not written in either document
    split
    · rw [hcd.text]
    · rfl

/-- It goes through remembering a depth. -/
theorem anchored (h : a.SameUngrouped b) : (Doc.anchored a).SameUngrouped (Doc.anchored b) :=
  ⟨h.halt?, h.levelAfter, fun l level => h.text l ⟨level.now, level.now⟩⟩

/-- A text of nothing but grouping is as good as none. -/
theorem of_text {t : String} (ht : ungrouped t = "") : (Doc.text t).SameUngrouped .nil := by
  refine ⟨rfl, fun _ => rfl, fun l level => ?_⟩
  show ungrouped (Piece.renderAll l [.text t]) = ungrouped (Piece.renderAll l [])
  rw [Piece.renderAll_singleton, Piece.render, ht]
  rfl

/-- A text of which nothing counts may be left out. -/
theorem onlyIf {t : String} (ht : ungrouped t = "") (x : Bool) :
    (Doc.onlyIf x t).SameUngrouped .nil := by
  cases x
  · exact .refl .nil
  · exact of_text ht

/-- Parentheses do not count. -/
theorem parens (d : Doc) : d.parens.SameUngrouped d := by
  have hopen : (Doc.text "(").SameUngrouped .nil := of_text (by decide)
  have hclose : (Doc.text ")").SameUngrouped .nil := of_text (by decide)
  have hbare : ((Doc.nil ++ d) ++ Doc.nil).SameUngrouped d := by
    refine ⟨?_, fun level => ?_, fun l level => ?_⟩
    · simp
    · simp [levelAfter_append, Doc.levelAfter]
    · simp [pieces_append, pieces]
  exact ((hopen.append (refl d)).append hclose).trans hbare

/-- So it does not matter whether they are there. -/
theorem parensIf (x : Bool) (d : Doc) : (d.parensIf x).SameUngrouped d := by
  cases x
  · exact refl d
  · exact parens d

end SameUngrouped

end Doc

/-! ## §2. One procedure. -/

/-- A procedure writes the same in two scopes but for grouping, if the dispatches do. -/
theorem Alike.sameUngrouped {s₁ s₂ : Scope} {n : Node} {a b : Spot} {d₁ d₂ : Doc}
    (h : Alike s₁ s₂ n a b d₁ d₂)
    (he : ∀ k c, (s₁.emitAs k c).SameUngrouped (s₂.emitAs k c)) : d₁.SameUngrouped d₂ := by
  induction h with
  | append _ _ ihd ihe => exact ihd.append ihe
  | anchored _ ih => exact ih.anchored
  | emitAs => exact he _ _
  | @parensIf _ d₁ d₂ b₁ b₂ _ _ ih =>
    -- the two scopes may disagree about the parentheses
    exact ((Doc.SameUngrouped.parensIf b₁ d₁).trans ih).trans
      (Doc.SameUngrouped.parensIf b₂ d₂).symm
  | @mark _ b₁ b₂ _ t ht =>
    have hempty : ungrouped t = "" := by rcases ht with rfl | rfl <;> decide
    exact (Doc.SameUngrouped.onlyIf hempty b₁).trans (Doc.SameUngrouped.onlyIf hempty b₂).symm
  | anywhere _ ih => exact ih
  | _ => exact .refl _

/-! ## §3. Whole trees. -/

/-- Two tables with one registry: the dispatches go side by side at every bound, since a registry
redirects a node without asking for ranks. -/
theorem Grammar.emitAs_sameUngrouped (r : Registry) (p₁ p₂ : PrecedenceTable) (bound : Nat)
    (k : Kind) (n : Node) :
    ((Grammar.mk r p₁).emitAs bound k n).SameUngrouped ((Grammar.mk r p₂).emitAs bound k n) := by
  induction bound generalizing k n with
  | zero => exact .refl _
  | succ bound ih =>
    cases hr : (Grammar.mk r p₁).redirect k n with
    | some k' =>
      -- redirection looks into the registry only
      have hr' : (Grammar.mk r p₂).redirect k n = some k' := hr
      rw [emitAs_of_redirect hr, emitAs_of_redirect hr']
      exact ih k' n
    | none =>
      unfold emitAs
      cases hk : r.get? k with
      | none => exact .refl _
      | some p =>
        have hp : p.redirect n = none := by simpa [redirect, hk] using hr
        -- one procedure in two scopes, which differ in what they rank
        obtain ⟨_, ha⟩ := Procedure.exists_alike hp
          { emitAs := (Grammar.mk r p₁).emitAs bound, rank := p₁.rank }
          { emitAs := (Grammar.mk r p₂).emitAs bound, rank := p₂.rank }
        exact ha.sameUngrouped ih

/-- **Ranks only group.** With one registry and two precedence tables, a tree has the same error, or
it has two texts that are equal once parentheses, spaces and semicolons are left out. -/
theorem Generator.generate_ungrouped (r : Registry) (p₁ p₂ : PrecedenceTable) (l : Layout)
    (n : Node) :
    (∃ e, (Generator.mk ⟨r, p₁⟩ l).generate n = .error e ∧
      (Generator.mk ⟨r, p₂⟩ l).generate n = .error e) ∨
    ∃ text₁ text₂, (Generator.mk ⟨r, p₁⟩ l).generate n = .ok text₁ ∧
      (Generator.mk ⟨r, p₂⟩ l).generate n = .ok text₂ ∧ ungrouped text₁ = ungrouped text₂ := by
  have h := Grammar.emitAs_sameUngrouped r p₁ p₂ (Grammar.bound n) n.kind n
  have hhalt : ((Grammar.mk r p₁).emit n).halt? = ((Grammar.mk r p₂).emit n).halt? := h.halt?
  simp only [generate_eq, ← hhalt]
  cases ((Grammar.mk r p₁).emit n).halt? with
  | some x => exact .inl ⟨_, rfl, rfl⟩
  | none => exact .inr ⟨_, _, rfl, rfl, h.text l .start⟩

end Estree
