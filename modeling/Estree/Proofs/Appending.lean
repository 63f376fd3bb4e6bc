import Estree.Proofs.Dispatch

/-!
# Emission appends

Emission of a node under any kind appends a text to what has been written, whatever that is, and
brings the depth back to where it was; an error leaves it deeper, by two levels for each level of
the tree at most. So the text of a program is put together from the texts of its parts, unless
programs are handed to a procedure that writes one word for every node.

Main results:

* `Grammar.emitAs_appends`: the text and the outcome of a node do not depend on what stands before,
  and the depth is that of before, or higher after an error.
* `Grammar.ProgramsAppend`: the texts of two programs, one after the other, are the text of one
  program.
-/

namespace Estree

/-! ## §1. Depths at a stop. -/

/-- A procedure stops deeper than the nodes inside by two levels at most, and goes on from no more
than two. -/
theorem Alike.levelAfter_le {s₁ s₂ : Scope} {n : Node} {m : Nat} {a b : Spot} {d₁ d₂ : Doc}
    (h : Alike s₁ s₂ n a b d₁ d₂) (hs : ∀ k c, c.Below n → (s₁.emitAs k c).Steady)
    (he : ∀ k c, c.Below n → ∀ level, (s₁.emitAs k c).levelAfter level ≤ level + m)
    (ha : a.depth.levels ≤ 2) :
    (d₁.halt? = none → b.depth.levels ≤ 2) ∧
      ∀ level, d₁.levelAfter (level + a.depth.levels) ≤ level + 2 + m := by
  -- what does not move the depth
  have hstill : ∀ i : Nat, i ≤ 2 → ∀ level, level + i ≤ level + 2 + m := by omega
  induction h with
  | deeper hi => exact ⟨fun _ => hi, fun level => by simp only [Doc.levelAfter]; omega⟩
  | shallower =>
    have hi := Nat.le_of_succ_le ha
    exact ⟨fun _ => hi, hstill _ hi⟩
  | append hd _ ihd ihe =>
    obtain ⟨hb, hle⟩ := ihd ha
    refine ⟨fun hh => ?_, fun level => ?_⟩
    · obtain ⟨hhd, hhe⟩ := Option.or_eq_none_iff.mp hh
      exact (ihe (hb hhd)).1 hhe
    · rw [Doc.levelAfter_append]
      split
      · -- the second document starts where the first one comes to
        rename_i hhd
        have hhd := Option.isNone_iff_eq_none.mp hhd
        rw [(hd.moves hs).ends hhd]
        exact (ihe (hb hhd)).2 level
      · exact hle level
  | anchored _ ih => exact ih ha
  | malformed => exact ⟨fun h => (by cases h), hstill _ ha⟩
  | @emitAs r k c hc =>
    refine ⟨fun _ => ha, fun level => ?_⟩
    calc (s₁.emitAs k c).levelAfter (level + r.levels)
        ≤ level + r.levels + m := he k c hc (level + r.levels)
      _ ≤ level + 2 + m := Nat.add_le_add_right (Nat.add_le_add_left ha level) m
  | @parensIf _ _ _ b₁ _ _ _ ih =>
    refine ⟨fun _ => ha, fun level => ?_⟩
    rw [Doc.levelAfter_parensIf]
    exact (ih ha).2 level
  | @mark _ b₁ => cases b₁ <;> exact ⟨fun _ => ha, hstill _ ha⟩
  | anywhere _ ih => exact ih ha
  | _ => exact ⟨fun _ => ha, hstill _ ha⟩

/-- A node stops at most two levels deeper for each level of its tree. -/
theorem Grammar.levelAfter_le (g : Grammar) (bound : Nat) (k : Kind) (n : Node) :
    ∀ level, (g.emitAs bound k n).levelAfter level ≤ level + 2 * n.height := by
  refine emitAs_induction
    (motive := fun _ n d => d.Steady ∧ ∀ level, d.levelAfter level ≤ level + 2 * n.height)
    ?_ ?_ ?_ ?_ bound k n |>.2
  · exact fun _ _ => ⟨.stop _, fun _ => Nat.le_add_right _ _⟩
  · exact fun _ _ _ => ⟨.stop _, fun _ => Nat.le_add_right _ _⟩
  · exact fun _ _ _ _ h => h
  · intro k n p s hr _ ih
    obtain ⟨line, ha⟩ := Procedure.exists_alike hr s s
    have hs : ∀ k' c, c.Below n → (s.emitAs k' c).Steady := fun k' c _ => (ih k' c).1
    refine ⟨ha.moves hs, fun level => ?_⟩
    have hpos := n.height_pos
    have hle := (ha.levelAfter_le (m := 2 * (n.height - 1)) hs (fun k' c hc level => by
      have := (ih k' c).2 level
      have := hc.height_lt
      omega) (Nat.zero_le 2)).2 level
    simp only [Nat.add_zero] at hle
    omega

/-! ## §2. Programs. -/

/-- Documents may be grouped in any way. -/
theorem Doc.runFrom_append_assoc (a b c : Doc) (anchor : Nat) (w : Writer) :
    (a ++ b ++ c).runFrom anchor w = (a ++ (b ++ c)).runFrom anchor w := by
  change (append (append a b) c).runFrom anchor w = (append a (append b c)).runFrom anchor w
  simp only [runFrom]
  rcases a.runFrom anchor w with ⟨_ | _, w'⟩ <;> rfl

/-- A part may be exchanged for one that runs alike. -/
theorem Doc.runFrom_append_congr {a b c : Doc} {anchor : Nat}
    (h : ∀ w, b.runFrom anchor w = c.runFrom anchor w) (w : Writer) :
    (a ++ b).runFrom anchor w = (a ++ c).runFrom anchor w := by
  change (append a b).runFrom anchor w = (append a c).runFrom anchor w
  simp only [runFrom, h]

/-- Two lists of documents run one after the other. -/
theorem Doc.runFrom_concat_append (as bs : List Doc) (anchor : Nat) (w : Writer) :
    (concat (as ++ bs)).runFrom anchor w = (concat as ++ concat bs).runFrom anchor w := by
  induction as generalizing w with
  | nil => rfl
  | cons a as ih =>
    change (a ++ concat (as ++ bs)).runFrom anchor w =
      (a ++ concat as ++ concat bs).runFrom anchor w
    rw [runFrom_append_assoc, runFrom_append_congr ih]

/-- What the procedures write that write the same for every node. -/
def fixedWords : List String := [";", "debugger;", "this", "super"]

/-- Procedures for other nodes stop at a program. -/
theorem Procedure.doc_program (p : Procedure) :
    p = .program ∨ p = .classExpression ∨ (∃ word ∈ fixedWords, ∀ s n, p.doc s n = .text word) ∨
      ∀ s body, (p.doc s (.program body)).halt? ≠ none := by
  cases p with
  | program => exact .inl rfl
  | classExpression => exact .inr (.inl rfl)
  | emptyStatement | debuggerStatement | thisExpression | superExpression =>
    exact .inr (.inr (.inl ⟨_, by simp [fixedWords], fun _ _ => rfl⟩))
  | function d | arrowFunction d | variableDeclaration d | variableDeclarator d | classLike d
    | method d | classField d | importExpression d | restElement d | objectPattern d
    | newExpression d | callExpression d | identifier d =>
    cases d <;> exact .inr (.inr (.inr fun _ _ => nofun))
  | _ => exact .inr (.inr (.inr fun _ _ => nofun))

namespace Grammar

/-- The node is written under the kind: the text is appended to whatever there is, and whatever
depth is remembered outside. -/
def Emits (g : Grammar) (l : Layout) (k : Kind) (n : Node) (s : String) : Prop :=
  ∀ anchor text, (g.scope.emitAs k n).runFrom anchor ⟨l.indent, l.lineEnd, l.level, text⟩ =
    (.ok (), ⟨l.indent, l.lineEnd, l.level, text ++ s⟩)

/-- Under the kind, the parts of a program are written one after the other. -/
def ProgramsAppend (g : Grammar) (k : Kind) : Prop :=
  ∀ (l : Layout) (xs ys : List Node) (a b : String), g.Emits l k (.program xs) a →
    g.Emits l k (.program ys) b → g.Emits l k (.program (xs ++ ys)) (a ++ b)

/-- What is emitted does not stop. -/
theorem Emits.halt?_eq_none {g : Grammar} {l : Layout} {k : Kind} {n : Node} {s : String}
    (h : g.Emits l k n s) : (g.scope.emitAs k n).halt? = none := by
  have hrun := congrArg Prod.fst (h 0 "")
  rw [Doc.runFrom_eq] at hrun
  cases hh : (g.scope.emitAs k n).halt? with
  | none => rfl
  | some e => simp [hh, Doc.outcome] at hrun

/-- Programs that are not written append for lack of text. -/
theorem programsAppend_of_stop {g : Grammar} {k : Kind}
    (h : ∀ body, (g.scope.emitAs k (.program body)).halt? ≠ none) : g.ProgramsAppend k :=
  fun _ xs _ _ _ hx _ => absurd hx.halt?_eq_none (h xs)

/-- Those that are written by their own procedure append line by line. -/
theorem programsAppend_of_program {g : Grammar} {k : Kind}
    (h : g.registry.get? k = some .program) : g.ProgramsAppend k := by
  have hdoc : ∀ body, g.scope.emitAs k (.program body) = g.scope.lines body := by
    intro body
    rw [scope_emitAs, h]
    rfl
  intro l xs ys a b hx hy anchor text
  have hx := hx anchor text
  have hy := hy anchor (text ++ a)
  rw [hdoc] at hx hy ⊢
  rw [Scope.lines, List.map_append, Doc.runFrom_concat_append]
  change (Doc.append (g.scope.lines xs) (g.scope.lines ys)).runFrom anchor _ = _
  simp only [Doc.runFrom, hx, hy, String.append_assoc]

/-- What a kind does with programs that no redirection takes elsewhere. -/
theorem programsAppend_or_word_of_direct {g : Grammar} {k : Kind}
    (h : g.registry.get? k ≠ some .classExpression) :
    g.ProgramsAppend k ∨ ∃ word ∈ fixedWords, ∀ n, g.scope.emitAs k n = .text word := by
  cases hk : g.registry.get? k with
  | none =>
    refine .inl (programsAppend_of_stop fun body => ?_)
    rw [scope_emitAs, hk]
    nofun
  | some p =>
    rcases p.doc_program with rfl | rfl | ⟨word, hword, hdoc⟩ | hstop
    · exact .inl (programsAppend_of_program hk)
    · exact absurd hk h
    · refine .inr ⟨word, hword, fun n => ?_⟩
      rw [scope_emitAs, hk]
      exact hdoc _ _
    · refine .inl (programsAppend_of_stop fun body => ?_)
      rw [scope_emitAs, hk]
      exact hstop _ _

/-- Programs that go on from class declarations to class declarations go in a circle. -/
theorem emitAs_program_of_circle {g : Grammar}
    (h : g.registry.get? .classDeclaration = some .classExpression) (body : List Node) :
    g.scope.emitAs .classDeclaration (.program body) = .stop .unfinished := by
  have hks : ∀ k ∈ [Kind.classDeclaration], ∃ k' ∈ [Kind.classDeclaration],
      g.redirect k (.program body) = some k' := by
    simp [redirect, h, Procedure.redirect]
  exact emitAs_of_circle hks _ _ (by simp)

/-- A kind that writes as another one does with programs what the other does. -/
theorem ProgramsAppend.of_emitAs_eq {g : Grammar} {k k' : Kind} (h : g.ProgramsAppend k')
    (hgo : ∀ n, g.scope.emitAs k n = g.scope.emitAs k' n) : g.ProgramsAppend k := by
  intro l xs ys a b hx hy
  unfold Emits at hx hy ⊢
  simp only [hgo] at hx hy ⊢
  exact h l xs ys a b hx hy

/-- A kind puts programs together from their parts, or it writes one word for every node. -/
theorem programsAppend_or_word (g : Grammar) (k : Kind) :
    g.ProgramsAppend k ∨ ∃ word ∈ fixedWords, ∀ n, g.scope.emitAs k n = .text word := by
  by_cases hk : g.registry.get? k = some .classExpression
  · -- programs go on to whatever writes class declarations
    have hgo : ∀ n, g.scope.emitAs k n = g.scope.emitAs .classDeclaration n := by
      intro n
      rw [scope_emitAs, hk]
      rfl
    by_cases hc : g.registry.get? .classDeclaration = some .classExpression
    · refine .inl (programsAppend_of_stop fun body => ?_)
      rw [hgo, emitAs_program_of_circle hc]
      nofun
    · rcases programsAppend_or_word_of_direct hc with h | ⟨word, hword, hdoc⟩
      · exact .inl (h.of_emitAs_eq hgo)
      · exact .inr ⟨word, hword, fun n => (hgo n).trans (hdoc n)⟩
  · exact programsAppend_or_word_of_direct hk

/-! ## §3. Emission. -/

/-- **Emission appends and keeps the depth.** Under any kind, a node has an outcome and a text that
do not depend on what has been written or is remembered outside; the depth afterwards is the depth
before, and after an error at most two levels deeper for each level of the tree. The text of a
program is the text of a first part and then that of the rest, unless the kind writes one word for
every node. -/
theorem emitAs_appends (g : Grammar) (k : Kind) :
    (∀ (n : Node) (indent lineEnd : String) (depth : Nat),
      ∃ (outcome : Doc.Outcome) (s : String) (depth' : Nat),
        (∀ anchor text, (g.scope.emitAs k n).runFrom anchor ⟨indent, lineEnd, depth, text⟩ =
          (outcome, ⟨indent, lineEnd, depth', text ++ s⟩)) ∧
        (outcome = .ok () → depth' = depth) ∧
        (∀ h, outcome = .error h → depth ≤ depth' ∧ depth' ≤ depth + 2 * n.height)) ∧
    (g.ProgramsAppend k ∨ ∃ word ∈ fixedWords, ∀ n, g.scope.emitAs k n = .text word) := by
  refine ⟨fun n indent lineEnd depth => ?_, g.programsAppend_or_word k⟩
  -- everything but the program clause follows from the document being steady
  have hsteady : (g.scope.emitAs k n).Steady := g.steady_emitAs (bound n) k n
  refine ⟨Doc.outcome (g.scope.emitAs k n).halt?,
    Piece.renderAll ⟨indent, lineEnd, 0⟩ ((g.scope.emitAs k n).pieces ⟨depth, 0⟩),
    (g.scope.emitAs k n).levelAfter depth, fun anchor text => ?_, fun hok => ?_, fun h _ => ?_⟩
  · -- what is remembered outside is forgotten, so any anchor does
    have hforgets : (g.scope.emitAs k n).pieces ⟨depth, anchor⟩ =
        (g.scope.emitAs k n).pieces ⟨depth, 0⟩ := hsteady.forgets rfl depth anchor 0
    simp only [Doc.runFrom_eq, Doc.written, hforgets]
  · cases hh : (g.scope.emitAs k n).halt? with
    | none => exact hsteady.ends hh depth
    | some h => simp [hh, Doc.outcome] at hok
  · -- an error leaves what has not been come back from
    exact ⟨hsteady.stays depth, g.levelAfter_le (bound n) k n depth⟩

/-- Programs that are handed to the procedure for `this` are not put together from their parts. -/
theorem not_programsAppend_this :
    ¬ (Grammar.mk (Registry.base.register .program .thisExpression) .javaScript).ProgramsAppend
      .program := by
  intro h
  have hword : ∀ body, (Grammar.mk (Registry.base.register .program .thisExpression)
      .javaScript).Emits {} .program (.program body) "this" := fun _ _ _ => rfl
  have htwice := h {} [.emptyStatement] [.emptyStatement] _ _ (hword _) (hword _) 0 ""
  have honce := hword ([.emptyStatement] ++ [.emptyStatement]) 0 ""
  have htext := congrArg (fun r => r.2.text) (honce.symm.trans htwice)
  exact absurd htext (by decide)

end Grammar

end Estree
