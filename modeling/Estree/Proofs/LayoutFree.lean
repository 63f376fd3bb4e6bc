import Estree.Generator
import Estree.Proofs.Dispatch

/-!
# Layouts only render

The text that a grammar makes of a tree is a list of pieces that does not depend on the layout; the
layout only says how line ends and indentation are rendered. When programs do not stand inside other
nodes, a line end is followed by indentation or by nothing.

Main results:

* `Doc.Leads`: from which place in a line to which other a document leads.
* `Grammar.generate_eq_renderAll`: one list of pieces for every layout, in which each line is
  indented before it is written on.
-/

namespace Estree

/-! ## §1. Places in a line. -/

/-- Where a piece leads, and nothing when it must not stand there. -/
def LinePlace.after : LinePlace → Piece → Option LinePlace
  | _, .indent _ => some .inside
  | .inside, .text _ => some .inside
  | .inside, .lineEnd => some .lineStart
  | .lineStart, _ => none

/-- Where a list of pieces leads. -/
def LinePlace.afterAll (a : LinePlace) (ps : List Piece) : Option LinePlace :=
  ps.foldlM LinePlace.after a

/-- The place can be taken for `a`: at the start of a line less may follow than inside it. -/
def LinePlace.Fits (p a : LinePlace) : Prop := p = a ∨ p = .inside

/-- Pieces are passed one after the other. -/
theorem LinePlace.afterAll_append (a : LinePlace) (ps qs : List Piece) :
    a.afterAll (ps ++ qs) = (a.afterAll ps).bind fun b => b.afterAll qs :=
  List.foldlM_append

/-- A document without a stop leads from the place `a` to the place `b`. -/
def Doc.Leads (a b : LinePlace) (d : Doc) : Prop :=
  d.halt? = none → ∀ (level : Level) (p : LinePlace), p.Fits a →
    ∃ q : LinePlace, p.afterAll (d.pieces level) = some q ∧ q.Fits b

namespace Doc.Leads

variable {a b c : LinePlace}

theorem nil : Leads a a .nil := fun _ _ p hp => ⟨p, rfl, hp⟩

/-- What stops may be said to lead anywhere. -/
theorem of_stop {d : Doc} (h : d.halt? ≠ none) : Leads a b d := fun hd => absurd hd h

/-- A text stands inside a line. -/
theorem text (s : String) : Leads .inside .inside (.text s) := by
  intro _ level p hp
  have hp : p = .inside := hp.elim id id
  exact ⟨.inside, by rw [hp]; rfl, .inl rfl⟩

/-- The end of a line stands after something. -/
theorem lineEnd : Leads .inside .lineStart .lineEnd := by
  intro _ level p hp
  have hp : p = .inside := hp.elim id id
  exact ⟨.lineStart, by rw [hp]; rfl, .inl rfl⟩

/-- After the indentation writing is inside the line. -/
theorem indent : Leads a .inside .indent := by
  intro _ level p _
  refine ⟨.inside, ?_, .inl rfl⟩
  cases p <;> rfl

theorem indentAt (levels : Nat) : Leads a .inside (.indentAt levels) := by
  intro _ level p _
  refine ⟨.inside, ?_, .inl rfl⟩
  cases p <;> rfl

theorem deeper : Leads a a .deeper := fun _ _ p hp => ⟨p, rfl, hp⟩

theorem shallower : Leads a a .shallower := fun _ _ p hp => ⟨p, rfl, hp⟩

/-- Documents lead one after the other. -/
theorem append {d e : Doc} (hd : Leads a b d) (he : Leads b c e) : Leads a c (d ++ e) := by
  intro hh level p hp
  obtain ⟨hd', he'⟩ := Option.or_eq_none_iff.mp hh
  obtain ⟨q, hq, hqb⟩ := hd hd' level p hp
  obtain ⟨r, hr, hrc⟩ := he he' (d.after level) q hqb
  refine ⟨r, ?_, hrc⟩
  simp [pieces_append, hd', LinePlace.afterAll_append, hq, hr]

theorem anchored {d : Doc} (h : Leads a b d) : Leads a b (.anchored d) :=
  fun hh level => h hh ⟨level.now, level.now⟩

/-- Parentheses stay inside the line. -/
theorem parensIf {d : Doc} (x : Bool) (h : Leads .inside .inside d) :
    Leads .inside .inside (d.parensIf x) := by
  cases x
  · exact h
  · exact append (append (text _) h) (text _)

end Doc.Leads

/-- Procedures respect the places in a line when the dispatches do. -/
theorem Alike.leads {s₁ s₂ : Scope} {n : Node} {a b : Spot} {d₁ d₂ : Doc}
    (h : Alike s₁ s₂ n a b d₁ d₂)
    (he : ∀ k c, c.Below n → (s₁.emitAs k c).Leads .inside .inside) : d₁.Leads a.line b.line := by
  induction h with
  | nil => exact .nil
  | text t => exact .text t
  | lineEnd => exact .lineEnd
  | indent => exact .indent
  | indentAt levels => exact .indentAt levels
  | deeper => exact .deeper
  | shallower => exact .shallower
  | append _ _ ihd ihe => exact ihd.append ihe
  | anchored _ ih => exact ih.anchored
  | malformed => exact .of_stop nofun
  | emitAs hc _ => exact he _ _ hc
  | parensIf _ _ ih => exact ih.parensIf _
  | @mark _ b₁ _ _ t _ =>
    cases b₁
    · exact .nil
    · exact .text t
  | anywhere _ ih => exact fun hh level p hp => ih hh level p (.inr (hp.elim id id))

/-- Every node is written within a line, but for a program that stands in no other node. -/
theorem Grammar.leads (g : Grammar) (bound : Nat) (k : Kind) (n : Node) :
    (∀ c : Node, c.Below n → c.kind ≠ .program) →
      ∃ b, (b = .lineStart → n.kind = .program) ∧ (g.emitAs bound k n).Leads .inside b := by
  refine emitAs_induction (motive := fun _ n d => (∀ c : Node, c.Below n → c.kind ≠ .program) →
    ∃ b, (b = .lineStart → n.kind = .program) ∧ d.Leads .inside b) ?_ ?_ ?_ ?_ bound k n
  · exact fun _ _ _ => ⟨.inside, nofun, .of_stop nofun⟩
  · exact fun _ _ _ _ => ⟨.inside, nofun, .of_stop nofun⟩
  · exact fun _ _ _ _ h => h
  · intro k n p s hr _ ih hprog
    -- no program stands inside, so the nodes inside are written within a line
    have he : ∀ k' c, c.Below n → (s.emitAs k' c).Leads .inside .inside := by
      intro k' c hc
      obtain ⟨b, hb, hl⟩ := ih k' c fun m hm => hprog m (hm.trans hc)
      cases b with
      | inside => exact hl
      | lineStart => exact absurd (hb rfl) (hprog c hc)
    rcases Procedure.alike hr s s with ha | ⟨hk, ha⟩
    · exact ⟨.inside, nofun, ha.leads he⟩
    · exact ⟨.lineStart, fun _ => hk, ha.leads he⟩

/-! ## §2. Line ends. -/

/-- Every line end is the last piece, or indentation follows it. -/
def Piece.LineEndsIndented (ps : List Piece) : Prop :=
  ∀ i : Nat, ps[i]? = some .lineEnd → i + 1 = ps.length ∨ ∃ level, ps[i + 1]? = some (.indent level)

/-- Pieces that can be passed indent each line before they write on it. -/
theorem Piece.lineEndsIndented_of_afterAll {ps : List Piece} {p q : LinePlace}
    (h : p.afterAll ps = some q) : LineEndsIndented ps := by
  induction ps generalizing p with
  | nil => exact fun i hi => by simp at hi
  | cons x rest ih =>
    obtain ⟨p', hx, hrest⟩ := Option.bind_eq_some_iff.mp h
    intro i hi
    cases i with
    | succ i =>
      have := ih hrest i (by simpa using hi)
      simpa using this
    | zero =>
      -- the piece after a line end starts a line, so it can only be indentation
      obtain rfl : x = .lineEnd := by simpa using hi
      obtain rfl : p' = .lineStart := by cases p <;> simp_all [LinePlace.after]
      cases rest with
      | nil => exact .inl rfl
      | cons y rest =>
        obtain ⟨_, hy, -⟩ := Option.bind_eq_some_iff.mp hrest
        cases y with
        | indent level => exact .inr ⟨level, rfl⟩
        | _ => cases hy

/-! ## §3. Texts. -/

/-- **The layout is a parameter of the text.** Where dispatch ends, a tree has one error under every
layout, or one list of pieces that every layout renders piece by piece. -/
theorem Grammar.generate_eq_renderAll (g : Grammar) (root : Node)
    (h : g.Terminates root.kind root) :
    (∃ e, ∀ l : Layout, (Generator.mk g l).generate root = .error (.emit e)) ∨
    ∃ ps : List Piece,
      (∀ l : Layout, (Generator.mk g l).generate root = .ok (Piece.renderAll l ps)) ∧
      ((∀ c : Node, c.Below root → c.kind ≠ .program) → Piece.LineEndsIndented ps) := by
  have hfin := terminates_iff.mp h
  cases hh : (g.emit root).halt? with
  | some x =>
    cases x with
    | unfinished => exact absurd hh hfin
    | error e =>
      refine .inl ⟨e, fun l => ?_⟩
      simp only [Generator.generate_eq, hh]
      rfl
  | none =>
    -- the pieces are those of the document at level zero, whatever the layout
    refine .inr ⟨(g.emit root).pieces .start, fun l => ?_, fun hprog => ?_⟩
    · simp only [Generator.generate_eq, hh]
    · -- reading starts at the beginning of a line, where nothing has to be indented
      obtain ⟨b, -, hl⟩ := g.leads (bound root) root.kind root hprog
      obtain ⟨q, hq, -⟩ := hl hh .start .inside (.inl rfl)
      exact Piece.lineEndsIndented_of_afterAll hq

/-- A block in a program: it is written, and its line ends are indented. -/
theorem Grammar.generate_eq_renderAll_block :
    javaScript.Terminates .program (.program [.block .statement [.emptyStatement]]) ∧
    ∃ ps : List Piece,
      (∀ l : Layout, (Generator.mk javaScript l).generate
        (.program [.block .statement [.emptyStatement]]) = .ok (Piece.renderAll l ps)) ∧
      Piece.LineEndsIndented ps := by
  have hdoc : (javaScript.emit (.program [.block .statement [.emptyStatement]])).halt? = none := rfl
  have hterm : javaScript.Terminates .program (.program [.block .statement [.emptyStatement]]) :=
    terminates_iff.mpr fun hu => by cases hdoc.symm.trans hu
  refine ⟨hterm, ?_⟩
  rcases generate_eq_renderAll javaScript (.program [.block .statement [.emptyStatement]]) hterm
    with ⟨e, he⟩ | ⟨ps, hps, hl⟩
  · have := he {}
    simp [Generator.generate_eq, hdoc] at this
  · refine ⟨ps, hps, hl (Node.forall_below_iff.mpr ?_)⟩
    simp only [Node.children, List.mem_singleton, forall_eq]
    refine ⟨fun h => (by cases h), Node.forall_below_iff.mpr ?_⟩
    simp only [Node.children, List.mem_singleton, forall_eq]
    exact ⟨fun h => (by cases h), Node.forall_below_iff.mpr fun _ hm => (by cases hm)⟩

end Estree
