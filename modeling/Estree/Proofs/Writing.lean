import Estree.Doc

/-!
# What writing a document does

A document has a list of pieces and perhaps a stop; which pieces these are depends on the level at
which it is written, for a document may go deeper and come back. `Doc.runFrom_eq` says what writing
does with it: the pieces are appended, each rendered by itself; the outcome is the stop; and the
depth is the level that the steps of the document lead to. Everything else about `Doc.run` is read
off this equation.

The equation counts levels from zero, as the writer does. A layout that starts further in should
make the same document stand further in and change nothing else, but that holds only of documents
that come back from as many levels as they go to: a step back from level zero stays there, whereas
the same step in a deeper layout does not. `Doc.Moves` says that a document keeps to its own levels,
and `Doc.Steady` that it ends where it starts.

Main results:
  * `Doc.runFrom_eq`: the outcome, the text and the depth after any document;
  * `Doc.Moves.append`, `Doc.Moves.deeper`, `Doc.Moves.shallower`: levels add up step by step;
  * `Doc.Steady.render_eq`: the text of a steady document in a layout is its pieces at level zero,
    rendered from the level of the layout on.
-/

namespace Estree

/-! ## §1. Pieces. -/

/-- A piece of written text, before the layout is known. -/
inductive Piece where
  | text (s : String)
  | lineEnd
  /-- The indentation of a level that is counted from the level of the layout. -/
  | indent (level : Nat)

namespace Piece

/-- The text of a piece in a layout. -/
def render (l : Layout) : Piece → String
  | text s => s
  | lineEnd => l.lineEnd
  | indent level => .join (.replicate (l.level + level) l.indent)

/-- The texts of pieces one after the other. -/
def renderAll (l : Layout) (ps : List Piece) : String := .join (ps.map (render l))

@[simp] theorem renderAll_nil (l : Layout) : renderAll l [] = "" := rfl

@[simp] theorem renderAll_singleton (l : Layout) (p : Piece) : renderAll l [p] = p.render l := by
  simp [renderAll, String.join_cons]

/-- Pieces are spelled one after the other. -/
@[simp] theorem renderAll_append (l : Layout) (ps qs : List Piece) :
    renderAll l (ps ++ qs) = renderAll l ps ++ renderAll l qs := by
  simp [renderAll, String.join_append]

/-- A piece some levels further in. -/
def shift (levels : Nat) : Piece → Piece
  | indent level => .indent (levels + level)
  | p => p

/-- What is further in by the level of a layout is what the layout renders there. -/
theorem renderAll_map_shift (l : Layout) (ps : List Piece) :
    renderAll ⟨l.indent, l.lineEnd, 0⟩ (ps.map (shift l.level)) = renderAll l ps := by
  have hrender : ∀ p : Piece, (p.shift l.level).render ⟨l.indent, l.lineEnd, 0⟩ = p.render l := by
    intro p
    cases p <;> simp [shift, render]
  rw [renderAll, renderAll, List.map_map]
  exact congrArg String.join (List.map_congr_left fun p _ => hrender p)

end Piece

/-- Where writing stands: the current level and the remembered one. -/
structure Level where
  now : Nat
  anchor : Nat

/-- Where the writing of a tree starts, as seen from the layout. -/
def Level.start : Level := ⟨0, 0⟩

namespace Doc

/-- Why writing the document stops, if it does. -/
def halt? : Doc → Option Halt
  | append a b => a.halt?.or b.halt?
  | anchored d => d.halt?
  | stop h => some h
  | _ => none

/-- The level after a document, at its end or at its stop. -/
def levelAfter : Doc → (level : Nat) → Nat
  | deeper, level => level + 1
  | shallower, level => level - 1
  | append a b, level =>
    if a.halt?.isNone then b.levelAfter (a.levelAfter level) else a.levelAfter level
  | anchored d, level => d.levelAfter level
  | _, level => level

/-- Where writing stands after a document. -/
def after (d : Doc) (level : Level) : Level := { level with now := d.levelAfter level.now }

/-- The pieces of a document at a level, up to its stop. -/
def pieces : Doc → Level → List Piece
  | nil, _ | deeper, _ | shallower, _ | stop _, _ => []
  | text s, _ => [.text s]
  | lineEnd, _ => [.lineEnd]
  | indent, level => [.indent level.now]
  | indentAt levels, level => [.indent (level.anchor + levels)]
  | append a b, level => a.pieces level ++ if a.halt?.isNone then b.pieces (a.after level) else []
  | anchored d, level => d.pieces ⟨level.now, level.now⟩

/-- How writing ends at a stop. -/
def outcome : Option Halt → Outcome
  | none => .ok ()
  | some h => .error h

@[simp] theorem halt?_nil : nil.halt? = none := rfl

@[simp] theorem halt?_text (s : String) : (text s).halt? = none := rfl

@[simp] theorem halt?_lineEnd : lineEnd.halt? = none := rfl

@[simp] theorem halt?_indent : indent.halt? = none := rfl

@[simp] theorem halt?_indentAt (levels : Nat) : (indentAt levels).halt? = none := rfl

@[simp] theorem halt?_deeper : deeper.halt? = none := rfl

@[simp] theorem halt?_shallower : shallower.halt? = none := rfl

/-- A document stops where its first part does, or else its second. -/
@[simp] theorem halt?_append (a b : Doc) : (a ++ b).halt? = a.halt?.or b.halt? := rfl

/-- Remembering a depth does not stop anything. -/
@[simp] theorem halt?_anchored (d : Doc) : (anchored d).halt? = d.halt? := rfl

@[simp] theorem halt?_stop (h : Halt) : (stop h).halt? = some h := rfl

@[simp] theorem after_text (s : String) (level : Level) : (text s).after level = level := rfl

@[simp] theorem after_nil (level : Level) : nil.after level = level := rfl

@[simp] theorem ofOption_map {α β : Type} (o : Option α) (g : α → β) (f : β → Doc) :
    ofOption (o.map g) f = ofOption o fun x => f (g x) := by
  cases o <;> rfl

/-- The second part starts at the depth that the first one leaves, if it is reached. -/
theorem levelAfter_append (a b : Doc) (level : Nat) : (a ++ b).levelAfter level =
    if a.halt?.isNone then b.levelAfter (a.levelAfter level) else a.levelAfter level := rfl

/-- Parentheses do not move. -/
theorem levelAfter_parensIf (d : Doc) (x : Bool) (level : Nat) :
    (d.parensIf x).levelAfter level = d.levelAfter level := by
  cases x
  · rfl
  · change (text "(" ++ d ++ text ")").levelAfter level = _
    rw [levelAfter_append, levelAfter_append]
    split <;> rfl

/-- Documents that are written to their ends lead one after the other. -/
theorem after_append {a b : Doc} (ha : a.halt? = none) (level : Level) :
    (a ++ b).after level = b.after (a.after level) := by
  simp [after, levelAfter_append, ha]

/-- The second part is written after the first one, if it is reached. -/
theorem pieces_append (a b : Doc) (level : Level) : (a ++ b).pieces level =
    a.pieces level ++ if a.halt?.isNone then b.pieces (a.after level) else [] := rfl

/-- Two documents that are written to their ends are written one after the other. -/
theorem renderAll_pieces_append {a b : Doc} (h : (a ++ b).halt? = none) (l : Layout)
    (level : Level) :
    a.halt? = none ∧ b.halt? = none ∧
      Piece.renderAll l ((a ++ b).pieces level) =
        Piece.renderAll l (a.pieces level) ++ Piece.renderAll l (b.pieces (a.after level)) := by
  obtain ⟨ha, hb⟩ := Option.or_eq_none_iff.mp h
  refine ⟨ha, hb, ?_⟩
  rw [pieces_append, ha, Option.isNone_none, if_pos rfl, Piece.renderAll_append]

/-! ## §2. Writing. -/

/-- An indentation is a text. -/
theorem writeIndentAt_eq (w : Writer) (level : Nat) :
    w.writeIndentAt level = w.write (.join (.replicate level w.indent)) := by
  induction level generalizing w with
  | zero => simp [Writer.writeIndentAt, Writer.write, String.join_nil]
  | succ level ih =>
    simp only [Writer.writeIndentAt, ih]
    simp [Writer.write, List.replicate_succ, String.join_cons, String.append_assoc]

/-- The writer after a document, `anchor` being the remembered depth. -/
def written (d : Doc) (anchor : Nat) (w : Writer) : Writer :=
  { w with
    text := w.text ++ Piece.renderAll ⟨w.indent, w.lineEnd, 0⟩ (d.pieces ⟨w.depth, anchor⟩)
    depth := d.levelAfter w.depth }

/-- **Writing a document** appends its pieces, ends at its stop, and leaves the depth to which its
steps lead. -/
theorem runFrom_eq (d : Doc) (anchor : Nat) (w : Writer) :
    d.runFrom anchor w = (outcome d.halt?, d.written anchor w) := by
  induction d generalizing anchor w with
  | nil => simp [runFrom, written, outcome, pieces, levelAfter]
  | text s => simp [runFrom, written, outcome, pieces, levelAfter, Writer.write, Piece.render]
  | lineEnd =>
    simp [runFrom, written, outcome, pieces, levelAfter, Writer.write, Writer.writeLineEnd,
      Piece.render]
  | indent =>
    simp [runFrom, written, outcome, pieces, levelAfter, Writer.write, Writer.writeIndent,
      writeIndentAt_eq, Piece.render]
  | indentAt levels =>
    simp [runFrom, written, outcome, pieces, levelAfter, Writer.write, writeIndentAt_eq,
      Piece.render]
  | deeper => simp [runFrom, written, outcome, pieces, levelAfter, Writer.deeper]
  | shallower => simp [runFrom, written, outcome, pieces, levelAfter, Writer.shallower]
  | stop h => simp [runFrom, written, outcome, pieces, levelAfter]
  | append a b iha ihb =>
    cases ha : a.halt? with
    | some h => simp [runFrom, iha, outcome, written, pieces, levelAfter, ha, halt?]
    | none =>
      -- the second document starts at the depth that the first one leaves
      simp [runFrom, iha, ihb, outcome, ha]
      simp [written, pieces, levelAfter, after, ha, String.append_assoc, halt?]
  | anchored d ih =>
    simp only [runFrom, ih, halt?_anchored]
    rfl

/-- **A document is run** by writing its pieces up to where it stops; the sink is left at the depth
that it comes to. -/
theorem run_eq (d : Doc) (w : Writer) : d.run w = (outcome d.halt?, d.written w.depth w) :=
  d.runFrom_eq w.depth w

/-! ## §3. Levels. -/

/-- The document keeps to its own levels: started `i` levels in from any level, it ends `j` levels
in from there, it stops no further out than that level, and its pieces are further in by as much as
the level is. Unless it is `open`, it does not depend on what is remembered outside it. -/
structure Moves (isOpen : Bool) (i j : Nat) (d : Doc) : Prop where
  ends : d.halt? = none → ∀ level, d.levelAfter (level + i) = level + j
  stays : ∀ level, level ≤ d.levelAfter (level + i)
  shifts : ∀ base level anchor, d.pieces ⟨base + (level + i), base + anchor⟩ =
    (d.pieces ⟨level + i, anchor⟩).map (Piece.shift base)
  forgets : isOpen = false → ∀ level anchor anchor',
    d.pieces ⟨level + i, anchor⟩ = d.pieces ⟨level + i, anchor'⟩

/-- The document ends at the level at which it starts, never falls below it, and does not depend on
what is remembered outside it. -/
abbrev Steady (d : Doc) : Prop := d.Moves false 0 0

namespace Moves

variable {o : Bool} {i j k : Nat} {a b d : Doc}

/-- A document that neither moves nor indents. -/
theorem of_still (hl : ∀ level, d.levelAfter level = level)
    (hp : ∀ base level, (d.pieces level).map (Piece.shift base) = d.pieces .start)
    (hp' : ∀ level, d.pieces level = d.pieces .start) : Moves o i i d :=
  ⟨fun _ level => hl _, fun level => (hl (level + i)).symm ▸ Nat.le_add_right level i,
    fun base level anchor => by rw [hp, hp'], fun _ _ _ _ => (hp' _).trans (hp' _).symm⟩

theorem nil : Moves o i i .nil := of_still (fun _ => rfl) (fun _ _ => rfl) fun _ => rfl

/-- Texts stay where they are. -/
theorem text (s : String) : Moves o i i (.text s) :=
  of_still (fun _ => rfl) (fun _ _ => rfl) fun _ => rfl

theorem lineEnd : Moves o i i .lineEnd := of_still (fun _ => rfl) (fun _ _ => rfl) fun _ => rfl

theorem indent : Moves o i i .indent :=
  ⟨fun _ _ => rfl, fun _ => Nat.le_add_right _ _, fun _ _ _ => rfl, fun _ _ _ _ => rfl⟩

/-- Indentation from a remembered depth is further in when that depth is. -/
theorem indentAt (levels : Nat) : Moves true i i (.indentAt levels) := by
  refine ⟨fun _ _ => rfl, fun _ => Nat.le_add_right _ _, fun base level anchor => ?_, nofun⟩
  simp [pieces, Piece.shift, Nat.add_assoc]

/-- A step deeper is one level more. -/
theorem deeper : Moves o i (i + 1) .deeper :=
  ⟨fun _ level => Nat.add_assoc level i 1, fun level => by simp only [levelAfter]; omega,
    fun _ _ _ => rfl, fun _ _ _ _ => rfl⟩

/-- One level back from one that was gone to; the depth is not zero there. -/
theorem shallower : Moves o (i + 1) i .shallower :=
  ⟨fun _ level => by simp only [levelAfter]; omega, fun level => by simp only [levelAfter]; omega,
    fun _ _ _ => rfl, fun _ _ _ _ => rfl⟩

/-- A document that stops need not come back. -/
theorem stop (h : Halt) : Moves o i j (.stop h) :=
  ⟨nofun, fun _ => Nat.le_add_right _ _, fun _ _ _ => rfl, fun _ _ _ _ => rfl⟩

/-- **Levels add up**: the second document starts where the first one ends. -/
theorem append (ha : Moves o i j a) (hb : Moves o j k b) : Moves o i k (a ++ b) := by
  refine ⟨fun h level => ?_, fun level => ?_, fun base level anchor => ?_,
    fun ho level anchor anchor' => ?_⟩
  · -- a document that is written to its end has both of its parts written to theirs
    obtain ⟨hha, hhb⟩ := Option.or_eq_none_iff.mp h
    rw [levelAfter_append, hha, Option.isNone_none, if_pos rfl, ha.ends hha, hb.ends hhb]
  · -- only what is reached counts: both parts stay above the level, or the first one stops
    cases hha : a.halt? with
    | some h => simpa [levelAfter_append, hha] using ha.stays level
    | none => simpa [levelAfter_append, hha, ha.ends hha] using hb.stays level
  · rw [pieces_append, pieces_append, ha.shifts, List.map_append]
    cases hha : a.halt? with
    | some h => rfl
    | none =>
      -- the second part starts as much further in as the first one did
      have hshifted : a.levelAfter (base + (level + i)) = base + (level + j) := by
        rw [← Nat.add_assoc, ha.ends hha, Nat.add_assoc]
      simp only [Option.isNone_none, if_true, after, hshifted, ha.ends hha, hb.shifts]
  · rw [pieces_append, pieces_append, ha.forgets ho level anchor anchor']
    cases hha : a.halt? with
    | some h => rfl
    | none =>
      simp only [Option.isNone_none, if_true, after, ha.ends hha,
        hb.forgets ho level anchor anchor']

/-- What remembers a depth of its own does not depend on one that is remembered outside. -/
theorem anchored (h : Moves true i j d) : Moves o i j (.anchored d) :=
  ⟨h.ends, h.stays, fun base level _ => h.shifts base level (level + i), fun _ _ _ _ => rfl⟩

/-- Parentheses stay on the level. -/
theorem parensIf (x : Bool) (h : Moves o i i d) : Moves o i i (d.parensIf x) := by
  cases x
  · exact h
  · exact append (append (text _) h) (text _)

/-- A list of documents that stay on the level stays on it. -/
theorem join {sep : Doc} (hsep : Moves o i i sep) {ds : List Doc} (h : ∀ d ∈ ds, Moves o i i d) :
    Moves o i i (Doc.join sep ds) := by
  induction ds with
  | nil => exact nil
  | cons d rest ih =>
    obtain ⟨hd, hrest⟩ := List.forall_mem_cons.mp h
    cases rest with
    | nil => exact hd
    | cons e rest => exact append (append hd hsep) (ih hrest)

end Moves

namespace Steady

variable {d : Doc}

/-- What is steady is so from any level on. -/
theorem moves (h : d.Steady) (o : Bool) (i : Nat) : d.Moves o i i :=
  ⟨fun hh level => h.ends hh (level + i),
    fun level => Nat.le_trans (Nat.le_add_right level i) (h.stays (level + i)),
    fun base level => h.shifts base (level + i), fun _ level => h.forgets rfl (level + i)⟩

/-- After a steady document writing stands where it stood. -/
theorem after_eq (h : d.Steady) (hh : d.halt? = none) (level : Level) : d.after level = level := by
  have hends := h.ends hh level.now
  simp only [Nat.add_zero] at hends
  rw [after, hends]

/-- What is written before a steady document comes back if both together do. -/
theorem after_of_append {a b : Doc} (hab : (a ++ b).Steady) (hb : b.Steady)
    (h : (a ++ b).halt? = none) (level : Level) : a.after level = level := by
  obtain ⟨ha, hhb⟩ := Option.or_eq_none_iff.mp h
  have hboth : b.levelAfter (a.levelAfter level.now) = level.now := by
    simpa [levelAfter_append, ha] using hab.ends h level.now
  have hsecond : b.levelAfter (a.levelAfter level.now) = a.levelAfter level.now :=
    hb.ends hhb (a.levelAfter level.now)
  rw [after, ← hsecond, hboth]

/-- **The text of a steady document** in a layout: its pieces at level zero, or its stop. -/
theorem render_eq (h : d.Steady) (l : Layout) :
    d.render l = match d.halt? with
      | none => .ok (Piece.renderAll l (d.pieces .start))
      | some x => .error x := by
  have hpieces : d.pieces ⟨l.level, l.level⟩ = (d.pieces .start).map (Piece.shift l.level) := by
    simpa [Level.start] using h.shifts l.level 0 0
  rw [render, run_eq]
  cases d.halt? with
  | some x => rfl
  | none =>
    simp only [outcome, written, Writer.ofLayout, hpieces, Piece.renderAll_map_shift,
      String.empty_append]

end Steady

end Doc

/-! ## §4. Documents that are written alike. -/

/-- The stop with a function applied to its error. -/
def Halt.map (f : EmitError → EmitError) : Halt → Halt
  | .error e => .error (f e)
  | .unfinished => .unfinished

namespace Doc

/-- The document `d₂` is written as `d₁` is, with a function applied to the error at the stop. The
same text may be written in other pieces. -/
structure SameUpTo (f : EmitError → EmitError) (d₁ d₂ : Doc) : Prop where
  halt? : d₂.halt? = d₁.halt?.map (Halt.map f)
  levelAfter : ∀ level, d₂.levelAfter level = d₁.levelAfter level
  text : ∀ l level, Piece.renderAll l (d₂.pieces level) = Piece.renderAll l (d₁.pieces level)

namespace SameUpTo

variable {f : EmitError → EmitError} {a b c d e : Doc}

/-- Documents that stop, move and write alike. -/
theorem of_eq (hh : d.halt? = e.halt?) (hl : ∀ level, d.levelAfter level = e.levelAfter level)
    (ht : ∀ l level, Piece.renderAll l (d.pieces level) = Piece.renderAll l (e.pieces level)) :
    SameUpTo id d e := by
  refine ⟨?_, fun level => (hl level).symm, fun l level => (ht l level).symm⟩
  rw [hh]
  cases e.halt? with
  | none => rfl
  | some h => cases h <;> rfl

/-- A document is the same as itself. -/
theorem refl (d : Doc) : SameUpTo id d d := of_eq rfl (fun _ => rfl) fun _ _ => rfl

/-- What does not stop has no fault that could differ. -/
theorem of_continues (h : d.halt? = none) : SameUpTo f d d :=
  ⟨by simp [h], fun _ => rfl, fun _ _ => rfl⟩

/-- Sameness goes from one document to the next. -/
theorem trans (h : SameUpTo f a b) (h' : SameUpTo id b c) : SameUpTo f a c := by
  refine ⟨?_, fun level => (h'.levelAfter level).trans (h.levelAfter level),
    fun l level => (h'.text l level).trans (h.text l level)⟩
  rw [h'.halt?, h.halt?]
  cases a.halt? with
  | none => rfl
  | some x => cases x <;> rfl

/-- It goes through appending. -/
theorem append (had : SameUpTo f a d) (hbe : SameUpTo f b e) : SameUpTo f (a ++ b) (d ++ e) := by
  refine ⟨?_, fun level => ?_, fun l level => ?_⟩
  · rw [halt?_append, halt?_append, had.halt?, hbe.halt?]
    cases a.halt? <;> rfl
  · rw [levelAfter_append, levelAfter_append, had.halt?, had.levelAfter, hbe.levelAfter,
      Option.isNone_map]
  · have hafter : d.after level = a.after level := by
      simp only [after, had.levelAfter]
    rw [pieces_append, pieces_append, Piece.renderAll_append, Piece.renderAll_append, had.halt?,
      had.text, Option.isNone_map, hafter]
    cases a.halt? with
    | none => simp only [Option.isNone_none, if_true, hbe.text]
    | some h => rfl

/-- It goes through remembering a depth. -/
theorem anchored (h : SameUpTo f a b) : SameUpTo f (.anchored a) (.anchored b) :=
  ⟨h.halt?, h.levelAfter, fun l level => h.text l ⟨level.now, level.now⟩⟩

/-- Parentheses go around both. -/
theorem parensIf (x : Bool) (h : SameUpTo f a b) : SameUpTo f (a.parensIf x) (b.parensIf x) := by
  cases x
  · exact h
  · exact append (append (of_continues rfl) h) (of_continues rfl)

/-- An empty part at the end does not matter. -/
theorem append_nil (d : Doc) : SameUpTo id d (d ++ .nil) := by
  refine of_eq ?_ (fun level => ?_) fun l level => ?_
  · simp
  · simp [levelAfter_append, Doc.levelAfter]
  · simp [pieces_append, pieces]

/-- An empty part at the start does not matter. -/
theorem nil_append (d : Doc) : SameUpTo id d (.nil ++ d) :=
  of_eq rfl (fun _ => rfl) fun _ _ => rfl

/-- What writes nothing may follow. -/
theorem append_blank (h : SameUpTo f a b) (he : SameUpTo id .nil e) : SameUpTo f a (b ++ e) :=
  (h.trans (append_nil b)).trans ((refl b).append he)

end SameUpTo

end Doc

end Estree
