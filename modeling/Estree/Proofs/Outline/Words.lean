import Estree.Proofs.Nesting.Words

/-!
# Texts outside of brackets

Who splits a text at commas or semicolons, or looks for the word `in`, looks only at what is outside
of all brackets. The outline of a text is this part of it, with the outermost brackets left standing
and nothing between them. A well-nested text may be put before another without changing what is seen
there (`outline_append`, `cutAt_append`).

What is looked for (`Sought`) is absent from a text if it is absent from the outline. It does not
come up when texts are put side by side either, unless an `i` at the end of one meets an `n` at the
beginning of the next (`InAt.of_append`). A link is a text that keeps its neighbours apart in this
respect, such as an operator with spaces around it, or a pair of brackets.

Main results:

* `outline_append`: a well-nested text is seen by itself.
* `cutAt_append`: no cut goes through a well-nested text.
* `InAt.of_append`: a word of two texts in a row.
* `Clear.link`: a link keeps two texts apart.
-/

namespace Estree.Outline

open Nesting

/-! ## §1. Depth. -/

/-- How deep in brackets a text is after one more character. -/
def depthAfter (depth : Nat) (c : Char) : Nat :=
  if (closing? c).isSome then depth + 1 else if isBracket c then depth - 1 else depth

/-- The characters outside of all brackets, and the outermost brackets. -/
def outline : (depth : Nat) → List Char → List Char
  | _, [] => []
  | depth, c :: cs =>
    if depth = 0 ∨ depthAfter depth c = 0 then c :: outline (depthAfter depth c) cs
    else outline (depthAfter depth c) cs

/-- The parts of a text between the marks that are outside of all brackets. -/
def cutAt (mark : Char) : (depth : Nat) → List Char → List (List Char)
  | _, [] => [[]]
  | depth, c :: cs =>
    if depth = 0 ∧ c = mark then [] :: cutAt mark 0 cs
    else (cutAt mark (depthAfter depth c) cs).modifyHead (c :: ·)

section Depth

variable {c d mark : Char} {u w : List Char}

/-- Other characters do not change the depth. -/
theorem depthAfter_of_not_isBracket (h : isBracket c = false) (depth : Nat) :
    depthAfter depth c = depth := by
  have hopen : closing? c = none := by
    cases hc : closing? c with
    | none => rfl
    | some d => rw [isBracket_of_closing? hc] at h; cases h
  simp [depthAfter, hopen, h]

/-- A bracket goes one level in, and its closing one comes back. -/
theorem depthAfter_of_closing? (h : closing? c = some d) (depth : Nat) :
    depthAfter depth c = depth + 1 ∧ depthAfter (depth + 1) d = depth := by
  obtain ⟨hopen, hd⟩ := closes_of_closing? h
  simp [depthAfter, h, hopen, hd]

/-- Nothing is seen of a well-nested text inside of brackets. -/
theorem outline_succ_append (h : Nested w) (depth : Nat) (cs : List Char) :
    outline (depth + 1) (w ++ cs) = outline (depth + 1) cs := by
  induction h generalizing depth cs with
  | nil => rfl
  | @pass c w hc _ ih =>
    rw [List.cons_append, outline, depthAfter_of_not_isBracket hc, if_neg (by omega), ih]
  | @pair c d u w hcd _ _ ihu ihw =>
    obtain ⟨hc, hd⟩ := depthAfter_of_closing? hcd (depth + 1)
    rw [List.cons_append, List.append_assoc, List.cons_append, outline, hc, if_neg (by omega), ihu,
      outline, hd, if_neg (by omega), ihw]

/-- A pair of brackets is seen without what is between them. -/
theorem outline_pair (hcd : closing? c = some d) (hu : Nested u) (cs : List Char) :
    outline 0 (c :: (u ++ d :: cs)) = c :: d :: outline 0 cs := by
  obtain ⟨hc, hd⟩ := depthAfter_of_closing? hcd 0
  rw [outline, hc, if_pos (.inl rfl), outline_succ_append hu, outline, hd, if_pos (.inr rfl)]

/-- What is no bracket stands on the outside. -/
theorem outline_pass (hc : isBracket c = false) (cs : List Char) :
    outline 0 (c :: cs) = c :: outline 0 cs := by
  rw [outline, depthAfter_of_not_isBracket hc, if_pos (.inl rfl)]

/-- **A well-nested text is seen by itself.** -/
theorem outline_append (h : Nested w) (cs : List Char) :
    outline 0 (w ++ cs) = outline 0 w ++ outline 0 cs := by
  induction h with
  | nil => rfl
  | pass hc _ ih => rw [List.cons_append, outline_pass hc, ih, outline_pass hc, List.cons_append]
  | pair hcd hu _ _ ihw =>
    rw [List.cons_append, List.append_assoc, List.cons_append, outline_pair hcd hu, ihw,
      outline_pair hcd hu]
    rfl

/-- A text without brackets is its own outline. -/
theorem outline_of_isFree {x : String} (h : IsFree x) : outline 0 x.toList = x.toList := by
  unfold IsFree at h
  generalize x.toList = cs at h
  induction cs with
  | nil => rfl
  | cons c cs ih =>
    rw [List.all_cons, Bool.and_eq_true, Bool.not_eq_true'] at h
    rw [outline_pass h.1, ih h.2]

/-- **No cut goes through a well-nested text** that has no mark outside of brackets. The induction
is on how the text is nested; inside of brackets a mark does not matter. -/
theorem cutAt_append (h : Nested w) (depth : Nat) (hm : depth = 0 → mark ∉ outline 0 w)
    (cs : List Char) :
    cutAt mark depth (w ++ cs) = (cutAt mark depth cs).modifyHead (w ++ ·) := by
  induction h generalizing depth cs with
  | nil =>
    have hid : ((([] : List Char)) ++ ·) = id := funext fun _ => rfl
    rw [hid, List.modifyHead_id]
    rfl
  | @pass c w hc _ ih =>
    have hmark : ¬ (depth = 0 ∧ c = mark) := by
      rintro ⟨rfl, rfl⟩
      exact hm rfl (by simp [outline_pass hc])
    have hrest : depth = 0 → mark ∉ outline 0 w := by
      intro hd hw
      exact hm hd (by simp [outline_pass hc, hw])
    rw [List.cons_append, cutAt, if_neg hmark, depthAfter_of_not_isBracket hc, ih depth hrest,
      List.modifyHead_modifyHead]
    rfl
  | @pair c d u w hcd hu _ ihu ihw =>
    obtain ⟨hc, hd⟩ := depthAfter_of_closing? hcd depth
    have hmark : ¬ (depth = 0 ∧ c = mark) := by
      rintro ⟨rfl, rfl⟩
      exact hm rfl (by simp [outline_pair hcd hu])
    have hrest : depth = 0 → mark ∉ outline 0 w := by
      intro hz hw
      exact hm hz (by simp [outline_pair hcd hu, hw])
    -- between the brackets the depth is not 0, so no mark is a cut there
    have hdeep : depth + 1 = 0 → mark ∉ outline 0 u := fun hz => absurd hz (by omega)
    rw [List.cons_append, List.append_assoc, List.cons_append, cutAt, if_neg hmark, hc,
      ihu (depth + 1) hdeep, cutAt, if_neg (by omega), hd, ihw depth hrest]
    simp only [List.modifyHead_modifyHead]
    congr 1
    funext v
    simp

/-- A text without a mark outside of brackets is one part. -/
theorem cutAt_of_not_mem (h : Nested w) (hm : mark ∉ outline 0 w) : cutAt mark 0 w = [w] := by
  have hcut := cutAt_append h 0 (fun _ => hm) []
  rw [List.append_nil] at hcut
  rw [hcut, cutAt]
  simp

/-- The first mark ends the first part. -/
theorem cutAt_append_mark (h : Nested w) (hm : mark ∉ outline 0 w) (cs : List Char) :
    cutAt mark 0 (w ++ mark :: cs) = w :: cutAt mark 0 cs := by
  rw [cutAt_append h 0 fun _ => hm, cutAt, if_pos ⟨rfl, rfl⟩]
  simp

end Depth

/-! ## §2. The word `in`. -/

/-- The word `in` stands between two texts, if the characters of words are those that `part` says.
-/
def InAt (part : Char → Bool) (cs before after : List Char) : Prop :=
  cs = before ++ 'i' :: 'n' :: after ∧ before.getLast?.all (!part ·) = true ∧
    after.head?.all (!part ·) = true

/-- The word `in` stands somewhere. -/
def HasIn (part : Char → Bool) (cs : List Char) : Prop := ∃ before after, InAt part cs before after

variable {part : Char → Bool} {u v cs : List Char}

instance (before after : List Char) : Decidable (InAt part cs before after) :=
  inferInstanceAs (Decidable (_ ∧ _ ∧ _))

/-- It is enough to look at every place of the text. -/
theorem hasIn_iff : HasIn part cs ↔
    ((List.range cs.length).any fun k => decide (InAt part cs (cs.take k) (cs.drop (k + 2)))) =
      true := by
  simp only [List.any_eq_true, List.mem_range, decide_eq_true_eq]
  constructor
  · rintro ⟨before, after, rfl, hbefore, hafter⟩
    refine ⟨before.length, by simp, ?_⟩
    have htake : (before ++ 'i' :: 'n' :: after).take before.length = before := List.take_left
    have hdrop : (before ++ 'i' :: 'n' :: after).drop (before.length + 2) = after := by
      rw [List.drop_append]
      simp
    rw [htake, hdrop]
    exact ⟨rfl, hbefore, hafter⟩
  · rintro ⟨k, -, h⟩
    exact ⟨_, _, h⟩

instance : Decidable (HasIn part cs) := decidable_of_iff _ hasIn_iff.symm

/-- Where there is an `in`, there are its two letters. -/
theorem HasIn.isInfix (h : HasIn part cs) : ['i', 'n'] <:+: cs := by
  obtain ⟨before, after, rfl, -⟩ := h
  exact ⟨before, after, by simp⟩

/-- **A word of two texts in a row is a word of one of them**, or it is made of the last character
of the first and the first character of the second. -/
theorem InAt.of_append {before after : List Char} (h : InAt part (u ++ v) before after) :
    (∃ w, after = w ++ v ∧ InAt part u before w) ∨ (∃ w, before = u ++ w ∧ InAt part v w after) ∨
      (u.getLast? = some 'i' ∧ v.head? = some 'n') := by
  obtain ⟨heq, hbefore, hafter⟩ := h
  rcases List.append_eq_append_iff.mp heq with ⟨w, rfl, hv⟩ | ⟨w, rfl, hw⟩
  · -- it stands in the second text
    refine .inr (.inl ⟨w, rfl, hv, ?_, hafter⟩)
    cases hlast : w.getLast? with
    | none => rfl
    | some c => simpa [List.getLast?_append, hlast] using hbefore
  · cases w with
    | nil => exact .inr (.inl ⟨[], by simp, hw.symm, by simp, hafter⟩)
    | cons c w =>
      obtain ⟨rfl, hrest⟩ : 'i' = c ∧ 'n' :: after = w ++ v := by simpa using hw
      cases w with
      | nil =>
        refine .inr (.inr ⟨by simp, ?_⟩)
        rw [← List.nil_append v, ← hrest]
        rfl
      | cons d w =>
        -- it stands in the first text
        obtain ⟨rfl, rfl⟩ : 'n' = d ∧ after = w ++ v := by simpa using hrest
        refine .inl ⟨w, rfl, rfl, hbefore, ?_⟩
        cases hfirst : w.head? with
        | none => rfl
        | some c => simpa [List.head?_append, hfirst] using hafter

/-- Two parts without an `in` have none unless it goes over the seam. -/
theorem not_hasIn_append (hu : ¬ HasIn part u) (hv : ¬ HasIn part v)
    (h : u.getLast? ≠ some 'i' ∨ v.head? ≠ some 'n') : ¬ HasIn part (u ++ v) := by
  rintro ⟨before, after, hat⟩
  rcases hat.of_append with ⟨w, -, hu'⟩ | ⟨w, -, hv'⟩ | ⟨hi, hn⟩
  · exact hu ⟨_, _, hu'⟩
  · exact hv ⟨_, _, hv'⟩
  · rcases h with h | h
    · exact h hi
    · exact h hn

/-! ## §3. What is looked for. -/

/-- What is looked for outside of brackets: a separator and, if it is known what the characters of
words are, the word `in`. -/
structure Sought where
  mark : Char
  part? : Option (Char → Bool)
  mark_mem : mark ∈ [',', ';']

/-- Neither the separator nor the word is in the text. -/
def Sought.Absent (q : Sought) (cs : List Char) : Prop :=
  q.mark ∉ cs ∧ ∀ part ∈ q.part?, ¬ HasIn part cs

instance (q : Sought) (cs : List Char) : Decidable (q.Absent cs) :=
  decidable_of_iff (q.mark ∉ cs ∧ (q.part?.all fun part => !decide (HasIn part cs)) = true)
    (by simp [Sought.Absent, Option.all_eq_true])

/-- The text has nothing that is looked for, and any text may be put after it. -/
def isLead (cs : List Char) : Bool :=
  cs.getLast?.any (· != 'i') && !cs.contains ',' && !cs.contains ';'
    && !(cs.zip cs.tail).contains ('i', 'n')

/-- Moreover it may be put after any text. -/
def isLink (cs : List Char) : Bool := cs.head?.any (· != 'n') && isLead cs

variable {q : Sought}

/-- Neighbours are a pair of the text and its tail. -/
theorem mem_zip_tail {a b : Char} (h : [a, b] <:+: cs) : (a, b) ∈ cs.zip cs.tail := by
  obtain ⟨before, after, rfl⟩ := h
  induction before with
  | nil => simp
  | cons c before ih =>
    cases before with
    | nil => simp
    | cons d before => exact List.mem_cons_of_mem _ ih

/-- Nothing sought is in a lead. -/
theorem absent_of_isLead (h : isLead cs = true) : q.Absent cs := by
  simp only [isLead, Bool.and_eq_true, Bool.not_eq_true'] at h
  obtain ⟨⟨⟨-, hcomma⟩, hsemicolon⟩, hpair⟩ := h
  refine ⟨fun hm => ?_, fun part _ hin => ?_⟩
  · have hmark := q.mark_mem
    simp only [List.mem_cons, List.not_mem_nil, or_false] at hmark
    rcases hmark with heq | heq
    · simp [heq ▸ hm] at hcomma
    · simp [heq ▸ hm] at hsemicolon
  · simp [mem_zip_tail hin.isInfix] at hpair

/-- A lead does not end with an `i`. -/
theorem getLast?_of_isLead (h : isLead cs = true) : ∃ c, cs.getLast? = some c ∧ c ≠ 'i' := by
  simp only [isLead, Bool.and_eq_true, Option.any_eq_true, bne_iff_ne] at h
  exact h.1.1.1

/-- Only `i` and `n` side by side make what is looked for of texts that do not have it. -/
theorem Sought.Absent.append (hu : q.Absent u) (hv : q.Absent v)
    (h : q.part? = none ∨ u.getLast? ≠ some 'i' ∨ v.head? ≠ some 'n') : q.Absent (u ++ v) := by
  refine ⟨fun hm => (List.mem_append.mp hm).elim hu.1 hv.1, fun part hpart => ?_⟩
  refine not_hasIn_append (hu.2 part hpart) (hv.2 part hpart) (h.resolve_left ?_)
  rw [Option.mem_def.mp hpart]
  exact Option.some_ne_none part

namespace Sought

/-! ## §4. Texts. -/

/-- The text is well-nested, and what is looked for is nowhere in it outside of brackets. -/
def Clear (q : Sought) (w : List Char) : Prop := Nested w ∧ q.Absent (outline 0 w)

/-- Moreover every clear text may be put after it. -/
def Ahead (q : Sought) (w : List Char) : Prop :=
  q.Clear w ∧ (q.part? = none ∨ (outline 0 w).getLast? ≠ some 'i')

end Sought

/-- A text that may be put between any two. -/
def Link (w : List Char) : Prop := Nested w ∧ isLink (outline 0 w) = true

variable {w : List Char}

/-- A text that is its own outline. -/
theorem clear_of_isFree {x : String} (hx : IsFree x) (h : q.Absent x.toList) : q.Clear x.toList :=
  ⟨nested_of_isFree hx, by rwa [outline_of_isFree hx]⟩

/-- A lead may have anything after it. -/
theorem ahead_of_isLead {x : String} (hx : IsFree x) (h : isLead x.toList = true) :
    q.Ahead x.toList := by
  refine ⟨clear_of_isFree hx (absent_of_isLead h), .inr ?_⟩
  obtain ⟨c, hc, hne⟩ := getLast?_of_isLead h
  rw [outline_of_isFree hx, hc]
  simpa using hne

theorem link_of_isFree {x : String} (hx : IsFree x) (h : isLink x.toList = true) : Link x.toList :=
  ⟨nested_of_isFree hx, by rwa [outline_of_isFree hx]⟩

/-- A text between two brackets that close each other. -/
theorem link_pair {c d : Char} (hcd : closing? c = some d) (hw : Nested w) :
    Link (c :: (w ++ [d])) := by
  refine ⟨.pair hcd hw .nil, ?_⟩
  rw [outline_pair hcd hw]
  unfold closing? at hcd
  split at hcd
  all_goals cases hcd
  all_goals decide

namespace Sought

theorem ahead_nil : q.Ahead [] := by
  have habsent : q.Absent [] := ⟨List.not_mem_nil, fun _ _ h => by simpa using h.isInfix⟩
  exact ⟨⟨.nil, habsent⟩, .inr (by simp [outline])⟩

/-- Two clear parts are clear together unless an `in` goes over the seam. -/
theorem Clear.append (hu : q.Clear u) (hw : q.Clear w)
    (h : q.part? = none ∨ (outline 0 u).getLast? ≠ some 'i' ∨ (outline 0 w).head? ≠ some 'n') :
    q.Clear (u ++ w) := by
  refine ⟨hu.1.append hw.1, ?_⟩
  rw [outline_append hu.1]
  exact hu.2.append hw.2 h

/-- After what is ahead it does not. -/
theorem Ahead.append (hu : q.Ahead u) (hw : q.Clear w) : q.Clear (u ++ w) :=
  hu.1.append hw (hu.2.imp_right .inl)

/-- What is ahead twice is ahead. -/
theorem Ahead.append_ahead (hu : q.Ahead u) (hw : q.Ahead w) : q.Ahead (u ++ w) := by
  refine ⟨hu.append hw.1, ?_⟩
  rw [outline_append hu.1.1, List.getLast?_append]
  rcases hu.2 with hnone | hu'
  · exact .inl hnone
  · refine hw.2.imp_right fun hw' => ?_
    cases hlast : (outline 0 w).getLast? with
    | none => simpa using hu'
    | some c => simpa [hlast] using hw'

/-- **A link keeps two texts apart.** -/
theorem Clear.link (hu : q.Clear u) (hw : Link w) : q.Ahead (u ++ w) := by
  obtain ⟨hnested, hlink⟩ := hw
  obtain ⟨hhead, hlead⟩ := Bool.and_eq_true_iff.mp hlink
  obtain ⟨b, hb, hbn⟩ := (Option.any_eq_true _ _).mp hhead
  obtain ⟨c, hc, hci⟩ := getLast?_of_isLead hlead
  refine ⟨hu.append ⟨hnested, absent_of_isLead hlead⟩ (.inr (.inr ?_)), .inr ?_⟩
  · simpa [hb] using hbn
  · rw [outline_append hu.1, List.getLast?_append, hc]
    simpa using hci

end Sought

end Estree.Outline
