import Estree.Json.Compact
import Estree.Text.Escape

/-!
# Well-nested texts

In a well-nested text every opening bracket is closed by its own kind and in order, and nothing else
is closed. `Nested` gives the grammar of such texts. A text is tested from left to right with the
list of the brackets that are due, innermost first: an opening bracket makes its closing one due, a
closing bracket has to be the one that is due next, all other characters pass. The well-nested texts
are those that leave nothing due (`wellNested_iff`).

Texts without brackets leave everything as it is, and so do the texts of JSON values whose strings
and keys have none (`dueAfter_compact`): what a value adds of its own comes in pairs.

Main results:

* `wellNested_iff`: reading from left to right decides nesting.
* `dueAfter_compact`: a JSON value closes what it opens.
-/

namespace Estree

namespace Nesting

/-! ## §1. Brackets. -/

/-- The bracket that closes an opening one. -/
def closing? : Char → Option Char
  | '(' => some ')'
  | '[' => some ']'
  | '\x7b' => some '\x7d'
  | _ => none

/-- The brackets of the three pairs. -/
def brackets : List Char := ['(', ')', '[', ']', '\x7b', '\x7d']

/-- Whether a character is a bracket. -/
def isBracket (c : Char) : Bool := brackets.contains c

/-- What is due after one more character; `none` when it closes what is not due. -/
def step (due : List Char) (c : Char) : Option (List Char) :=
  match closing? c with
  | some d => some (d :: due)
  | none =>
    if isBracket c then
      match due with
      | [] => none
      | d :: rest => if d = c then some rest else none
    else some due

/-- What is due after a text, if `due` was due before it. -/
def dueAfter (due : List Char) (s : String) : Option (List Char) := s.toList.foldlM step due

/-- The words whose brackets match. -/
inductive Nested : List Char → Prop where
  | nil : Nested []
  | pass {c w} (h : isBracket c = false) : Nested w → Nested (c :: w)
  | pair {c d u w} (h : closing? c = some d) : Nested u → Nested w → Nested (c :: (u ++ d :: w))

/-- Every opening bracket is closed by its own kind and in order, and nothing else is closed. -/
def WellNested (s : String) : Prop := Nested s.toList

/-- There is no bracket in the text. -/
def IsFree (s : String) : Prop := (s.toList.all fun c => !isBracket c) = true

instance (s : String) : Decidable (IsFree s) := inferInstanceAs (Decidable (_ = _))

/-! ## §2. Texts one after the other. -/

/-- What is due goes from one text to the next. -/
theorem dueAfter_append (due : List Char) (s t : String) :
    dueAfter due (s ++ t) = (dueAfter due s).bind fun due => dueAfter due t := by
  unfold dueAfter
  rw [String.toList_append, List.foldlM_append]
  rfl

/-- Balanced texts on both sides of an append leave what is due. -/
theorem dueAfter_append_of_eq {due due' due'' : List Char} {s t : String}
    (hs : dueAfter due s = some due') (ht : dueAfter due' t = some due'') :
    dueAfter due (s ++ t) = some due'' := by
  rw [dueAfter_append, hs, Option.bind_some, ht]

theorem isBracket_of_closing? {c d : Char} (h : closing? c = some d) : isBracket c = true := by
  unfold closing? at h
  split at h
  all_goals first | rfl | cases h

/-- A character that is no bracket changes nothing. -/
theorem step_of_not_isBracket {c : Char} (h : isBracket c = false) (due : List Char) :
    step due c = some due := by
  have hopen : closing? c = none := by
    cases hd : closing? c with
    | none => rfl
    | some d => rw [isBracket_of_closing? hd] at h; cases h
  unfold step
  simp only [hopen, h, Bool.false_eq_true, if_false]

/-- A text without brackets changes nothing. -/
theorem dueAfter_of_isFree {s : String} (h : IsFree s) (due : List Char) :
    dueAfter due s = some due := by
  unfold dueAfter
  unfold IsFree at h
  generalize s.toList = cs at h
  induction cs with
  | nil => rfl
  | cons c rest ih =>
    rw [List.all_cons, Bool.and_eq_true, Bool.not_eq_true'] at h
    rw [List.foldlM_cons, step_of_not_isBracket h.1]
    exact ih h.2

/-- A closing bracket is a bracket that opens nothing. -/
theorem closes_of_closing? {c d : Char} (h : closing? c = some d) :
    closing? d = none ∧ isBracket d = true := by
  unfold closing? at h
  split at h
  all_goals cases h
  all_goals exact ⟨rfl, rfl⟩

/-- An opening bracket makes its closing one due, which then takes it away. -/
theorem step_of_closing? {c d : Char} (h : closing? c = some d) (due : List Char) :
    step due c = some (d :: due) ∧ step (d :: due) d = some due := by
  obtain ⟨hopen, hd⟩ := closes_of_closing? h
  unfold step
  simp only [h, hopen, hd, if_true, and_self]

/-- A nested word leaves what is due as it is. -/
theorem Nested.foldlM_step {w : List Char} (h : Nested w) (due : List Char) :
    w.foldlM step due = some due := by
  induction h generalizing due with
  | nil => rfl
  | pass hc _ ih =>
    rw [List.foldlM_cons, step_of_not_isBracket hc]
    exact ih due
  | @pair c d u w hd _ _ ihu ihw =>
    obtain ⟨hc, hd⟩ := step_of_closing? hd due
    rw [List.foldlM_cons, hc]
    show (u ++ d :: w).foldlM step (d :: due) = some due
    rw [List.foldlM_append, ihu]
    show ((d :: w).foldlM step (d :: due)) = some due
    rw [List.foldlM_cons, hd]
    exact ihw due

/-- Two nested words make one. -/
theorem Nested.append {u w : List Char} (h : Nested u) (h' : Nested w) : Nested (u ++ w) := by
  induction h with
  | nil => exact h'
  | pass hc _ ih => exact .pass hc ih
  | pair hcd hu _ _ ihw =>
    rw [List.cons_append, List.append_assoc, List.cons_append]
    exact .pair hcd hu ihw

/-- A word that closes what is due, and is nested in between. -/
def Closes : List Char → List Char → Prop
  | [], w => Nested w
  | d :: due, w => ∃ u v, w = u ++ d :: v ∧ Nested u ∧ Closes due v

/-- What is nested may stand before what closes. -/
theorem Closes.insert {due w : List Char} (h : Closes due w) {f : List Char → List Char}
    (hf : ∀ u, Nested u → Nested (f u)) (hfa : ∀ u v, f (u ++ v) = f u ++ v) :
    Closes due (f w) := by
  cases due with
  | nil => exact hf w h
  | cons d due =>
    obtain ⟨u, v, rfl, hu, hv⟩ := h
    exact ⟨f u, v, hfa u _, hf u hu, hv⟩

/-- A word after which nothing is due closes what was due before it. -/
theorem closes_of_foldlM {w : List Char} :
    ∀ {due : List Char}, w.foldlM step due = some [] → Closes due w := by
  induction w with
  | nil =>
    intro due h
    obtain rfl : due = [] := Option.some.inj h
    exact .nil
  | cons c w ih =>
    intro due h
    rw [List.foldlM_cons] at h
    obtain ⟨due', hstep, hw⟩ := Option.bind_eq_some_iff.mp h
    have hw := ih hw
    unfold step at hstep
    split at hstep
    next d hd =>
      cases hstep
      -- the rest closes this bracket first, which makes a pair around `u`
      obtain ⟨u, v, rfl, hu, hv⟩ := hw
      exact hv.insert (f := fun v => c :: (u ++ d :: v)) (fun v hv => .pair hd hu hv) (by simp)
    next =>
      split at hstep
      next =>
        split at hstep
        next => cases hstep
        next d rest =>
          split at hstep
          next hdc =>
            cases hstep
            -- this is the bracket that is due, with nothing before it
            subst hdc
            exact ⟨[], w, rfl, .nil, hw⟩
          next => cases hstep
      next hc =>
        cases hstep
        exact hw.insert (f := (c :: ·)) (fun v hv => .pass (by simpa using hc) hv) (by simp)

/-- **Reading decides nesting**: a text is well-nested when nothing is due after it. -/
theorem wellNested_iff {s : String} : WellNested s ↔ dueAfter [] s = some [] :=
  ⟨fun h => Nested.foldlM_step h [], closes_of_foldlM⟩

instance (s : String) : Decidable (WellNested s) := decidable_of_iff _ wellNested_iff.symm

/-- A text without brackets is nested. -/
theorem nested_of_isFree {s : String} (h : IsFree s) : Nested s.toList :=
  wellNested_iff.mpr (dueAfter_of_isFree h [])

theorem isFree_ofList {cs : List Char} (h : ∀ c ∈ cs, isBracket c = false) :
    IsFree (.ofList cs) := by
  unfold IsFree
  rw [String.toList_ofList, List.all_eq_true]
  intro c hc
  rw [h c hc]
  rfl

/-- A text has no brackets when its parts have none. -/
theorem isFree_append {s t : String} : IsFree (s ++ t) ↔ IsFree s ∧ IsFree t := by
  unfold IsFree
  rw [String.toList_append, List.all_append, Bool.and_eq_true]

theorem not_isBracket_of_mem {s : String} (h : IsFree s) {c : Char} (hc : c ∈ s.toList) :
    isBracket c = false := by
  simpa using List.all_eq_true.mp h c hc

/-! ## §3. Escapes and numbers. -/

/-- The characters that escapes are written with. -/
def escapeChars : List Char :=
  ['\\', '"', 'b', 'f', 'n', 'r', 't', 'u', '*'] ++ (List.range 16).map Nat.digitChar

theorem digitChar_mem_escapeChars (n : Nat) : Nat.digitChar n ∈ escapeChars := by
  rcases Nat.lt_or_ge n 16 with h | h
  · exact List.mem_append_right _ (List.mem_map_of_mem (List.mem_range.mpr h))
  · have hstar : Nat.digitChar n = '*' := by
      unfold Nat.digitChar
      iterate 16 rw [if_neg (by omega)]
    rw [hstar]
    decide

/-- No character of an escape is a bracket. -/
theorem not_isBracket_of_mem_escapeChars {c : Char} (h : c ∈ escapeChars) :
    isBracket c = false := by
  have hall : escapeChars.all (fun b => !isBracket b) = true := by decide
  simpa using List.all_eq_true.mp hall c h

theorem digitChar_not_isBracket (n : Nat) : isBracket (Nat.digitChar n) = false :=
  not_isBracket_of_mem_escapeChars (digitChar_mem_escapeChars n)

/-- A text written character by character has no brackets if no character brings one in. -/
theorem isFree_flatMap {f : Char → List Char}
    (hf : ∀ c, isBracket c = false → ∀ d ∈ f c, isBracket d = false)
    {s : String} (h : IsFree s) : IsFree (.ofList (s.toList.flatMap f)) := by
  refine isFree_ofList fun d hd => ?_
  obtain ⟨c, hc, hd⟩ := List.mem_flatMap.mp hd
  exact hf c (not_isBracket_of_mem h hc) d hd

/-- Escaping a character makes no bracket. -/
theorem escapeChar_not_isBracket (c : Char) (h : isBracket c = false) :
    ∀ d ∈ Text.escapeChar c, isBracket d = false := by
  have hbackslash : isBracket '\\' = false := rfl
  unfold Text.escapeChar
  repeat' split
  all_goals simp [Text.hexQuad, digitChar_not_isBracket, h, hbackslash]
  all_goals decide

/-- Escaping a text makes none. -/
theorem isFree_escape {s : String} (h : IsFree s) : IsFree (Text.escape s) :=
  isFree_flatMap escapeChar_not_isBracket h

/-- An escaped character is the character itself or made of escape characters. -/
theorem mem_escapedChar {c d : Char} (h : d ∈ Json.escapedChar c) : d = c ∨ d ∈ escapeChars := by
  unfold Json.escapedChar at h
  -- seven characters have an escape of one letter
  iterate 7
    split at h
    · refine .inr ?_
      simp only [List.mem_cons, List.not_mem_nil, or_false] at h
      rcases h with rfl | rfl <;> decide
  split at h
  · refine .inr ?_
    simp only [Json.hexPair, List.mem_append, List.mem_cons, List.not_mem_nil, or_false] at h
    rcases h with (rfl | rfl | rfl | rfl) | rfl | rfl
    iterate 4 decide
    all_goals exact digitChar_mem_escapeChars _
  · exact .inl (List.mem_singleton.mp h)

theorem escapedChar_not_isBracket (c : Char) (h : isBracket c = false) :
    ∀ d ∈ Json.escapedChar c, isBracket d = false := by
  intro d hd
  rcases mem_escapedChar hd with rfl | hd
  · exact h
  · exact not_isBracket_of_mem_escapeChars hd

/-- Quoting a text makes no brackets. -/
theorem isFree_quoted {s : String} (h : IsFree s) : IsFree (Json.quoted s) := by
  have hbody := isFree_flatMap escapedChar_not_isBracket h
  refine isFree_ofList fun c hc => ?_
  rcases List.mem_cons.mp hc with rfl | hc
  · rfl
  rcases List.mem_append.mp hc with hc | hc
  · exact not_isBracket_of_mem hbody (by rwa [String.toList_ofList])
  · rw [List.mem_singleton.mp hc]
    rfl

/-- The characters that numbers are written with. -/
def isNumeral (c : Char) : Bool := c.isDigit || ['-', '+', '.', 'e'].contains c

/-- The digits of a natural number. -/
theorem isNumeral_of_mem_toDigits (n : Nat) : ∀ c ∈ Nat.toDigits 10 n, isNumeral c = true := by
  intro c hc
  have hdigit := Nat.isDigit_of_mem_toDigits (by decide) (by decide) hc
  rw [isNumeral, hdigit, Bool.true_or]

/-- The characters of a number in plain notation. -/
theorem isNumeral_of_mem_plain (d : ShortDecimal) : ∀ c ∈ d.plain, isNumeral c = true := by
  have hdigits : ∀ c ∈ d.chars, isNumeral c = true := isNumeral_of_mem_toDigits _
  have hzero : isNumeral '0' = true ∧ isNumeral '.' = true := by decide
  intro c hc
  dsimp only [ShortDecimal.plain] at hc
  split at hc
  -- zeros between the point and the digits
  · simp only [List.mem_append, List.mem_cons, List.not_mem_nil, or_false, List.mem_replicate] at hc
    rcases hc with ((rfl | rfl) | ⟨-, rfl⟩) | hc
    · exact hzero.1
    · exact hzero.2
    · exact hzero.1
    · exact hdigits c hc
  split at hc
  -- zeros after the digits
  · simp only [List.mem_append, List.mem_cons, List.not_mem_nil, or_false, List.mem_replicate] at hc
    rcases hc with (hc | ⟨-, rfl⟩) | rfl | rfl
    · exact hdigits c hc
    · exact hzero.1
    · exact hzero.2
    · exact hzero.1
  -- the point among the digits
  · simp only [List.mem_append, List.mem_singleton] at hc
    rcases hc with (hc | rfl) | hc
    · exact hdigits c (List.mem_of_mem_take hc)
    · exact hzero.2
    · exact hdigits c (List.mem_of_mem_drop hc)

/-- The characters of a number in scientific notation. -/
theorem isNumeral_of_mem_scientific (d : ShortDecimal) :
    ∀ c ∈ d.scientific, isNumeral c = true := by
  have hdigits : ∀ c ∈ d.chars, isNumeral c = true := isNumeral_of_mem_toDigits _
  unfold ShortDecimal.scientific
  intro c hc
  simp only [List.mem_append, List.mem_cons, List.not_mem_nil, or_false] at hc
  rcases hc with ((hc | hc) | rfl | rfl) | hc
  · exact hdigits c (List.mem_of_mem_take hc)
  · split at hc
    · cases hc
    · rcases List.mem_cons.mp hc with rfl | hc
      · rfl
      · exact hdigits c (List.mem_of_mem_drop hc)
  · rfl
  · split <;> rfl
  · exact isNumeral_of_mem_toDigits _ c hc

/-- A sign is a numeral. -/
theorem isNumeral_of_mem_signed {cs : List Char} (h : ∀ c ∈ cs, isNumeral c = true)
    (negative : Prop) [Decidable negative] :
    ∀ c ∈ (String.ofList (if negative then '-' :: cs else cs)).toList, isNumeral c = true := by
  rw [String.toList_ofList]
  split
  · exact List.forall_mem_cons.mpr ⟨rfl, h⟩
  · exact h

/-- The characters of a number. -/
theorem isNumeral_of_mem_text (x : Number) : ∀ c ∈ x.text.toList, isNumeral c = true := by
  cases x with
  | int i => exact isNumeral_of_mem_signed (isNumeral_of_mem_toDigits i.natAbs) (i < 0)
  | float x =>
    refine isNumeral_of_mem_signed (fun c hc => ?_) (x.negative = true)
    split at hc
    · have hzero : "0.0".toList.all isNumeral = true := by decide
      exact List.all_eq_true.mp hzero c hc
    · dsimp only at hc
      split at hc
      · exact isNumeral_of_mem_plain _ c hc
      · exact isNumeral_of_mem_scientific _ c hc

/-- There are no brackets in a number. -/
theorem isFree_text (x : Number) : IsFree x.text := by
  have hall : (brackets.all fun b => !isNumeral b) = true := by decide
  refine List.all_eq_true.mpr fun c hc => ?_
  cases hb : isBracket c with
  | false => rfl
  | true =>
    have hc' := List.all_eq_true.mp hall c (List.contains_iff_mem.mp hb)
    rw [isNumeral_of_mem_text x c hc] at hc'
    cases hc'

end Nesting

/-! ## §4. JSON values. -/

namespace Json

mutual

/-- The strings and the keys in a value. -/
def texts : Json → List String
  | .null | .bool _ | .number _ => []
  | .string s => [s]
  | .array items => itemTexts items
  | .object members => memberTexts members

/-- The strings and the keys in the items of an array. -/
def itemTexts : List Json → List String
  | [] => []
  | v :: rest => texts v ++ itemTexts rest

/-- The strings and the keys in the members of an object. -/
def memberTexts : List (String × Json) → List String
  | [] => []
  | (k, v) :: rest => k :: (texts v ++ memberTexts rest)

end

end Json

namespace Nesting

mutual

/-- **A JSON value closes what it opens.** -/
theorem dueAfter_compact (v : Json) (h : ∀ t ∈ v.texts, IsFree t) (due : List Char) :
    dueAfter due v.compact = some due := by
  match v with
  | .null => exact dueAfter_of_isFree (by decide) due
  | .bool true => exact dueAfter_of_isFree (by decide) due
  | .bool false => exact dueAfter_of_isFree (by decide) due
  | .number x => exact dueAfter_of_isFree (isFree_text x) due
  | .string s =>
    exact dueAfter_of_isFree (isFree_quoted (h s (by simp [Json.texts]))) due
  | .array [] => rfl
  | .array (v :: rest) =>
    simp only [Json.texts, Json.itemTexts, List.mem_append, or_imp, forall_and] at h
    -- inside of the brackets the closing one is due
    have hv := dueAfter_compact v h.1 (']' :: due)
    have hrest := dueAfter_compactItems rest h.2 (']' :: due)
    unfold Json.compact
    exact dueAfter_append_of_eq (dueAfter_append_of_eq (dueAfter_append_of_eq rfl hv) hrest) rfl
  | .object [] => rfl
  | .object ((k, v) :: rest) =>
    simp only [Json.texts, Json.memberTexts, List.mem_cons, List.mem_append, or_imp, forall_and,
      forall_eq] at h
    have hk := dueAfter_of_isFree (isFree_quoted h.1) ('\x7d' :: due)
    have hv := dueAfter_compact v h.2.1 ('\x7d' :: due)
    have hrest := dueAfter_compactMembers rest h.2.2 ('\x7d' :: due)
    unfold Json.compact
    exact dueAfter_append_of_eq (dueAfter_append_of_eq (dueAfter_append_of_eq
      (dueAfter_append_of_eq (dueAfter_append_of_eq rfl hk) rfl) hv) hrest) rfl

/-- The items of a printed list are balanced. -/
theorem dueAfter_compactItems (items : List Json) (h : ∀ t ∈ Json.itemTexts items, IsFree t)
    (due : List Char) : dueAfter due (Json.compactItems items) = some due := by
  match items with
  | [] => rfl
  | v :: rest =>
    simp only [Json.itemTexts, List.mem_append, or_imp, forall_and] at h
    have hv := dueAfter_compact v h.1 due
    have hrest := dueAfter_compactItems rest h.2 due
    unfold Json.compactItems
    exact dueAfter_append_of_eq (dueAfter_append_of_eq rfl hv) hrest

/-- The members of a printed object are balanced. -/
theorem dueAfter_compactMembers (members : List (String × Json))
    (h : ∀ t ∈ Json.memberTexts members, IsFree t) (due : List Char) :
    dueAfter due (Json.compactMembers members) = some due := by
  match members with
  | [] => rfl
  | (k, v) :: rest =>
    simp only [Json.memberTexts, List.mem_cons, List.mem_append, or_imp, forall_and,
      forall_eq] at h
    have hk := dueAfter_of_isFree (isFree_quoted h.1) due
    have hv := dueAfter_compact v h.2.1 due
    have hrest := dueAfter_compactMembers rest h.2.2 due
    unfold Json.compactMembers
    exact dueAfter_append_of_eq (dueAfter_append_of_eq (dueAfter_append_of_eq
      (dueAfter_append_of_eq rfl hk) rfl) hv) hrest

end

end Nesting

end Estree
