import Estree.Proofs.Outline.Document
import Mathlib.Algebra.Ring.Parity
import Mathlib.Data.List.Basic

/-!
# Reading quoted strings back

The contents of a double-quoted string are spelled character by character (`SpellsChar`): a
character stands for itself, has an escape of one letter, or is written with a backslash, a `u` and
four hexadecimal digits. The reader is a machine with three modes, within the text, after a
backslash and within the digits, and it reads exactly the literals of this grammar
(`read?_eq_some_iff`). Each character of an escaped text is spelled (`spellsChar_escapeChar`), so
the reader is back in the text after it, and finds the text again with whatever follows
(`Text.escape_faithful`).

Main results:

* `read?_eq_some_iff`: the reader reads exactly the literals.
* `Spells.even_backslashes`: the closing quote is not escaped.
* `Spells.odd_backslashes`: a quote inside is.
* `Text.escape_faithful`: an escaped text is read back.
-/

namespace Estree

namespace Quoting

/-! ## §1. The grammar. -/

/-- The character may be seen in a literal: it is no control character and no line terminator. -/
def IsPrinted (c : Char) : Prop := 0x20 ≤ c.toNat ∧ c ≠ '\u2028' ∧ c ≠ '\u2029'

instance (c : Char) : Decidable (IsPrinted c) := inferInstanceAs (Decidable (_ ∧ _))

/-- The character stands for itself. -/
def IsPlain (c : Char) : Prop := c ≠ '"' ∧ c ≠ '\\' ∧ IsPrinted c

instance (c : Char) : Decidable (IsPlain c) := inferInstanceAs (Decidable (_ ∧ _))

/-- The character that a one-letter escape names. -/
def shortEscape? : Char → Option Char
  | '\\' => some '\\'
  | '"' => some '"'
  | 'n' => some '\n'
  | 'r' => some '\r'
  | 't' => some '\t'
  | _ => none

/-- The number that hexadecimal digits write after a number. -/
def hexValue? (value : Nat) (ds : List Char) : Option Nat :=
  ds.foldlM (fun value d => (Lexer.hexDigit? d).map (16 * value + ·)) value

/-- The text spells the character. -/
inductive SpellsChar : List Char → Char → Prop where
  | plain {c : Char} (h : IsPlain c) : SpellsChar [c] c
  | short {x c : Char} (h : shortEscape? x = some c) : SpellsChar ['\\', x] c
  | unicode {ds : List Char} {c : Char} (hlength : ds.length = 4)
      (hvalue : hexValue? 0 ds = some c.toNat) : SpellsChar ('\\' :: 'u' :: ds) c

/-- The text spells the characters. -/
inductive Spells : List Char → List Char → Prop where
  | nil : Spells [] []
  | cons {u us : List Char} {c : Char} {cs : List Char} (h : SpellsChar u c) (hs : Spells us cs) :
      Spells (u ++ us) (c :: cs)

/-! ## §2. The reader. -/

/-- Where the reader stands. -/
inductive Mode where
  | text
  /-- After a backslash. -/
  | escape
  /-- After a backslash and a `u`, with the number of digits read and their value. -/
  | hex (count value : Nat)

/-- The character with the number. -/
def charOf? (n : Nat) : Option Char := if h : n.isValidChar then some (Char.ofNatAux n h) else none

/-- One more character in front. -/
def push (c : Char) (p : List Char × List Char) : List Char × List Char := (c :: p.1, p.2)

/-- Reads up to the closing quote: the characters, and what comes after the quote. -/
def scan : Mode → List Char → Option (List Char × List Char)
  | _, [] => none
  | .text, c :: cs =>
    if c = '"' then some ([], cs)
    else if c = '\\' then scan .escape cs
    else if IsPlain c then (scan .text cs).map (push c)
    else none
  | .escape, c :: cs =>
    if c = 'u' then scan (.hex 0 0) cs
    else (shortEscape? c).bind fun d => (scan .text cs).map (push d)
  | .hex count value, c :: cs =>
    (Lexer.hexDigit? c).bind fun d =>
      if count = 3 then (charOf? (16 * value + d)).bind fun e => (scan .text cs).map (push e)
      else scan (.hex (count + 1) (16 * value + d)) cs

/-- Reads the literal at the beginning of a text. -/
def read? (text : String) : Option (String × String) :=
  match text.toList with
  | '"' :: cs => (scan .text cs).map fun p => (String.ofList p.1, String.ofList p.2)
  | _ => none

/-- A number names the character with that code. -/
theorem charOf?_eq_some_iff {n : Nat} {c : Char} : charOf? n = some c ↔ c.toNat = n := by
  constructor
  · intro h
    by_cases hn : n.isValidChar
    · rw [charOf?, dif_pos hn] at h
      cases h
      rfl
    · rw [charOf?, dif_neg hn] at h
      cases h
  · rintro rfl
    exact dif_pos c.valid

/-- What was pushed comes off first. -/
theorem map_push_eq_some_iff {o : Option (List Char × List Char)} {c : Char} {v rest : List Char} :
    o.map (push c) = some (v, rest) ↔ ∃ w, v = c :: w ∧ o = some (w, rest) := by
  constructor
  · intro h
    obtain ⟨⟨w, rest'⟩, hw, heq⟩ := Option.map_eq_some_iff.mp h
    cases heq
    exact ⟨w, rfl, hw⟩
  · rintro ⟨w, rfl, rfl⟩
    rfl

/-- The last digit counts least. -/
theorem hexValue?_concat (ds : List Char) (d : Char) : hexValue? 0 (ds ++ [d])
    = (hexValue? 0 ds).bind fun value => (Lexer.hexDigit? d).map (16 * value + ·) := by
  simp [hexValue?, List.foldlM_append]

/-- The digits that are still to come are read, and the character with their number. -/
theorem scan_hex_append {ds : List Char} {count value n : Nat} (hlength : count + ds.length = 4)
    (hds : ds ≠ []) (hvalue : hexValue? value ds = some n) (cs : List Char) :
    scan (.hex count value) (ds ++ cs)
      = (charOf? n).bind fun c => (scan .text cs).map (push c) := by
  induction ds generalizing count value with
  | nil => exact absurd rfl hds
  | cons d ds ih =>
    -- the first digit is counted, and the others follow
    obtain ⟨next, hnext, hrest⟩ := Option.bind_eq_some_iff.mp hvalue
    obtain ⟨digit, hdigit, rfl⟩ := Option.map_eq_some_iff.mp hnext
    rw [List.length_cons] at hlength
    rw [List.cons_append, scan, hdigit, Option.bind_some]
    by_cases hds' : ds = []
    · subst hds'
      cases hrest
      -- with the fourth digit the character is complete
      have hcount : count = 3 := by simpa using hlength
      rw [if_pos hcount, List.nil_append]
    · have hcount : count ≠ 3 := by
        have hpos := List.length_pos_iff.mpr hds'
        omega
      rw [if_neg hcount]
      exact ih (by omega) hds' hrest

/-- **The reader passes over a character**, however it is spelled. -/
theorem scan_append_of_spellsChar {u : List Char} {c : Char} (h : SpellsChar u c) (cs : List Char) :
    scan .text (u ++ cs) = (scan .text cs).map (push c) := by
  cases h with
  | plain h => simp [scan, h, h.1, h.2.1]
  | @short x c h =>
    have hx : x ≠ 'u' := by
      rintro rfl
      cases h
    simp [scan, hx, h]
  | @unicode ds c hlength hvalue =>
    have hds : ds ≠ [] := List.length_pos_iff.mp (by omega)
    have hhex : scan (.hex 0 0) (ds ++ cs) = _ := scan_hex_append (by omega) hds hvalue cs
    simpa [scan, charOf?_eq_some_iff.mpr rfl] using hhex

/-- What of a spelling has been read. -/
inductive Mode.Follows : Mode → List Char → Prop where
  | text : Follows .text []
  | escape : Follows .escape ['\\']
  | hex {ds : List Char} {value : Nat} (hlength : ds.length < 4)
      (hvalue : hexValue? 0 ds = some value) : Follows (.hex ds.length value) ('\\' :: 'u' :: ds)

/-- **What is read is spelled so.** The induction is along the text, from any mode. -/
theorem exists_spells_of_scan {m : Mode} {u cs v rest : List Char} (hm : m.Follows u)
    (h : scan m cs = some (v, rest)) : ∃ us, cs = us ++ '"' :: rest ∧ Spells (u ++ us) v := by
  induction cs generalizing m u v with
  | nil => cases m <;> cases h
  | cons c cs ih =>
    cases hm with
    | text =>
      rw [scan] at h
      split at h
      next hc =>
        -- the closing quote
        cases h
        exact ⟨[], by rw [hc]; rfl, .nil⟩
      split at h
      next hc =>
        obtain ⟨us, rfl, hus⟩ := ih .escape h
        exact ⟨'\\' :: us, by rw [hc]; rfl, hus⟩
      split at h
      next hc =>
        obtain ⟨w, rfl, hw⟩ := map_push_eq_some_iff.mp h
        obtain ⟨us, rfl, hus⟩ := ih .text hw
        have hspells : Spells ([c] ++ us) (c :: w) := .cons (.plain hc) hus
        exact ⟨c :: us, rfl, hspells⟩
      next => cases h
    | escape =>
      rw [scan] at h
      split at h
      next hc =>
        subst hc
        have hfollows : (Mode.hex 0 0).Follows ['\\', 'u'] := @Mode.Follows.hex [] 0 (by decide) rfl
        obtain ⟨us, rfl, hus⟩ := ih hfollows h
        exact ⟨'u' :: us, rfl, hus⟩
      next =>
        obtain ⟨d, hd, h⟩ := Option.bind_eq_some_iff.mp h
        obtain ⟨w, rfl, hw⟩ := map_push_eq_some_iff.mp h
        obtain ⟨us, rfl, hus⟩ := ih .text hw
        have hspells : Spells (['\\', c] ++ us) (d :: w) := .cons (.short hd) hus
        exact ⟨c :: us, rfl, hspells⟩
    | @hex ds value hlength hvalue =>
      rw [scan] at h
      obtain ⟨d, hd, h⟩ := Option.bind_eq_some_iff.mp h
      have hmore : hexValue? 0 (ds ++ [c]) = some (16 * value + d) := by
        simp [hexValue?_concat, hvalue, hd]
      split at h
      next hcount =>
        -- the last digit makes the character, and the reader is in the text again
        obtain ⟨e, he, h⟩ := Option.bind_eq_some_iff.mp h
        obtain ⟨w, rfl, hw⟩ := map_push_eq_some_iff.mp h
        obtain ⟨us, rfl, hus⟩ := ih .text hw
        refine ⟨c :: us, rfl, ?_⟩
        have hchar : SpellsChar ('\\' :: 'u' :: (ds ++ [c])) e :=
          .unicode (by simp [hcount]) (by rw [hmore, charOf?_eq_some_iff.mp he])
        simpa using Spells.cons hchar hus
      next hcount =>
        have hfollows : (Mode.hex (ds.length + 1) (16 * value + d)).Follows
            ('\\' :: 'u' :: (ds ++ [c])) := by
          have hlength' : (ds ++ [c]).length < 4 := by
            rw [List.length_append, List.length_singleton]
            omega
          simpa using Mode.Follows.hex hlength' hmore
        obtain ⟨us, rfl, hus⟩ := ih hfollows h
        exact ⟨c :: us, rfl, by simpa using hus⟩

/-- Scanning a spelling gives what it spells, up to the quote. -/
theorem scan_append_of_spells {us v : List Char} (h : Spells us v) (rest : List Char) :
    scan .text (us ++ '"' :: rest) = some (v, rest) := by
  induction h with
  | nil => rfl
  | cons hu _ ih =>
    rw [List.append_assoc, scan_append_of_spellsChar hu, ih]
    rfl

/-- **The reader reads exactly the literals.** -/
theorem read?_eq_some_iff {text v rest : String} : read? text = some (v, rest) ↔
    ∃ us, text.toList = '"' :: (us ++ '"' :: rest.toList) ∧ Spells us v.toList := by
  unfold read?
  constructor
  · intro h
    split at h
    next cs htext =>
      obtain ⟨⟨w, rest'⟩, hscan, heq⟩ := Option.map_eq_some_iff.mp h
      cases heq
      obtain ⟨us, rfl, hus⟩ := exists_spells_of_scan .text hscan
      exact ⟨us, by simp [htext], by simpa using hus⟩
    next => cases h
  · rintro ⟨us, htext, hus⟩
    rw [htext]
    simp [scan_append_of_spells hus]

/-! ## §3. What a spelling looks like. -/

/-- What has a hexadecimal value is made of digits. -/
theorem exists_hexDigit?_of_hexValue? {ds : List Char} {value n : Nat}
    (h : hexValue? value ds = some n) : ∀ d ∈ ds, ∃ i, Lexer.hexDigit? d = some i := by
  induction ds generalizing value with
  | nil => exact List.forall_mem_nil _
  | cons d ds ih =>
    obtain ⟨next, hnext, hrest⟩ := Option.bind_eq_some_iff.mp h
    obtain ⟨i, hi, -⟩ := Option.map_eq_some_iff.mp hnext
    exact List.forall_mem_cons.mpr ⟨⟨i, hi⟩, ih hrest⟩

/-- A hexadecimal digit stands for itself. -/
theorem isPlain_of_hexDigit? {d : Char} {i : Nat} (h : Lexer.hexDigit? d = some i) : IsPlain d := by
  have hle : '0' ≤ d ∨ 'a' ≤ d ∨ 'A' ≤ d := by
    unfold Lexer.hexDigit? at h
    split at h
    next hd => exact .inl hd.1
    split at h
    next hd => exact .inr (.inl hd.1)
    split at h
    next hd => exact .inr (.inr hd.1)
    next => cases h
  have hnumber : 0x20 ≤ d.toNat := by
    simp only [Char.le_def, UInt32.le_iff_toNat_le] at hle
    change 48 ≤ d.toNat ∨ 97 ≤ d.toNat ∨ 65 ≤ d.toNat at hle
    omega
  refine ⟨?_, ?_, hnumber, ?_, ?_⟩
  -- none of the characters that are left out is a digit
  all_goals
    rintro rfl
    cases h

/-- A short escape is a printed character. -/
theorem isPrinted_of_shortEscape? {x c : Char} (h : shortEscape? x = some c) : IsPrinted x := by
  unfold shortEscape? at h
  split at h
  all_goals
    cases h
    try decide

/-- A printed character does not end a line. -/
theorem IsPrinted.ne_lineTerminator {c : Char} (h : IsPrinted c) :
    c ≠ '\n' ∧ c ≠ '\r' ∧ c ≠ '\u2028' ∧ c ≠ '\u2029' := by
  refine ⟨?_, ?_, h.2.1, h.2.2⟩
  all_goals
    rintro rfl
    exact absurd h (by decide)

/-- A character is spelled with printed characters. -/
theorem SpellsChar.isPrinted {u : List Char} {c : Char} (h : SpellsChar u c) :
    ∀ d ∈ u, IsPrinted d := by
  cases h with
  | plain h => exact List.forall_mem_singleton.mpr h.2.2
  | short h =>
    exact List.forall_mem_cons.mpr ⟨by decide,
      List.forall_mem_singleton.mpr (isPrinted_of_shortEscape? h)⟩
  | unicode _ hvalue =>
    refine List.forall_mem_cons.mpr ⟨by decide, List.forall_mem_cons.mpr ⟨by decide, ?_⟩⟩
    intro d hd
    obtain ⟨i, hi⟩ := exists_hexDigit?_of_hexValue? hvalue d hd
    exact (isPlain_of_hexDigit? hi).2.2

/-- How many backslashes the text ends in. A quote that comes next is escaped if they are odd. -/
def backslashes (w : List Char) : Nat := (w.reverse.takeWhile (· == '\\')).length

/-- Backslashes at the end go on over a part that is nothing else. -/
theorem backslashes_append (u w : List Char) : backslashes (u ++ w)
    = if backslashes w = w.length then backslashes w + backslashes u else backslashes w := by
  unfold backslashes
  rw [List.reverse_append, List.takeWhile_append, List.length_reverse]
  split
  next h => rw [List.length_append, List.length_reverse, h]
  next => rfl

/-- Another character ends them. -/
theorem backslashes_concat {u : List Char} {c : Char} (hc : c ≠ '\\') :
    backslashes (u ++ [c]) = 0 := by
  simp [backslashes, hc]

/-- A spelling leaves no backslash open. -/
theorem SpellsChar.even_backslashes {u : List Char} {c : Char} (h : SpellsChar u c) :
    Even (backslashes u) := by
  cases h with
  | plain h =>
    rw [← List.nil_append [c], backslashes_concat h.2.1]
    exact Even.zero
  | @short x c h =>
    -- only the escaped backslash ends with backslashes, and these are two
    by_cases hx : x = '\\'
    · subst hx
      decide
    · have hzero : backslashes ['\\', x] = 0 := backslashes_concat (u := ['\\']) hx
      rw [hzero]
      exact Even.zero
  | @unicode ds c hlength hvalue =>
    rcases List.eq_nil_or_concat' ds with rfl | ⟨ds, d, rfl⟩
    · cases hlength
    · -- the last character is a digit
      obtain ⟨i, hi⟩ := exists_hexDigit?_of_hexValue? hvalue d (by simp)
      have hzero : backslashes ('\\' :: 'u' :: (ds ++ [d])) = 0 :=
        backslashes_concat (u := '\\' :: 'u' :: ds) (isPlain_of_hexDigit? hi).2.1
      rw [hzero]
      exact Even.zero

/-- A quote in the spelling of a character comes right after a backslash. -/
theorem SpellsChar.eq_of_quote {before after : List Char} {c : Char}
    (h : SpellsChar (before ++ '"' :: after) c) : before = ['\\'] := by
  -- the spelling is taken apart, then compared with the place of the quote
  generalize hu : before ++ '"' :: after = u at h
  cases h with
  | @plain c h =>
    have hmem : '"' ∈ [c] := hu ▸ by simp
    exact absurd (List.mem_singleton.mp hmem).symm h.1
  | @short x c h =>
    rcases before with _ | ⟨b, _ | ⟨b', before⟩⟩
    · cases hu
    · cases hu
      rfl
    · simp at hu
  | @unicode ds c hlength hvalue =>
    rcases before with _ | ⟨b, _ | ⟨b', before⟩⟩
    · cases hu
    · cases hu
    · cases hu
      obtain ⟨i, hi⟩ := exists_hexDigit?_of_hexValue? hvalue '"' (by simp)
      cases hi

/-- A spelling has printed characters only. -/
theorem Spells.isPrinted {us v : List Char} (h : Spells us v) : ∀ d ∈ us, IsPrinted d := by
  induction h with
  | nil => exact List.forall_mem_nil _
  | cons hu _ ih => exact List.forall_mem_append.mpr ⟨hu.isPrinted, ih⟩

/-- A character in front changes nothing about which quotes are escaped. -/
theorem SpellsChar.even_backslashes_append {u : List Char} {c : Char} (h : SpellsChar u c)
    (w : List Char) : Even (backslashes (u ++ w)) ↔ Even (backslashes w) := by
  rw [backslashes_append]
  split
  next => simp [Nat.even_add, h.even_backslashes]
  next => rfl

/-- **The closing quote is not escaped.** -/
theorem Spells.even_backslashes {us v : List Char} (h : Spells us v) : Even (backslashes us) := by
  induction h with
  | nil => exact Even.zero
  | cons hu _ ih => exact (hu.even_backslashes_append _).mpr ih

/-- **A quote inside is escaped.** -/
theorem Spells.odd_backslashes {us v before after : List Char} (h : Spells us v)
    (hus : us = before ++ '"' :: after) : Odd (backslashes before) := by
  induction h generalizing before with
  | nil => simp at hus
  | @cons u us c cs hu _ ih =>
    -- either the quote is in what follows the first character, or it is part of its spelling
    rcases List.append_eq_append_iff.mp hus with ⟨inner, rfl, hrest⟩ | ⟨inner, rfl, hafter⟩
    · have hodd := ih hrest
      rw [← Nat.not_even_iff_odd] at hodd ⊢
      exact fun heven => hodd ((hu.even_backslashes_append inner).mp heven)
    · cases inner with
      | nil =>
        have hodd : Odd (backslashes []) := ih hafter.symm
        exact absurd hodd (by decide)
      | cons d inner =>
        obtain ⟨rfl, -⟩ := List.cons.inj hafter
        rw [hu.eq_of_quote]
        decide

/-! ## §4. Escaped texts. -/

/-- A hexadecimal digit is read back. -/
theorem hexDigit?_digitChar {n : Nat} (h : n < 16) :
    Lexer.hexDigit? (Nat.digitChar n) = some n := by
  have hall : ∀ n < 16, Lexer.hexDigit? (Nat.digitChar n) = some n := by decide
  exact hall n h

/-- Four hexadecimal digits are read back. -/
theorem hexValue?_hexQuad {n : Nat} (h : n < 65536) : hexValue? 0 (Text.hexQuad n) = some n := by
  have hdigit : ∀ m, Lexer.hexDigit? (Nat.digitChar (m % 16)) = some (m % 16) :=
    fun m => hexDigit?_digitChar (Nat.mod_lt m (by decide))
  simp only [hexValue?, Text.hexQuad, List.foldlM_cons, List.foldlM_nil, hdigit]
  simp
  omega

/-- **An escaped character is spelled.** -/
theorem spellsChar_escapeChar (c : Char) : SpellsChar (Text.escapeChar c) c := by
  unfold Text.escapeChar
  -- the escapes of one letter
  iterate 5
    split
    next h =>
      subst h
      exact .short rfl
  split
  next h => exact .unicode rfl (hexValue?_hexQuad (by omega))
  next hbackslash hquote _ _ _ h =>
    simp only [not_or, Nat.not_lt] at h
    refine .plain ⟨hquote, hbackslash, h.1, ?_, ?_⟩
    · rintro rfl
      exact h.2.1 rfl
    · rintro rfl
      exact h.2.2 rfl

/-- **Escaping spells the text**: one character after the other. -/
theorem spells_escape (s : String) : Spells (Text.escape s).toList s.toList := by
  rw [Text.escape, String.toList_ofList]
  induction s.toList with
  | nil => exact .nil
  | cons c cs ih => exact .cons (spellsChar_escapeChar c) ih

/-- So it is read back between quotes, with what follows. -/
theorem read?_escape (s rest : String) :
    read? ("\"" ++ Text.escape s ++ "\"" ++ rest) = some (s, rest) :=
  read?_eq_some_iff.mpr ⟨(Text.escape s).toList, by simp, spells_escape s⟩

/-- A quoted text has printed characters only. -/
theorem isPrinted_of_mem_literal {s : String} {c : Char}
    (h : c ∈ ("\"" ++ Text.escape s ++ "\"").toList) : IsPrinted c := by
  simp only [String.toList_append, List.mem_append] at h
  rcases h with (h | h) | h
  · obtain rfl : c = '"' := List.mem_singleton.mp h
    decide
  · exact (spells_escape s).isPrinted c h
  · obtain rfl : c = '"' := List.mem_singleton.mp h
    decide

end Quoting

/-! ## §5. Names of ambient modules. -/

/-- The name of an ambient module, which is quoted. A declaration of the global scope has none. -/
def ModuleDeclaration.ambientName? (m : ModuleDeclaration) : Option String :=
  if m.isGlobal then none
  else
    match m.id with
    | .literal lit =>
      match lit.value with
      | .string name => some name
      | _ => none
    | _ => none

/-- A module has an ambient name when its id is a string. -/
theorem ModuleDeclaration.exists_id_of_ambientName? {m : ModuleDeclaration} {name : String}
    (h : m.ambientName? = some name) :
    m.isGlobal = false ∧ ∃ lit, m.id = .literal lit ∧ lit.value = .string name := by
  unfold ambientName? at h
  split at h
  next => cases h
  next hglobal =>
    refine ⟨Bool.eq_false_iff.mpr hglobal, ?_⟩
    split at h
    next lit hid =>
      split at h
      next name' hvalue =>
        cases h
        exact ⟨lit, hid, hvalue⟩
      next => cases h
    next => cases h

/-- The words in front of the name of an ambient module. -/
def ModuleDeclaration.ambientHead (m : ModuleDeclaration) : String :=
  if m.declare then "declare module " else "module "

/-- What an ambient module writes: the words in front, its quoted name, and the rest. -/
theorem Generator.generate_ambient_eq_ok_iff {l : Layout} {m : ModuleDeclaration}
    {name text : String} (hname : m.ambientName? = some name) :
    (Generator.ofDialect .typed l).generate (.tsModuleDeclaration m) = .ok text ↔
      (Emit.moduleRest (Grammar.ofDialect .typed).scope m.body).halt? = none ∧
        text = m.ambientHead ++ ("\"" ++ Text.escape name ++ "\"" ++
          .ofList ((Emit.moduleRest (Grammar.ofDialect .typed).scope m.body).chars l)) := by
  obtain ⟨hglobal, lit, hid, hvalue⟩ := ModuleDeclaration.exists_id_of_ambientName? hname
  -- a module whose id is a string has the keyword `module`
  have hkeyword : Emit.moduleKeyword m = "module " := by
    rw [Emit.moduleKeyword, hid]
  have hpart : Emit.moduleNamePart (Grammar.ofDialect .typed).scope m.id
      = "\"" ++ Text.escape name ++ "\"" := by
    rw [hid, Emit.moduleNamePart, hvalue]
  have hemit : (Grammar.ofDialect .typed).scope.emit (.tsModuleDeclaration m)
      = Emit.moduleDeclaration (Grammar.ofDialect .typed).scope (.tsModuleDeclaration m) :=
    Grammar.scope_emit (p := .moduleDeclaration) rfl
  rw [generate_ofDialect_eq_ok_iff, hemit, Emit.moduleDeclaration,
    if_neg (Bool.eq_false_iff.mp hglobal), hkeyword, hpart]
  -- the words in front and the name do not stop
  refine and_congr ?_ ?_
  · cases m.declare <;> rfl
  · rw [← String.toList_inj, ← String.toList_inj, ModuleDeclaration.ambientHead]
    cases m.declare <;>
      simp [Doc.chars, Doc.pieces_append, Doc.pieces, Doc.after, Doc.levelAfter_append,
        Doc.levelAfter, Doc.onlyIf, Piece.renderAll, Piece.render, String.join_cons]

/-- An ambient module without a body is always written. -/
theorem Generator.generate_ambient_of_body_eq_none {l : Layout} {m : ModuleDeclaration}
    {name : String} (hname : m.ambientName? = some name) (hbody : m.body = none) :
    (Generator.ofDialect .typed l).generate (.tsModuleDeclaration m)
      = .ok (m.ambientHead ++ ("\"" ++ Text.escape name ++ "\"" ++ ";")) := by
  rw [generate_ambient_eq_ok_iff hname, hbody, Emit.moduleRest]
  exact ⟨rfl, by rw [Doc.chars_text, String.ofList_toList]⟩

/-- The words in front of a name do not hide where it begins. -/
theorem ModuleDeclaration.eq_of_ambientHead_append {m₁ m₂ : ModuleDeclaration} {x y : String}
    (h : m₁.ambientHead ++ ("\"" ++ x) = m₂.ambientHead ++ ("\"" ++ y)) : x = y := by
  unfold ambientHead at h
  rw [← String.toList_inj] at h ⊢
  cases h₁ : m₁.declare with
  | false =>
    cases h₂ : m₂.declare with
    | false => simpa [h₁, h₂] using h
    | true => simp [h₁, h₂] at h
  | true =>
    cases h₂ : m₂.declare with
    | false => simp [h₁, h₂] at h
    | true => simpa [h₁, h₂] using h

open Quoting

/-- Texts that are escaped alike are the same. -/
theorem Text.escape_injective : Function.Injective escape := by
  intro s t h
  have hread := read?_escape s ""
  rw [h, read?_escape] at hread
  cases hread
  rfl

/-- The name of an ambient module can be told from its text. -/
theorem Generator.ambientName?_eq_of_generate_eq {l₁ l₂ : Layout} {m₁ m₂ : ModuleDeclaration}
    {name₁ name₂ text : String} (hname₁ : m₁.ambientName? = some name₁)
    (hname₂ : m₂.ambientName? = some name₂)
    (h₁ : (Generator.ofDialect .typed l₁).generate (.tsModuleDeclaration m₁) = .ok text)
    (h₂ : (Generator.ofDialect .typed l₂).generate (.tsModuleDeclaration m₂) = .ok text) :
    name₁ = name₂ := by
  obtain ⟨-, rfl⟩ := (generate_ambient_eq_ok_iff hname₁).mp h₁
  obtain ⟨-, htext⟩ := (generate_ambient_eq_ok_iff hname₂).mp h₂
  have hread₁ := read?_escape name₁
    (.ofList ((Emit.moduleRest (Grammar.ofDialect .typed).scope m₁.body).chars l₁))
  have hread₂ := read?_escape name₂
    (.ofList ((Emit.moduleRest (Grammar.ofDialect .typed).scope m₂.body).chars l₂))
  simp only [String.append_assoc] at htext hread₁ hread₂
  rw [ModuleDeclaration.eq_of_ambientHead_append htext, hread₂] at hread₁
  exact (Prod.mk.inj (Option.some.inj hread₁)).1.symm

/-- **An escaped text makes a faithful literal.** Between quotes it is spelled character by
character and read back, whatever follows; every quote in it is escaped and the closing one is not;
and it has no line terminator and no control character in it. So different texts are escaped
differently, and ambient modules of different names are written differently, whatever else they
declare and in whatever layout. -/
theorem Text.escape_faithful :
    (∀ s : String,
      Spells (escape s).toList s.toList ∧
      (∀ rest, read? ("\"" ++ escape s ++ "\"" ++ rest) = some (s, rest)) ∧
      (∀ before after, (escape s).toList = before ++ '"' :: after → Odd (backslashes before)) ∧
      Even (backslashes (escape s).toList) ∧
      ∀ c ∈ ("\"" ++ escape s ++ "\"").toList,
        c ≠ '\n' ∧ c ≠ '\r' ∧ c ≠ '\u2028' ∧ c ≠ '\u2029' ∧ 0x20 ≤ c.toNat) ∧
    Function.Injective escape ∧
    ∀ (l₁ l₂ : Layout) (m₁ m₂ : ModuleDeclaration) (name₁ name₂ text₁ text₂ : String),
      m₁.ambientName? = some name₁ → m₂.ambientName? = some name₂ → name₁ ≠ name₂ →
      (Generator.ofDialect .typed l₁).generate (.tsModuleDeclaration m₁) = .ok text₁ →
      (Generator.ofDialect .typed l₂).generate (.tsModuleDeclaration m₂) = .ok text₂ →
      text₁ ≠ text₂ := by
  refine ⟨fun s => ⟨spells_escape s, read?_escape s,
    fun before after => (spells_escape s).odd_backslashes, (spells_escape s).even_backslashes,
    fun c hc => ?_⟩, escape_injective, ?_⟩
  · have hprinted := isPrinted_of_mem_literal hc
    obtain ⟨hfeed, hreturn, hline, hparagraph⟩ := hprinted.ne_lineTerminator
    exact ⟨hfeed, hreturn, hline, hparagraph, hprinted.1⟩
  · rintro l₁ l₂ m₁ m₂ name₁ name₂ text₁ text₂ hname₁ hname₂ hne h₁ h₂ rfl
    exact hne (Generator.ambientName?_eq_of_generate_eq hname₁ hname₂ h₁ h₂)

/-- Digits after a four-digit escape are not taken for more of it, and a backslash that is part of a
name is not taken for one that escapes. -/
theorem Text.escape_faithful_backslash :
    let s := "\x011f\\\"\u2028"
    let m₁ : ModuleDeclaration := { id := .literal { value := .string "A" }, body := none }
    let m₂ : ModuleDeclaration :=
      { id := .literal { value := .string "\\u0041" }, body := none, declare := true }
    escape s = "\\u00011f\\\\\\\"\\u2028" ∧
      read? ("\"" ++ escape s ++ "\"" ++ ".length") = some (s, ".length") ∧
      Odd (backslashes "\\u00011f\\\\\\".toList) ∧
      (Generator.ofDialect .typed {}).generate (.tsModuleDeclaration m₁) = .ok "module \"A\";" ∧
      (Generator.ofDialect .typed {}).generate (.tsModuleDeclaration m₂)
        = .ok "declare module \"\\\\u0041\";" ∧
      "module \"A\";" ≠ "declare module \"\\\\u0041\";" := by
  intro s m₁ m₂
  obtain ⟨-, hread, hodd, -⟩ := escape_faithful.1 s
  have htext₁ : (Generator.ofDialect .typed {}).generate (.tsModuleDeclaration m₁)
      = .ok "module \"A\";" :=
    (Generator.generate_ambient_of_body_eq_none rfl rfl).trans (congrArg Except.ok (by decide))
  have htext₂ : (Generator.ofDialect .typed {}).generate (.tsModuleDeclaration m₂)
      = .ok "declare module \"\\\\u0041\";" :=
    (Generator.generate_ambient_of_body_eq_none rfl rfl).trans (congrArg Except.ok (by decide))
  have hs : escape s = "\\u00011f\\\\\\\"\\u2028" := by decide
  have hquote : Odd (backslashes "\\u00011f\\\\\\".toList) :=
    hodd "\\u00011f\\\\\\".toList "\\u2028".toList (by decide)
  refine ⟨hs, hread ".length", hquote, htext₁, htext₂, ?_⟩
  exact escape_faithful.2.2 {} {} m₁ m₂ "A" "\\u0041" _ _ rfl rfl (by decide) htext₁ htext₂

end Estree
