/-!
# Tokens of expressions

A text is cut into tokens by longest match: at every place the longest element that stands there is
the next one. A token is its own text. Line ends, comments and literals have no place here: a text
with any of them is not cut at all (`Lexes`). The cut of a text is unique (`Lexes.unique`), and a
token may be put before a text whenever the first character of the text cannot continue the token
(`Lexes.cons`).

Main results:

* `length_le_of_not_continues`: longest match.
* `Lexes.unique`: a text is cut in one way only.
* `Lexes.cons`: a token before a text that does not continue it.
-/

namespace Estree.Expression

/-- A token is its text. -/
abbrev Token := String

/-! ## §1. The elements of a text. -/

/-- Whether a name may begin with a character. -/
def isNameStart (c : Char) : Bool := c.isAlpha || c == '_' || c == '$'

/-- Whether a character may stand in a name. -/
def isNamePart (c : Char) : Bool := isNameStart c || c.isDigit

/-- Whether a text is a name or a keyword. -/
def isWord (t : Token) : Bool :=
  match t.toList with
  | [] => false
  | c :: cs => isNameStart c && cs.all isNamePart

/-- The punctuators of ECMAScript. -/
def punctuators : List Token :=
  ["\x7b", "\x7d", "(", ")", "[", "]", ".", "...", ";", ",", "<", ">", "<=", ">=", "==", "!=",
    "===", "!==", "+", "-", "*", "/", "%", "**", "++", "--", "<<", ">>", ">>>", "&", "|", "^", "!",
    "~", "&&", "||", "??", "?", "?.", ":", "=", "+=", "-=", "*=", "/=", "%=", "**=", "<<=", ">>=",
    ">>>=", "&=", "|=", "^=", "&&=", "||=", "??=", "=>"]

/-- What begins a comment. -/
def commentStarts : List Token := ["//", "/*"]

/-- The text is a word or a punctuator. -/
def IsToken (t : Token) : Prop := isWord t = true ∨ t ∈ punctuators

/-- The text is a token or begins a comment. -/
def IsElement (t : Token) : Prop := isWord t = true ∨ t ∈ punctuators ++ commentStarts

/-- `Lexes cs ts`: the characters `cs` are the tokens `ts`, with spaces between some of them. -/
inductive Lexes : List Char → List Token → Prop where
  | done : Lexes [] []
  | space {cs : List Char} {ts : List Token} : Lexes cs ts → Lexes (' ' :: cs) ts
  /-- No element that stands in the same place is longer. -/
  | token {t : Token} {cs : List Char} {ts : List Token} : IsToken t →
      (∀ u, IsElement u → u.toList <+: t.toList ++ cs → u.toList.length ≤ t.toList.length) →
      Lexes cs ts → Lexes (t.toList ++ cs) (t :: ts)

/-! ## §2. What can continue a token. -/

/-- The characters that can stand after a punctuator in a longer element. -/
def continuations (t : Token) : List Char :=
  (punctuators ++ commentStarts).filterMap fun p =>
    if t.toList.isPrefixOf p.toList then p.toList[t.toList.length]? else none

/-- Whether a character right after a token would be read as part of a longer one. -/
def continues (t : Token) (c : Char) : Bool :=
  if isWord t then isNamePart c else (continuations t).contains c

/-- No character of a punctuator stands in a name. -/
theorem isNamePart_eq_false {p : Token} (hp : p ∈ punctuators ++ commentStarts) {c : Char}
    (hc : c ∈ p.toList) : isNamePart c = false := by
  have hall : ((punctuators ++ commentStarts).all fun p =>
      p.toList.all fun c => !isNamePart c) = true := by decide
  simpa using List.all_eq_true.mp (List.all_eq_true.mp hall p hp) c hc

/-- No name starts with a character of a punctuator. -/
theorem isNameStart_eq_false {p : Token} (hp : p ∈ punctuators ++ commentStarts) {c : Char}
    (hc : c ∈ p.toList) : isNameStart c = false :=
  (Bool.or_eq_false_iff.mp (isNamePart_eq_false hp hc)).1

/-- A word is a first character and others that may follow it. -/
theorem head_of_isWord {t : Token} (ht : isWord t = true) :
    ∃ c cs, t.toList = c :: cs ∧ isNameStart c = true ∧ ∀ d ∈ cs, isNamePart d = true := by
  unfold isWord at ht
  split at ht
  · cases ht
  next c cs heq => exact ⟨c, cs, heq, by simpa using ht⟩

/-- A token is not empty. -/
theorem toList_ne_nil {t : Token} (ht : IsToken t) : t.toList ≠ [] := by
  rcases ht with ht | ht
  · obtain ⟨c, cs, h, -⟩ := head_of_isWord ht
    simp [h]
  · revert t
    decide

/-- An element that continues a word is a word. -/
theorem isWord_of_continues {t u : Token} {c : Char} {v : List Char} (ht : isWord t = true)
    (hu : IsElement u) (h : u.toList = t.toList ++ c :: v) : isNamePart c = true := by
  obtain ⟨a, as, hta, ha, -⟩ := head_of_isWord ht
  rcases hu with hu | hu
  · obtain ⟨b, bs, hub, -, hbs⟩ := head_of_isWord hu
    refine hbs c ?_
    rw [hub, hta, List.cons_append] at h
    rw [(List.cons.inj h).2]
    simp
  · have hstart : isNameStart a = false := isNameStart_eq_false hu (by simp [h, hta])
    exact nomatch ha.symm.trans hstart

/-- An element that continues a punctuator goes on with one of its continuations. -/
theorem mem_continuations {t u : Token} {c : Char} {v : List Char} (ht : t ∈ punctuators)
    (hu : IsElement u) (h : u.toList = t.toList ++ c :: v) : c ∈ continuations t := by
  rcases hu with hu | hu
  · obtain ⟨b, bs, hub, hb, -⟩ := head_of_isWord hu
    obtain ⟨a, as, hta⟩ := List.exists_cons_of_ne_nil (toList_ne_nil (.inr ht))
    have hab : a = b := by
      rw [hub, hta] at h
      exact (List.cons.inj h).1.symm
    have hstart : isNameStart a = false :=
      isNameStart_eq_false (List.mem_append_left _ ht) (by simp [hta])
    rw [hab, hb] at hstart
    cases hstart
  · refine List.mem_filterMap.mpr ⟨u, hu, ?_⟩
    simp [h]

/-- What continues a punctuator stands in a punctuator or begins a comment. -/
theorem exists_of_mem_continuations {t : Token} {c : Char} (h : c ∈ continuations t) :
    ∃ p ∈ punctuators ++ commentStarts, c ∈ p.toList := by
  obtain ⟨p, hp, hget⟩ := List.mem_filterMap.mp h
  split at hget
  · exact ⟨p, hp, List.mem_of_getElem? hget⟩
  · cases hget

/-- A character that is in no punctuator continues none. -/
theorem not_continues {t : Token} {c : Char} (ht : isWord t = false)
    (h : ∀ p ∈ punctuators ++ commentStarts, c ∉ p.toList) : continues t c = false := by
  rw [continues, ht]
  simp only [Bool.false_eq_true, if_false, List.contains_eq_mem, decide_eq_false_iff_not]
  intro hmem
  obtain ⟨p, hp, hc⟩ := exists_of_mem_continuations hmem
  exact h p hp hc

/-- No punctuator goes on with the beginning of a name. -/
theorem not_continues_of_nameStart {t : Token} {c : Char} (ht : isWord t = false)
    (hc : isNameStart c = true) : continues t c = false := by
  refine not_continues ht fun p hp hmem => ?_
  rw [isNameStart_eq_false hp hmem] at hc
  cases hc

/-- **Longest match.** No element is longer than a token that the rest of the text does not
continue. -/
theorem length_le_of_not_continues {t u : Token} {cs : List Char} (ht : IsToken t)
    (hc : ∀ c ∈ cs.head?, continues t c = false) (hu : IsElement u)
    (hp : u.toList <+: t.toList ++ cs) : u.toList.length ≤ t.toList.length := by
  refine Decidable.byContradiction fun hlt => ?_
  obtain ⟨v, hv⟩ := List.prefix_of_prefix_length_le (List.prefix_append _ _) hp (by omega)
  -- `v` is what the element has beyond the token, so its first character is the next of the text
  cases v with
  | nil =>
    rw [← hv] at hlt
    simp at hlt
  | cons c v =>
    obtain ⟨w, hw⟩ := hp
    have hcs : cs.head? = some c := by
      rw [← hv, List.append_assoc] at hw
      rw [← List.append_cancel_left hw]
      rfl
    have hcont := hc c hcs
    unfold continues at hcont
    rcases ht with ht | ht
    · rw [if_pos ht, isWord_of_continues ht hu hv.symm] at hcont
      cases hcont
    · split at hcont
      next hw => rw [isWord_of_continues hw hu hv.symm] at hcont; cases hcont
      next => simp [mem_continuations ht hu hv.symm] at hcont

/-- Punctuators that are no part of a longer element. -/
def solidTokens : List Token := ["(", ")", "[", "]", ",", "~", "++", "--"]

/-- Solid tokens are tokens. -/
theorem isToken_of_solid {t : Token} (ht : t ∈ solidTokens) : IsToken t := by
  refine .inr ?_
  revert t
  decide

theorem continues_of_solid {t : Token} (ht : t ∈ solidTokens) (c : Char) :
    continues t c = false := by
  have h : isWord t = false ∧ continuations t = [] := by
    revert t
    decide
  simp [continues, h]

namespace Lexes

/-! ## §3. Cutting a text. -/

/-- A token may be put before a text that does not continue it. -/
theorem cons {t : Token} {cs : List Char} {ts : List Token} (ht : IsToken t)
    (hc : ∀ c ∈ cs.head?, continues t c = false) (h : Lexes cs ts) :
    Lexes (t.toList ++ cs) (t :: ts) :=
  .token ht (fun _ hu hp => length_le_of_not_continues ht hc hu hp) h

/-- A space continues nothing. -/
theorem spaced {t : Token} {cs : List Char} {ts : List Token} (ht : IsToken t) (h : Lexes cs ts) :
    Lexes (t.toList ++ ' ' :: cs) (t :: ts) := by
  have hspace : ∀ p ∈ punctuators ++ commentStarts, ' ' ∉ p.toList := by decide
  refine cons ht ?_ (.space h)
  rintro c ⟨⟩
  cases hw : isWord t with
  | true =>
    rw [continues, hw]
    rfl
  | false => exact not_continues hw hspace

/-- So they may stand before anything. -/
theorem solid {t : Token} {cs : List Char} {ts : List Token} (ht : t ∈ solidTokens)
    (h : Lexes cs ts) : Lexes (t.toList ++ cs) (t :: ts) :=
  cons (isToken_of_solid ht) (fun c _ => continues_of_solid ht c) h

/-- No token starts with a blank. -/
theorem head_ne_space {t : Token} (ht : IsToken t) : t.toList.head? ≠ some ' ' := by
  rcases ht with ht | ht
  · obtain ⟨c, cs, h, hc, -⟩ := head_of_isWord ht
    rw [h]
    rintro ⟨⟩
    cases hc
  · revert t
    decide

/-- **A text is cut in one way only.** -/
theorem unique {cs : List Char} {ts us : List Token} (h : Lexes cs ts) (h' : Lexes cs us) :
    ts = us := by
  -- a token and a space do not begin the same text
  have hspace : ∀ {t : Token} {as bs : List Char}, IsToken t → t.toList ++ as ≠ ' ' :: bs := by
    intro t as bs ht heq
    obtain ⟨c, cs, hc⟩ := List.exists_cons_of_ne_nil (toList_ne_nil ht)
    rw [hc, List.cons_append] at heq
    exact head_ne_space ht (by rw [hc, (List.cons.inj heq).1]; rfl)
  induction h generalizing us with
  | done =>
    generalize hcs : ([] : List Char) = cs at h'
    cases h' with
    | done => rfl
    | space => cases hcs
    | token ht => exact absurd (List.append_eq_nil_iff.mp hcs.symm).1 (toList_ne_nil ht)
  | @space cs ts h ih =>
    generalize hcs : ' ' :: cs = cs' at h'
    cases h' with
    | done => cases hcs
    | space h' =>
      cases hcs
      exact ih h'
    | token ht => exact absurd hcs.symm (hspace ht)
  | @token t cs ts ht hl h ih =>
    generalize hcs : t.toList ++ cs = cs' at h'
    cases h' with
    | done => exact absurd (List.append_eq_nil_iff.mp hcs).1 (toList_ne_nil ht)
    | space => exact absurd hcs (hspace ht)
    | @token u _ _ hu hl' h' =>
      -- each is no longer than the other
      have htu := hl' t (ht.imp_right (List.mem_append_left _)) ⟨cs, hcs⟩
      have hut := hl u (hu.imp_right (List.mem_append_left _)) ⟨_, hcs.symm⟩
      obtain ⟨heq, rfl⟩ := List.append_inj hcs (Nat.le_antisymm htu hut)
      rw [String.toList_inj.mp heq, ih h']

end Lexes

end Estree.Expression
