import Estree.Proofs.Expression.Spelling
import Estree.Proofs.TypeSyntax.Grammar

/-!
# Tokens of types

A type is cut into words, single punctuators and the arrow `=>`. Unlike in an expression, two angle
brackets are never one token, so nested type arguments may close side by side. `tokens` computes the
cut from left to right, and `Spells d ts` says that the text of a document is the tokens `ts`
whenever the text that follows does not begin with a character of a name. The texts between the
parts of a type all keep words apart (`Divides`), so that parts can be put together without looking
into them.

Main results:

  * `scan_append`: two texts are cut one by one, unless a name goes over from one to the other;
  * `Spells.divided`, `Spells.append`, `Spells.enclosed`: how parts are put together.
-/

namespace Estree.TypeSyntax

open Expression (isNamePart isNameStart isWord)

/-! ## §1. The tokens of a text. -/

/-- The punctuators of one character. -/
def punctuators : List Char := ['(', ')', '[', ']', '<', '>', ',', '|', '&', '?', ':']

/-- The word that has been read, if any. -/
def pending (word : List Char) : List Token := if word.isEmpty then [] else [String.ofList word]

/-- The tokens of a text that comes after the characters of a word. -/
def scan (word : List Char) : List Char → Option (List Token)
  | [] => some (pending word)
  | '=' :: '>' :: cs => (scan [] cs).map fun ts => pending word ++ "=>" :: ts
  | c :: cs =>
    if isNamePart c then scan (word ++ [c]) cs
    else if c = ' ' then (scan [] cs).map fun ts => pending word ++ ts
    else if punctuators.contains c then
      (scan [] cs).map fun ts => pending word ++ String.singleton c :: ts
    else none

/-- The tokens of a text; a text with other characters has none. -/
def tokens (text : String) : Option (List Token) := scan [] text.toList

/-- What becomes of a character that begins no arrow. -/
theorem scan_cons {c : Char} (hc : c ≠ '=') (word cs : List Char) :
    scan word (c :: cs) =
      if isNamePart c then scan (word ++ [c]) cs
      else if c = ' ' then (scan [] cs).map fun ts => pending word ++ ts
      else if punctuators.contains c then
        (scan [] cs).map fun ts => pending word ++ String.singleton c :: ts
      else none := by
  rw [scan]
  exact fun _ h => absurd h hc

/-- The text begins with no character of a name. -/
def Ends (cs : List Char) : Prop := cs.head?.any isNamePart = false

/-- A word ends where no character of a name comes. -/
theorem scan_of_ends {rest : List Char} (h : Ends rest) (word : List Char) :
    scan word rest = (scan [] rest).map (pending word ++ ·) := by
  unfold scan
  split
  · simp [pending]
  · simp [pending, Function.comp_def]
  · next c cs hne =>
    have hc : isNamePart c = false := by simpa [Ends] using h
    simp only [hc, Bool.false_eq_true, if_false]
    split
    · simp [pending]
    · split
      · simp [pending, Function.comp_def]
      · rfl

/-- The last character of a text is that of its end. -/
theorem any_getLast?_of_append_cons {l cs : List Char} {c : Char} {p : Char → Bool}
    (h : (l ++ c :: cs).getLast?.any p = false) : cs.getLast?.any p = false := by
  rw [List.getLast?_append, List.getLast?_cons] at h
  cases hl : cs.getLast? with
  | none => rfl
  | some d => simpa [hl] using h

/-- **The tokens of two texts** are those of the one and those of the other, unless a name goes over
from the one to the other. -/
theorem scan_append {word cs ds : List Char} {ts us : List Token} (hts : scan word cs = some ts)
    (hus : scan [] ds = some us) (hword : word.all isNamePart)
    (h : Ends ds ∨ (word ++ cs).getLast?.any isNamePart = false) :
    scan word (cs ++ ds) = some (ts ++ us) := by
  fun_induction scan word cs generalizing ts with
  | case1 word =>
    cases hts
    rw [List.append_nil] at h
    rcases h with h | h
    · rw [List.nil_append, scan_of_ends h, hus]
      rfl
    · -- the word has no last character
      obtain rfl : word = [] := by
        cases hl : word.getLast? with
        | none => exact List.getLast?_eq_none_iff.mp hl
        | some c =>
          have hc := List.all_eq_true.mp hword c (List.mem_of_getLast? hl)
          simp [hl, hc] at h
      exact hus
  -- an arrow ends the word, if there was one
  | case2 word cs ih =>
    obtain ⟨vs, hvs, rfl⟩ := Option.map_eq_some_iff.mp hts
    have hlast := h.imp_right fun h =>
      any_getLast?_of_append_cons (l := []) (any_getLast?_of_append_cons h)
    simp [scan, ih hvs rfl hlast]
  -- the word goes on
  | case3 word c cs _ hc ih =>
    have hne : c ≠ '=' := by
      rintro rfl
      exact absurd hc (by decide)
    rw [List.cons_append, scan_cons hne, if_pos hc]
    exact ih hts (by simp [hword, hc]) (by simpa using h)
  -- a blank ends it
  | case4 word cs _ hc ih =>
    obtain ⟨vs, hvs, rfl⟩ := Option.map_eq_some_iff.mp hts
    simp [scan, ih hvs rfl (h.imp_right any_getLast?_of_append_cons), hc]
  -- so does a punctuator
  | case5 word c cs _ hc hspace hp ih =>
    obtain ⟨vs, hvs, rfl⟩ := Option.map_eq_some_iff.mp hts
    have hne : c ≠ '=' := by
      rintro rfl
      exact absurd hp (by decide)
    rw [List.cons_append, scan_cons hne, if_neg hc, if_neg hspace, if_pos hp,
      ih hvs rfl (h.imp_right any_getLast?_of_append_cons)]
    simp
  | case6 => cases hts

/-- A text of nothing but characters of a name is one word. -/
theorem scan_eq_pending {cs : List Char} (hcs : ∀ c ∈ cs, isNamePart c = true) (word : List Char) :
    scan word cs = some (pending (word ++ cs)) := by
  induction cs generalizing word with
  | nil => simp [scan]
  | cons c cs ih =>
    obtain ⟨hc, hcs⟩ := List.forall_mem_cons.mp hcs
    have hne : c ≠ '=' := by
      rintro rfl
      exact absurd hc (by decide)
    rw [scan_cons hne, if_pos hc, ih hcs, List.append_assoc]
    rfl

/-! ## §2. Documents. -/

/-- The text of the document is the tokens. -/
def Spells (d : Doc) (ts : List Token) : Prop := ∃ cs, d.line? = some cs ∧ scan [] cs = some ts

/-- The text is the tokens, and no name goes over from it to what follows. -/
def Introduces (g : String) (gs : List Token) : Prop :=
  scan [] g.toList = some gs ∧ g.toList.getLast?.any isNamePart = false

/-- The text is the tokens, and no name goes over to it from what comes before. -/
def Divides (g : String) (gs : List Token) : Prop :=
  Introduces g gs ∧ g.toList.head?.any (!isNamePart ·)

instance (g : String) (gs : List Token) : Decidable (Introduces g gs) :=
  inferInstanceAs (Decidable (_ ∧ _))

instance (g : String) (gs : List Token) : Decidable (Divides g gs) :=
  inferInstanceAs (Decidable (_ ∧ _))

/-- The text of the document begins with a character that is not of a name. -/
def Breaks (d : Doc) : Prop := ∀ cs, d.line? = some cs → cs.head?.any (!isNamePart ·)

/-- A text breaks by its first character. -/
theorem breaks_text {g : String} (h : g.toList.head?.any (!isNamePart ·)) : Breaks (.text g) := by
  intro cs hcs
  cases hcs
  exact h

/-- What follows does not matter. -/
theorem Breaks.append {d : Doc} (h : Breaks d) (e : Doc) : Breaks (d ++ e) := by
  intro cs hcs
  obtain ⟨as, has, hcs⟩ := Option.bind_eq_some_iff.mp hcs
  obtain ⟨bs, -, rfl⟩ := Option.map_eq_some_iff.mp hcs
  have ha := h as has
  cases as with
  | nil => simp at ha
  | cons c as => exact ha

namespace Spells

variable {d e : Doc} {g : String} {ts us gs : List Token} {t : Token}

/-- Documents with the same text spell the same. -/
theorem of_line?_eq (h : Spells d ts) (he : e.line? = d.line?) : Spells e ts := by
  obtain ⟨cs, hd, hcs⟩ := h
  exact ⟨cs, he.trans hd, hcs⟩

theorem nil : Spells .nil [] := ⟨[], rfl, rfl⟩

theorem word (ht : isWord t = true) : Spells (.text t) [t] := by
  refine ⟨t.toList, rfl, ?_⟩
  obtain ⟨c, cs, hcs, hc, hall⟩ := Expression.head_of_isWord ht
  have hparts : ∀ d ∈ t.toList, isNamePart d = true := by
    rw [hcs]
    exact List.forall_mem_cons.mpr ⟨by simp [isNamePart, hc], hall⟩
  rw [scan_eq_pending hparts, List.nil_append, pending, hcs, if_neg (by simp), ← hcs,
    String.ofList_toList]

/-- A document after a text that ends in no name. -/
theorem introduced (hg : Introduces g gs) (h : Spells e us) : Spells (.text g ++ e) (gs ++ us) := by
  obtain ⟨cs, he, hcs⟩ := h
  exact ⟨g.toList ++ cs, by simp [he], scan_append hg.1 hcs rfl (.inr hg.2)⟩

/-- A document may stand right after another if it begins with no character of a name. -/
theorem append (h : Spells d ts) (h' : Spells e us) (he : Breaks e) :
    Spells (d ++ e) (ts ++ us) := by
  obtain ⟨cs, hd, hcs⟩ := h
  obtain ⟨ds, hline, hds⟩ := h'
  have hends : Ends ds := by
    have hhead := he ds hline
    cases ds with
    | nil => rfl
    | cons c ds => simpa [Ends] using hhead
  exact ⟨cs ++ ds, by simp [hd, hline], scan_append hcs hds rfl (.inl hends)⟩

/-- Two documents with a text between them that keeps names apart. -/
theorem divided (h : Spells d ts) (hg : Divides g gs) (h' : Spells e us) :
    Spells (d ++ .text g ++ e) (ts ++ (gs ++ us)) := by
  have hright : Spells (.text g ++ e) (gs ++ us) := h'.introduced hg.1
  refine (h.append hright ((breaks_text hg.2).append e)).of_line?_eq ?_
  obtain ⟨cs, hd, -⟩ := h
  simp [hd, Function.comp_def]

/-- A document before such a text. -/
theorem followed (h : Spells d ts) (hg : Divides g gs) : Spells (d ++ .text g) (ts ++ gs) := by
  have hnil := (h.divided hg .nil).of_line?_eq (e := d ++ .text g) (by simp)
  rwa [List.append_nil] at hnil

/-- A document between two such texts. -/
theorem enclosed {o c : Token} (ho : Introduces o [o]) (hc : Divides c [c]) (h : Spells d ts) :
    Spells (.text o ++ d ++ .text c) (o :: (ts ++ [c])) :=
  (h.introduced ho).followed hc

end Spells

end Estree.TypeSyntax
