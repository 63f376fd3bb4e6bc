import Mathlib.Data.List.SplitBy
import Estree.Proofs.Expression.Lexing

/-!
# Words of a text

A coarser cut than that of the lexer: a text is cut into words, that is runs of characters of names,
and into single other characters, and blanks are left out (`tokens`). It is a function of the text,
so what it gives needs no proof of uniqueness, and it goes through line ends and the quotes of
templates, which the lexer does not. Two texts side by side are cut one by one unless a word goes on
from the first into the second (`tokens_append`); a text that ends in no word is cut the same
whatever follows (`cuts_tokens`).

Statements, instantiations and comparisons are read from these tokens. What stands between the parts
of their texts is a text that ends in no word (`Introduces`), or that does not begin with one either
(`Divides`).

Main results:

* `tokens_append`: texts side by side are cut one by one.
* `cuts_tokens`: a text that ends in no word is cut the same whatever follows.
-/

namespace Estree.Expression.Words

/-! ## §1. The tokens of a text. -/

/-- Whether two characters side by side belong to one word. -/
def joins (a b : Char) : Bool := isNamePart a && isNamePart b

/-- Whether a character only keeps tokens apart. -/
def isBlank (c : Char) : Bool := [' ', '\t', '\n', '\r'].contains c

/-- The words of a text and its other characters, without the blanks. -/
def tokens (cs : List Char) : List Token :=
  ((cs.splitBy joins).filter fun run => !run.all isBlank).map String.ofList

/-- A blank is no part of a word. -/
theorem isNamePart_of_isBlank {c : Char} (h : isBlank c = true) : isNamePart c = false := by
  have hall : [' ', '\t', '\n', '\r'].all (fun c => !isNamePart c) = true := by decide
  have hc := List.all_eq_true.mp hall c (by simpa [isBlank] using h)
  simpa using hc

/-- Two texts are cut one by one unless a word goes on from the first into the second. -/
theorem tokens_append {cs ds : List Char}
    (h : ∀ a ∈ cs.getLast?, ∀ b ∈ ds.head?, joins a b = false) :
    tokens (cs ++ ds) = tokens cs ++ tokens ds := by
  rw [tokens, List.splitBy_append h, List.filter_append, List.map_append]
  rfl

/-- A word is one token. -/
theorem tokens_word {x : String} (hx : isWord x = true) : tokens x.toList = [x] := by
  obtain ⟨c, cs, hcs, hc, hall⟩ := head_of_isWord hx
  have hparts : ∀ a ∈ x.toList, isNamePart a = true := by
    rw [hcs]
    exact List.forall_mem_cons.mpr ⟨by simp [isNamePart, hc], hall⟩
  have hchain : x.toList.IsChain fun a b => joins a b = true := by
    refine List.Pairwise.isChain (List.pairwise_of_forall_mem_list fun a ha b hb => ?_)
    rw [joins, hparts a ha, hparts b hb]
    rfl
  have hsolid : x.toList.all isBlank = false := by
    rw [Bool.eq_false_iff]
    intro hblank
    have hpart := hparts c (by simp [hcs])
    rw [isNamePart_of_isBlank (List.all_eq_true.mp hblank c (by simp [hcs]))] at hpart
    cases hpart
  rw [tokens, List.splitBy_of_isChain (by simp [hcs]) hchain]
  simp [hsolid]

/-- A word is a token before anything that goes on with no word. -/
theorem tokens_word_append {x : String} (hx : isWord x = true) {rest : List Char}
    (hr : ∀ c ∈ rest.head?, isNamePart c = false) : tokens (x.toList ++ rest) =
      x :: tokens rest := by
  rw [tokens_append, tokens_word hx]
  · rfl
  · intro a _ b hb
    rw [joins, hr b hb, Bool.and_false]

/-- The characters are the tokens, whatever text follows. -/
def Cuts (cs : List Char) (ts : List Token) : Prop :=
  ∀ rest, tokens (cs ++ rest) = ts ++ tokens rest

theorem Cuts.append {cs ds : List Char} {ts us : List Token} (h : Cuts cs ts) (h' : Cuts ds us) :
    Cuts (cs ++ ds) (ts ++ us) := by
  intro rest
  rw [List.append_assoc, h, h', List.append_assoc]

/-- No word goes over from a text that does not end in one. -/
theorem cuts_tokens {cs : List Char} (h : cs.getLast?.any isNamePart = false) :
    Cuts cs (tokens cs) := by
  refine fun rest => tokens_append fun a ha b _ => ?_
  rw [Option.mem_def.mp ha, Option.any_some] at h
  rw [joins, h, Bool.false_and]

theorem cuts_blanks {cs : List Char} (h : cs.all isBlank = true) : Cuts cs [] := by
  induction cs with
  | nil => exact fun _ => rfl
  | cons c cs ih =>
    obtain ⟨hc, hcs⟩ := Bool.and_eq_true_iff.mp h
    have hone : Cuts [c] [] := by
      have hempty : tokens [c] = [] := by simp [tokens, List.splitBy, List.splitBy.loop, hc]
      rw [← hempty]
      exact cuts_tokens (by simpa using isNamePart_of_isBlank hc)
    exact hone.append (ih hcs)

/-! ## §2. Texts that keep words apart. -/

/-- The text is the tokens, and does not end in a word. -/
def Introduces (g : String) (ts : List Token) : Prop :=
  tokens g.toList = ts ∧ g.toList.getLast?.any isNamePart = false

/-- The text is the tokens, and neither begins nor ends with a word. -/
def Divides (g : String) (ts : List Token) : Prop :=
  Introduces g ts ∧ g.toList.head?.any (!isNamePart ·)

instance (g : String) (ts : List Token) : Decidable (Introduces g ts) :=
  inferInstanceAs (Decidable (_ ∧ _))

instance (g : String) (ts : List Token) : Decidable (Divides g ts) :=
  inferInstanceAs (Decidable (_ ∧ _))

/-- A text that keeps words apart begins with no character of a name. -/
theorem Divides.head {g : String} {ts : List Token} (h : Divides g ts) (rest : List Char) :
    ∀ c ∈ (g.toList ++ rest).head?, isNamePart c = false := by
  have hhead := h.2
  cases hg : g.toList with
  | nil => simp [hg] at hhead
  | cons c cs =>
    rintro _ ⟨⟩
    simpa [hg] using hhead

end Estree.Expression.Words
