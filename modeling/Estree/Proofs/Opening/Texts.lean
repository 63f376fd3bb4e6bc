import Estree.Json.Compact
import Estree.Proofs.Expression.Grammar
import Estree.Proofs.Writing

/-!
# What a text begins with

An opener is a text that something must not begin with, such as the brace that would be read as the
start of a block. Whether a text is clear of openers is settled by its first token: either this is a
text of its own that has nothing in common with any opener (`leads`), or it is a name, and then no
letter comes after it (`Clear.append`). `Doc.Says` carries what is known about a text to the
document that it is written from, in every layout and at every level.

Main results:

* `Clear.append`: where no letter follows, no opener comes up.
* `Doc.Says`: what is known about the text of a document.
-/

namespace Estree.Opening

/-! ## §1. Openers. -/

/-- Whether neither of two texts begins with the other. -/
def apart (a b : String) : Bool :=
  !a.toList.isPrefixOf b.toList && !b.toList.isPrefixOf a.toList

/-- The texts with which expressions begin that do not begin with a name or with an operand. -/
def leads : List String :=
  ["this", "super", "yield", "await ", "new ", "import(", "null", "true", "false", "(", "[", "<",
    "/", "#", "`", "\"", "-"] ++ Expression.unaryOperators ++ Expression.updateOperators

/-- Whether a text can be told from a number, from the leads, and from a name that no letter
follows. -/
def isOpener (o : String) : Bool :=
  o.toList.head?.any (!·.isDigit) && o.toList.tail.all Char.isAlpha && leads.all (apart o)

/-- Texts that something must not begin with. -/
structure Openers where
  texts : List String
  regular : texts.all isOpener = true

/-- What begins a block. -/
def Openers.block : Openers := ⟨["\x7b"], by decide⟩

/-- What begins a block or a declaration. -/
def Openers.statement : Openers := ⟨["\x7b", "function", "async", "class", "@"], by decide⟩

/-- Whether every opener is a single character. -/
def Openers.single (os : Openers) : Bool := os.texts.all (·.toList.tail.isEmpty)

/-- No opener begins the text. -/
def Clear (os : Openers) (cs : List Char) : Prop := ∀ o ∈ os.texts, ¬ o.toList <+: cs

/-- A text that can stand for a name: it is not empty and clear of openers. -/
def Starts (os : Openers) (x : String) : Prop := x.toList ≠ [] ∧ Clear os x.toList

variable {os : Openers} {cs ds : List Char} {x : String}

/-- The openers that are looked for are openers. -/
theorem Openers.isOpener_of_mem (os : Openers) {o : String} (ho : o ∈ os.texts) :
    isOpener o = true :=
  List.all_eq_true.mp os.regular o ho

/-- A text that begins with a text apart from the openers is clear of them. -/
theorem clear_of_apart (h : os.texts.all (apart · x) = true) (hx : x.toList <+: cs) :
    Clear os cs := by
  intro o ho hp
  have hapart := List.all_eq_true.mp h o ho
  unfold apart at hapart
  rcases List.prefix_or_prefix_of_prefix hp hx with hpre | hpre
  · simp [List.isPrefixOf_iff_prefix.mpr hpre] at hapart
  · simp [List.isPrefixOf_iff_prefix.mpr hpre] at hapart

/-- No opener is confused with the start of a fixed text. -/
theorem all_apart_of_lead (h : x ∈ leads) : os.texts.all (apart · x) = true := by
  refine List.all_eq_true.mpr fun o ho => ?_
  have hregular := os.isOpener_of_mem ho
  simp only [isOpener, Bool.and_eq_true] at hregular
  exact List.all_eq_true.mp hregular.2 x h

/-- What begins with such a text begins with no opener. -/
theorem clear_of_lead (h : x ∈ leads) (hx : x.toList <+: cs) : Clear os cs :=
  clear_of_apart (all_apart_of_lead h) hx

/-- What begins with a digit begins with no opener. -/
theorem clear_of_digit {c : Char} (hc : c.isDigit = true) : Clear os (c :: cs) := by
  intro o ho hp
  have hregular := os.isOpener_of_mem ho
  simp only [isOpener, Bool.and_eq_true] at hregular
  cases hs : o.toList with
  | nil => simp [hs] at hregular
  | cons b bs =>
    rw [hs, List.cons_prefix_cons] at hp
    simp [hs, hp.1, hc] at hregular

/-- **No letter, no opener**: what follows a clear text with another character than a letter does
not make it begin with an opener. -/
theorem Clear.append (h : Clear os cs) (hne : cs ≠ []) (hd : ∀ c ∈ ds.head?, c.isAlpha = false) :
    Clear os (cs ++ ds) := by
  intro o ho hp
  have hregular := os.isOpener_of_mem ho
  simp only [isOpener, Bool.and_eq_true] at hregular
  rcases List.prefix_or_prefix_of_prefix hp (List.prefix_append cs ds) with hpre | ⟨v, hv⟩
  · exact h o ho hpre
  · cases v with
    | nil => exact h o ho ⟨[], by simpa using hv.symm⟩
    | cons b v =>
      -- the opener would go on with the first character of `ds`
      have hb : ds.head? = some b := by
        obtain ⟨w, hw⟩ := hp
        rw [← hv, List.append_assoc] at hw
        rw [← List.append_cancel_left hw]
        rfl
      obtain ⟨c, cs, rfl⟩ := List.exists_cons_of_ne_nil hne
      have hletter : b.isAlpha = true := by
        refine List.all_eq_true.mp hregular.1.2 b ?_
        rw [← hv]
        simp
      rw [hd b hb] at hletter
      cases hletter

/-- Single characters are told by the first character alone, whatever follows. -/
theorem Clear.append_of_single (hs : os.single = true) (h : Clear os cs) (hne : cs ≠ [])
    (ds : List Char) : Clear os (cs ++ ds) := by
  intro o ho hp
  obtain ⟨c, cs, rfl⟩ := List.exists_cons_of_ne_nil hne
  have htail : o.toList.tail = [] := by simpa using List.all_eq_true.mp hs o ho
  refine h o ho ?_
  cases hcs : o.toList with
  | nil => exact List.nil_prefix
  | cons b bs =>
    rw [hcs, List.cons_append, List.cons_prefix_cons] at hp
    obtain rfl : bs = [] := by simpa [hcs] using htail
    exact List.cons_prefix_cons.mpr ⟨hp.1, List.nil_prefix⟩

/-- The text begins, and not with the character. -/
def Avoids (c : Char) (cs : List Char) : Prop := cs.head?.any (· != c) = true

instance (c : Char) (cs : List Char) : Decidable (Avoids c cs) :=
  inferInstanceAs (Decidable (_ = _))

theorem Avoids.append {c : Char} (h : Avoids c cs) (ds : List Char) : Avoids c (cs ++ ds) := by
  cases cs with
  | nil => cases h
  | cons b bs => exact h

theorem Avoids.head?_ne {c : Char} (h : Avoids c cs) : cs.head? ≠ some c := by
  intro hc
  rw [Avoids, hc] at h
  simp at h

/-! ## §2. JSON scalars. -/

/-- Whether a value is neither an array nor an object. -/
def isScalar : Json → Bool
  | .array _ | .object _ => false
  | _ => true

/-- The characters begin with a digit. -/
def Numeric (cs : List Char) : Prop := cs.head?.any Char.isDigit = true

/-- More may follow a number. -/
theorem Numeric.append (h : Numeric cs) (ds : List Char) : Numeric (cs ++ ds) := by
  cases cs with
  | nil => cases h
  | cons c cs => exact h

/-- A digit is no other character. -/
theorem Numeric.avoids {c : Char} (h : Numeric cs) (hc : c.isDigit = false) : Avoids c cs := by
  cases cs with
  | nil => cases h
  | cons b bs =>
    have hdigit : b.isDigit = true := h
    refine bne_iff_ne.mpr ?_
    rintro rfl
    rw [hc] at hdigit
    cases hdigit

/-- A natural number is numeric. -/
theorem numeric_toDigits (n : Nat) : Numeric (Nat.toDigits 10 n) := by
  obtain ⟨c, cs, h⟩ := List.exists_cons_of_ne_nil (Nat.toDigits_ne_nil (b := 10) (n := n))
  rw [h]
  exact Nat.isDigit_of_mem_toDigits (b := 10) (n := n) (by decide) (by decide) (by simp [h])

/-- The first digits of a number are numeric. -/
theorem Numeric.take {k : Nat} (h : Numeric cs) : Numeric (cs.take (k + 1)) := by
  cases cs with
  | nil => cases h
  | cons c cs => exact h

/-- A number in plain notation is numeric. -/
theorem numeric_plain (d : ShortDecimal) : Numeric d.plain := by
  have hdigits : Numeric d.chars := numeric_toDigits _
  dsimp only [ShortDecimal.plain]
  split
  · rfl
  · split
    · exact (hdigits.append _).append _
    · exact (hdigits.take.append _).append _

/-- A number in scientific notation is numeric. -/
theorem numeric_scientific (d : ShortDecimal) : Numeric d.scientific := by
  have hdigits : Numeric d.chars := numeric_toDigits _
  exact ((hdigits.take.append _).append _).append _

/-- A number, with or without a sign, begins with a digit or a minus. -/
theorem starts_signed (h : Numeric cs) (negative : Prop) [Decidable negative] :
    Starts os (.ofList (if negative then '-' :: cs else cs)) := by
  rw [Starts, String.toList_ofList]
  split
  · exact ⟨List.cons_ne_nil _ _, clear_of_lead (x := "-") (by decide) ⟨cs, rfl⟩⟩
  · cases cs with
    | nil => cases h
    | cons c cs => exact ⟨List.cons_ne_nil _ _, clear_of_digit h⟩

/-- A number begins with no opener. -/
theorem starts_number (x : Number) : Starts os x.text := by
  cases x with
  | int i => exact starts_signed (numeric_toDigits i.natAbs) (i < 0)
  | float x =>
    refine starts_signed ?_ (x.negative = true)
    split
    · rfl
    · dsimp only
      split
      · exact numeric_plain _
      · exact numeric_scientific _

/-- The fixed texts are not empty. -/
theorem toList_ne_nil_of_lead (h : x ∈ leads) : x.toList ≠ [] := by
  revert x
  decide

/-- A fixed text begins with no opener. -/
theorem starts_of_lead (h : x ∈ leads) : Starts os x :=
  ⟨toList_ne_nil_of_lead h, clear_of_lead h List.prefix_rfl⟩

/-- The digits of a big integer and the letter after them. -/
theorem starts_bigint (h : Starts os x) (hx : x ++ "n" ∉ os.texts) : Starts os (x ++ "n") := by
  rw [Starts, String.toList_append]
  refine ⟨by simp [h.1], fun o ho hp => ?_⟩
  rcases List.prefix_concat_iff.mp hp with heq | hp
  · have : o = x ++ "n" := String.toList_inj.mp (by rw [heq, String.toList_append]; rfl)
    exact hx (this ▸ ho)
  · exact h.2 o ho hp

/-- A scalar begins with a digit, a quote or one of three words. -/
theorem starts_compact {v : Json} (h : isScalar v = true) : Starts os v.compact := by
  cases v with
  | null => exact starts_of_lead (x := "null") (by decide)
  | bool b =>
    cases b with
    | true => exact starts_of_lead (x := "true") (by decide)
    | false => exact starts_of_lead (x := "false") (by decide)
  | number x => exact starts_number x
  | string s =>
    rw [Json.compact, Starts, Json.quoted, String.toList_ofList]
    exact ⟨List.cons_ne_nil _ _, clear_of_lead (x := "\"") (by decide) ⟨_, rfl⟩⟩
  | array | object => cases h

/-- A value that is no number begins with a quote, a bracket or one of three words. -/
theorem avoids_compact {c : Char} (hc : c ∉ ['n', 't', 'f', '"', '[', '\x7b']) {v : Json}
    (hv : ∀ x, v ≠ .number x) : Avoids c v.compact.toList := by
  have hfirst : ∀ {b : Char} {bs : List Char}, b ∈ ['n', 't', 'f', '"', '[', '\x7b'] →
      Avoids c (b :: bs) := by
    intro b bs hb
    refine bne_iff_ne.mpr ?_
    rintro rfl
    exact hc hb
  cases v with
  | null => exact hfirst (b := 'n') (by decide)
  | bool b =>
    cases b with
    | true => exact hfirst (b := 't') (by decide)
    | false => exact hfirst (b := 'f') (by decide)
  | number x => exact absurd rfl (hv x)
  | string s =>
    rw [Json.compact, Json.quoted, String.toList_ofList]
    exact hfirst (by decide)
  | array items =>
    cases items with
    | nil => exact hfirst (b := '[') (by decide)
    | cons v rest =>
      simp only [Json.compact, String.toList_append, List.append_assoc]
      exact Avoids.append (hfirst (b := '[') (by decide)) _
  | object members =>
    cases members with
    | nil => exact hfirst (b := '\x7b') (by decide)
    | cons m rest =>
      simp only [Json.compact, String.toList_append, List.append_assoc]
      exact Avoids.append (hfirst (b := '\x7b') (by decide)) _

end Estree.Opening

/-! ## §3. Documents. -/

namespace Estree.Doc

open Opening

/-- If the document is written to its end, this holds of its text. -/
def Says (d : Doc) (P : List Char → Prop) : Prop :=
  d.halt? = none → ∀ (l : Layout) (level : Level), P (Piece.renderAll l (d.pieces level)).toList

/-- The text of the document begins with a text. -/
def LedBy (d : Doc) (x : String) : Prop := d.Says (x.toList <+: ·)

/-- The text of the document begins, and it begins with no opener. -/
def Begins (d : Doc) (os : Openers) : Prop := d.Says fun cs => cs ≠ [] ∧ Clear os cs

/-- The same holds whatever text follows. -/
def Opens (d : Doc) (os : Openers) : Prop := d.Says fun cs => cs ≠ [] ∧ ∀ ds, Clear os (cs ++ ds)

/-- The text of the document begins with no letter. -/
def Divides (d : Doc) : Prop := d.Says fun cs => ∀ c ∈ cs.head?, c.isAlpha = false

variable {a b d : Doc} {P Q R : List Char → Prop} {x : String} {os : Openers}

/-- Anything may be said of a document that stops. -/
theorem Says.of_halt {h : Halt} (hd : d.halt? = some h) : d.Says P :=
  fun hnone => nomatch hd.symm.trans hnone

/-- What is said may be weakened. -/
theorem Says.mono (h : d.Says P) (hpq : ∀ cs, P cs → Q cs) : d.Says Q :=
  fun hd l level => hpq _ (h hd l level)

/-- A text says itself. -/
theorem says_text (h : P x.toList) : (text x).Says P := by
  intro _ l level
  simpa [pieces, Piece.render] using h

/-- What is known of two texts says something about both in a row. -/
theorem Says.append (ha : a.Says P) (hb : b.Says Q) (h : ∀ cs ds, P cs → Q ds → R (cs ++ ds)) :
    (a ++ b).Says R := by
  intro hab l level
  obtain ⟨hna, hnb, htext⟩ := renderAll_pieces_append hab l level
  rw [htext, String.toList_append]
  exact h _ _ (ha hna l level) (hb hnb l (a.after level))

theorem Says.nil_append (h : d.Says P) : (nil ++ d).Says P := h

/-- What comes after a lead does not matter. -/
theorem LedBy.append (h : a.LedBy x) (b : Doc) : (a ++ b).LedBy x :=
  Says.append (Q := fun _ => True) h (fun _ _ _ => trivial)
    fun _ _ hp _ => hp.trans (List.prefix_append _ _)

/-- A text is led by its beginnings. -/
theorem ledBy_text {s : String} (h : x.toList <+: s.toList) : (text s).LedBy x := says_text h

theorem ledBy_self (x : String) : (text x).LedBy x := ledBy_text List.prefix_rfl

/-- Parentheses lead with the opening one. -/
theorem LedBy.parens (d : Doc) : d.parens.LedBy "(" := .append (.append (ledBy_self _) _) _

/-- The text of the document begins, and not with the character. -/
def Avoids (d : Doc) (c : Char) : Prop := d.Says (Opening.Avoids c)

theorem Avoids.append {c : Char} (h : a.Avoids c) (b : Doc) : (a ++ b).Avoids c :=
  Says.append (Q := fun _ => True) h (fun _ _ _ => trivial) fun _ ds hp _ => hp.append ds

theorem avoids_text {c : Char} (h : Opening.Avoids c x.toList) : (text x).Avoids c := says_text h

/-- A lead that avoids a character makes the document avoid it. -/
theorem LedBy.avoids {c : Char} (hx : Opening.Avoids c x.toList) (h : d.LedBy x) : d.Avoids c := by
  refine h.mono fun cs hp => ?_
  obtain ⟨v, rfl⟩ := hp
  exact hx.append v

/-- A document that begins with a text apart from the openers begins with none, whatever follows. -/
theorem LedBy.opens_of_apart (hne : x.toList ≠ []) (hx : os.texts.all (apart · x) = true)
    (h : d.LedBy x) : d.Opens os := by
  refine h.mono fun cs hp => ⟨?_, fun ds => clear_of_apart hx (hp.trans (List.prefix_append _ _))⟩
  rintro rfl
  exact hne (List.prefix_nil.mp hp)

/-- A text that is apart from every opener. -/
theorem opens_text (hne : x.toList ≠ []) (hx : os.texts.all (apart · x) = true) :
    (text x).Opens os :=
  (ledBy_self x).opens_of_apart hne hx

/-- A document with a fixed lead. -/
theorem LedBy.opens (hx : x ∈ leads) (h : d.LedBy x) : d.Opens os :=
  h.opens_of_apart (toList_ne_nil_of_lead hx) (all_apart_of_lead hx)

/-- What opens with something begins with it. -/
theorem Opens.begins (h : d.Opens os) : d.Begins os :=
  h.mono fun cs hp => ⟨hp.1, by simpa using hp.2 []⟩

/-- What comes after an opening does not matter. -/
theorem Opens.append (h : a.Opens os) (b : Doc) : (a ++ b).Opens os := by
  refine Says.append (Q := fun _ => True) h (fun _ _ _ => trivial) fun cs ds hp _ =>
    ⟨?_, fun es => ?_⟩
  · simp [hp.1]
  · rw [List.append_assoc]
    exact hp.2 _

theorem Opens.nil_append (h : d.Opens os) : (nil ++ d).Opens os := Says.nil_append h

/-- What follows a name begins with no letter. -/
theorem Begins.append (ha : a.Begins os) (hb : b.Divides) : (a ++ b).Begins os :=
  Says.append ha hb fun _ _ hp hq => ⟨by simp [hp.1], hp.2.append hp.1 hq⟩

/-- After a text that is clear of single characters anything may follow. -/
theorem Begins.append_of_single (hs : os.single = true) (ha : a.Begins os) (b : Doc) :
    (a ++ b).Begins os :=
  Says.append (Q := fun _ => True) ha (fun _ _ _ => trivial) fun _ ds hp _ =>
    ⟨by simp [hp.1], hp.2.append_of_single hs hp.1 ds⟩

/-- A text that begins with no letter still does so if another follows. -/
theorem isAlpha_head?_append (hx : x.toList.head?.any (!·.isAlpha) = true) (cs : List Char) :
    ∀ c ∈ (x.toList ++ cs).head?, c.isAlpha = false := by
  intro c hc
  cases hs : x.toList with
  | nil => simp [hs] at hx
  | cons b bs =>
    obtain rfl : b = c := by simpa [hs] using hc
    simpa [hs] using hx

/-- After a name and a text that is no letter anything may follow. -/
theorem Begins.opens (ha : a.Begins os) (hx : x.toList.head?.any (!·.isAlpha) = true) :
    (a ++ text x).Opens os := by
  refine Says.append ha (ledBy_self x) fun cs ds hp hq => ⟨by simp [hp.1], fun es => ?_⟩
  obtain ⟨v, rfl⟩ := hq
  rw [List.append_assoc, List.append_assoc]
  exact hp.2.append hp.1 (isAlpha_head?_append hx _)

/-- A text that starts with no opener. -/
theorem begins_text (h : Starts os x) : (text x).Begins os := says_text h

/-- Two texts in a row begin as one. -/
theorem begins_text_append {y : String} (h : Starts os (x ++ y)) :
    (text x ++ text y).Begins os := by
  refine Says.append (P := (· = x.toList)) (Q := (· = y.toList)) (says_text rfl) (says_text rfl) ?_
  rintro _ _ rfl rfl
  rw [← String.toList_append]
  exact h

theorem divides_nil : nil.Divides := by
  intro _ l level c hc
  simp [pieces] at hc

/-- A text that starts with no letter divides words. -/
theorem divides_text (h : x.toList.head?.all (!·.isAlpha) = true) : (text x).Divides := by
  refine says_text fun c hc => ?_
  simpa using (Option.all_eq_true _ _).mp h c hc

/-- The first of two documents that is not empty begins both. -/
theorem Divides.append (ha : a.Divides) (hb : b.Divides) : (a ++ b).Divides := by
  refine Says.append ha hb fun cs ds hp hq => ?_
  cases cs with
  | nil => exact hq
  | cons c cs => exact hp

/-- A text that starts with no letter divides words also when it may be left out. -/
theorem Divides.onlyIf (x : Bool) (h : d.Divides) : (onlyIf x d).Divides := by
  cases x
  · exact divides_nil
  · exact h

/-- A document that begins with another character than a letter. -/
theorem LedBy.divides (h : d.LedBy x) (hx : x.toList.head?.any (!·.isAlpha) = true) :
    d.Divides := by
  refine h.mono fun cs hp => ?_
  obtain ⟨v, rfl⟩ := hp
  exact isAlpha_head?_append hx v

end Estree.Doc
