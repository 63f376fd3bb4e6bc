import Estree.Proofs.Expression.Spelling
import Mathlib.Data.List.Forall2
import Mathlib.Data.List.TakeWhile

/-!
# Reading imports back

An import is told by its kind, its specifiers and its source (`Import`); the kind of values counts
as no kind. `Import.chars` is how it is written: the specifiers that lead, in their order, and then
the others in braces, a second name only where it differs from the first.

Words such as `type`, `as` and `from` are names too, so a word does not tell what it is. Its place
does: what stands before the source is cut into tokens in one way only, a kind is a first word that
another specifier or a brace follows without a comma, and between two commas the number of words
decides. This is how `Import.readTokens` reads, and it finds the import again
(`Import.Plain.readTokens_tokens`). So no two imports are written alike (`Import.eq_of_chars_eq`).

Main results:

* `Import.Plain.lexes_head`: what is written before the source is cut into the tokens of the
  import.
* `Import.Plain.readTokens_tokens`: the import is found again in its tokens.
* `Import.eq_of_chars_eq`: no two imports are written alike.
-/

namespace Estree

open Expression

/-! ## §1. Imports. -/

/-- A specifier of an import; `named` has the kind, the name imported and the local name. -/
inductive Import.Specifier where
  | defaultName (localName : String)
  | namespaceName (localName : String)
  | named (kind : Option String) (imported localName : String)
  deriving DecidableEq, Repr

/-- An import: its kind, its specifiers in their order, and the text of its source. -/
structure Import where
  kind : Option String
  specifiers : List Import.Specifier
  source : String
  deriving DecidableEq, Repr

namespace Import

/-- A kind with the space after it. -/
def kindChars : Option String → List Char
  | none => []
  | some k => k.toList ++ [' ']

namespace Specifier

/-- Whether a specifier stands before the braces. -/
def isLeading : Specifier → Bool
  | named _ _ _ => false
  | _ => true

/-- How a specifier is written. -/
def chars : Specifier → List Char
  | defaultName x => x.toList
  | namespaceName x => "* as ".toList ++ x.toList
  | named kind x y =>
    kindChars kind ++ if x = y then x.toList else x.toList ++ " as ".toList ++ y.toList

/-- The tokens of a specifier. -/
def tokens : Specifier → List String
  | defaultName x => [x]
  | namespaceName x => ["*", "as", x]
  | named kind x y => kind.toList ++ if x = y then [x] else [x, "as", y]

end Specifier

variable (i : Import)

/-- The specifiers before the braces. -/
def leading : List Specifier := i.specifiers.filter Specifier.isLeading

/-- The specifiers in braces. -/
def named : List Specifier := i.specifiers.filter fun s => !s.isLeading

/-- No specifier that leads comes after one that does not. -/
def Ordered : Prop := i.specifiers = i.leading ++ i.named

instance : Decidable i.Ordered := inferInstanceAs (Decidable (_ = _))

/-- The specifiers outside of braces. -/
theorem mem_leading {i : Import} {s : Specifier} :
    s ∈ i.leading ↔ s ∈ i.specifiers ∧ s.isLeading = true := List.mem_filter

/-- The specifiers in braces. -/
theorem mem_named {i : Import} {s : Specifier} :
    s ∈ i.named ↔ s ∈ i.specifiers ∧ s.isLeading = false := by
  simp [named, List.mem_filter]

/-- The specifiers, as they are written. -/
def clause : List Char :=
  [',', ' '].intercalate (i.leading.map Specifier.chars ++
    if i.named = [] then []
    else ['\x7b' :: ([',', ' '].intercalate (i.named.map Specifier.chars) ++ ['\x7d'])])

/-- What is written before the source. -/
def head : List Char :=
  "import ".toList ++ kindChars i.kind ++
    if i.specifiers = [] then [] else i.clause ++ " from ".toList

/-- How an import is written. -/
def chars : List Char := i.head ++ i.source.toList ++ [';']

/-- The tokens of the specifiers. -/
def clauseTokens : List String :=
  [","].intercalate (i.leading.map Specifier.tokens ++
    if i.named = [] then []
    else ["\x7b" :: ([","].intercalate (i.named.map Specifier.tokens) ++ ["\x7d"])])

/-- The tokens between the first word and the source. -/
def tokens : List String :=
  i.kind.toList ++ if i.specifiers = [] then [] else i.clauseTokens ++ ["from"]

/-! ## §2. Words. -/

/-- A name is a word of letters. -/
def IsName (x : String) : Prop := x ≠ "" ∧ x.toList.all Char.isAlpha = true

instance (x : String) : Decidable (IsName x) := inferInstanceAs (Decidable (_ ∧ _))

/-- Whether a character is a quote. -/
def isQuote (c : Char) : Bool := c == '\x22' || c == '\x27' || c == '\x60'

/-- The names and the kind of a specifier are words of letters. -/
def Specifier.Plain : Specifier → Prop
  | defaultName x => IsName x
  | namespaceName x => IsName x
  | named kind x y => (∀ k ∈ kind, IsName k) ∧ IsName x ∧ IsName y

/-- Names and kinds are words of letters, and the source begins with a quote. -/
structure Plain : Prop where
  kind : ∀ k ∈ i.kind, IsName k
  specifiers : ∀ s ∈ i.specifiers, s.Plain
  source : i.source.toList.head?.any isQuote = true

/-- A name is a word. -/
theorem IsName.isWord {x : String} (h : IsName x) : Expression.isWord x = true := by
  obtain ⟨hne, hall⟩ := h
  unfold Expression.isWord
  cases hx : x.toList with
  | nil => exact absurd (String.toList_eq_nil_iff.mp hx) hne
  | cons c cs =>
    rw [hx, List.all_cons, Bool.and_eq_true] at hall
    have hall' : cs.all isNamePart = true := List.all_eq_true.mpr fun d hd => by
      simp [isNamePart, isNameStart, List.all_eq_true.mp hall.2 d hd]
    simp [isNameStart, hall.1, hall']

/-- So it is not a token that is none. -/
theorem IsName.ne {x t : String} (h : IsName x) (ht : Expression.isWord t = false) : x ≠ t := by
  rintro rfl
  rw [h.isWord] at ht
  cases ht

end Import

/-! ## §3. Tokens. -/

namespace Expression

variable {cs rest : List Char} {ts us : List String}

/-- A word before something that closes it is a token. -/
theorem Lexes.word {x : String} (hx : isWord x = true) (hr : Closed rest) (h : Lexes rest us) :
    Lexes (x.toList ++ rest) (x :: us) := by
  refine .cons (.inl hx) (fun c hc => ?_) h
  rw [continues, if_pos hx]
  exact (hr c hc).1

/-- A brace may stand before any text. -/
theorem Lexes.brace {t : String} (ht : t ∈ ["\x7b", "\x7d"]) (h : Lexes rest us) :
    Lexes (t.toList ++ rest) (t :: us) := by
  have hall :
      ∀ t ∈ ["\x7b", "\x7d"], t ∈ punctuators ∧ isWord t = false ∧ continuations t = [] := by
    decide
  obtain ⟨htoken, hword, hnone⟩ := hall t ht
  exact .cons (.inr htoken) (fun c _ => by simp [continues, hword, hnone]) h

/-- Parts with commas between them are cut part by part. -/
theorem Cuts.intercalate {parts : List (List Char)} {tokens : List (List String)}
    (h : List.Forall₂ Cuts parts tokens) (hne : parts ≠ []) :
    Cuts ([',', ' '].intercalate parts) ([","].intercalate tokens) := by
  intro rest us hr hl
  induction h with
  | nil => exact absurd rfl hne
  | @cons cs ts parts tokens hcs hparts ih =>
    cases hparts with
    | nil => simpa using hcs hr hl
    | @cons ds vs parts tokens hds hparts =>
      have hrest := ih (List.cons_ne_nil _ _)
      have hcomma : Lexes (',' :: ' ' :: ([',', ' '].intercalate (ds :: parts) ++ rest))
          ("," :: ([","].intercalate (vs :: tokens) ++ us)) :=
        .solid (t := ",") (by decide) (.space hrest)
      simpa [List.intercalate_cons_cons] using hcs (.cons (by decide)) hcomma

/-- There is no quote in a text that is cut into tokens. -/
theorem Lexes.isQuote_eq_false {cs : List Char} {ts : List String} (h : Lexes cs ts) :
    ∀ c ∈ cs, Import.isQuote c = false := by
  -- neither the characters of names nor those of punctuators are quotes
  have hpart : ∀ c, isNamePart c = true → Import.isQuote c = false := by
    intro c hc
    refine Bool.eq_false_iff.mpr fun hq => ?_
    simp only [Import.isQuote, Bool.or_eq_true, beq_iff_eq] at hq
    rcases hq with (rfl | rfl) | rfl <;> exact absurd hc (by decide)
  have hpunctuators :
      (punctuators.all fun t => t.toList.all fun c => !Import.isQuote c) = true := by
    decide
  induction h with
  | done => exact List.forall_mem_nil _
  | space _ ih => exact List.forall_mem_cons.mpr ⟨by decide, ih⟩
  | @token t cs ts ht _ _ ih =>
    refine List.forall_mem_append.mpr ⟨fun c hc => ?_, ih⟩
    rcases ht with ht | ht
    · obtain ⟨a, as, hta, ha, has⟩ := head_of_isWord ht
      rw [hta] at hc
      rcases List.mem_cons.mp hc with rfl | hc
      · exact hpart _ (by simp [isNamePart, ha])
      · exact hpart c (has c hc)
    · simpa using List.all_eq_true.mp (List.all_eq_true.mp hpunctuators t ht) c hc

end Expression

namespace Import

/-- The kind of an import is a word, if it is written. -/
theorem lexes_kindChars {kind : Option String} (hkind : ∀ k ∈ kind, IsName k) {rest : List Char}
    {us : List String} (h : Lexes rest us) :
    Lexes (kindChars kind ++ rest) (kind.toList ++ us) := by
  cases kind with
  | none => exact h
  | some k => simpa [kindChars] using Lexes.spaced (.inl (hkind k rfl).isWord) h

/-- A specifier of plain names is cut into its tokens. -/
theorem Specifier.Plain.cuts {s : Specifier} (h : s.Plain) : Cuts s.chars s.tokens := by
  intro rest us hr hl
  have has : IsToken "as" := .inl (by decide)
  cases s with
  | defaultName x => exact .word h.isWord hr hl
  | namespaceName x =>
    have hstar := Lexes.spaced (t := "*") (.inr (by decide)) (.spaced has (.word h.isWord hr hl))
    simpa [chars, tokens] using hstar
  | named kind x y =>
    obtain ⟨hkind, hx, hy⟩ := h
    have hnames :
        Lexes ((if x = y then x.toList else x.toList ++ " as ".toList ++ y.toList) ++ rest)
        ((if x = y then [x] else [x, "as", y]) ++ us) := by
      split
      next => exact .word hx.isWord hr hl
      next => simpa using Lexes.spaced (.inl hx.isWord) (.spaced has (.word hy.isWord hr hl))
    simpa only [chars, tokens, List.append_assoc] using lexes_kindChars hkind hnames

variable {i : Import}

/-- If nothing is in braces, something is outside of them. -/
theorem leading_ne_nil (hne : i.specifiers ≠ []) (hnamed : i.named = []) : i.leading ≠ [] := by
  intro hleading
  refine hne (List.eq_nil_iff_forall_not_mem.mpr fun s hs => ?_)
  have hno := List.filter_eq_nil_iff.mp hleading s hs
  have hyes := List.filter_eq_nil_iff.mp hnamed s hs
  simp [hno] at hyes

/-- The specifiers are cut into their tokens. -/
theorem Plain.cuts_clause (h : i.Plain) (hne : i.specifiers ≠ []) :
    Cuts i.clause i.clauseTokens := by
  have hspecifiers : ∀ ss : List Specifier, (∀ s ∈ ss, s ∈ i.specifiers) →
      List.Forall₂ Cuts (ss.map Specifier.chars) (ss.map Specifier.tokens) := by
    intro ss hss
    rw [List.forall₂_map_left_iff, List.forall₂_map_right_iff, List.forall₂_same]
    exact fun s hs => (h.specifiers s (hss s hs)).cuts
  have hleading := hspecifiers i.leading fun s hs => (mem_leading.mp hs).1
  have hnamed := hspecifiers i.named fun s hs => (mem_named.mp hs).1
  intro rest us hr hl
  unfold clause clauseTokens
  split
  next hempty =>
    rw [List.append_nil, List.append_nil]
    exact Cuts.intercalate hleading (by simpa using leading_ne_nil hne hempty) hr hl
  -- the braces with all that is in them are the last part after the names outside
  next hempty =>
    refine Cuts.intercalate (List.rel_append hleading (.cons ?_ .nil)) (by simp) hr hl
    intro rest us hr hl
    have hclose : Lexes ('\x7d' :: rest) ("\x7d" :: us) := .brace (t := "\x7d") (by decide) hl
    have hinner := Cuts.intercalate hnamed (by simpa using hempty) (.cons (by decide)) hclose
    simpa using Lexes.brace (t := "\x7b") (by decide) hinner

/-- **What is written before the source** is cut into the tokens of the import. -/
theorem Plain.lexes_head (h : i.Plain) : Lexes i.head ("import" :: i.tokens) := by
  have hbody : Lexes (if i.specifiers = [] then [] else i.clause ++ " from ".toList)
      (if i.specifiers = [] then [] else i.clauseTokens ++ ["from"]) := by
    split
    next => exact .done
    next hne =>
      have hfrom : Lexes (' ' :: ("from".toList ++ [' '])) ["from"] :=
        .space (.spaced (.inl (by decide)) .done)
      simpa using h.cuts_clause hne (.cons (by decide)) hfrom
  have hword : "import ".toList = "import".toList ++ [' '] := by simp
  show Lexes ("import ".toList ++ kindChars i.kind ++ _) ("import" :: (i.kind.toList ++ _))
  rw [hword, List.append_assoc, List.append_assoc]
  exact .spaced (.inl (by decide)) (lexes_kindChars h.kind hbody)

/-! ## §4. Reading. -/

/-- Reads a specifier before the braces. -/
def readLeading : List String → Option Specifier
  | [x] => some (.defaultName x)
  | [_, _, x] => some (.namespaceName x)
  | _ => none

/-- Reads a specifier in braces. -/
def readNamed : List String → Option Specifier
  | [x] => some (.named none x x)
  | [k, x] => some (.named (some k) x x)
  | [x, _, y] => some (.named none x y)
  | [k, x, _, y] => some (.named (some k) x y)
  | _ => none

/-- Reads the specifiers: those before the brace and those after it, without the braces. -/
def readClause (ts : List String) : List Specifier :=
  ((ts.takeWhile (· != "\x7b")).splitOn ",").filterMap readLeading ++
    (((ts.dropWhile (· != "\x7b")).drop 1).dropLast.splitOn ",").filterMap readNamed

/-- Whether the first token is a kind: a word that neither a comma nor the last `from` follows. -/
def beginsWithKind : List String → Bool
  | t :: rest => isWord t && rest.head? != some "," && rest != ["from"]
  | [] => false

/-- Reads the tokens of an import. -/
def readTokens (ts : List String) : Option String × List Specifier :=
  if beginsWithKind ts then (ts.head?, readClause ts.tail.dropLast)
  else (none, readClause ts.dropLast)

/-- What stands between commas is free of a token if the parts are. -/
theorem all_intercalate_ne {t : String} (ht : t ≠ ",") {parts : List (List String)}
    (h : ∀ part ∈ parts, t ∉ part) : ∀ u ∈ [","].intercalate parts, (u != t) = true := by
  induction parts with
  | nil => exact List.forall_mem_nil _
  | cons part parts ih =>
    obtain ⟨hpart, hparts⟩ := List.forall_mem_cons.mp h
    have hhead : ∀ u ∈ part, (u != t) = true := fun u hu => by
      simpa using fun heq : u = t => hpart (heq ▸ hu)
    by_cases hnil : parts = []
    · simpa [hnil] using hhead
    · rw [List.intercalate_cons_of_ne_nil hnil, List.append_assoc]
      exact List.forall_mem_append.mpr
        ⟨hhead, List.forall_mem_cons.mpr ⟨by simpa using ht.symm, ih hparts⟩⟩

/-- A last part goes after a separator. -/
theorem intercalate_concat {α : Type} {sep : List α} {parts : List (List α)} (h : parts ≠ [])
    (last : List α) :
    sep.intercalate (parts ++ [last]) = sep.intercalate parts ++ sep ++ last := by
  induction parts with
  | nil => exact absurd rfl h
  | cons part parts ih =>
    rw [List.cons_append, List.intercalate_cons_of_ne_nil (by simp)]
    by_cases hnil : parts = []
    · simp [hnil]
    · rw [ih hnil, List.intercalate_cons_of_ne_nil hnil]
      simp

/-- The last part may be cut off. -/
theorem intercalate_append_singleton {α : Type} (sep : List α) (parts : List (List α))
    (last : List α) :
    sep.intercalate (parts ++ [last]) = sep.intercalate (parts ++ [[]]) ++ last := by
  by_cases h : parts = []
  · simp [h]
  · rw [intercalate_concat h, intercalate_concat h, List.append_nil]

/-- The tokens of a specifier are words, or the star and the word after it. -/
theorem Specifier.Plain.not_mem_tokens {s : Specifier} (h : s.Plain) {t : String}
    (ht : t ∈ [",", "\x7b"]) : t ∉ s.tokens := by
  have hall : ∀ t ∈ [",", "\x7b"], Expression.isWord t = false ∧ t ≠ "*" ∧ t ≠ "as" := by decide
  obtain ⟨hword, hstar, has⟩ := hall t ht
  have hname : ∀ {x}, IsName x → t ≠ x := fun hx => (hx.ne hword).symm
  cases s with
  | defaultName x => simp [tokens, hname h]
  | namespaceName x => simp [tokens, hname h, hstar, has]
  | named kind x y =>
    obtain ⟨hkind, hx, hy⟩ := h
    have hk : t ∉ kind.toList := fun hmem => hname (hkind t (Option.mem_toList.mp hmem)) rfl
    simp only [tokens, List.mem_append, not_or]
    refine ⟨hk, ?_⟩
    split <;> simp [hname hx, hname hy, has]

/-- Specifiers that are read back one by one are read back as a list. -/
theorem filterMap_tokens {read : List String → Option Specifier} {ss : List Specifier}
    (h : ∀ s ∈ ss, read s.tokens = some s) : (ss.map Specifier.tokens).filterMap read = ss := by
  rw [List.filterMap_map]
  exact (List.filterMap_congr h).trans (List.filterMap_some)

/-- A specifier outside of braces is read back. -/
theorem readLeading_tokens {s : Specifier} (h : s.isLeading = true) :
    readLeading s.tokens = some s := by
  cases s with
  | named => cases h
  | _ => rfl

/-- A specifier in braces is read back. -/
theorem readNamed_tokens {s : Specifier} (h : s.isLeading = false) :
    readNamed s.tokens = some s := by
  cases s with
  | named kind x y =>
    by_cases hxy : x = y
    · subst hxy
      cases kind <;> simp [Specifier.tokens, readNamed]
    · cases kind <;> simp [Specifier.tokens, readNamed, hxy]
  | _ => cases h

/-- **The specifiers are found again**, first those that lead. -/
theorem Plain.readClause_clauseTokens (h : i.Plain) :
    readClause i.clauseTokens = i.leading ++ i.named := by
  have hplain : ∀ s ∈ i.leading, s.Plain := fun s hs => h.specifiers s (mem_leading.mp hs).1
  have hplain' : ∀ s ∈ i.named, s.Plain := fun s hs => h.specifiers s (mem_named.mp hs).1
  have hleading : (i.leading.map Specifier.tokens).filterMap readLeading = i.leading :=
    filterMap_tokens fun s hs => readLeading_tokens (mem_leading.mp hs).2
  have hnamed : (i.named.map Specifier.tokens).filterMap readNamed = i.named :=
    filterMap_tokens fun s hs => readNamed_tokens (mem_named.mp hs).2
  have hcomma : ∀ ss : List Specifier, (∀ s ∈ ss, s.Plain) →
      ∀ part ∈ ss.map Specifier.tokens, "," ∉ part := fun ss hss =>
    List.forall_mem_map.mpr fun s hs => (hss s hs).not_mem_tokens (by simp)
  have hbrace : ∀ part ∈ i.leading.map Specifier.tokens, "\x7b" ∉ part :=
    List.forall_mem_map.mpr fun s hs => (hplain s hs).not_mem_tokens (by simp)
  unfold clauseTokens readClause
  split
  next hempty =>
    -- there is no brace, and nothing after it
    have hbefore := all_intercalate_ne (t := "\x7b") (by decide) hbrace
    rw [List.append_nil, hempty, List.append_nil]
    by_cases hnone : i.leading = []
    · rw [hnone]
      rfl
    · have hsplit := List.splitOn_intercalate "," (hcomma _ hplain) (by simpa using hnone)
      rw [List.takeWhile_eq_self_iff.mpr hbefore, List.dropWhile_eq_nil_iff.mpr hbefore, hsplit,
        hleading]
      exact List.append_nil _
  next hempty =>
    -- the comma before the brace leaves an empty part, which is no specifier
    have hbefore := all_intercalate_ne (t := "\x7b") (by decide) (List.forall_mem_append.mpr
      ⟨hbrace, List.forall_mem_singleton.mpr List.not_mem_nil⟩)
    have hsplit := List.splitOn_intercalate "," (List.forall_mem_append.mpr ⟨hcomma _ hplain,
      List.forall_mem_singleton.mpr List.not_mem_nil⟩) (by simp)
    have hsplit' := List.splitOn_intercalate "," (hcomma _ hplain') (by simpa using hempty)
    rw [intercalate_append_singleton, List.takeWhile_append_of_pos hbefore,
      List.dropWhile_append_of_pos hbefore]
    simp only [List.takeWhile_cons, List.dropWhile_cons, bne_self_eq_false, Bool.false_eq_true,
      if_false, List.append_nil, List.drop_succ_cons, List.drop_zero, List.dropLast_concat,
      hsplit, hsplit', List.filterMap_append, hleading, hnamed]
    simp [readLeading]

/-- The specifiers begin with no comma; and with a word only if a comma follows it, or nothing. -/
theorem Plain.exists_clauseTokens_eq (h : i.Plain) (hne : i.specifiers ≠ []) :
    ∃ t rest, i.clauseTokens = t :: rest ∧ t ≠ "," ∧
      (isWord t = true → rest = [] ∨ rest.head? = some ",") := by
  unfold clauseTokens
  cases hcases : i.leading with
  | nil =>
    have hnamed : i.named ≠ [] := fun hnone => leading_ne_nil hne hnone hcases
    rw [if_neg hnamed, List.map_nil, List.nil_append, List.intercalate_singleton]
    exact ⟨"\x7b", _, rfl, by decide, fun hword => absurd hword (by decide)⟩
  | cons s ss =>
    obtain ⟨hs, hlead⟩ := mem_leading.mp (hcases ▸ List.mem_cons_self : s ∈ i.leading)
    have hplain := h.specifiers s hs
    rw [List.map_cons, List.cons_append]
    -- it only matters whether there are further parts, not what they are
    generalize ss.map Specifier.tokens ++ _ = parts
    have hmore : ∃ more, [","].intercalate (s.tokens :: parts) = s.tokens ++ more ∧
        (more = [] ∨ more.head? = some ",") := by
      by_cases hparts : parts = []
      · exact ⟨[], by simp [hparts], .inl rfl⟩
      · exact ⟨_, by rw [List.intercalate_cons_of_ne_nil hparts, List.append_assoc], .inr rfl⟩
    obtain ⟨more, hmore, hnext⟩ := hmore
    rw [hmore]
    cases s with
    | defaultName x => exact ⟨x, more, rfl, hplain.ne (by decide), fun _ => hnext⟩
    | namespaceName x => exact ⟨"*", _, rfl, by decide, fun hword => absurd hword (by decide)⟩
    | named => cases hlead

/-- A kind is told from a name by what follows it. -/
theorem Plain.beginsWithKind_tokens (h : i.Plain) :
    beginsWithKind i.tokens = i.kind.isSome := by
  unfold tokens
  by_cases hne : i.specifiers = []
  · rw [if_pos hne]
    cases hkind : i.kind with
    | none => rfl
    | some k => simp [beginsWithKind, (h.kind k hkind).isWord]
  · obtain ⟨t, rest, hclause, hcomma, hword⟩ := h.exists_clauseTokens_eq hne
    rw [if_neg hne, hclause]
    cases hkind : i.kind with
    | some k => simp [beginsWithKind, (h.kind k hkind).isWord, hcomma]
    | none =>
      cases ht : isWord t with
      | false => simp [beginsWithKind, ht]
      | true =>
        -- a first name stands alone before the last `from`, or a comma follows it
        rcases hword ht with rfl | hrest
        · simp [beginsWithKind]
        · simp [beginsWithKind, List.head?_append, hrest]

/-- **The import is found again** in its tokens. -/
theorem Plain.readTokens_tokens (h : i.Plain) :
    readTokens i.tokens = (i.kind, i.leading ++ i.named) := by
  have hclause := h.readClause_clauseTokens
  have hrest : readClause (if i.specifiers = [] then [] else i.clauseTokens ++ ["from"]).dropLast
      = i.leading ++ i.named := by
    split
    next hnone =>
      rw [leading, named, hnone]
      rfl
    next => rw [List.dropLast_concat, hclause]
  unfold readTokens
  rw [h.beginsWithKind_tokens, tokens]
  cases hkind : i.kind with
  | none => exact congrArg (Prod.mk none) hrest
  | some k => exact congrArg (Prod.mk (some k)) hrest

/-- The source begins at the first quote. -/
theorem Plain.takeWhile_chars (h : i.Plain) :
    i.chars.takeWhile (!isQuote ·) = i.head ∧
      i.chars.dropWhile (!isQuote ·) = i.source.toList ++ [';'] := by
  have hhead : ∀ c ∈ i.head, (!isQuote c) = true := fun c hc => by
    simp [h.lexes_head.isQuote_eq_false c hc]
  have hquote := h.source
  have hchars : i.chars = i.head ++ (i.source.toList ++ [';']) := List.append_assoc _ _ _
  rw [hchars, List.takeWhile_append_of_pos hhead, List.dropWhile_append_of_pos hhead]
  cases hsource : i.source.toList with
  | nil =>
    rw [hsource] at hquote
    cases hquote
  | cons c cs =>
    have hc : isQuote c = true := by simpa [hsource] using hquote
    simp [hc]

/-- **No two imports are written alike.** -/
theorem eq_of_chars_eq {j : Import} (hi : i.Plain) (hj : j.Plain) (hi' : i.Ordered)
    (hj' : j.Ordered) (h : i.chars = j.chars) : i = j := by
  obtain ⟨hihead, hisource⟩ := hi.takeWhile_chars
  obtain ⟨hjhead, hjsource⟩ := hj.takeWhile_chars
  rw [h] at hihead hisource
  have hhead : i.head = j.head := hihead.symm.trans hjhead
  have hsource : i.source = j.source :=
    String.toList_inj.mp (List.append_cancel_right (hisource.symm.trans hjsource))
  -- what stands before the source is cut in one way only
  have htokens := List.tail_eq_of_cons_eq (hi.lexes_head.unique (hhead ▸ hj.lexes_head))
  have hread := hi.readTokens_tokens.symm.trans (htokens ▸ hj.readTokens_tokens)
  obtain ⟨hkind, hspecifiers⟩ := Prod.mk.inj hread
  rw [← hi', ← hj'] at hspecifiers
  obtain ⟨kind, specifiers, source⟩ := i
  obtain ⟨kind', specifiers', source'⟩ := j
  obtain ⟨rfl, rfl, rfl⟩ : kind = kind' ∧ specifiers = specifiers' ∧ source = source' :=
    ⟨hkind, hspecifiers, hsource⟩
  rfl

end Import

end Estree
