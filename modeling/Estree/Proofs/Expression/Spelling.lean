import Estree.Proofs.Dispatch
import Estree.Proofs.Expression.Grammar

/-!
# Documents that spell tokens

The document of an expression is one line of text, whatever the layout (`Doc.line?`). `Spells d ts`
says that this text is cut into the tokens `ts` whenever the text that follows begins with no
character of a name. There is one lemma for each way in which the parts of an expression are written
one after the other: with spaces around an operator, in parentheses, between commas. Where nothing
stands between two tokens, the lemma says why they are not read as one.

Main results:

  * `Doc.render_of_line?`, `Generator.generate_of_line?`: one line has one text in all layouts;
  * `Spells.append`, `Spells.after`, `Spells.between`, `Spells.enclosed`: how parts are put
    together;
  * `Spells.generate`: the text of a tree whose document spells tokens is cut into these tokens;
  * `spells_sequence`: nodes in parentheses, with commas between them.
-/

namespace Estree

/-! ## §1. Documents of one line. -/

namespace Doc

/-- The text of a document without line ends, indentation and stops. -/
def line? : Doc → Option (List Char)
  | nil => some []
  | text s => some s.toList
  | append a b => a.line?.bind fun cs => b.line?.map (cs ++ ·)
  | _ => none

@[simp] theorem line?_nil : nil.line? = some [] := rfl

@[simp] theorem line?_text (s : String) : (text s).line? = some s.toList := rfl

@[simp] theorem line?_append (a b : Doc) :
    (a ++ b).line? = a.line?.bind fun cs => b.line?.map (cs ++ ·) := rfl

/-- How parts are grouped does not matter to the text. -/
theorem line?_append_assoc (a b c : Doc) : (a ++ b ++ c).line? = (a ++ (b ++ c)).line? := by
  cases ha : a.line? <;> cases hb : b.line? <;> cases hc : c.line? <;> simp [ha, hb, hc]

/-- A part may be replaced by one with the same text. -/
theorem line?_append_congr {a a' b b' : Doc} (ha : a.line? = a'.line?) (hb : b.line? = b'.line?) :
    (a ++ b).line? = (a' ++ b').line? := by
  rw [line?_append, line?_append, ha, hb]

/-- A line ends at the level where it begins. -/
theorem steady_of_line? {d : Doc} {cs : List Char} (h : d.line? = some cs) : d.Steady := by
  induction d generalizing cs with
  | nil => exact .nil
  | text s => exact .text s
  | append a b iha ihb =>
    obtain ⟨as, ha, h⟩ := Option.bind_eq_some_iff.mp h
    obtain ⟨bs, hb, -⟩ := Option.map_eq_some_iff.mp h
    exact .append (iha ha) (ihb hb)
  | _ => cases h

/-- The text of a line is the same in every layout. -/
theorem render_of_line? {d : Doc} {cs : List Char} (h : d.line? = some cs) (l : Layout) :
    d.render l = .ok (String.ofList cs) := by
  suffices ∀ level, d.halt? = none ∧ Piece.renderAll l (d.pieces level) = String.ofList cs by
    rw [(steady_of_line? h).render_eq, (this .start).1, (this .start).2]
  induction d generalizing cs with
  | nil =>
    cases h
    exact fun _ => ⟨rfl, rfl⟩
  | text s =>
    cases h
    refine fun _ => ⟨rfl, ?_⟩
    simp [pieces, Piece.render]
  | append a b iha ihb =>
    obtain ⟨as, ha, h⟩ := Option.bind_eq_some_iff.mp h
    obtain ⟨bs, hb, rfl⟩ := Option.map_eq_some_iff.mp h
    intro level
    obtain ⟨hha, hra⟩ := iha ha level
    obtain ⟨hhb, hrb⟩ := ihb hb (a.after level)
    refine ⟨by simp [halt?, hha, hhb], ?_⟩
    simp [pieces, hha, hra, hrb, String.ofList_append]
  | _ => cases h

end Doc

/-- A tree of one line has one text, whatever the layout. -/
theorem Generator.generate_of_line? {d : Dialect} {n : Node} {cs : List Char}
    (h : ((Grammar.ofDialect d).scope.emit n).line? = some cs) (l : Layout) :
    (Generator.ofDialect d l).generate n = .ok (String.ofList cs) := by
  have hrender : ((Grammar.ofDialect d).emit n).render l = .ok (String.ofList cs) :=
    Doc.render_of_line? h l
  change (((Grammar.ofDialect d).emit n).render l).mapError GenerateError.ofHalt = _
  rw [hrender]
  rfl

namespace Expression

/-! ## §2. Spelling. -/

/-- The text begins with no character that could go on with a name or with an exclamation mark. -/
def Closed (cs : List Char) : Prop := ∀ c ∈ cs.head?, isNamePart c = false ∧ c ≠ '='

/-- The first character decides. -/
theorem Closed.cons {c : Char} {cs : List Char} (h : isNamePart c = false ∧ c ≠ '=') :
    Closed (c :: cs) := by
  rintro _ ⟨⟩
  exact h

/-- The characters are the tokens, whatever closed text follows. -/
def Cuts (cs : List Char) (ts : List Token) : Prop :=
  ∀ {rest us}, Closed rest → Lexes rest us → Lexes (cs ++ rest) (ts ++ us)

/-- The text begins with the first of the tokens. -/
def Leads (ts : List Token) (cs : List Char) : Prop :=
  ∃ t more, ts = t :: more ∧ IsToken t ∧ t.toList <+: cs

/-- The text of the document is the tokens. -/
def Spells (d : Doc) (ts : List Token) : Prop :=
  ∃ cs, d.line? = some cs ∧ Cuts cs ts ∧ Leads ts cs

/-- The first token does not continue the token `t`. -/
def Apart (t : Token) (ts : List Token) : Prop :=
  ∀ u ∈ ts.head?, ∀ c ∈ u.toList.head?, continues t c = false

/-- A name does not continue a punctuator. -/
theorem apart_of_isWord {t u : Token} {ts : List Token} (ht : isWord t = false)
    (hu : isWord u = true) : Apart t (u :: ts) := by
  rintro _ ⟨⟩ c hc
  obtain ⟨b, bs, hb, hstart, -⟩ := head_of_isWord hu
  obtain rfl : b = c := by simpa [hb] using hc
  exact not_continues_of_nameStart ht hstart

/-- What follows does not matter. -/
theorem Leads.append {ts us : List Token} {cs ds : List Char} (h : Leads ts cs) :
    Leads (ts ++ us) (cs ++ ds) := by
  obtain ⟨t, more, rfl, ht, hp⟩ := h
  exact ⟨t, more ++ us, rfl, ht, hp.trans (List.prefix_append _ _)⟩

/-- A text begins with the token that is written first. -/
theorem leads_cons {t : Token} (ht : IsToken t) (ts : List Token) (cs : List Char) :
    Leads (t :: ts) (t.toList ++ cs) :=
  ⟨t, ts, rfl, ht, List.prefix_append _ _⟩

/-- The first character of a text is the first of its first token. -/
theorem Leads.head? {ts : List Token} {cs : List Char} (h : Leads ts cs) (rest : List Char) :
    ∃ u ∈ ts.head?, (cs ++ rest).head? = u.toList.head? := by
  obtain ⟨t, more, rfl, ht, w, rfl⟩ := h
  obtain ⟨c, cs, hc⟩ := List.exists_cons_of_ne_nil (toList_ne_nil ht)
  exact ⟨t, rfl, by simp [hc]⟩

namespace Spells

variable {d e : Doc} {ts us : List Token} {t : Token}

/-- Documents with the same text spell the same. -/
theorem of_line?_eq (h : Spells d ts) (he : e.line? = d.line?) : Spells e ts := by
  obtain ⟨cs, hd, hcs⟩ := h
  exact ⟨cs, he.trans hd, hcs⟩

theorem word (ht : isWord t = true) : Spells (.text t) [t] := by
  refine ⟨t.toList, rfl, fun {rest us} hr h => ?_, t, [], rfl, .inl ht, List.prefix_rfl⟩
  refine .cons (.inl ht) (fun c hc => ?_) h
  rw [continues, if_pos ht]
  exact (hr c hc).1

/-- A punctuator that nothing continues may stand before anything. -/
theorem solid (ht : t ∈ solidTokens) : Spells (.text t) [t] :=
  ⟨t.toList, rfl, fun _ h => .solid ht h, t, [], rfl, isToken_of_solid ht, List.prefix_rfl⟩

/-- A document that begins with a punctuator may stand right after another. -/
theorem append (h : Spells d ts) (h' : Spells e us)
    (hu : ∀ u ∈ us.head?, u ∈ punctuators ∧ u.toList.head? ≠ some '=') :
    Spells (d ++ e) (ts ++ us) := by
  obtain ⟨cs, hd, hcs, hlead⟩ := h
  obtain ⟨cs', he, hcs', hlead'⟩ := h'
  refine ⟨cs ++ cs', by simp [hd, he], fun {rest vs} hr h => ?_, hlead.append⟩
  have hclosed : Closed (cs' ++ rest) := by
    obtain ⟨u, hu', hhead⟩ := hlead'.head? rest
    obtain ⟨hpunctuator, hne⟩ := hu u hu'
    intro c hc
    rw [hhead] at hc
    refine ⟨isNamePart_eq_false (List.mem_append_left _ hpunctuator) (List.mem_of_mem_head? hc), ?_⟩
    rintro rfl
    exact hne hc
  rw [List.append_assoc, List.append_assoc]
  exact hcs hclosed (hcs' hr h)

/-- A document may stand right after a token that its first token does not continue. -/
theorem after (ht : IsToken t) (ha : Apart t us) (h : Spells e us) :
    Spells (.text t ++ e) (t :: us) := by
  obtain ⟨cs, he, hcs, hlead⟩ := h
  refine ⟨t.toList ++ cs, by simp [he], fun {rest vs} hr h => ?_, leads_cons ht us cs⟩
  rw [List.append_assoc]
  obtain ⟨u, hu, hhead⟩ := hlead.head? rest
  refine .cons ht (fun c hc => ?_) (hcs hr h)
  rw [hhead] at hc
  exact ha u hu c hc

/-- A document may stand after any token and a space. -/
theorem spaced (ht : IsToken t) (h : Spells e us) : Spells (.text t ++ " " ++ e) (t :: us) := by
  obtain ⟨cs, he, hcs, -⟩ := h
  refine ⟨t.toList ++ ' ' :: cs, by simp [he], fun {rest vs} hr h => ?_, leads_cons ht us _⟩
  rw [List.append_assoc]
  exact .spaced ht (hcs hr h)

/-- A document with an exclamation mark after it. -/
theorem bang (h : Spells d ts) : Spells (d ++ "!") (ts ++ ["!"]) := by
  have htoken : IsToken "!" := .inr (by decide)
  have hbang : Spells "!" ["!"] := by
    refine ⟨_, rfl, fun {rest us} hr h => .cons htoken (fun c hc => ?_) h, leads_cons htoken [] []⟩
    have hall : (continuations "!").all (· == '=') = true := by decide
    rw [continues, if_neg (by decide), Bool.eq_false_iff]
    intro hmem
    have heq := List.all_eq_true.mp hall c (by simpa using hmem)
    exact (hr c hc).2 (by simpa using heq)
  exact h.append hbang (by rintro _ ⟨⟩; decide)

/-- Two documents with an operator between them. -/
theorem between (h : Spells d ts) (ht : IsToken t) (h' : Spells e us) :
    Spells (d ++ " " ++ .text t ++ " " ++ e) (ts ++ t :: us) := by
  obtain ⟨cs, hd, hcs, hlead⟩ := h
  obtain ⟨cs', he, hcs', -⟩ := h'
  refine ⟨cs ++ ' ' :: (t.toList ++ ' ' :: cs'), by simp [hd, he], fun {rest vs} hr h => ?_,
    hlead.append⟩
  have hright := Lexes.spaced ht (hcs' hr h)
  simpa using hcs (.cons (by decide)) (.space hright)

/-- Two documents with a comma between them. -/
theorem comma (h : Spells d ts) (h' : Spells e us) : Spells (d ++ ", " ++ e) (ts ++ "," :: us) := by
  obtain ⟨cs, hd, hcs, hlead⟩ := h
  obtain ⟨cs', he, hcs', -⟩ := h'
  refine ⟨cs ++ ',' :: ' ' :: cs', by simp [hd, he], fun {rest vs} hr h => ?_, hlead.append⟩
  have hright : Lexes (',' :: ' ' :: (cs' ++ rest)) ("," :: (us ++ vs)) :=
    .solid (t := ",") (by decide) (.space (hcs' hr h))
  simpa using hcs (.cons (by decide)) hright

/-- A document between two punctuators that nothing continues. -/
theorem enclosed {o c : Token} (ho : o ∈ solidTokens) (hc : c ∈ solidTokens) (h : Spells d ts) :
    Spells (.text o ++ d ++ .text c) (o :: (ts ++ [c])) := by
  have hopen : Spells (.text o ++ d) (o :: ts) :=
    h.after (isToken_of_solid ho) fun _ _ c _ => continues_of_solid ho c
  refine hopen.append (.solid hc) ?_
  rintro _ ⟨⟩
  have hsolid : ∀ t ∈ solidTokens, t ∈ punctuators ∧ t.toList.head? ≠ some '=' := by decide
  exact hsolid c hc

/-- A document in parentheses. -/
theorem parens (h : Spells d ts) : Spells d.parens ("(" :: (ts ++ [")"])) :=
  h.enclosed (by decide) (by decide)

theorem brackets (h : Spells d ts) : Spells d.brackets ("[" :: (ts ++ ["]"])) :=
  h.enclosed (by decide) (by decide)

/-- A tree whose document spells tokens has one text, whatever the layout, which is cut into them.
-/
theorem generate {g : Dialect} {n : Node} (h : Spells ((Grammar.ofDialect g).scope.emit n) ts) :
    ∃ text, (∀ l, (Generator.ofDialect g l).generate n = .ok text) ∧ Lexes text.toList ts := by
  obtain ⟨cs, hline, hcuts, -⟩ := h
  have hlex : Lexes (cs ++ []) (ts ++ []) := hcuts nofun .done
  rw [List.append_nil, List.append_nil] at hlex
  exact ⟨String.ofList cs, Generator.generate_of_line? hline, by rwa [String.toList_ofList]⟩

end Spells

/-! ## §3. Names and lists. -/

/-- The text of a name is the name: the typed dialect writes no decorators and no annotation here.
-/
theorem line?_named (d : Dialect) (x : String) : (d.doc (named x)).line? = (Doc.text x).line? := by
  cases d with
  | plain =>
    rw [Dialect.doc_eq (p := .identifier .plain) rfl]
    rfl
  | typed =>
    rw [Dialect.doc_eq (p := .identifier .typed) rfl]
    simp [Procedure.doc, Emit.Typed.identifier, named, Emit.Typed.binding, Emit.inlineDecorators,
      Doc.concat, Doc.onlyIf, Scope.annot, Doc.ofOption]

/-- The document of nodes in parentheses, with commas between them. -/
abbrev argumentsDoc (d : Dialect) (ns : List Node) : Doc := (Grammar.ofDialect d).scope.sequence ns

variable {f : Node → Doc} {g : Node → Node} {P : List Token → Node → Prop} {ns : List Node}

/-- Nodes in parentheses may be replaced by others with the same texts. -/
theorem line?_sequence_congr {s : Scope}
    (h : ∀ n ∈ ns, (s.emit (g n)).line? = (s.emit n).line?) :
    (s.sequence (ns.map g)).line? = (s.sequence ns).line? := by
  have hjoin : (Doc.join ", " ((ns.map g).map s.emit)).line? =
      (Doc.join ", " (ns.map s.emit)).line? := by
    induction ns with
    | nil => rfl
    | cons n ns ih =>
      obtain ⟨hn, hns⟩ := List.forall_mem_cons.mp h
      cases ns with
      | nil => exact hn
      | cons m ns => exact Doc.line?_append_congr (Doc.line?_append_congr hn rfl) (ih hns)
  exact Doc.line?_append_congr (Doc.line?_append_congr rfl hjoin) rfl

/-- The documents of nodes with commas between them, if each spells tokens that are as `P` says for
the node that `g` makes of it. -/
theorem spells_items (h : ∀ n ∈ ns, ∃ ts, Spells (f n) ts ∧ P ts (g n)) :
    ∃ items : List Item, trees items = ns.map g ∧ (∀ i ∈ items, P i.1 i.2) ∧
      (ns ≠ [] → Spells (.join ", " (ns.map f)) (commaSeparated items)) := by
  induction ns with
  | nil => exact ⟨[], rfl, nofun, fun hne => absurd rfl hne⟩
  | cons n ns ih =>
    obtain ⟨ts, hs, hp⟩ := h n List.mem_cons_self
    obtain ⟨items, htrees, hitems, hspells⟩ := ih fun m hm => h m (List.mem_cons_of_mem _ hm)
    refine ⟨(ts, g n) :: items, congrArg (g n :: ·) htrees, List.forall_mem_cons.mpr ⟨hp, hitems⟩,
      fun _ => ?_⟩
    -- the items are as many as the nodes, so the commas stand in the same places
    cases ns with
    | nil =>
      obtain rfl : items = [] := List.map_eq_nil_iff.mp htrees
      exact hs
    | cons m ns =>
      cases items with
      | nil => cases htrees
      | cons j items => exact hs.comma (hspells (List.cons_ne_nil _ _))

/-- The documents of nodes in parentheses, with commas between them. -/
theorem spells_sequence {s : Scope} (h : ∀ n ∈ ns, ∃ ts, Spells (s.emit n) ts ∧ P ts (g n)) :
    ∃ items : List Item, trees items = ns.map g ∧ (∀ i ∈ items, P i.1 i.2) ∧
      Spells (s.sequence ns) ("(" :: (commaSeparated items ++ [")"])) := by
  obtain ⟨items, htrees, hitems, hspells⟩ := spells_items h
  refine ⟨items, htrees, hitems, ?_⟩
  cases ns with
  | nil =>
    obtain rfl : items = [] := List.map_eq_nil_iff.mp htrees
    have hempty : Spells (.text "(" ++ .text ")") (["("] ++ [")"]) :=
      (Spells.solid (by decide)).append (.solid (by decide)) (by rintro _ ⟨⟩; decide)
    exact hempty.of_line?_eq rfl
  | cons n ns => exact (hspells (List.cons_ne_nil _ _)).parens

end Expression

end Estree
