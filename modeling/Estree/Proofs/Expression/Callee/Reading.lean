import Estree.Proofs.Expression.Callee.Grouping
import Estree.Proofs.Expression.Spelling
import Estree.Proofs.Expression.Words
import Estree.Proofs.Reading

/-!
# Instantiations are read back

A tree of names, members, calls, instantiations, tagged templates and `!` is written without
parentheses, but for the callees of instantiations in which a call is reached along members. Writing
it and writing what it is regrouped to give the same text, because `new` is written before the
callee that captures it as before any other.

The reader takes arguments as a call, but not while it reads the callee of an instantiation: there
they belong to the `new`. The text is cut into words and other characters, which goes through the
quotes of templates as well.

Main results:

  * `Tree.line?_regrouped`: a tree is written as what it is regrouped to;
  * `Found.field`, `Found.call`, `Found.new` and so on: the reader comes to each sort of tree;
  * `Canonical.spelled`: the reader comes from the text of a canonical tree to this tree.
-/

namespace Estree.Expression.Callee

open Reading
open Dialect (doc doc_eq)
open Doc (line?_append_congr)
open Words (tokens Introduces Divides)

/-! ## §1. Documents. -/

/-- The kinds of the trees. -/
def treeKinds : List Kind :=
  [.identifier, .memberExpression, .callExpression, .newExpression, .taggedTemplateExpression,
    .tsNonNullExpression]

/-- A tree is of one of the kinds. -/
theorem Tree.kind_mem {n : Node} (h : Tree n) : n.kind ∈ treeKinds := by
  cases h <;> simp [Node.kind, treeKinds, named]

/-- So is a canonical tree. -/
theorem Canonical.kind_mem {n : Node} (h : Canonical n) : n.kind ∈ treeKinds := by
  cases h <;> simp [Node.kind, treeKinds, named]

/-- The kinds of the trees bind as tightly as members and calls. -/
theorem ranksBelow_eq_false {k position : Kind} (hk : k ∈ treeKinds)
    (hp : position ∈ [Kind.memberExpression, .callExpression, .tsNonNullExpression]) :
    (Grammar.ofDialect .typed).scope.ranksBelow k position = false := by
  have hall : ∀ k ∈ treeKinds, ∀ p ∈ [Kind.memberExpression, .callExpression, .tsNonNullExpression],
      (Grammar.ofDialect .typed).scope.ranksBelow k p = false := by
    decide
  exact hall k hk position hp

/-- No tree is wrapped as the object of a member, as a callee or before `!`. -/
theorem operand_eq_doc {n : Node} (position : Kind) (hn : n.kind ∈ treeKinds)
    (hp : position ∈ [Kind.memberExpression, .callExpression, .tsNonNullExpression]) :
    (Grammar.ofDialect .typed).scope.operand n position = doc .typed n := by
  rw [Scope.operand, ranksBelow_eq_false hn hp]
  rfl

section Lines

variable {o c i e : Node} {args : List Node}

/-- The text of a member by name. -/
theorem line?_field {x : String} (ho : o.kind ∈ treeKinds) :
    (doc .typed (.memberExpression o (named x) false false)).line? =
      (doc .typed o ++ ("." ++ .text x)).line? := by
  have hdoc : doc .typed (.memberExpression o (named x) false false) =
      doc .typed o ++ ("." ++ doc .typed (named x)) := by
    rw [doc_eq (p := .memberExpression) rfl, ← operand_eq_doc .memberExpression ho (by decide)]
    rfl
  simp only [hdoc, Doc.line?_append, line?_named]

/-- The text of a member in brackets. -/
theorem line?_index (ho : o.kind ∈ treeKinds) :
    (doc .typed (.memberExpression o i true false)).line? =
      (doc .typed o ++ (doc .typed i).brackets).line? := by
  have hdoc : doc .typed (.memberExpression o i true false) =
      doc .typed o ++ (.nil ++ (doc .typed i).brackets) := by
    rw [doc_eq (p := .memberExpression) rfl, ← operand_eq_doc .memberExpression ho (by decide)]
    rfl
  simp [hdoc]

theorem line?_call (hc : c.kind ∈ treeKinds) :
    (doc .typed (.callExpression c args false none)).line? =
      (doc .typed c ++ argumentsDoc .typed args).line? := by
  have hdoc : doc .typed (.callExpression c args false none) =
      doc .typed c ++ .nil ++ .nil ++ argumentsDoc .typed args := by
    rw [doc_eq (p := .callExpression .typed) rfl, ← operand_eq_doc .callExpression hc (by decide)]
    rfl
  simp [hdoc]

/-- The text of an instantiation: only a call that is reached along members is wrapped. -/
theorem line?_new (hc : c.kind ∈ treeKinds) :
    (doc .typed (.newExpression c args false none)).line? =
      ("new " ++ ((doc .typed c).parensIf c.hasCall ++ argumentsDoc .typed args)).line? := by
  have hdoc : doc .typed (.newExpression c args false none) =
      "new " ++ (doc .typed c).parensIf c.hasCall ++ .nil ++ argumentsDoc .typed args := by
    rw [doc_eq (p := .newExpression .typed) rfl]
    change Emit.newCallee _ c ++ _ ++ _ = _
    rw [Emit.newCallee, ranksBelow_eq_false hc (by decide), Bool.false_or]
    rfl
  rw [hdoc, ← Doc.line?_append_assoc]
  simp

/-- The text of a tagged template. -/
theorem line?_tagged {raw : String} {cooked : Option String} {tail : Bool}
    (ho : o.kind ∈ treeKinds) :
    (doc .typed (.taggedTemplateExpression o (template raw cooked tail))).line? =
      (doc .typed o ++ ("`" ++ .text raw ++ "`")).line? := by
  have hquasi : doc .typed (template raw cooked tail) = "`" ++ .text raw ++ "`" := by
    rw [template, doc_eq (p := .templateLiteral) rfl]
    rfl
  rw [← hquasi, doc_eq (p := .taggedTemplate) rfl,
    ← operand_eq_doc .memberExpression ho (by decide)]
  rfl

/-- The text of an assertion that something is there. -/
theorem line?_nonNull (he : e.kind ∈ treeKinds) :
    (doc .typed (.tsNonNullExpression e)).line? = (doc .typed e ++ "!").line? := by
  rw [doc_eq (p := .nonNullExpression) rfl, ← operand_eq_doc .tsNonNullExpression he (by decide)]
  rfl

end Lines

/-! ## §2. Regrouping changes no text. -/

/-- **The text of what captures a `new` begins with it.** -/
theorem Canonical.line?_capture {n : Node} (h : Canonical n) : reachesCall n = true →
    (doc .typed (Callee.capture n)).line? = ("new " ++ doc .typed n).line? := by
  have hlink :
      ∀ {o o' : Node} {link : Doc}, (doc .typed o').line? = ("new " ++ doc .typed o).line? →
      (doc .typed o' ++ link).line? = ("new " ++ (doc .typed o ++ link)).line? := by
    intro o o' link ho
    rw [← Doc.line?_append_assoc]
    exact line?_append_congr ho rfl
  have hnew : ∀ {a b : Doc}, a.line? = b.line? → ("new " ++ a).line? = ("new " ++ b).line? :=
    line?_append_congr rfl
  induction h with
  | name | newBare | newWrapped =>
    intro hn
    cases hn
  | field h _ ih =>
    intro hn
    rw [hnew (line?_field h.kind_mem)]
    exact (line?_field (h.capture hn).kind_mem).trans (hlink (ih hn))
  | index h _ ih _ =>
    intro hn
    rw [hnew (line?_index h.kind_mem)]
    exact (line?_index (h.capture hn).kind_mem).trans (hlink (ih hn))
  | @call c args h _ ih _ =>
    intro _
    rw [capture_call, hnew (line?_call h.kind_mem)]
    -- the call is the innermost one unless its callee reaches another
    split
    · next hreach =>
      rw [line?_call (h.capture hreach).kind_mem]
      exact hlink (ih hreach)
    · next hreach =>
      have hcall : c.hasCall = false :=
        Bool.eq_false_iff.mpr fun hc => hreach (reachesCall_of_hasCall hc)
      rw [line?_new h.kind_mem, hcall]
      rfl
  | tagged h _ ih =>
    intro hn
    rw [plainTemplate, hnew (line?_tagged h.kind_mem)]
    exact (line?_tagged (h.capture hn).kind_mem).trans (hlink (ih hn))
  | nonNull h ih =>
    intro hn
    rw [hnew (line?_nonNull h.kind_mem)]
    exact (line?_nonNull (h.capture hn).kind_mem).trans (hlink (ih hn))

/-- **A tree is written as what it is regrouped to.** -/
theorem Tree.line?_regrouped {n : Node} (h : Tree n) :
    (doc .typed (regrouped n)).line? = (doc .typed n).line? := by
  induction h with
  | name => rfl
  | field h _ ih =>
    rw [line?_field h.kind_mem]
    exact (line?_field h.canonical.kind_mem).trans (line?_append_congr ih rfl)
  | index h _ ih ihi =>
    have hbrackets := line?_append_congr (line?_append_congr (a := "[") rfl ihi) (b := "]") rfl
    rw [line?_index h.kind_mem]
    exact (line?_index h.canonical.kind_mem).trans (line?_append_congr ih hbrackets)
  | @call c args h _ ih iha =>
    rw [line?_call h.kind_mem, regrouped_call, line?_call h.canonical.kind_mem]
    exact line?_append_congr ih (line?_sequence_congr iha)
  | @new c args h _ ih iha =>
    have hargs := line?_sequence_congr iha
    rw [line?_new h.kind_mem, regrouped_new]
    cases hwrapped : c.hasCall with
    | true =>
      rw [instantiated, line?_new h.canonical.kind_mem, h.hasCall_regrouped hwrapped]
      have hparens := line?_append_congr (line?_append_congr (a := "(") rfl ih) (b := ")") rfl
      exact line?_append_congr rfl (line?_append_congr hparens hargs)
    | false =>
      rw [instantiated]
      split
      · next hreach =>
        rw [line?_call (h.canonical.capture hreach).kind_mem, ← Doc.line?_append_assoc]
        -- the callee with its `new` in front is now the callee of a call
        refine line?_append_congr ?_ hargs
        exact (h.canonical.line?_capture hreach).trans (line?_append_congr rfl ih)
      · next hreach =>
        have hcall : (regrouped c).hasCall = false :=
          Bool.eq_false_iff.mpr fun hc => hreach (reachesCall_of_hasCall hc)
        rw [line?_new h.canonical.kind_mem, hcall]
        exact line?_append_congr rfl (line?_append_congr ih hargs)
  | tagged h _ ih =>
    rw [line?_tagged h.kind_mem]
    exact (line?_tagged h.canonical.kind_mem).trans (line?_append_congr ih rfl)
  | nonNull h ih =>
    rw [line?_nonNull h.kind_mem]
    exact (line?_nonNull h.canonical.kind_mem).trans (line?_append_congr ih rfl)

/-! ## §3. The reader. -/

/-- Where a tree is read. Arguments after a callee of `new` are not its own. -/
inductive Place where
  | whole | callee
  deriving DecidableEq

/-- The reader: a name, an instantiation or a tree in parentheses, and links as long as they come.
-/
def reader : Reader Place where
  start _ next := .take fun t =>
    if t = "new" then .part .callee fun c => .token "("
      (.listed .whole ")" fun args => next (.newExpression c args false none))
    else if t = "(" then .part .whole fun n => .token ")" (next n)
    else next (named t)
  more p n t :=
    if t = "." then some fun next => .take fun x => next (.memberExpression n (named x) false false)
    else if t = "[" then some fun next =>
      .part .whole fun i => .token "]" (next (.memberExpression n i true false))
    else if t = "`" then some fun next =>
      .ifNext "`" (next (.taggedTemplateExpression n (plainTemplate "")))
        (.take fun raw => .token "`" (next (.taggedTemplateExpression n (plainTemplate raw))))
    else if t = "!" then some fun next => next (.tsNonNullExpression n)
    else if t = "(" ∧ p = .whole then some fun next =>
      .listed .whole ")" fun args => next (.callExpression n args false none)
    else none

/-- The tokens that a link begins with. -/
def linkTokens : List Token := [".", "[", "`", "!", "("]

/-- Letters are a word, if there are any. -/
theorem letters_cases {raw : String} (h : raw.toList.all Char.isAlpha = true) :
    raw = "" ∨ isWord raw = true := by
  cases hcs : raw.toList with
  | nil => exact .inl (String.toList_inj.mp hcs)
  | cons c cs =>
    rw [hcs, List.all_cons, Bool.and_eq_true, List.all_eq_true] at h
    refine .inr ?_
    rw [isWord, hcs, Bool.and_eq_true, List.all_eq_true]
    refine ⟨by simp [isNameStart, h.1], fun d hd => ?_⟩
    simp [isNamePart, isNameStart, h.2 d hd]

/-- The reader comes from the tokens to the tree, whatever follows. As the callee of an
instantiation it takes only trees from which no call is reached. -/
structure Found (ts : List Token) (n : Node) : Prop where
  opens : ∃ x more, ts = x :: more ∧ isWord x = true
  run : ∀ {p : Place} {next : Node → Plan Place} {rest : List Token},
    (p = .callee → reachesCall n = false) →
    Reaches reader (.part p next, ts ++ rest) (.goOn p n next, rest)

namespace Found

variable {ts us : List Token} {t x : Token} {n m i : Node}

/-- A tree is read as it stands where no link comes. -/
theorem readsPart (h : Found ts n) : ReadsPart reader .whole (Ends linkTokens) (ts, n) := by
  have hplace : Place.whole = .callee → reachesCall n = false := fun hp => by cases hp
  have hmore : ∀ t, t ∉ linkTokens → reader.more .whole n t = none := by
    intro t ht
    simp only [linkTokens, List.mem_cons, List.not_mem_nil, or_false, not_or] at ht
    simp [reader, ht]
  exact readsPart_of_run (fun _ => h.run hplace) hmore

theorem name (hx : IsIdentifier x) : Found [x] (named x) := by
  refine ⟨⟨x, [], rfl, hx.1⟩, fun _ => .part (.take ?_)⟩
  have hnew : x ≠ "new" := by
    rintro rfl
    exact hx.2 (by decide)
  rw [if_neg hnew, if_neg (hx.ne (by decide))]
  exact .refl _

/-- The reader goes on with a link, which does not hide a call. -/
theorem onward {c : (Node → Plan Place) → Plan Place} (h : Found ts n)
    (hm : ∀ p, (p = .callee → reachesCall m = false) → reader.more p n t = some c)
    (hreach : reachesCall m = false → reachesCall n = false)
    (hlink : ∀ {next : Node → Plan Place} {rest : List Token},
      Reaches reader (c next, us ++ rest) (next m, rest)) : Found (ts ++ t :: us) m := by
  obtain ⟨x, more, rfl, hx⟩ := h.opens
  refine ⟨⟨x, more ++ t :: us, rfl, hx⟩, fun {p next rest} hp => ?_⟩
  rw [List.append_assoc]
  exact (h.run fun hc => hreach (hp hc)).trans (.onward (hm p hp) hlink)

theorem field (h : Found ts n) :
    Found (ts ++ [".", x]) (.memberExpression n (named x) false false) :=
  h.onward (c := fun next => .take fun _ => next _) (fun _ _ => rfl) id (.take (.refl _))

/-- A member by an expression in brackets. -/
theorem index (h : Found ts n) (hi : Found us i) :
    Found (ts ++ "[" :: (us ++ ["]"])) (.memberExpression n i true false) := by
  refine h.onward (fun _ _ => rfl) id fun {next rest} => ?_
  rw [List.append_assoc]
  exact (hi.readsPart (.cons (by decide))).trans (.token (.refl _))

/-- A template: the reader takes a quote that comes at once for its end. -/
theorem tagged {raw : String} (h : Found ts n) (hraw : raw.toList.all Char.isAlpha = true) :
    Found (ts ++ "`" :: (tokens raw.toList ++ ["`"]))
      (.taggedTemplateExpression n (plainTemplate raw)) := by
  refine h.onward (fun _ _ => rfl) id fun {next rest} => ?_
  rcases letters_cases hraw with rfl | hword
  · exact .ifNext (.refl _)
  · have hquote : raw ≠ "`" := by
      rintro rfl
      exact absurd hword (by decide)
    rw [Words.tokens_word hword]
    exact .ifNext_of_ne (by simpa using hquote) (.take (.token (.refl _)))

theorem nonNull (h : Found ts n) : Found (ts ++ ["!"]) (.tsNonNullExpression n) :=
  h.onward (c := fun next => next _) (fun _ _ => rfl) id (.refl _)

/-- Arguments in parentheses. -/
theorem listed {items : List Item} (hitems : ∀ j ∈ items, Found j.1 j.2)
    {next : List Node → Plan Place} {rest : List Token} :
    Reaches reader (.listed .whole ")" next, commaSeparated items ++ [")"] ++ rest)
      (next (trees items), rest) := by
  rw [List.append_assoc]
  -- an item begins with a word, so it is not taken for the end of the arguments
  exact reaches_listed (by decide) (fun _ => .cons (by decide)) (fun _ => .cons (by decide))
    (fun j hj => (hitems j hj).readsPart) (fun j hj => opens_of_isWord (hitems j hj).opens)
    (mem_closings ")" items)

/-- A call, which is not read as the callee of an instantiation. -/
theorem call {items : List Item} (h : Found ts n) (hitems : ∀ j ∈ items, Found j.1 j.2) :
    Found (ts ++ "(" :: (commaSeparated items ++ [")"]))
      (.callExpression n (trees items) false none) := by
  refine h.onward
    (c := fun next => .listed .whole ")" fun args => next (.callExpression n args false none))
    (fun p hp => ?_) (fun hm => by cases hm) (listed hitems)
  cases p with
  | whole => rfl
  | callee => cases hp rfl

/-- The callee of an instantiation ends where its arguments begin. -/
theorem new {items : List Item}
    (hc : ∀ {next : Node → Plan Place} {rest : List Token},
      Reaches reader (.part .callee next, ts ++ rest) (.goOn .callee n next, rest))
    (hitems : ∀ j ∈ items, Found j.1 j.2) :
    Found ("new" :: (ts ++ "(" :: (commaSeparated items ++ [")"])))
      (.newExpression n (trees items) false none) := by
  refine ⟨⟨"new", _, rfl, by decide⟩, fun {p next rest} _ => ?_⟩
  rw [List.cons_append, List.append_assoc]
  refine .part (.take ?_)
  rw [if_pos rfl]
  refine hc.trans (.stop ?_ (.token (listed hitems)))
  rintro _ ⟨⟩
  rfl

/-- An instantiation whose callee reaches no call. -/
theorem newBare {items : List Item} (hn : reachesCall n = false) (h : Found ts n)
    (hitems : ∀ j ∈ items, Found j.1 j.2) :
    Found ("new" :: (ts ++ "(" :: (commaSeparated items ++ [")"])))
      (.newExpression n (trees items) false none) :=
  new (h.run fun _ => hn) hitems

/-- An instantiation whose callee stands in parentheses. -/
theorem newWrapped {items : List Item} (h : Found ts n) (hitems : ∀ j ∈ items, Found j.1 j.2) :
    Found ("new" :: ("(" :: (ts ++ [")"]) ++ "(" :: (commaSeparated items ++ [")"])))
      (.newExpression n (trees items) false none) := by
  refine new (fun {next rest} => ?_) hitems
  rw [List.cons_append, List.append_assoc]
  refine .part (.take ?_)
  rw [if_neg (by decide), if_pos rfl]
  exact (h.readsPart (.cons (by decide))).trans (.token (.refl _))

/-- The tokens have one tree. -/
theorem unique (hn : Found ts n) (hm : Found ts m) : n = m :=
  ReadsPart.unique .nil hn.readsPart hm.readsPart

end Found

/-! ## §4. Spelling. -/

/-- The text of the document is the tokens, if no character of a name follows. -/
def Spells (d : Doc) (ts : List Token) : Prop :=
  ∃ cs, d.line? = some cs ∧ ∀ rest : List Char, (∀ c ∈ rest.head?, isNamePart c = false) →
    tokens (cs ++ rest) = ts ++ tokens rest

namespace Spells

variable {a b : Doc} {ts us : List Token} {g o c x : String} {t : Token}

/-- Documents with the same text spell the same. -/
theorem of_line?_eq (h : Spells a ts) (hb : b.line? = a.line?) : Spells b ts := by
  obtain ⟨cs, ha, hcs⟩ := h
  exact ⟨cs, hb.trans ha, hcs⟩

theorem nil : Spells .nil [] := ⟨[], rfl, fun _ _ => rfl⟩

theorem word (hx : isWord x = true) : Spells (.text x) [x] :=
  ⟨x.toList, rfl, fun _ hr => Words.tokens_word_append hx hr⟩

/-- A document after a text that ends in no name. -/
theorem after (hg : Introduces g [t]) (h : Spells a ts) : Spells (.text g ++ a) (t :: ts) := by
  obtain ⟨cs, ha, hcs⟩ := h
  refine ⟨g.toList ++ cs, by simp [ha], fun rest hr => ?_⟩
  rw [List.append_assoc, Words.cuts_tokens hg.2, hg.1, hcs rest hr]
  rfl

/-- Two documents with a text between them that keeps names apart. -/
theorem link (h : Spells a ts) (hg : Divides g [t]) (h' : Spells b us) :
    Spells (a ++ (.text g ++ b)) (ts ++ t :: us) := by
  obtain ⟨cs, ha, hcs⟩ := h
  obtain ⟨ds, hb, hds⟩ := h'
  refine ⟨cs ++ (g.toList ++ ds), by simp [ha, hb], fun rest hr => ?_⟩
  rw [List.append_assoc, List.append_assoc, hcs _ (hg.head _), Words.cuts_tokens hg.1.2, hg.1.1,
    hds rest hr, List.append_assoc]
  rfl

/-- A document with another one between two texts after it. -/
theorem enclose (h : Spells a ts) (ho : Divides o [o]) (h' : Spells b us) (hc : Divides c [c]) :
    Spells (a ++ (.text o ++ b ++ .text c)) (ts ++ o :: (us ++ [c])) := by
  have hend : Spells (b ++ (.text c ++ .nil)) (us ++ [c]) := h'.link hc nil
  refine (h.link ho hend).of_line?_eq (line?_append_congr rfl ?_)
  rw [Doc.line?_append_assoc]
  exact line?_append_congr rfl (line?_append_congr rfl (by simp))

/-- Letters spell the word that they are, or nothing. -/
theorem letters {raw : String} (h : raw.toList.all Char.isAlpha = true) :
    Spells (.text raw) (tokens raw.toList) := by
  rcases letters_cases h with rfl | hword
  · exact nil.of_line?_eq rfl
  · rw [Words.tokens_word hword]
    exact word hword

/-- Arguments after a document. -/
theorem arguments {ns : List Node} (h : Spells a ts)
    (hns : ∀ n ∈ ns, ∃ ts, Spells (doc .typed n) ts ∧ Found ts n) :
    ∃ items : List Item, trees items = ns ∧ (∀ j ∈ items, Found j.1 j.2) ∧
      Spells (a ++ argumentsDoc .typed ns) (ts ++ "(" :: (commaSeparated items ++ [")"])) := by
  have hjoin : ∃ items : List Item, trees items = ns ∧ (∀ j ∈ items, Found j.1 j.2) ∧
      Spells (.join ", " (ns.map (doc .typed))) (commaSeparated items) := by
    clear h
    induction ns with
    | nil => exact ⟨[], rfl, fun _ hj => absurd hj List.not_mem_nil, nil⟩
    | cons n ns ih =>
      obtain ⟨⟨us, hs, hf⟩, hns⟩ := List.forall_mem_cons.mp hns
      obtain ⟨items, rfl, hitems, hspells⟩ := ih hns
      refine ⟨(us, n) :: items, rfl, List.forall_mem_cons.mpr ⟨hf, hitems⟩, ?_⟩
      cases items with
      | nil => exact hs
      | cons j items =>
        exact (hs.link (g := ", ") (t := ",") (by decide) hspells).of_line?_eq
          (Doc.line?_append_assoc _ _ _)
  obtain ⟨items, htrees, hitems, hspells⟩ := hjoin
  exact ⟨items, htrees, hitems, h.enclose (o := "(") (c := ")") (by decide) hspells (by decide)⟩

/-- A tree whose document spells tokens has one text, whatever the layout, which is cut into them.
-/
theorem generate {n : Node} (h : Spells (doc .typed n) ts) :
    ∃ text, (∀ l, (Generator.ofDialect .typed l).generate n = .ok text) ∧
      tokens text.toList = ts := by
  obtain ⟨cs, hline, hcs⟩ := h
  refine ⟨String.ofList cs, Generator.generate_of_line? hline, ?_⟩
  have htokens := hcs [] nofun
  rw [List.append_nil] at htokens
  rw [String.toList_ofList, htokens]
  exact List.append_nil ts

end Spells

/-- **A canonical tree is read back.** The induction is on the tree: a link reads its tree at the
same place, and the callee of `new` is read as one, unless it is in parentheses. -/
theorem Canonical.spelled {n : Node} (h : Canonical n) :
    ∃ ts, Spells (doc .typed n) ts ∧ Found ts n := by
  induction h with
  | name hx => exact ⟨_, (Spells.word hx.1).of_line?_eq (line?_named .typed _), .name hx⟩
  | field h hx ih =>
    obtain ⟨ts, hs, hf⟩ := ih
    refine ⟨_, ?_, hf.field⟩
    exact (hs.link (g := ".") (t := ".") (by decide) (.word hx.1)).of_line?_eq
      (line?_field h.kind_mem)
  | index h _ ih ihi =>
    obtain ⟨ts, hs, hf⟩ := ih
    obtain ⟨us, hs', hf'⟩ := ihi
    refine ⟨_, ?_, hf.index hf'⟩
    exact (hs.enclose (o := "[") (c := "]") (by decide) hs' (by decide)).of_line?_eq
      (line?_index h.kind_mem)
  | call h _ ih iha =>
    obtain ⟨ts, hs, hf⟩ := ih
    obtain ⟨items, rfl, hitems, hs'⟩ := hs.arguments iha
    exact ⟨_, hs'.of_line?_eq (line?_call h.kind_mem), hf.call hitems⟩
  | @newBare c _ hreach h _ ih iha =>
    obtain ⟨ts, hs, hf⟩ := ih
    obtain ⟨items, rfl, hitems, hs'⟩ := hs.arguments iha
    -- a callee with a call would reach it, so this one has no parentheses
    have hcall : c.hasCall = false :=
      Bool.eq_false_iff.mpr fun hc => by simp [reachesCall_of_hasCall hc] at hreach
    refine ⟨_, ?_, hf.newBare hreach hitems⟩
    refine (hs'.after (g := "new ") (t := "new") (by decide)).of_line?_eq ?_
    rw [line?_new h.kind_mem, hcall]
    rfl
  | @newWrapped c _ hcall h _ ih iha =>
    obtain ⟨ts, hs, hf⟩ := ih
    have hparens : Spells (doc .typed c).parens ("(" :: (ts ++ [")"])) :=
      (Spells.nil.enclose (o := "(") (c := ")") (by decide) hs (by decide)).of_line?_eq
        (by simp [Doc.parens])
    obtain ⟨items, rfl, hitems, hs'⟩ := hparens.arguments iha
    refine ⟨_, ?_, hf.newWrapped hitems⟩
    refine (hs'.after (g := "new ") (t := "new") (by decide)).of_line?_eq ?_
    rw [line?_new h.kind_mem, hcall]
    rfl
  | tagged h hraw ih =>
    obtain ⟨ts, hs, hf⟩ := ih
    refine ⟨_, ?_, hf.tagged hraw⟩
    exact (hs.enclose (o := "`") (c := "`") (by decide) (.letters hraw) (by decide)).of_line?_eq
      (line?_tagged h.kind_mem)
  | nonNull h ih =>
    obtain ⟨ts, hs, hf⟩ := ih
    refine ⟨_, ?_, hf.nonNull⟩
    refine (hs.link (g := "!") (t := "!") (by decide) .nil).of_line?_eq ?_
    rw [line?_nonNull h.kind_mem]
    simp

end Estree.Expression.Callee
