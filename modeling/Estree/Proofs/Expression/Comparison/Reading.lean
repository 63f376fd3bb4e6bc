import Estree.Proofs.Expression.Comparison.Marks
import Estree.Proofs.Expression.Spelling
import Estree.Proofs.Expression.Words
import Estree.Proofs.Reading

/-!
# Comparisons are read back from their marks

The reader takes the marked tokens of a tree of names, comparisons, sequences and calls. A
comparison associates to the left, so as a right operand and as a callee it stands in parentheses,
like the trees of a sequence; the reader counts the trees between the parentheses. A right operand
ends before the next comparison, but not before arguments (`argumentTokens`); a whole tree ends
where neither comes (`linkTokens`).

The text of a tree without its spaces is the tokens, written one after the other, and it is cut into
them again.

Main results:

  * `Tree.found`, `Tree.eq_of_marked_eq`: the reader comes from the marked tokens of a tree to this
    tree, and so no two trees have the same ones;
  * `Apart.tokens_written`: the characters of the tokens are cut into them;
  * `Tree.prints`: the text of a tree without its spaces is its tokens.
-/

namespace Estree.Expression.Comparison

open Reading
open Dialect (doc doc_eq)
open Doc (line?_append_congr)
open Words (tokens)

/-! ## §1. The reader. -/

/-- Where a tree is read. A right operand ends before the next comparison. -/
inductive Place where
  | whole | operand | type
  deriving DecidableEq

/-- The trees between two parentheses: one that was wrapped, or those of a sequence. -/
def grouped : List Node → Node
  | [n] => n
  | ns => .sequenceExpression ns

/-- The reader: a name or trees in parentheses, and comparisons and calls as long as they come. -/
def reader : Reader Place where
  start
    | .type, next => .take fun x => next (typeNamed x)
    | _, next => .take fun t =>
      if t = "(" then .parts .whole (fun us => us.head? == some ",") [] fun ns =>
        .token ")" (next (grouped ns))
      else next (named t)
  more
    | .type, _, _ => none
    | p, n, t =>
      if t = "(" then some fun next =>
        .listed .whole ")" fun args => next (.callExpression n args false none)
      else if t = "‹" then some fun next =>
        .listed .type "›" fun types => .token "(" (.listed .whole ")" fun args =>
          next (.callExpression n args false (some (.tsTypeParameterInstantiation types))))
      else if t ∈ comparisons ∧ p = .whole then some fun next =>
        .part .operand fun r => next (.binaryExpression t n r)
      else none

/-- The tokens that arguments begin with. -/
def argumentTokens : List Token := ["(", "‹"]

/-- The tokens that a tree goes on with: arguments and comparisons. -/
def linkTokens : List Token := argumentTokens ++ comparisons

/-- The reader comes from the tokens to the tree. It takes a comparison only for a whole tree, and
only where no arguments follow. -/
structure Found (ts : List Token) (n : Node) : Prop where
  opens : ∃ t more, ts = t :: more ∧ t ≠ ")"
  run : ∀ {p : Place} {next : Node → Plan Place} {rest : List Token}, p ≠ .type →
    (isComparison n = true → p = .whole ∧ Ends argumentTokens rest) →
    Reaches reader (.part p next, ts ++ rest) (.goOn p n next, rest)

namespace Found

variable {ts us : List Token} {op x : Token} {n m l r c : Node}

/-- A tree is read as it stands where nothing goes on with it. -/
theorem readsPart (h : Found ts n) : ReadsPart reader .whole (Ends linkTokens) (ts, n) := by
  have hmore : ∀ t, t ∉ linkTokens → reader.more .whole n t = none := by
    intro t ht
    simp only [linkTokens, argumentTokens, List.mem_append, List.mem_cons, List.not_mem_nil,
      or_false, not_or] at ht
    simp [reader, ht]
  exact readsPart_of_run
    (fun hr => h.run (by simp) fun _ => ⟨rfl, hr.mono (List.subset_append_left _ _)⟩) hmore

theorem name (hx : IsIdentifier x) : Found [x] (named x) := by
  refine ⟨⟨x, [], rfl, hx.ne (by decide)⟩, fun {p next rest} hp _ => .part ?_⟩
  cases p with
  | type => exact absurd rfl hp
  | whole | operand =>
    refine .take ?_
    rw [if_neg (hx.ne (by decide))]
    exact .refl _

/-- The trees between parentheses. -/
theorem group {ns : List Node} (hne : ns ≠ []) (hns : ∀ n ∈ ns, Found (marked n) n)
    {p : Place} {next : Node → Plan Place} {rest : List Token} (hp : p ≠ .type) :
    Reaches reader (.part p next, "(" :: (markedList ns ++ [")"]) ++ rest)
      (.goOn p (grouped ns) next, rest) := by
  obtain ⟨n, ns, rfl⟩ := List.exists_cons_of_ne_nil hne
  have hitems : ∀ j ∈ item n :: ns.map item, ReadsPart reader .whole (Ends linkTokens) j := by
    rw [← List.map_cons]
    intro j hj
    obtain ⟨m, hm, rfl⟩ := List.mem_map.mp hj
    exact (hns m hm).readsPart
  -- the reader goes on at each comma and stops before the parenthesis
  have hparts : ∀ {next : List Node → Plan Place} {rest : List Token},
      Reaches reader (.parts .whole (fun us => us.head? == some ",") [] next,
        markedList (n :: ns) ++ ")" :: rest) (next (n :: ns), ")" :: rest) := by
    intro next rest
    have hrun : Reaches reader (.parts .whole (fun us => us.head? == some ",") [] next,
        commaSeparated ((n :: ns).map item) ++ ")" :: rest)
        (next ([] ++ trees ((n :: ns).map item)), ")" :: rest) :=
      reaches_parts (fun _ => .cons (by decide)) (.cons (by decide)) (by simp) hitems
        fun j _ us => by simp
    rwa [← markedList_eq, trees_map_item] at hrun
  refine .part ?_
  rw [List.cons_append, List.append_assoc]
  cases p with
  | type => exact absurd rfl hp
  | whole | operand => exact .take (hparts.trans (.token (.refl _)))

/-- A tree in parentheses, if it is a comparison, may stand anywhere. -/
theorem enclosedIf (h : Found (marked n) n) {p : Place} {next : Node → Plan Place}
    {rest : List Token} (hp : p ≠ .type) :
    Reaches reader (.part p next, Comparison.enclosedIf (isComparison n) (marked n) ++ rest)
      (.goOn p n next, rest) := by
  cases hn : isComparison n with
  | true => exact group (List.cons_ne_nil _ _) (List.forall_mem_singleton.mpr h) hp
  | false => exact h.run hp (by simp [hn])

/-- A tree begins like no end of a list, in parentheses or not. -/
theorem opens_enclosedIf (h : Found ts n) (wrapped : Bool) :
    ∃ t more, Comparison.enclosedIf wrapped ts = t :: more ∧ t ≠ ")" := by
  cases wrapped with
  | true => exact ⟨"(", _, rfl, by decide⟩
  | false => exact h.opens

/-- A sequence: more than one tree between parentheses. -/
theorem sequence {ns : List Node} (hlength : 2 ≤ ns.length)
    (hns : ∀ n ∈ ns, Found (marked n) n) :
    Found (marked (.sequenceExpression ns)) (.sequenceExpression ns) := by
  have hne : ns ≠ [] := by
    rintro rfl
    cases hlength
  have hgrouped : grouped ns = .sequenceExpression ns := by
    obtain ⟨n, ns, rfl⟩ := List.exists_cons_of_ne_nil hne
    cases ns with
    | nil => exact absurd hlength (by simp)
    | cons m ns => rfl
  refine ⟨⟨"(", _, rfl, by decide⟩, fun {p next rest} hp _ => ?_⟩
  have hrun : Reaches reader (.part p next, marked (.sequenceExpression ns) ++ rest)
      (.goOn p (grouped ns) next, rest) := group hne hns hp
  rwa [hgrouped] at hrun

/-- A comparison, where no arguments follow that its right operand would take. -/
theorem compare (hop : op ∈ comparisons) (hl : Found (marked l) l) (hr : Found (marked r) r) :
    Found (marked (.binaryExpression op l r)) (.binaryExpression op l r) := by
  have hopen : op ∉ argumentTokens := by
    revert op
    decide
  obtain ⟨t, more, ht, hclose⟩ := hl.opens
  refine ⟨⟨t, more ++ op :: _, by rw [marked, ht]; rfl, hclose⟩, fun {p next rest} hp hn => ?_⟩
  obtain ⟨rfl, hrest⟩ := hn rfl
  rw [marked, List.append_assoc, List.cons_append]
  -- the left operand is read where the whole tree is, and the right one after the operator
  refine (hl.run hp fun _ => ⟨rfl, .cons hopen⟩).trans
    (.onward (c := fun next => .part .operand fun r => next (.binaryExpression op l r)) ?_ ?_)
  · simp only [argumentTokens, List.mem_cons, List.not_mem_nil, or_false, not_or] at hopen
    simp [reader, hopen, hop]
  · refine (hr.enclosedIf (by simp)).trans (.stop (fun u hu => ?_) (.refl _))
    have hne := hrest u hu
    simp only [argumentTokens, List.mem_cons, List.not_mem_nil, or_false, not_or] at hne
    simp [reader, hne]

/-- Arguments in parentheses. -/
theorem listed {args : List Node} (hargs : ∀ n ∈ args, Found (marked n) n)
    {next : List Node → Plan Place} {rest : List Token} :
    Reaches reader (.listed .whole ")" next, markedList args ++ ")" :: rest)
      (next args, rest) := by
  have hitems : ∀ j ∈ args.map item, Found j.1 j.2 := by
    intro j hj
    obtain ⟨m, hm, rfl⟩ := List.mem_map.mp hj
    exact hargs m hm
  have hrun : Reaches reader (.listed .whole ")" next,
      commaSeparated (args.map item) ++ ([")"] ++ rest)) (next (trees (args.map item)), rest) :=
    reaches_listed (by decide) (fun _ => .cons (by decide)) (fun _ => .cons (by decide))
      (fun j hj => (hitems j hj).readsPart) (fun j hj => (hitems j hj).opens)
      (mem_closings ")" (args.map item))
  rwa [← markedList_eq, trees_map_item] at hrun

/-- Type arguments between their brackets. -/
theorem listedTypes {xs : List Token} (hxs : ∀ x ∈ xs, IsIdentifier x)
    {next : List Node → Plan Place} {rest : List Token} :
    Reaches reader (.listed .type "›" next, markedList (xs.map typeNamed) ++ "›" :: rest)
      (next (xs.map typeNamed), rest) := by
  have hitems : ∀ j ∈ (xs.map typeNamed).map item,
      ReadsPart reader .type (fun _ => True) j ∧ ∃ t more, j.1 = t :: more ∧ t ≠ "›" := by
    intro j hj
    obtain ⟨m, hm, rfl⟩ := List.mem_map.mp hj
    obtain ⟨x, hx, rfl⟩ := List.mem_map.mp hm
    refine ⟨fun _ _ _ => .part (.take (.stop (fun t _ => rfl) (.refl _))), x, [], rfl, ?_⟩
    exact (hxs x hx).ne (by decide)
  have hrun : Reaches reader (.listed .type "›" next,
      commaSeparated ((xs.map typeNamed).map item) ++ (["›"] ++ rest))
      (next (trees ((xs.map typeNamed).map item)), rest) :=
    reaches_listed (by decide) (fun _ => trivial) (fun _ => trivial)
      (fun j hj => (hitems j hj).1) (fun j hj => (hitems j hj).2)
      (mem_closings "›" _)
  rwa [← markedList_eq, trees_map_item] at hrun

theorem call {args : List Node} (hc : Found (marked c) c)
    (hargs : ∀ n ∈ args, Found (marked n) n) :
    Found (marked (.callExpression c args false none)) (.callExpression c args false none) := by
  obtain ⟨t, more, ht, hclose⟩ := hc.opens_enclosedIf (isComparison c)
  refine ⟨⟨t, more ++ _, by rw [marked, ht]; rfl, hclose⟩, fun {p next rest} hp _ => ?_⟩
  rw [marked, List.append_assoc, List.cons_append, List.append_assoc]
  refine (hc.enclosedIf hp).trans ?_
  cases p with
  | type => exact absurd rfl hp
  | whole | operand => exact .onward rfl (listed hargs)

/-- A call with type arguments. -/
theorem generic {xs : List Token} {args : List Node} (hc : Found (marked c) c)
    (hxs : ∀ x ∈ xs, IsIdentifier x) (hargs : ∀ n ∈ args, Found (marked n) n) :
    Found (marked (.callExpression c args false (some (typeArguments xs))))
      (.callExpression c args false (some (typeArguments xs))) := by
  obtain ⟨t, more, ht, hclose⟩ := hc.opens_enclosedIf (isComparison c)
  refine ⟨⟨t, more ++ _, by rw [marked, ht]; rfl, hclose⟩, fun {p next rest} hp _ => ?_⟩
  have hsplit : marked (typeArguments xs) ++ "(" :: (markedList args ++ [")"]) ++ rest =
      "‹" :: (markedList (xs.map typeNamed) ++ "›" :: "(" :: (markedList args ++ ")" :: rest)) := by
    simp [typeArguments, marked]
  rw [marked, List.append_assoc, hsplit]
  refine (hc.enclosedIf hp).trans ?_
  cases p with
  | type => exact absurd rfl hp
  | whole | operand => exact .onward rfl ((listedTypes hxs).trans (.token (listed hargs)))

/-- The tokens have one tree. -/
theorem unique (hn : Found ts n) (hm : Found ts m) : n = m :=
  ReadsPart.unique .nil hn.readsPart hm.readsPart

end Found

/-- **The marked tokens of a tree are read as this tree.** -/
theorem Tree.found {n : Node} (h : Tree n) : Found (marked n) n := by
  induction h with
  | name hx => exact .name hx
  | compare hop _ _ ihl ihr => exact .compare hop ihl ihr
  | sequence hlength _ ih => exact .sequence hlength ih
  | call _ _ ihc iha => exact .call ihc iha
  | generic _ hxs _ ihc iha => exact .generic ihc hxs iha

/-- Trees with the same marked tokens are equal. -/
theorem Tree.eq_of_marked_eq {n m : Node} (hn : Tree n) (hm : Tree m)
    (h : marked n = marked m) : n = m :=
  hn.found.unique (h ▸ hm.found)

/-! ## §2. Written tokens. -/

/-- A text without its spaces. -/
def squeezed (cs : List Char) : List Char := cs.filter (· != ' ')

/-- The characters of marked tokens. -/
def written (ts : List Token) : List Char := (plain ts).flatMap String.toList

@[simp] theorem written_append (ts us : List Token) :
    written (ts ++ us) = written ts ++ written us := by
  simp [written, plain]

/-- The characters of a token come first. -/
theorem written_cons (t : Token) (ts : List Token) :
    written (t :: ts) = (plainToken t).toList ++ written ts := by
  simp [written, plain]

/-- `Apart ts`: there is a bracket, a comma or a comparison between two names. -/
inductive Apart : List Token → Prop where
  | nil : Apart []
  | word {x : Token} : isWord x = true → Apart [x]
  | link {ts us : List Token} {t : Token} : Apart ts →
      t ∈ ["(", ")", ",", "<", ">", "‹", "›"] → Apart us → Apart (ts ++ t :: us)

/-- A word is written as it is. -/
theorem plainToken_of_isWord {x : Token} (hx : isWord x = true) : plainToken x = x :=
  plainToken_of_isOuter (by simp [isOuter, hx])

/-- **The characters of tokens that are apart are cut into these tokens**, whatever follows that
goes on with no name. -/
theorem Apart.tokens_append {ts : List Token} (h : Apart ts) : ∀ rest : List Char,
    (∀ c ∈ rest.head?, isNamePart c = false) →
    tokens (written ts ++ rest) = plain ts ++ tokens rest := by
  induction h with
  | nil => exact fun _ _ => rfl
  | @word x hx =>
    intro rest hr
    have hplain : plain [x] = [x] := by rw [plain, List.map_singleton, plainToken_of_isWord hx]
    have hwritten : written [x] = x.toList := by rw [written, hplain]; simp
    rw [hplain, hwritten]
    exact Words.tokens_word_append hx hr
  | @link ts us t _ ht _ ih ih' =>
    intro rest hr
    obtain ⟨htokens, hlast, c, hhead, hc⟩ : tokens (plainToken t).toList = [plainToken t] ∧
        (plainToken t).toList.getLast?.any isNamePart = false ∧
        ∃ c, (plainToken t).toList = [c] ∧ isNamePart c = false := by
      simp only [List.mem_cons, List.not_mem_nil, or_false] at ht
      rcases ht with rfl | rfl | rfl | rfl | rfl | rfl | rfl <;>
        exact ⟨by decide, by decide, _, rfl, by decide⟩
    -- the link goes on with no name, so the tokens before it end where they do
    have hapart : ∀ d ∈ ((plainToken t).toList ++ (written us ++ rest)).head?,
        isNamePart d = false := by
      rw [hhead]
      rintro _ ⟨⟩
      exact hc
    rw [written_append, written_cons, List.append_assoc, List.append_assoc, ih _ hapart,
      Words.cuts_tokens hlast, htokens, ih' rest hr]
    simp [plain]

/-- The characters of tokens that are apart are cut into these tokens. -/
theorem Apart.tokens_written {ts : List Token} (h : Apart ts) :
    tokens (written ts) = plain ts := by
  have htokens := h.tokens_append [] nofun
  rw [List.append_nil] at htokens
  exact htokens.trans (List.append_nil _)

/-- Parentheses keep names apart. -/
theorem Apart.enclosed {ts : List Token} (h : Apart ts) : Apart ("(" :: (ts ++ [")"])) :=
  .link .nil (by decide) (.link h (by decide) .nil)

/-- Parentheses may also be missing. -/
theorem Apart.enclosedIf {ts : List Token} (h : Apart ts) (wrapped : Bool) :
    Apart (enclosedIf wrapped ts) := by
  cases wrapped with
  | true => exact h.enclosed
  | false => exact h

/-- So do commas. -/
theorem apart_markedList {ns : List Node} (h : ∀ n ∈ ns, Apart (marked n)) :
    Apart (markedList ns) := by
  induction ns with
  | nil => exact .nil
  | cons n ns ih =>
    obtain ⟨hn, hns⟩ := List.forall_mem_cons.mp h
    cases ns with
    | nil => exact hn
    | cons m ns => exact .link hn (by decide) (ih hns)

/-- No two names of a tree stand side by side. -/
theorem Tree.apart {n : Node} (h : Tree n) : Apart (marked n) := by
  induction h with
  | name hx => exact .word hx.1
  | compare hop _ _ ihl ihr =>
    have hmark : ∀ op ∈ comparisons, op ∈ ["(", ")", ",", "<", ">", "‹", "›"] := by decide
    exact .link ihl (hmark _ hop) (ihr.enclosedIf _)
  | sequence _ _ ih => exact (apart_markedList ih).enclosed
  | call _ _ ihc iha =>
    exact .link (ihc.enclosedIf _) (by decide) (.link (apart_markedList iha) (by decide) .nil)
  | @generic c xs args _ hxs _ ihc iha =>
    have htypes : Apart (markedList (xs.map typeNamed)) := by
      refine apart_markedList fun n hn => ?_
      obtain ⟨x, hx, rfl⟩ := List.mem_map.mp hn
      exact .word (hxs x hx).1
    have hargs : Apart ("(" :: (markedList args ++ [")"])) := (apart_markedList iha).enclosed
    rw [marked, typeArguments, marked, List.cons_append, List.append_assoc]
    exact .link (ihc.enclosedIf _) (by decide) (.link htypes (by decide) hargs)

/-! ## §3. The text of a tree. -/

/-- The document is one line, which is the tokens once its spaces are deleted. -/
def Prints (d : Doc) (ts : List Token) : Prop :=
  ∃ cs, d.line? = some cs ∧ squeezed cs = written ts

namespace Prints

variable {a b : Doc} {ts us : List Token}

/-- Documents with the same text print the same. -/
theorem of_line?_eq (h : Prints a ts) (hb : b.line? = a.line?) : Prints b ts := by
  obtain ⟨cs, ha, hcs⟩ := h
  exact ⟨cs, hb.trans ha, hcs⟩

/-- A text prints the tokens that it is without spaces. -/
theorem text {g : String} (h : squeezed g.toList = written ts) : Prints (.text g) ts :=
  ⟨g.toList, rfl, h⟩

/-- A word has no spaces. -/
theorem word {x : Token} (hx : isWord x = true) : Prints (.text x) [x] := by
  refine text ?_
  have hspace : ∀ c ∈ x.toList, (c != ' ') = true := by
    obtain ⟨c, cs, hcs, hc, hall⟩ := head_of_isWord hx
    rw [hcs]
    refine List.forall_mem_cons.mpr ⟨?_, fun d hd => ?_⟩
    · rw [bne_iff_ne]
      rintro rfl
      cases hc
    · rw [bne_iff_ne]
      rintro rfl
      cases hall _ hd
  rw [squeezed, List.filter_eq_self.mpr hspace, written_cons, plainToken_of_isWord hx]
  exact (List.append_nil _).symm

/-- Two documents side by side. -/
theorem append (h : Prints a ts) (h' : Prints b us) : Prints (a ++ b) (ts ++ us) := by
  obtain ⟨cs, ha, hcs⟩ := h
  obtain ⟨ds, hb, hds⟩ := h'
  refine ⟨cs ++ ds, by simp [ha, hb], ?_⟩
  rw [written_append, ← hcs, ← hds]
  exact List.filter_append ..

/-- A document between two texts. -/
theorem between {o c : String} {t u : Token} (h : Prints a ts)
    (ho : squeezed o.toList = written [t]) (hc : squeezed c.toList = written [u]) :
    Prints (.text o ++ a ++ .text c) (t :: (ts ++ [u])) :=
  ((text ho).append h).append (text hc)

/-- A document in parentheses. -/
theorem parens (h : Prints a ts) : Prints a.parens ("(" :: (ts ++ [")"])) :=
  h.between (by decide) (by decide)

/-- A document in parentheses, if so. -/
theorem parensIf (h : Prints a ts) (wrapped : Bool) :
    Prints (a.parensIf wrapped) (enclosedIf wrapped ts) := by
  cases wrapped with
  | true => exact h.parens
  | false => exact h

/-- The documents of nodes with commas between them. -/
theorem list {ns : List Node} (h : ∀ n ∈ ns, Prints (doc .typed n) (marked n)) :
    Prints (.join ", " (ns.map (doc .typed))) (markedList ns) := by
  induction ns with
  | nil => exact ⟨[], rfl, rfl⟩
  | cons n ns ih =>
    obtain ⟨hn, hns⟩ := List.forall_mem_cons.mp h
    cases ns with
    | nil => exact hn
    | cons m ns =>
      have hcomma : Prints (.text ", ") [","] := text (by decide)
      have htokens : markedList (n :: m :: ns) = marked n ++ [","] ++ markedList (m :: ns) := by
        simp [markedList]
      rw [htokens]
      exact (hn.append hcomma).append (ih hns)

end Prints

/-! ## §4. The documents of trees. -/

/-- A comparison is wrapped as the right operand of another, and nothing else is wrapped as an
operand. -/
theorem Tree.needsParens_eq {n l r : Node} {op : Token} (h : Tree n) (hop : op ∈ comparisons)
    (right : Bool) :
    (Grammar.ofDialect .typed).scope.needsParens n (.binaryExpression op l r) right =
      (right && isComparison n) := by
  have hops : ∀ {op : Token}, op ∈ comparisons → op = "<" ∨ op = ">" := by simp [comparisons]
  cases h with
  | compare hop' =>
    rcases hops hop with rfl | rfl <;> rcases hops hop' with rfl | rfl <;> cases right <;> rfl
  | _ => cases right <;> rfl

/-- A comparison is wrapped as a callee, and nothing else is. -/
theorem Tree.ranksBelow_eq {n : Node} (h : Tree n) :
    (Grammar.ofDialect .typed).scope.ranksBelow n.kind .callExpression = isComparison n := by
  cases h <;> rfl

/-- The document of a comparison. -/
theorem doc_compare {op : Token} {l r : Node} (hop : op ∈ comparisons) (hl : Tree l) (hr : Tree r) :
    doc .typed (.binaryExpression op l r) =
      doc .typed l ++ " " ++ .text op ++ " " ++ (doc .typed r).parensIf (isComparison r) := by
  have hin : (op == "in") = false := by
    revert op
    decide
  rw [doc_eq (p := .binaryExpression) rfl]
  change Emit.infixed _ _ op l r = _
  rw [Emit.infixed, hin, Scope.operandOf, Scope.operandOf, hl.needsParens_eq hop,
    hr.needsParens_eq hop]
  rfl

/-- The document of a sequence. -/
theorem doc_sequence (ns : List Node) :
    doc .typed (.sequenceExpression ns) = argumentsDoc .typed ns := by
  rw [doc_eq (p := .sequenceExpression) rfl]
  rfl

/-- The document of a call, with type arguments or without. -/
theorem doc_call {c : Node} {args : List Node} {types : Option Node} (hc : Tree c) :
    doc .typed (.callExpression c args false types) =
      (doc .typed c).parensIf (isComparison c) ++ .nil ++ .ofOption types (doc .typed) ++
        argumentsDoc .typed args := by
  rw [doc_eq (p := .callExpression .typed) rfl, ← hc.ranksBelow_eq]
  rfl

theorem prints_named {x : Token} (hx : isWord x = true) : Prints (doc .typed (named x)) [x] :=
  (Prints.word hx).of_line?_eq (line?_named .typed x)

/-- The document of type arguments prints their names between brackets. -/
theorem prints_typeArguments {xs : List Token} (hxs : ∀ x ∈ xs, IsIdentifier x) :
    Prints (doc .typed (typeArguments xs)) (marked (typeArguments xs)) := by
  have htype : ∀ n ∈ xs.map typeNamed, Prints (doc .typed n) (marked n) := by
    intro n hn
    obtain ⟨x, hx, rfl⟩ := List.mem_map.mp hn
    have hdoc : doc .typed (typeNamed x) = doc .typed (named x) ++ .nil := by
      rw [typeNamed, doc_eq (p := .typeReference) rfl]
      rfl
    exact (prints_named (hxs x hx).1).of_line?_eq (by simp [hdoc])
  have hdoc : doc .typed (typeArguments xs) =
      "<" ++ .join ", " ((xs.map typeNamed).map (doc .typed)) ++ ">" := by
    rw [typeArguments, doc_eq (p := .typeParameters) rfl]
    rfl
  rw [hdoc, typeArguments, marked]
  exact (Prints.list htype).between (by decide) (by decide)

/-- **The text of a tree without its spaces is its tokens.** -/
theorem Tree.prints {n : Node} (h : Tree n) : Prints (doc .typed n) (marked n) := by
  induction h with
  | name hx => exact prints_named hx.1
  | @compare op l r hop hl hr ihl ihr =>
    -- the operator comes between blanks, which are not printed
    have hword : Prints (.text " " ++ (.text op ++ .text " ")) [op] := by
      simp only [comparisons, List.mem_cons, List.not_mem_nil, or_false] at hop
      rcases hop with rfl | rfl <;> exact ⟨_, rfl, by decide⟩
    have hparts := (ihl.append hword).append (ihr.parensIf (isComparison r))
    rw [List.append_assoc] at hparts
    refine hparts.of_line?_eq ?_
    rw [doc_compare hop hl hr]
    refine line?_append_congr ?_ rfl
    -- only the grouping differs
    rw [Doc.line?_append_assoc, Doc.line?_append_assoc]
  | sequence _ _ ih =>
    rw [doc_sequence]
    exact (Prints.list ih).parens
  | @call c args hc _ ihc iha =>
    refine ((ihc.parensIf (isComparison c)).append (Prints.list iha).parens).of_line?_eq ?_
    rw [doc_call hc]
    exact line?_append_congr (by simp [Doc.ofOption]) rfl
  | @generic c xs args hc hxs _ ihc iha =>
    have htypes := (prints_typeArguments hxs).append (Prints.list iha).parens
    refine ((ihc.parensIf (isComparison c)).append htypes).of_line?_eq ?_
    rw [doc_call hc, Doc.line?_append_assoc]
    exact line?_append_congr (by simp) rfl

/-- A tree has one text, whatever the layout, and this is its tokens. -/
theorem Tree.generate {n : Node} (h : Tree n) :
    ∃ text, (∀ l, (Generator.ofDialect .typed l).generate n = .ok text) ∧
      squeezed text.toList = written (marked n) := by
  obtain ⟨cs, hline, hcs⟩ := h.prints
  exact ⟨String.ofList cs, Generator.generate_of_line? hline, by rwa [String.toList_ofList]⟩

end Estree.Expression.Comparison
