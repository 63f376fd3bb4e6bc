import Estree.Proofs.Expression.Chain.Boundary
import Estree.Proofs.Expression.Spelling
import Estree.Proofs.Reading

/-!
# Links are read back

The text of a tree of names, members, calls and chains shows every link, whether it is optional and
what it applies to, and nothing of the chains. Writing a chain is writing what it wraps, and no part
of such a tree is ever put in parentheses.

The reader here takes a name and goes on link by link. A link begins with one of four tokens
(`linkTokens`), so a tree ends where none of them comes.

Main results:

  * `Tree.line?_unchained`: a tree is written as it is without its boundaries;
  * `Found.field`, `Found.index`, `Found.call`: the reader goes on with each sort of link;
  * `Tree.spelled`: the tokens of a tree lead the reader to the tree without its chains.
-/

namespace Estree.Expression.Chain

open Reading

/-! ## §1. Operands. -/

/-- The kinds of the trees. -/
def treeKinds : List Kind := [.identifier, .memberExpression, .callExpression, .chainExpression]

/-- A tree is of one of the kinds. -/
theorem Tree.kind_mem {spine : Bool} {n : Node} (h : Tree spine n) : n.kind ∈ treeKinds := by
  cases h <;> simp [Node.kind, treeKinds, named]

/-- Without its boundaries a tree is of the same kinds. -/
theorem Tree.kind_unchained_mem {spine : Bool} {n : Node} (h : Tree spine n) :
    (unchained n).kind ∈ treeKinds := by
  induction h with
  | chain _ _ ih => exact ih
  | _ => simp [Node.kind, treeKinds, named, unchained]

/-- The kinds of the trees bind as tightly as members and calls, so none of them is wrapped. -/
theorem operand_eq_doc (d : Dialect) {n : Node} (hn : n.kind ∈ treeKinds) (position : Kind)
    (hp : position ∈ [Kind.memberExpression, .callExpression]) :
    (Grammar.ofDialect d).scope.operand n position = d.doc n := by
  have hall : ∀ k ∈ treeKinds, ∀ p ∈ [Kind.memberExpression, .callExpression],
      (Grammar.ofDialect d).scope.ranksBelow k p = false := by
    cases d <;> decide
  rw [Scope.operand, hall _ hn _ hp]
  rfl

section Documents

variable (d : Dialect) (o c i e : Node) (computed optional : Bool) (args : List Node)

/-- A member is its object and the link. -/
theorem doc_member (ho : o.kind ∈ treeKinds) :
    d.doc (.memberExpression o i computed optional) =
      d.doc o ++ Emit.memberName (Grammar.ofDialect d).scope i computed optional := by
  rw [Dialect.doc_eq (p := .memberExpression) (by cases d <;> rfl),
    ← operand_eq_doc d ho .memberExpression (by decide)]
  rfl

/-- A call is its callee and the link; there are no type arguments. -/
theorem line?_call (hc : c.kind ∈ treeKinds) :
    (d.doc (.callExpression c args optional none)).line? =
      (d.doc c ++ (.onlyIf optional "?." ++ argumentsDoc d args)).line? := by
  rw [Dialect.doc_eq (p := .callExpression d) (by cases d <;> rfl), ← Doc.line?_append_assoc,
    ← operand_eq_doc d hc .callExpression (by decide)]
  cases d with
  | plain => rfl
  | typed =>
    refine Doc.line?_append_congr ?_ rfl
    simp [Scope.emit?, Doc.ofOption]

/-- A chain is what it wraps. -/
theorem doc_chain : d.doc (.chainExpression e) = d.doc e := by
  rw [Dialect.doc_eq (p := .chainExpression) (by cases d <;> rfl)]
  rfl

end Documents

/-- **Chains leave no trace**: a tree is written as it is without its boundaries. -/
theorem Tree.line?_unchained {spine : Bool} {n : Node} (h : Tree spine n) (d : Dialect) :
    (d.doc (unchained n)).line? = (d.doc n).line? := by
  induction h with
  | name => rfl
  | @field _ optional _ x _ h _ ih =>
    rw [unchained, doc_member d _ _ _ _ h.kind_unchained_mem, doc_member d _ _ _ _ h.kind_mem]
    exact Doc.line?_append_congr ih rfl
  | @index _ optional _ _ _ h _ ih ihi =>
    rw [unchained, doc_member d _ _ _ _ h.kind_unchained_mem, doc_member d _ _ _ _ h.kind_mem]
    have hbrackets := Doc.line?_append_congr
      (Doc.line?_append_congr (a := "[") rfl ihi) (b := "]") rfl
    exact Doc.line?_append_congr ih (Doc.line?_append_congr rfl hbrackets)
  | call _ h _ ih iha =>
    rw [unchained, line?_call d _ _ _ h.kind_unchained_mem, line?_call d _ _ _ h.kind_mem,
      unchainedAll_eq_map]
    exact Doc.line?_append_congr ih (Doc.line?_append_congr rfl (line?_sequence_congr iha))
  | chain _ _ ih => rw [unchained, doc_chain, ih]

/-! ## §2. The reader. -/

/-- The plan for a link after the token that tells what it is. -/
def linkPlan (n : Node) (optional : Bool) (t : Token) (next : Node → Plan Unit) : Plan Unit :=
  if t = "[" then .part () fun i => .token "]" (next (.memberExpression n i true optional))
  else if t = "(" then .listed () ")" fun ns => next (.callExpression n ns optional none)
  else next (.memberExpression n (named t) false optional)

/-- The reader: a name, and links as long as they come. -/
def reader : Reader Unit where
  start _ next := .take fun x => next (named x)
  more _ n t :=
    if t = "." then some fun next => .take fun x => next (.memberExpression n (named x) false false)
    else if t = "?." then some fun next => .take fun u => linkPlan n true u next
    else if t ∈ ["[", "("] then some (linkPlan n false t)
    else none

/-- The mark of an optional link before a bracket or a parenthesis. -/
def mark (optional : Bool) : List Token := if optional then ["?."] else []

/-- The tokens that a link begins with. -/
def linkTokens : List Token := [".", "?.", "[", "("]

/-- The reader comes from the tokens to the tree, whatever follows. -/
structure Found (ts : List Token) (n : Node) : Prop where
  opens : ∃ x more, ts = x :: more ∧ isWord x = true
  run : ∀ {next : Node → Plan Unit} {rest : List Token},
    Reaches reader (.part () next, ts ++ rest) (.goOn () n next, rest)

namespace Found

variable {ts us : List Token} {t x : Token} {n m i : Node}

/-- A tree is read as it stands where no link comes. -/
theorem readsPart (h : Found ts n) : ReadsPart reader () (Ends linkTokens) (ts, n) := by
  refine readsPart_of_run (fun _ => h.run) fun t ht => ?_
  simp only [linkTokens, List.mem_cons, List.not_mem_nil, or_false, not_or] at ht
  simp [reader, ht]

theorem name (hx : isWord x = true) : Found [x] (named x) :=
  ⟨⟨x, [], rfl, hx⟩, .part (.take (.refl _))⟩

/-- The reader goes on with a link. -/
theorem onward {c : (Node → Plan Unit) → Plan Unit} (h : Found ts n)
    (hm : reader.more () n t = some c)
    (hlink : ∀ {next : Node → Plan Unit} {rest : List Token},
      Reaches reader (c next, us ++ rest) (next m, rest)) : Found (ts ++ t :: us) m := by
  obtain ⟨x, more, rfl, hx⟩ := h.opens
  refine ⟨⟨x, more ++ t :: us, rfl, hx⟩, fun {next rest} => ?_⟩
  rw [List.append_assoc]
  exact h.run.trans (.onward hm hlink)

/-- A member by name: a word comes after the mark of an optional link too. -/
theorem field (h : Found ts n) (hx : isWord x = true) (optional : Bool) :
    Found (ts ++ [if optional then "?." else ".", x])
      (.memberExpression n (named x) false optional) := by
  cases optional with
  | false =>
    exact h.onward (t := ".") (c := fun next => .take fun x => next _) rfl (.take (.refl _))
  | true =>
    have hbracket : x ≠ "[" := by
      rintro rfl
      exact absurd hx (by decide)
    have hparen : x ≠ "(" := by
      rintro rfl
      exact absurd hx (by decide)
    refine h.onward (t := "?.") rfl (.take ?_)
    rw [linkPlan, if_neg hbracket, if_neg hparen]
    exact .refl _

/-- A link that begins with a bracket or a parenthesis, and with a mark before it if it is optional.
-/
theorem marked {optional : Bool} (h : Found ts n) (ht : t ∈ ["[", "("])
    (hlink : ∀ {next : Node → Plan Unit} {rest : List Token},
      Reaches reader (linkPlan n optional t next, us ++ rest) (next m, rest)) :
    Found (ts ++ (mark optional ++ t :: us)) m := by
  cases optional with
  | false =>
    have hmore : reader.more () n t = some (linkPlan n false t) := by
      have hne : ∀ t ∈ ["[", "("], t ≠ "." ∧ t ≠ "?." := by decide
      simp only [reader, hne t ht, if_false, ht, if_true]
    exact h.onward hmore hlink
  | true => exact h.onward (t := "?.") rfl (.take hlink)

/-- A member by an expression in brackets. -/
theorem index (h : Found ts n) (hi : Found us i) (optional : Bool) :
    Found (ts ++ (mark optional ++ "[" :: (us ++ ["]"])))
      (.memberExpression n i true optional) := by
  refine h.marked (by decide) fun {next rest} => ?_
  rw [List.append_assoc]
  exact (hi.readsPart (.cons (by decide))).trans (.token (.refl _))

/-- A call: its arguments are read up to the parenthesis. -/
theorem call {items : List Item} (h : Found ts n) (hitems : ∀ j ∈ items, Found j.1 j.2)
    (optional : Bool) :
    Found (ts ++ (mark optional ++ "(" :: (commaSeparated items ++ [")"])))
      (.callExpression n (trees items) optional none) := by
  refine h.marked (by decide) fun {next rest} => ?_
  rw [List.append_assoc]
  -- an item begins with a word, so it is not taken for the end of the arguments
  exact reaches_listed (by decide) (fun _ => .cons (by decide)) (fun _ => .cons (by decide))
    (fun j hj => (hitems j hj).readsPart) (fun j hj => opens_of_isWord (hitems j hj).opens)
    (mem_closings ")" items)

/-- The tokens have one tree. -/
theorem unique (hn : Found ts n) (hm : Found ts m) : n = m :=
  ReadsPart.unique .nil hn.readsPart hm.readsPart

end Found

/-! ## §3. Spelling. -/

/-- What stands after an object: a punctuator that continues no name. -/
theorem spells_linked {d e : Doc} {ts us : List Token} {t : Token} (h : Spells d ts)
    (ht : t ∈ ["[", "("]) (he : Spells e (t :: us)) (optional : Bool) :
    Spells (d ++ (.onlyIf optional "?." ++ e)) (ts ++ (mark optional ++ t :: us)) := by
  have hfirst : ∀ t ∈ ["?.", "[", "("], t ∈ punctuators ∧ t.toList.head? ≠ some '=' := by decide
  cases optional with
  | false =>
    refine (h.append he ?_).of_line?_eq (by simp [Doc.onlyIf])
    rintro _ ⟨⟩
    exact hfirst t (List.mem_cons_of_mem _ ht)
  | true =>
    have hapart : Apart "?." (t :: us) := by
      have hall : ∀ t ∈ ["[", "("], (t.toList.head?.all fun c => !continues "?." c) = true := by
        decide
      rintro _ ⟨⟩ c hc
      simpa using (Option.all_eq_true _ _).mp (hall t ht) c hc
    refine h.append (he.after (.inr (by decide)) hapart) ?_
    rintro _ ⟨⟩
    exact hfirst "?." List.mem_cons_self

/-- **Every tree is read back without its chains.** The induction is on the tree; a chain adds
nothing to the tokens and nothing to the tree that they are read as. -/
theorem Tree.spelled {spine : Bool} {n : Node} (h : Tree spine n) (d : Dialect) :
    ∃ ts, Spells (d.doc n) ts ∧ Found ts (unchained n) := by
  have hname : ∀ {x : String}, IsIdentifier x → Spells (d.doc (named x)) [x] :=
    fun hx => (Spells.word hx.1).of_line?_eq (line?_named d _)
  induction h with
  | name hx => exact ⟨_, hname hx, .name hx.1⟩
  | @field _ optional o x _ h hx ih =>
    obtain ⟨ts, hs, hf⟩ := ih
    refine ⟨_, ?_, hf.field hx.1 optional⟩
    rw [doc_member d _ _ _ _ h.kind_mem]
    -- neither a dot nor a question mark runs into the name after it
    have hlink : ∀ t ∈ ["?.", "."], Spells (.text t ++ d.doc (named x)) [t, x] := by
      have hall : ∀ t ∈ ["?.", "."], t ∈ punctuators ∧ isWord t = false := by decide
      intro t ht
      obtain ⟨hpunctuator, hword⟩ := hall t ht
      exact (hname hx).after (.inr hpunctuator) (apart_of_isWord hword hx.1)
    cases optional with
    | false => exact hs.append (hlink "." (by decide)) (by rintro _ ⟨⟩; decide)
    | true => exact hs.append (hlink "?." (by decide)) (by rintro _ ⟨⟩; decide)
  | @index _ optional o i _ h _ ih ihi =>
    obtain ⟨ts, hs, hf⟩ := ih
    obtain ⟨us, hs', hf'⟩ := ihi
    refine ⟨_, ?_, hf.index hf' optional⟩
    rw [doc_member d _ _ _ _ h.kind_mem]
    exact spells_linked hs (by decide) hs'.brackets optional
  | @call _ optional c args _ h _ ih iha =>
    obtain ⟨ts, hs, hf⟩ := ih
    obtain ⟨items, htrees, hitems, hs'⟩ := spells_sequence iha
    rw [unchained, unchainedAll_eq_map, ← htrees]
    exact ⟨_, (spells_linked hs (by decide) hs' optional).of_line?_eq
      (line?_call d _ _ _ h.kind_mem),
      hf.call hitems optional⟩
  -- neither the tokens nor the tree that is read know of the chain
  | chain _ _ ih => rwa [doc_chain]

end Estree.Expression.Chain
