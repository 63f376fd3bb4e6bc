import Estree.Proofs.TypeSyntax.Grammar

/-!
# The grammar of types is unambiguous

A reader takes types from left to right. It decides by one token, but for an arrow: a parenthesis
begins parameters if it closes at once or if a colon or a question mark comes after the next token
(`arrow?`). A tree ends where none of the tokens comes that would continue it (`Follows`).

Main results:

  * `arrow?_words`, `arrow?_eq_none`: looking for an arrow finds the arrows and nothing else;
  * `Found.joined`, `Found.arrow`, `Found.conditional` and so on: the reader comes to the tree of
    one
    production, if it comes to the trees of its parts;
  * `Derives.found`: the tokens of every derivation lead the reader to its tree;
  * `Derives.unique`: no tokens are two types.
-/

namespace Estree.TypeSyntax

open Expression (Item separated mem_closings trees named IsIdentifier isWord)
open Reading

/-! ## §1. The reader. -/

/-- The keyword type of a word. -/
def keyword? (t : Token) : Option KeywordType := keywords.lookup t

/-- The arrow whose words and parameters come next. -/
def arrow? (ts : List Token) : Option Arrow :=
  if ts.head? = some "new" then some (.constructor false)
  else if ts.take 2 = ["abstract", "new"] then some (.constructor true)
  else if ts.head? = some "(" ∧ (ts[1]? = some ")" ∨ ts[2]? = some ":" ∨ ts[2]? = some "?") then
    some .function
  else none

/-- The node of members with one operator between them; a single one is itself. -/
def joinedAs (make : List Node → Node) : List Node → Node
  | [n] => n
  | ns => make ns

/-- The plan for a type after its keyword, name or opening. -/
def primaryPlan (t : Token) (next : Node → Plan NonTerminal) : Plan NonTerminal :=
  if t = "(" then .part .type fun n => .token ")" (next n)
  else if t = "[" then .listed .type "]" fun ns => next (.tsTupleType ns)
  else
    match keyword? t with
    | some k => next (.keywordType k)
    | none =>
      .ifNext "<" (.listed .type ">" fun ns => next (reference t ns)) (next (reference t none))

/-- The plan for the parts of an arrow. -/
def arrowPlan (f : Arrow) (next : Node → Plan NonTerminal) : Plan NonTerminal :=
  f.words.foldr .token (.token "(" (.listed .parameter ")" fun ps =>
    .token "=>" (.part .type fun r => next (f.node ps r))))

/-- The plan for what comes after a type, where a condition may. -/
def conditionPlan (c : Node) (next : Node → Plan NonTerminal) : Plan NonTerminal :=
  .ifNext "extends"
    (.part .union fun e => .token "?" (.part .type fun t =>
      .token ":" (.part .type fun f => next (.tsConditionalType c e t f))))
    (next c)

/-- The plan for a suffix after its bracket. -/
def suffixPlan (n : Node) (next : Node → Plan NonTerminal) : Plan NonTerminal :=
  .ifNext "]" (next (.tsArrayType n))
    (.part .type fun k => .token "]" (next (.tsIndexedAccessType n k)))

/-- The reader of types. -/
def reader : Reader NonTerminal where
  start
    | .type, next => .look fun ts =>
      match arrow? ts with
      | some f => arrowPlan f next
      | none => .part .union fun n => conditionPlan n next
    | .union, next =>
      .parts .intersection (·.head? == some "|") [] fun ns => next (joinedAs .tsUnionType ns)
    | .intersection, next =>
      .parts .operator (·.head? == some "&") [] fun ns => next (joinedAs .tsIntersectionType ns)
    | .operator, next => .look fun ts =>
      if ts.head?.any typeOperators.contains then
        .take fun op => .part .operator fun n => next (.tsTypeOperator op n)
      else .part .suffixed next
    | .suffixed, next => .part .primary next
    | .primary, next => .take fun t => primaryPlan t next
    | .parameter, next => .take fun x =>
      .ifNext "?" (.token ":" (.part .type fun t => next (Parameter.node ⟨x, true, t⟩)))
        (.token ":" (.part .type fun t => next (Parameter.node ⟨x, false, t⟩)))
  more
    | .suffixed, n, t => if t = "[" then some (suffixPlan n) else none
    | _, _, _ => none

/-! ## §2. What may follow. -/

/-- The tokens that continue a tree. -/
def NonTerminal.absorbed : NonTerminal → List Token
  | primary | suffixed => ["<", "new"]
  | operator => ["[", "<", "new"]
  | intersection => ["&", "[", "<", "new"]
  | union => ["|", "&", "[", "<", "new"]
  | type | parameter => ["extends", "|", "&", "[", "<", "new"]

/-- The tokens do not continue a tree. -/
abbrev Follows (a : NonTerminal) (rest : List Token) : Prop := Reading.Ends a.absorbed rest

/-- The reader comes from the tokens to the tree, if nothing follows that continues it. -/
def Found (a : NonTerminal) (ts : List Token) (n : Node) : Prop :=
  ∀ next rest, Follows a rest → Reaches reader (.part a next, ts ++ rest) (.goOn a n next, rest)

/-- A tree ends where nothing comes that continues it, not even after a suffix. -/
theorem Found.readsPart {a b : NonTerminal} {ts : List Token} {n : Node} (h : Found a ts n)
    (hab : a.absorbed ⊆ b.absorbed) (hs : a = .suffixed → "[" ∈ b.absorbed) :
    ReadsPart reader a (Follows b) (ts, n) := by
  refine readsPart_of_run (fun hrest => h _ _ (hrest.mono hab)) fun t ht => ?_
  cases a with
  | suffixed =>
    have hne : t ≠ "[" := by
      rintro rfl
      exact ht (hs rfl)
    exact if_neg hne
  | _ => rfl

/-! ## §3. Arrows and their parameters. -/

/-- The name of a type is not `new`. -/
theorem IsTypeName.ne_new {x : Token} (hx : IsTypeName x) : x ≠ "new" := by
  rintro rfl
  exact hx.1.2 (by decide)

/-- A token that opens no arrow. -/
theorem arrow?_cons {t : Token} {ts : List Token} (hnew : t ≠ "new") (hparen : t ≠ "(")
    (habstract : t = "abstract" → ts.head? ≠ some "new") : arrow? (t :: ts) = none := by
  have htake : t = "abstract" → ¬ts.take 1 = ["new"] := by
    intro ht
    cases ts with
    | nil => simp
    | cons u ts => simpa using habstract ht
  simpa [arrow?, hnew, hparen] using htake

/-- A type in parentheses is no arrow: no mark comes after its first token. -/
theorem arrow?_parens {t : Token} {ts : List Token} (ht : t ≠ ")") (hts : Unmarked ts) :
    arrow? ("(" :: t :: ts) = none := by
  have hmark : ts[0]? ≠ some ":" ∧ ts[0]? ≠ some "?" := by
    simpa [Unmarked, List.head?_eq_getElem?] using hts
  simp [arrow?, ht, hmark]

/-- A list of two or more does not begin like an arrow, if its first item does not. -/
theorem arrow?_separated {sep : Token} (hsep : sep ≠ "new") {items : List Item}
    (hlen : 2 ≤ items.length)
    (hitems : ∀ i ∈ items, ∀ {us : List Token}, us.head? ≠ some "new" → arrow? (i.1 ++ us) = none)
    (rest : List Token) : arrow? (separated sep items ++ rest) = none := by
  match items, hlen with
  | i :: j :: items, _ =>
    have h : arrow? (i.1 ++ sep :: (separated sep (j :: items) ++ rest)) = none :=
      hitems i List.mem_cons_self (by simpa using hsep)
    simpa [separated] using h

/-- What is looser than no union does not begin like an arrow. -/
theorem arrow?_eq_none {a : NonTerminal} {ts : List Token} {n : Node} (h : Derives a ts n)
    (ha : a ≠ .type ∧ a ≠ .parameter) {rest : List Token} (hrest : rest.head? ≠ some "new") :
    arrow? (ts ++ rest) = none := by
  induction h generalizing rest with
  | @unit a b _ _ hab _ ih =>
    have hunit : ∀ b : NonTerminal, ∀ a, b.unit? = some a → a ≠ .type ∧ a ≠ .parameter := by
      intro b a
      cases b <;> simp [NonTerminal.unit?] <;> rintro rfl <;> simp
    exact ih (hunit b a hab) hrest
  | @keyword x _ hk =>
    obtain ⟨hword, hne⟩ := isWord_of_mem_keywords hk
    have hparen : x ≠ "(" := by
      rintro rfl
      exact absurd hword (by decide)
    exact arrow?_cons (List.ne_of_not_mem_cons hne) hparen fun _ => hrest
  | name hx => exact arrow?_cons hx.ne_new (hx.1.ne (by decide)) fun _ => hrest
  | applied hx => exact arrow?_cons hx.ne_new (hx.1.ne (by decide)) fun _ => by simp
  | parens h =>
    obtain ⟨t, more, rfl, ht, hmore⟩ := h.opens
    -- no mark of a parameter follows the first token of a type in parentheses
    have hunmarked : Unmarked (more ++ ")" :: rest) := by
      cases more with
      | nil => simp [Unmarked]
      | cons u more => exact hmore (by decide)
    simpa using arrow?_parens (ht.ne (by decide)) hunmarked
  | tuple => exact arrow?_cons (by decide) (by decide) fun h => absurd h (by decide)
  | array _ ih =>
    rw [List.append_assoc]
    exact ih (by decide) (by simp)
  | index _ _ ih =>
    rw [List.append_assoc]
    exact ih (by decide) (by simp)
  | @operator op _ _ hop =>
    have hne : ∀ op ∈ typeOperators, op ≠ "new" ∧ op ≠ "(" ∧ op ≠ "abstract" := by decide
    obtain ⟨hnew, hparen, habstract⟩ := hne op hop
    exact arrow?_cons hnew hparen fun h => absurd h habstract
  | intersection hlen _ ih =>
    exact arrow?_separated (by decide) hlen (fun i hi => ih i hi (by decide)) rest
  | union hlen _ ih =>
    exact arrow?_separated (by decide) hlen (fun i hi => ih i hi (by decide)) rest
  | arrow | conditional => exact absurd rfl ha.1
  | parameter | parameterOptional => exact absurd rfl ha.2

/-- The parameters of an arrow say that it is one. -/
theorem arrow?_words (f : Arrow) {items : List Item}
    (hitems : ∀ i ∈ items, Derives .parameter i.1 i.2) (rest : List Token) :
    arrow? (f.words ++ "(" :: (separated "," items ++ ")" :: rest)) = some f := by
  cases f with
  | constructor abstract => cases abstract <;> simp [Arrow.words, arrow?]
  | function =>
    cases items with
    | nil => simp [Arrow.words, arrow?, separated]
    | cons i items =>
      -- the second token of a parameter is a colon or a question mark
      have hi : ∃ x t more, i.1 = x :: t :: more ∧ (t = ":" ∨ t = "?") := by
        have hd := hitems i List.mem_cons_self
        generalize i.1 = ts, i.2 = n at hd
        cases hd with
        | unit hab => cases hab
        | parameter => exact ⟨_, _, _, rfl, .inl rfl⟩
        | parameterOptional => exact ⟨_, _, _, rfl, .inr rfl⟩
      obtain ⟨x, t, more, hi, ht⟩ := hi
      rcases ht with rfl | rfl <;> cases items <;> simp [Arrow.words, arrow?, separated, hi]

/-- What binds tighter than an operator does not begin with one. -/
theorem Derives.head_not_mem_typeOperators {a : NonTerminal} {ts : List Token} {n : Node}
    (h : Derives a ts n) (ha : a ∈ [.suffixed, .primary]) :
    ∃ t more, ts = t :: more ∧ t ∉ typeOperators := by
  induction h with
  | @unit a b _ _ hab _ ih =>
    have hunit :
        ∀ b ∈ [NonTerminal.suffixed, .primary], ∀ a ∈ b.unit?, a ∈ [.suffixed, .primary] := by
      decide
    exact ih (hunit b ha a hab)
  | keyword hk => exact ⟨_, _, rfl, List.not_mem_of_not_mem_cons (isWord_of_mem_keywords hk).2⟩
  | name hx => exact ⟨_, _, rfl, hx.2.1⟩
  | applied hx => exact ⟨_, _, rfl, hx.2.1⟩
  | parens | tuple => exact ⟨_, _, rfl, by decide⟩
  | array _ ih =>
    obtain ⟨t, more, rfl, ht⟩ := ih ha
    exact ⟨t, _, rfl, ht⟩
  | index _ _ ih =>
    obtain ⟨t, more, rfl, ht⟩ := ih ha
    exact ⟨t, _, rfl, ht⟩
  | _ => exact absurd ha (by decide)

/-! ## §4. One production. -/

namespace Found

variable {ts : List Token} {n : Node}

/-- A keyword is read as its type. -/
theorem keyword {x : Token} {k : KeywordType} (hk : (x, k) ∈ keywords) :
    Found .primary [x] (.keywordType k) := by
  have hall : ∀ p ∈ keywords, p.1 ≠ "(" ∧ p.1 ≠ "[" ∧ keyword? p.1 = some p.2 := by decide
  have hfacts := hall (x, k) hk
  intro next rest _
  refine .part (.take ?_)
  simp only [primaryPlan, hfacts, if_false]
  exact .refl _

/-- The name of a type is no keyword. -/
theorem keyword?_eq_none {x : Token} (hx : IsTypeName x) : keyword? x = none := by
  refine List.lookup_eq_none_iff.mpr fun p hp => ?_
  rw [bne_iff_ne]
  rintro rfl
  exact hx.2.2 (List.mem_map_of_mem hp)

/-- A name is read up to the place where its arguments would begin. -/
theorem reaches_name {x : Token} (hx : IsTypeName x) {next : Node → Plan NonTerminal}
    {ts : List Token} {u : State NonTerminal}
    (h : Reaches reader (.ifNext "<"
      (.listed .type ">" fun ns => .goOn .primary (reference x ns) next)
      (.goOn .primary (reference x none) next), ts) u) :
    Reaches reader (.part .primary next, x :: ts) u := by
  refine .part (.take ?_)
  have hparen : x ≠ "(" := hx.1.ne (by decide)
  have hbracket : x ≠ "[" := hx.1.ne (by decide)
  simp only [primaryPlan, hparen, hbracket, keyword?_eq_none hx, if_false]
  exact h

/-- A name without arguments. -/
theorem name {x : Token} (hx : IsTypeName x) : Found .primary [x] (reference x none) := by
  intro next rest hrest
  exact reaches_name hx (.ifNext_of_ne (hrest.head?_ne (by decide)) (.refl _))

/-- A list of types or parameters up to its end. -/
theorem listed {a : NonTerminal} {close : Token} (ha : a ∈ [.type, .parameter])
    (hclose : close ∈ ["]", ")", ">"]) {items : List Item} (hitems : ∀ i ∈ items, Derives a i.1 i.2)
    (h : ∀ i ∈ items, Found a i.1 i.2) {rest : List Token} {next : List Node → Plan NonTerminal} :
    Reaches reader (.listed a close next, separated "," items ++ close :: rest)
      (next (trees items), rest) := by
  have hfollow :
      ∀ a ∈ [NonTerminal.type, .parameter], ∀ t ∈ [",", "]", ")", ">"], t ∉ a.absorbed := by
    decide
  have hplain : ∀ t ∈ ["]", ")", ">"], t ≠ "," ∧ isWord t = false ∧ t ≠ "(" ∧ t ≠ "[" := by decide
  have hsuffixed : a ≠ .suffixed := by
    rintro rfl
    exact absurd ha (by decide)
  -- neither a comma nor the end is absorbed by the type before it
  refine reaches_listed (e := [close]) (hplain close hclose).1
    (fun _ => .cons (hfollow a ha _ (by decide)))
    (fun _ => .cons (hfollow a ha _ (List.mem_cons_of_mem _ hclose)))
    (fun j hj => (h j hj).readsPart (fun _ => id) fun hs => absurd hs hsuffixed) ?_
    (mem_closings close items)
  intro j hj
  obtain ⟨t, more, hts, ht, -⟩ := (hitems j hj).opens
  exact ⟨t, more, hts, ht.ne (hplain close hclose).2⟩

/-- A name with type arguments. -/
theorem applied {x : Token} {items : List Item} (hx : IsTypeName x)
    (hitems : ∀ i ∈ items, Derives .type i.1 i.2) (h : ∀ i ∈ items, Found .type i.1 i.2) :
    Found .primary (x :: "<" :: (separated "," items ++ [">"])) (reference x (trees items)) := by
  intro next rest _
  rw [List.cons_append, List.cons_append, List.append_assoc]
  exact reaches_name hx (.ifNext (listed (by decide) (by decide) hitems h))

theorem parens (h : Found .type ts n) : Found .primary ("(" :: (ts ++ [")"])) n := by
  intro next rest _
  rw [List.cons_append, List.append_assoc]
  refine .part (.take ?_)
  rw [primaryPlan, if_pos rfl]
  refine (h.readsPart (fun _ => id) (by decide) (.cons (by decide))).trans ?_
  exact .token (.refl _)

theorem tuple {items : List Item} (hitems : ∀ i ∈ items, Derives .type i.1 i.2)
    (h : ∀ i ∈ items, Found .type i.1 i.2) :
    Found .primary ("[" :: (separated "," items ++ ["]"])) (.tsTupleType (trees items)) := by
  intro next rest _
  rw [List.cons_append, List.append_assoc]
  refine .part (.take ?_)
  rw [primaryPlan, if_neg (by decide), if_pos rfl]
  exact listed (by decide) (by decide) hitems h

theorem array (h : Found .suffixed ts n) : Found .suffixed (ts ++ ["[", "]"]) (.tsArrayType n) := by
  intro next rest _
  rw [List.append_assoc]
  refine (h _ _ (.cons (by decide))).trans (.onward (c := suffixPlan n) rfl ?_)
  exact .ifNext (.refl _)

theorem index {k : List Token} {nk : Node} (h : Found .suffixed ts n) (hd : Derives .type k nk)
    (hk : Found .type k nk) :
    Found .suffixed (ts ++ "[" :: (k ++ ["]"])) (.tsIndexedAccessType n nk) := by
  intro next rest _
  obtain ⟨t, more, rfl, ht, -⟩ := hd.opens
  have hne : t ≠ "]" := ht.ne (by decide)
  rw [List.append_assoc, List.cons_append, List.append_assoc]
  refine (h _ _ (.cons (by decide))).trans (.onward (c := suffixPlan n) rfl ?_)
  refine .ifNext_of_ne (by simpa using hne) ?_
  refine (hk.readsPart (fun _ => id) (by decide) (.cons (by decide))).trans ?_
  exact .token (.refl _)

/-- An operator before a type. -/
theorem operator {op : Token} (hop : op ∈ typeOperators) (h : Found .operator ts n) :
    Found .operator (op :: ts) (.tsTypeOperator op n) := by
  intro next rest hrest
  rw [List.cons_append]
  refine .part (.look ?_)
  rw [if_pos (by simpa using hop)]
  exact .take (h.readsPart (fun _ => id) (by decide) hrest)

/-- Members of the nonterminal `a` with one operator between them. -/
theorem joined {a b : NonTerminal} {sep : Token} {make : List Node → Node}
    (hstart : ∀ next, reader.start b next =
      .parts a (·.head? == some sep) [] fun ns => next (joinedAs make ns))
    (ha : a ≠ .suffixed) (hab : a.absorbed ⊆ b.absorbed) (hsep : sep ∉ a.absorbed)
    (hsep' : sep ∈ b.absorbed) {items : List Item} (hne : items ≠ [])
    (hitems : ∀ j ∈ items, Found a j.1 j.2) :
    Found b (separated sep items) (joinedAs make (trees items)) := by
  intro next rest hrest
  cases items with
  | nil => exact absurd rfl hne
  | cons i items =>
    refine .part ?_
    rw [hstart]
    exact reaches_parts (fun _ => .cons hsep) (hrest.mono hab)
      (by simpa using hrest.head?_ne hsep')
      (fun j hj => (hitems j hj).readsPart (fun _ => id) fun h => absurd h ha) fun _ _ _ => by simp

/-- A nonterminal that is one of another as it stands. -/
theorem unit {a b : NonTerminal} (hab : b.unit? = some a) (hd : Derives a ts n) (h : Found a ts n) :
    Found b ts n := by
  cases b with
  | type =>
    obtain rfl : NonTerminal.union = a := Option.some.inj hab
    intro next rest hrest
    -- the reader looks for an arrow first and for `extends` after the type
    have hnone : arrow? (ts ++ rest) = none :=
      arrow?_eq_none hd (by decide) (hrest.head?_ne (by decide))
    refine .part (.look ?_)
    rw [hnone]
    refine (h.readsPart (by decide) (by decide) hrest).trans ?_
    exact .ifNext_of_ne (hrest.head?_ne (by decide)) (.refl _)
  | union =>
    obtain rfl : NonTerminal.intersection = a := Option.some.inj hab
    -- one type is read by the loop that reads unions, with nothing to go on with
    have hone : Found .union (separated "|" [(ts, n)]) (joinedAs .tsUnionType (trees [(ts, n)])) :=
      joined (fun _ => rfl) (by decide) (by decide) (by decide) (by decide) (List.cons_ne_nil _ _)
        (by simpa using h)
    exact hone
  | intersection =>
    obtain rfl : NonTerminal.operator = a := Option.some.inj hab
    have hone : Found .intersection (separated "&" [(ts, n)])
        (joinedAs .tsIntersectionType (trees [(ts, n)])) :=
      joined (fun _ => rfl) (by decide) (by decide) (by decide) (by decide) (List.cons_ne_nil _ _)
        (by simpa using h)
    exact hone
  | operator =>
    obtain rfl : NonTerminal.suffixed = a := Option.some.inj hab
    intro next rest hrest
    obtain ⟨t, more, rfl, ht⟩ := hd.head_not_mem_typeOperators (by decide)
    have hop : (t :: more ++ rest).head?.any typeOperators.contains = false := by simpa using ht
    refine .part (.look ?_)
    rw [hop, if_neg Bool.false_ne_true]
    exact h.readsPart (by decide) (by decide) hrest
  | suffixed =>
    obtain rfl : NonTerminal.primary = a := Option.some.inj hab
    exact fun next rest hrest => .part (h.readsPart (fun _ => id) (by decide) hrest)
  | primary | parameter => cases hab

/-- A function or constructor type. -/
theorem arrow (f : Arrow) {items : List Item} {r : List Token} {nr : Node}
    (hitems : ∀ i ∈ items, Derives .parameter i.1 i.2) (h : ∀ i ∈ items, Found .parameter i.1 i.2)
    (hr : Found .type r nr) :
    Found .type (f.words ++ "(" :: (separated "," items ++ ")" :: "=>" :: r))
      (f.node (trees items) nr) := by
  intro next rest hrest
  have hsplit : f.words ++ "(" :: (separated "," items ++ ")" :: "=>" :: r) ++ rest =
      f.words ++ "(" :: (separated "," items ++ ")" :: "=>" :: (r ++ rest)) := by simp
  rw [hsplit]
  refine .part (.look ?_)
  rw [arrow?_words f hitems]
  have hwords : ∀ {words : List Token} {plan ts u}, Reaches reader (plan, ts) u →
      Reaches reader (words.foldr .token plan, words ++ ts) u := by
    intro words plan ts u h
    induction words with
    | nil => exact h
    | cons w words ih => exact .token ih
  refine hwords (.token ((listed (by decide) (by decide) hitems h).trans (.token ?_)))
  exact hr.readsPart (fun _ => id) (by decide) hrest

theorem conditional {c e t f : List Token} {nc ne nt nf : Node} (hd : Derives .union c nc)
    (hc : Found .union c nc) (he : Found .union e ne) (ht : Found .type t nt)
    (hf : Found .type f nf) :
    Found .type (c ++ "extends" :: (e ++ "?" :: (t ++ ":" :: f)))
      (.tsConditionalType nc ne nt nf) := by
  intro next rest hrest
  have hsplit : c ++ "extends" :: (e ++ "?" :: (t ++ ":" :: f)) ++ rest =
      c ++ "extends" :: (e ++ "?" :: (t ++ ":" :: (f ++ rest))) := by simp
  rw [hsplit]
  refine .part (.look ?_)
  rw [arrow?_eq_none hd (by decide) (by simp)]
  refine (hc.readsPart (fun _ => id) (by decide) (.cons (by decide))).trans ?_
  refine .ifNext ((he.readsPart (fun _ => id) (by decide) (.cons (by decide))).trans ?_)
  refine .token ((ht.readsPart (fun _ => id) (by decide) (.cons (by decide))).trans ?_)
  exact .token (hf.readsPart (fun _ => id) (by decide) hrest)

theorem parameter {x : Token} (h : Found .type ts n) :
    Found .parameter (x :: ":" :: ts) (Parameter.node ⟨x, false, n⟩) := by
  intro next rest hrest
  refine .part (.take (.ifNext_of_ne (by simp) ?_))
  exact .token (h.readsPart (by decide) (by decide) hrest)

theorem parameterOptional {x : Token} (h : Found .type ts n) :
    Found .parameter (x :: "?" :: ":" :: ts) (Parameter.node ⟨x, true, n⟩) := by
  intro next rest hrest
  refine .part (.take (.ifNext ?_))
  exact .token (h.readsPart (by decide) (by decide) hrest)

end Found

/-! ## §5. All derivations. -/

/-- The node of two or more members. -/
theorem joinedAs_trees {items : List Item} (h : 2 ≤ items.length) (make : List Node → Node) :
    joinedAs make (trees items) = make (trees items) := by
  match items, h with
  | _ :: _ :: _, _ => rfl

/-- **The tokens of a derivation lead to its tree**, by induction on the derivation. -/
theorem Derives.found {a : NonTerminal} {ts : List Token} {n : Node} (h : Derives a ts n) :
    Found a ts n := by
  induction h with
  | unit hab h ih => exact .unit hab h ih
  | keyword hk => exact .keyword hk
  | name hx => exact .name hx
  | applied hx h ih => exact .applied hx h ih
  | parens _ ih => exact .parens ih
  | tuple h ih => exact .tuple h ih
  | array _ ih => exact .array ih
  | index _ h iho ihk => exact .index iho h ihk
  | operator hop _ ih => exact .operator hop ih
  | intersection hlen _ ih =>
    rw [← joinedAs_trees hlen .tsIntersectionType]
    exact .joined (fun _ => rfl) (by decide) (by decide) (by decide) (by decide)
      (List.ne_nil_of_length_pos (by omega)) ih
  | union hlen _ ih =>
    rw [← joinedAs_trees hlen .tsUnionType]
    exact .joined (fun _ => rfl) (by decide) (by decide) (by decide) (by decide)
      (List.ne_nil_of_length_pos (by omega)) ih
  | arrow f h _ ih ihr => exact .arrow f h ih ihr
  | conditional h _ _ _ ihc ihe iht ihf => exact .conditional h ihc ihe iht ihf
  | parameter _ _ ih => exact .parameter ih
  | parameterOptional _ _ ih => exact .parameterOptional ih

/-- **The grammar is unambiguous.** -/
theorem Derives.unique {ts : List Token} {m n : Node} (hm : Derives .type ts m)
    (hn : Derives .type ts n) : m = n := by
  have hreads : ∀ {n : Node}, Derives .type ts n → ReadsPart reader .type (Follows .type) (ts, n) :=
    fun h => h.found.readsPart (List.Subset.refl _) (by decide)
  exact ReadsPart.unique .nil (hreads hm) (hreads hn)

end Estree.TypeSyntax
