import Estree.Proofs.Reading

/-!
# The grammar of expressions is unambiguous

The reader takes the tokens from left to right and decides on the next token alone. After an
expression it looks how tightly the next token binds what stands before it (`tightness`) and goes on
if it binds tightly enough. There is one reader for the grammars of both dialects. It accepts more
than either, but the tokens of every derivation lead it to the tree of the derivation.

Main results:

  * `Found.operator`, `Found.call` and so on: the reader comes to the tree of one production, if it
    comes to the trees of its parts;
  * `Derives.found`: the reader comes to the tree of every derivation;
  * `Derives.unique`: the tokens have one tree at most.
-/

namespace Estree.Expression

open Reading

/-! ## §1. How tightly tokens bind. -/

/-- How tightly a token binds what stands before it; zero when it does not bind at all. -/
def tightness (t : Token) : Nat :=
  if t ∈ [".", "[", "!"] then 18
  else if t = "(" then 17
  else if t ∈ updateOperators then 16
  else if t = "**" then 14
  else if t ∈ ["*", "/", "%"] then 13
  else if t ∈ ["+", "-"] then 12
  else if t ∈ ["<<", ">>", ">>>"] then 11
  else if t ∈ ["<", ">", "<=", ">=", "instanceof", "in", "as", "satisfies"] then 10
  else if t ∈ ["==", "!=", "===", "!=="] then 9
  else if t = "&" then 8
  else if t = "^" then 7
  else if t = "|" then 6
  else if t = "&&" then 5
  else if t ∈ ["||", "??"] then 4
  else if t = "?" then 2
  else if t ∈ assignmentOperators then 1
  else 0

/-- How tightly the token after one of a nonterminal may bind. -/
def follow : NonTerminal → Nat
  | .primary | .member | .call => 18
  | .new | .leftHandSide => 16
  | .update | .unary => 14
  | .exponentiation => 13
  | .conditional | .assignment | .expression => 0
  | a => a.level

/-- The next token binds no tighter than a bound. -/
def Within (bound : Nat) (ts : List Token) : Prop := ∀ t ∈ ts.head?, tightness t ≤ bound

/-- A looser bound holds as well. -/
theorem Within.mono {b c : Nat} {ts : List Token} (h : Within b ts) (hbc : b ≤ c) : Within c ts :=
  fun t ht => Nat.le_trans (h t ht) hbc

/-- The bound is about the first token only. -/
theorem Within.cons {b : Nat} {t : Token} {ts : List Token} (h : tightness t ≤ b) :
    Within b (t :: ts) := by
  rintro _ ⟨⟩
  exact h

/-! ## §2. The reader. -/

/-- The tree of trees with commas between them. -/
def sequenceOf : List Node → Node
  | [n] => n
  | ns => .sequenceExpression ns

/-- The tree of an operator with an operand on either side. -/
def combined (op : Token) (left right : Node) : Node :=
  if op ∈ assignmentOperators then .assignmentExpression op left right else operation op left right

/-- How tightly the right operand of an operator must be bound. -/
def rightLevel (op : Token) : Nat :=
  if op = "**" then 14 else if op ∈ assignmentOperators then 1 else tightness op + 1

/-- The plan for an expression after its first token. -/
def headPlan (t : Token) (next : Node → Plan Nat) : Plan Nat :=
  if t = "(" then .part 0 fun n => .token ")" (next n)
  else if t ∈ unaryOperators then .part 15 fun n => next (.unaryExpression t true n)
  else if t = "await" then .part 15 fun n => next (.awaitExpression n)
  else if t ∈ updateOperators then .part 15 fun n => next (.updateExpression t true n)
  else if t = "<" then
    .take fun x => .token ">" (.part 15 fun n => next (.tsTypeAssertion n (typeNamed x)))
  else if t = "new" then
    .part 18 fun n => .ifNext "(" (.listed 1 ")" fun ns => next (.newExpression n ns false none))
      (next (.newExpression n [] false none))
  else next (named t)

/-- The tokens after an expression that are not followed by an operand. -/
def ownTails : List Token := [".", "[", "!", "(", "++", "--", "as", "satisfies", "?"]

/-- The plan for what a token continues an expression with. -/
def tailPlan (n : Node) (t : Token) (next : Node → Plan Nat) : Plan Nat :=
  if t = "." then .take fun x => next (.memberExpression n (named x) false false)
  else if t = "[" then .part 0 fun i => .token "]" (next (.memberExpression n i true false))
  else if t = "!" then next (.tsNonNullExpression n)
  else if t = "(" then .listed 1 ")" fun ns => next (.callExpression n ns false none)
  else if t ∈ updateOperators then next (.updateExpression t false n)
  else if t = "as" then .take fun x => next (.tsAsExpression n (typeNamed x))
  else if t = "satisfies" then .take fun x => next (.tsSatisfiesExpression n (typeNamed x))
  else if t = "?" then
    .part 1 fun a => .token ":" (.part 1 fun b => next (.conditionalExpression n a b))
  else .part (rightLevel t) fun r => next (combined t n r)

/-- The reader: at a level it reads an expression whose parts are bound at that level or tighter,
and at level zero expressions with commas between them. -/
def reader : Reader Nat where
  start level next :=
    if level = 0 then .parts 1 (·.head? == some ",") [] fun ns => next (sequenceOf ns)
    else .take fun t => headPlan t next
  more level n t :=
    if tightness t = 0 ∨ tightness t < level then none else some (tailPlan n t)

/-! ## §3. Steps of the reader. -/

section Steps

variable {level bound : Nat} {t : Token} {ts : List Token} {n : Node} {next : Node → Plan Nat}
  {u : State Nat}

/-- An expression begins with a token, which decides what comes next. -/
theorem reaches_head (hl : 0 < level) (h : Reaches reader (headPlan t (.goOn level · next), ts) u) :
    Reaches reader (.part level next, t :: ts) u := by
  refine .part ?_
  show Reaches reader (if level = 0 then _ else _, _) u
  rw [if_neg (by omega)]
  exact .take h

/-- An expression goes on with a token that binds tightly enough. -/
theorem reaches_tail (ht : 0 < tightness t) (hl : level ≤ tightness t)
    (h : Reaches reader (tailPlan n t (.goOn level · next), ts) u) :
    Reaches reader (.goOn level n next, t :: ts) u := by
  refine .onward (c := tailPlan n t) ?_ h
  exact if_neg (by omega)

/-- An expression ends where a token comes that binds less. -/
theorem reaches_stop (hw : Within bound ts) (hb : bound < level ∨ bound = 0) :
    Reaches reader (.goOn level n next, ts) (next n, ts) := by
  refine .stop (fun t ht => ?_) (.refl _)
  have hle := hw t ht
  exact if_pos (by omega)

/-- A name is not the first token of anything else. -/
theorem headPlan_identifier (ht : IsIdentifier t) : headPlan t next = next (named t) := by
  have hne : t ∉ "(" :: "await" :: "<" :: "new" :: (unaryOperators ++ updateOperators) := by
    intro hmem
    have hall : ∀ t ∈ "(" :: "await" :: "<" :: "new" :: (unaryOperators ++ updateOperators),
        isWord t = true → t ∈ reservedWords := by decide
    exact ht.2 (hall t hmem ht.1)
  simp only [List.mem_cons, List.mem_append, not_or] at hne
  simp only [headPlan, hne, if_false]

/-- A unary operator is followed by its operand. -/
theorem headPlan_unary (ht : t ∈ unaryOperators) :
    headPlan t next = .part 15 fun n => next (.unaryExpression t true n) := by
  have hne : ∀ t ∈ unaryOperators, t ≠ "(" := by decide
  rw [headPlan, if_neg (hne t ht), if_pos ht]

/-- So is an increment or decrement that comes first. -/
theorem headPlan_update (ht : t ∈ updateOperators) :
    headPlan t next = .part 15 fun n => next (.updateExpression t true n) := by
  have hne : ∀ t ∈ updateOperators, t ≠ "(" ∧ t ∉ unaryOperators ∧ t ≠ "await" := by decide
  obtain ⟨h₁, h₂, h₃⟩ := hne t ht
  rw [headPlan, if_neg h₁, if_neg h₂, if_neg h₃, if_pos ht]

/-- An increment or decrement after an expression takes nothing more. -/
theorem tailPlan_update (ht : t ∈ updateOperators) :
    tailPlan n t next = next (.updateExpression t false n) := by
  have hne : ∀ t ∈ updateOperators, t ∉ [".", "[", "!", "("] := by decide
  have h := hne t ht
  simp only [List.mem_cons, List.not_mem_nil, not_or] at h
  simp only [tailPlan, h, if_false, ht, if_true]

/-- After any other token that binds comes the right operand. -/
theorem tailPlan_operator (ht : t ∉ ownTails) :
    tailPlan n t next = .part (rightLevel t) fun r => next (combined t n r) := by
  have hupdate : t ∉ updateOperators := fun h => ht (by
    have hall : ∀ t ∈ updateOperators, t ∈ ownTails := by decide
    exact hall t h)
  simp only [ownTails, List.mem_cons, List.not_mem_nil, not_or] at ht
  simp only [tailPlan, ht, hupdate, if_false]

end Steps

/-! ## §4. One production. -/

/-- The reader comes from the tokens to the tree, if nothing follows that continues it. -/
structure Found (a : NonTerminal) (ts : List Token) (n : Node) : Prop where
  single : a ≠ .expression → ∀ {level : Nat} {next : Node → Plan Nat} {rest : List Token},
    0 < level → level ≤ a.level → Within (follow a) rest →
    Reaches reader (.part level next, ts ++ rest) (.goOn level n next, rest)
  whole : a = .expression → ∀ {next : Node → Plan Nat} {rest : List Token}, Within 0 rest →
    rest.head? ≠ some "," → Reaches reader (.part 0 next, ts ++ rest) (next n, rest)

namespace Found

variable {a b c : NonTerminal} {op x : Token} {ts l r o i t : List Token} {n nl nr no ni : Node}
  {items : List Item} {close : List Token}

/-- All nonterminals but `expression` are read without commas. -/
theorem of_single (ha : a ≠ .expression)
    (h : ∀ {level : Nat} {next : Node → Plan Nat} {rest : List Token}, 0 < level →
      level ≤ a.level → Within (follow a) rest →
      Reaches reader (.part level next, ts ++ rest) (.goOn level n next, rest)) : Found a ts n :=
  ⟨fun _ => h, fun he => absurd he ha⟩

/-- What does not go on with the next token is read as it stands. -/
theorem alone (h : Found a ts n) (ha : a ≠ .expression) (level bound : Nat) (hl : level ≤ a.level)
    (hb : bound < level) (hf : bound ≤ follow a) : ReadsPart reader level (Within bound) (ts, n) :=
  fun _ _ hr => (h.single ha (by omega) hl (hr.mono hf)).trans (reaches_stop hr (.inl hb))

/-- An expression between commas. -/
theorem item (h : Found .assignment ts n) : ReadsPart reader 1 (Within 0) (ts, n) :=
  h.alone (by decide) 1 0 (by decide) (by decide) (by decide)

/-- Expressions with commas between them. -/
theorem sequenced (hne : items ≠ []) (h : ∀ i ∈ items, Found .assignment i.1 i.2) :
    Found .expression (commaSeparated items) (sequenceOf (trees items)) where
  single he := absurd rfl he
  whole _ next rest hw hcomma := by
    cases items with
    | nil => exact absurd rfl hne
    | cons i items =>
      refine .part ((reaches_parts (fun _ => .cons (by decide)) hw (by simpa using hcomma)
        (fun j hj => (h j hj).item) fun _ _ _ => by simp).trans (reaches_stop hw (.inr rfl)))

/-- Arguments, whether or not a comma stands after the last one. -/
theorem arguments (ho : ∀ i ∈ items, Opens i.1) (h : ∀ i ∈ items, Found .assignment i.1 i.2)
    (hc : close ∈ closings ")" items) {next : List Node → Plan Nat} {rest : List Token} :
    Reaches reader (.listed 1 ")" next, commaSeparated items ++ (close ++ rest))
      (next (trees items), rest) :=
  reaches_listed (by decide) (fun _ => .cons (by decide)) (fun _ => .cons (by decide))
    (fun j hj => (h j hj).item) ho hc

/-- The reader does not see unit productions: the looser nonterminal is read at a lower level and
followed by less. -/
theorem unit (hab : a ∈ b.units) (h : Found a ts n) : Found b ts n where
  single hb level next rest hpos hl hw := by
    have hunits : ∀ a ∈ b.units, a ≠ .expression ∧ b.level ≤ a.level ∧ follow b ≤ follow a := by
      cases b <;> decide
    obtain ⟨ha, hlevel, hfollow⟩ := hunits a hab
    exact h.single ha hpos (Nat.le_trans hl hlevel) (hw.mono hfollow)
  whole hb := by
    subst hb
    obtain rfl : a = .assignment := by simpa [NonTerminal.units] using hab
    have hsequence : Found .expression (commaSeparated [(ts, n)]) (sequenceOf (trees [(ts, n)])) :=
      sequenced (List.cons_ne_nil _ _) (by simpa using h)
    exact fun {_ _} hw hne => hsequence.whole rfl hw hne

theorem identifier (hx : IsIdentifier x) : Found .primary [x] (named x) := by
  refine of_single (by decide) fun hpos _ _ => reaches_head hpos ?_
  rw [headPlan_identifier hx]
  exact .refl _

/-- Between parentheses the reader begins anew at level zero. -/
theorem parens (h : Found .expression ts n) : Found .primary ("(" :: (ts ++ [")"])) n := by
  refine of_single (by decide) fun hpos _ _ => ?_
  rw [List.cons_append, List.append_assoc]
  refine reaches_head hpos ((h.whole rfl (.cons (by decide)) (by simp)).trans ?_)
  exact .token (.refl _)

/-- The reader goes on after an expression with a token and what comes with it. -/
theorem onward (op : Token) {more : List Token} {m : Node} (h : Found a ts n)
    (hne : a ≠ .expression ∧ b ≠ .expression) (hfollow : tightness op ≤ follow a)
    (hlevel : b.level ≤ a.level ∧ b.level ≤ tightness op ∧ 0 < tightness op)
    (htail : ∀ {next : Node → Plan Nat} {rest : List Token}, Within (follow b) rest →
      Reaches reader (tailPlan n op next, more ++ rest) (next m, rest)) :
    Found b (ts ++ op :: more) m := by
  refine of_single hne.2 fun hpos hl hw => ?_
  rw [List.append_assoc]
  refine (h.single hne.1 hpos (Nat.le_trans hl hlevel.1) (.cons hfollow)).trans ?_
  exact reaches_tail hlevel.2.2 (Nat.le_trans hl hlevel.2.1) (htail hw)

/-- Members and calls go on with a member, a call or an assertion. -/
theorem onward_member (ha : a ∈ [NonTerminal.member, .call]) (hop : op ∈ [".", "[", "!"])
    {more : List Token} {m : Node} (h : Found a ts n)
    (htail : ∀ {next : Node → Plan Nat} {rest : List Token},
      Reaches reader (tailPlan n op next, more ++ rest) (next m, rest)) :
    Found a (ts ++ op :: more) m := by
  have hfacts : ∀ a ∈ [NonTerminal.member, .call], ∀ op ∈ [".", "[", "!"], a ≠ .expression ∧
      tightness op ≤ follow a ∧ a.level ≤ tightness op ∧ 0 < tightness op := by decide
  obtain ⟨hne, hfollow, hlevel⟩ := hfacts a ha op hop
  exact h.onward op ⟨hne, hne⟩ hfollow ⟨Nat.le_refl _, hlevel⟩ fun _ => htail

theorem field (ha : a ∈ [NonTerminal.member, .call]) (h : Found a o no) :
    Found a (o ++ [".", x]) (.memberExpression no (named x) false false) :=
  h.onward_member ha (by decide) (.take (.refl _))

/-- A member by an expression in brackets. -/
theorem index (ha : a ∈ [NonTerminal.member, .call]) (h : Found a o no)
    (hi : Found .expression i ni) :
    Found a (o ++ "[" :: (i ++ ["]"])) (.memberExpression no ni true false) := by
  refine h.onward_member ha (by decide) fun {next rest} => ?_
  rw [List.append_assoc]
  refine (hi.whole rfl (.cons (by decide)) (by simp)).trans ?_
  exact .token (.refl _)

theorem nonNull (ha : a ∈ [NonTerminal.member, .call]) (h : Found a o no) :
    Found a (o ++ ["!"]) (.tsNonNullExpression no) :=
  h.onward_member ha (by decide) (.refl _)

/-- A `new` with arguments: they are read with the `new`, not with its callee. -/
theorem newWith (h : Found .member o no) (ho : ∀ i ∈ items, Opens i.1)
    (hf : ∀ i ∈ items, Found .assignment i.1 i.2) (hc : close ∈ closings ")" items) :
    Found .member ("new" :: (o ++ "(" :: (commaSeparated items ++ close)))
      (.newExpression no (trees items) false none) := by
  refine of_single (by decide) fun hpos _ _ => ?_
  rw [List.cons_append, List.append_assoc, List.cons_append, List.append_assoc]
  -- the callee ends before its arguments
  refine reaches_head hpos ((h.alone (by decide) 18 17 (by decide) (by decide) (by decide)
    (.cons (by decide))).trans ?_)
  exact .ifNext (arguments ho hf hc)

/-- A `new` without arguments, where no parenthesis comes. -/
theorem newBare (h : Found .new o no) :
    Found .new ("new" :: o) (.newExpression no [] false none) := by
  refine of_single (by decide) fun {_ _ rest} hpos _ hw => ?_
  have hparen : rest.head? ≠ some "(" := fun h => absurd (hw _ h) (by decide)
  refine reaches_head hpos
    ((h.alone (by decide) 18 16 (by decide) (by decide) (by decide) hw).trans ?_)
  exact .ifNext_of_ne hparen (.refl _)

/-- A call of a member or of a call. -/
theorem call (ha : a ∈ [NonTerminal.member, .call]) (h : Found a o no)
    (ho : ∀ i ∈ items, Opens i.1) (hf : ∀ i ∈ items, Found .assignment i.1 i.2)
    (hc : close ∈ closings ")" items) :
    Found .call (o ++ "(" :: (commaSeparated items ++ close))
      (.callExpression no (trees items) false none) := by
  have hfacts : ∀ a ∈ [NonTerminal.member, .call], a ≠ .expression ∧ tightness "(" ≤ follow a ∧
      NonTerminal.call.level ≤ a.level := by decide
  obtain ⟨hne, hfollow, hlevel⟩ := hfacts a ha
  refine h.onward "(" ⟨hne, by decide⟩ hfollow ⟨hlevel, by decide⟩ fun {next rest} _ => ?_
  rw [List.append_assoc]
  exact arguments ho hf hc

/-- An increment or decrement after its operand. -/
theorem updateAfter (hop : op ∈ updateOperators) (h : Found .leftHandSide ts n) :
    Found .update (ts ++ [op]) (.updateExpression op false n) := by
  have hfacts : ∀ op ∈ updateOperators, tightness op ≤ follow .leftHandSide ∧
      NonTerminal.update.level ≤ tightness op ∧ 0 < tightness op := by decide
  obtain ⟨hfollow, hlevel⟩ := hfacts op hop
  refine h.onward op (by decide) hfollow ⟨by decide, hlevel⟩ fun _ => ?_
  rw [tailPlan_update hop]
  exact .refl _

/-- The operand of an operator that stands before it. -/
theorem operand (h : Found .unary ts n) : ReadsPart reader 15 (Within 14) (ts, n) :=
  h.alone (by decide) 15 14 (by decide) (by decide) (by decide)

/-- An increment or decrement before its operand. -/
theorem updateBefore (hop : op ∈ updateOperators) (h : Found .unary ts n) :
    Found .update (op :: ts) (.updateExpression op true n) := by
  refine of_single (by decide) fun hpos _ hw => reaches_head hpos ?_
  rw [headPlan_update hop]
  exact h.operand hw

theorem unaryOperator (hop : op ∈ unaryOperators) (h : Found .unary ts n) :
    Found .unary (op :: ts) (.unaryExpression op true n) := by
  refine of_single (by decide) fun hpos _ hw => reaches_head hpos ?_
  rw [headPlan_unary hop]
  exact h.operand hw

theorem await (h : Found .unary ts n) : Found .unary ("await" :: ts) (.awaitExpression n) :=
  of_single (by decide) fun hpos _ hw => reaches_head hpos (h.operand hw)

/-- An assertion in front of its operand. -/
theorem typeAssertion (h : Found .unary ts n) :
    Found .unary ("<" :: x :: ">" :: ts) (.tsTypeAssertion n (typeNamed x)) :=
  of_single (by decide) fun hpos _ hw => reaches_head hpos (.take (.token (h.operand hw)))

/-- An operator between operands. -/
theorem infixed (op : Token) (hl : Found a l nl) (hr : Found c r nr)
    (hne : a ≠ .expression ∧ b ≠ .expression ∧ c ≠ .expression) (hop : op ∉ ownTails)
    (hlevel : b.level ≤ a.level ∧ b.level ≤ tightness op ∧ 0 < tightness op)
    (hleft : tightness op ≤ follow a) (hright : rightLevel op ≤ c.level)
    (hfollow : follow b < rightLevel op ∧ follow b ≤ follow c) :
    Found b (l ++ op :: r) (combined op nl nr) := by
  refine hl.onward op ⟨hne.1, hne.2.1⟩ hleft hlevel fun hw => ?_
  rw [tailPlan_operator hop]
  exact hr.alone hne.2.2 (rightLevel op) (follow b) hright hfollow.1 hfollow.2 hw

/-- The operators of a level take a tighter operand on the right, so they group to the left. -/
theorem operator (hop : op ∈ b.operators) (hunit : c ∈ b.units) (hl : Found b l nl)
    (hr : Found c r nr) : Found b (l ++ op :: r) (operation op nl nr) := by
  have hfacts : ∀ c ∈ b.units, ∀ op ∈ b.operators, op ∉ assignmentOperators ∧ op ∉ ownTails ∧
      (b ≠ .expression ∧ c ≠ .expression) ∧ b.level = tightness op ∧ 0 < b.level ∧
      follow b = b.level ∧ rightLevel op = b.level + 1 ∧ c.level = b.level + 1 ∧
      follow b ≤ follow c := by
    cases b <;> decide
  obtain ⟨hassign, htails, hne, ht, hpos, hfollow, hright, hlevel, hle⟩ := hfacts c hunit op hop
  have h := infixed op hl hr ⟨hne.1, hne.1, hne.2⟩ htails ⟨Nat.le_refl _, by omega, by omega⟩
    (by omega) (by omega) ⟨by omega, hle⟩
  rwa [combined, if_neg hassign] at h

/-- An `as`. -/
theorem as (h : Found .relational ts n) :
    Found .relational (ts ++ ["as", x]) (.tsAsExpression n (typeNamed x)) :=
  h.onward "as" (by decide) (by decide) (by decide) fun _ => .take (.refl _)

theorem satisfies (h : Found .relational ts n) :
    Found .relational (ts ++ ["satisfies", x]) (.tsSatisfiesExpression n (typeNamed x)) :=
  h.onward "satisfies" (by decide) (by decide) (by decide) fun _ => .take (.refl _)

/-- An assignment takes an assignment on the right, so it groups to the right. -/
theorem assign (hop : op ∈ assignmentOperators) (hl : Found .leftHandSide l nl)
    (hr : Found .assignment r nr) :
    Found .assignment (l ++ op :: r) (.assignmentExpression op nl nr) := by
  have hfacts :
      ∀ op ∈ assignmentOperators, op ∉ ownTails ∧ tightness op = 1 ∧ rightLevel op = 1 := by
    decide
  obtain ⟨htails, ht, hright⟩ := hfacts op hop
  have h := infixed (b := .assignment) op hl hr (by decide) htails
    ⟨by decide, by rw [ht]; decide, by rw [ht]; decide⟩ (by rw [ht]; decide)
    (by rw [hright]; decide) ⟨by rw [hright]; decide, by decide⟩
  rwa [combined, if_pos hop] at h

/-- A conditional: its parts after the question mark are read at the level of assignments. -/
theorem conditional (ht : Found .shortCircuit t n) (hl : Found .assignment l nl)
    (hr : Found .assignment r nr) :
    Found .conditional (t ++ "?" :: (l ++ ":" :: r)) (.conditionalExpression n nl nr) := by
  refine ht.onward "?" (by decide) (by decide) (by decide) fun {next rest} hw => ?_
  rw [List.append_assoc, List.cons_append]
  refine (hl.item (.cons (by decide))).trans (.token ?_)
  exact hr.item hw

/-- A sequence of two expressions or more. -/
theorem sequence (hlen : 2 ≤ items.length) (h : ∀ i ∈ items, Found .assignment i.1 i.2) :
    Found .expression (commaSeparated items) (.sequenceExpression (trees items)) := by
  match items, hlen with
  | i :: j :: items, _ => exact sequenced (List.cons_ne_nil _ _) h

end Found

/-! ## §5. All derivations. -/

/-- **The tokens of a derivation lead to its tree**, by induction on the derivation. -/
theorem Derives.found {d : Dialect} {a : NonTerminal} {ts : List Token} {n : Node}
    (h : Derives d a ts n) : Found a ts n := by
  induction h with
  | unit hab _ ih => exact ih.unit hab
  | identifier hx => exact .identifier hx
  | parens _ ih => exact ih.parens
  | field ha _ _ ih => exact ih.field ha
  | index ha _ _ ih ihi => exact ih.index ha ihi
  | nonNull _ ha _ ih => exact ih.nonNull ha
  | newWith _ hi hc ih ihi => exact ih.newWith (fun i h => (hi i h).opens) ihi hc
  | newBare _ ih => exact ih.newBare
  | call ha _ hi hc ih ihi => exact ih.call ha (fun i h => (hi i h).opens) ihi hc
  | updateAfter hop _ _ ih => exact ih.updateAfter hop
  | updateBefore hop _ _ ih => exact ih.updateBefore hop
  | unaryOperator hop _ ih => exact ih.unaryOperator hop
  | await _ ih => exact ih.await
  | typeAssertion _ _ _ ih => exact ih.typeAssertion
  | power _ _ ihl ihr =>
    exact .infixed "**" ihl ihr (by decide) (by decide) (by decide) (by decide) (by decide)
      (by decide)
  | operator hop hunit _ _ ihl ihr => exact ihl.operator hop hunit ihr
  | as _ _ _ ih => exact ih.as
  | satisfies _ _ _ ih => exact ih.satisfies
  | coalesce _ _ ihl ihr =>
    exact .infixed "??" ihl ihr (by decide) (by decide) (by decide) (by decide) (by decide)
      (by decide)
  | conditional _ _ _ iht iha ihb => exact iht.conditional iha ihb
  | assign hop _ _ _ ihl ihr => exact ihl.assign hop ihr
  | sequence hlen _ ih => exact .sequence hlen ih

/-- **The grammar is unambiguous**: the run of the reader on the tokens has one end. -/
theorem Derives.unique {d : Dialect} {ts : List Token} {m n : Node}
    (hm : Derives d .expression ts m) (hn : Derives d .expression ts n) : m = n := by
  have hrun : ∀ {n : Node}, Derives d .expression ts n →
      Reaches reader (.part 0 .done, ts) (.done n, []) := by
    intro n h
    have hread : Reaches reader (.part 0 .done, ts ++ []) (.done n, []) :=
      h.found.whole rfl nofun nofun
    rwa [List.append_nil] at hread
  exact (hrun hm).unique (hrun hn)

end Estree.Expression
