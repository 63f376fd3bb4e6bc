import Estree.Dialect
import Estree.Node.Basic
import Estree.Proofs.Expression.Lexing

/-!
# The grammar of expressions

The expression grammar of ECMAScript, as far as it goes with names, operators, members, calls and
parentheses, and with the assertions of TypeScript in the typed dialect: `x as T` and `x satisfies
T` among the relational operators, `<T>x` among the unary ones, and `x!` among the members, where
`T` is a name. `Derives d a ts n` says that in the grammar of the dialect `d` the tokens `ts` are an
`a` and that `n` is their tree. There is one rule for each production, and one for all the
productions that only pass from a nonterminal to a looser one (`NonTerminal.units`). The operators
stand in the grammar's own tables, so that nothing here is taken from how expressions are written.

Main results, for every dialect:

  * `Derives.mono`: a tree of a nonterminal is one of every looser one;
  * `Derives.opens`, `Derives.opens_tight`, `Derives.opens_unary`: which tokens a tree can begin
    with.
-/

namespace Estree.Expression

/-! ## §1. Words and operators. -/

/-- The reserved words of ECMAScript. -/
def reservedWords : List Token :=
  ["await", "break", "case", "catch", "class", "const", "continue", "debugger", "default", "delete",
    "do", "else", "enum", "export", "extends", "false", "finally", "for", "function", "if",
      "import",
    "in", "instanceof", "new", "null", "return", "super", "switch", "this", "throw", "true", "try",
    "typeof", "var", "void", "while", "with", "yield"]

/-- The word can stand for a variable. -/
def IsIdentifier (x : Token) : Prop := isWord x = true ∧ x ∉ reservedWords

/-- No variable is a punctuator. -/
theorem IsIdentifier.ne {x t : Token} (hx : IsIdentifier x) (ht : isWord t = false) : x ≠ t := by
  rintro rfl
  exact absurd hx.1 (by simp [ht])

/-- The operators before an operand, but for `await`. -/
def unaryOperators : List Token := ["delete", "void", "typeof", "+", "-", "~", "!"]

/-- Increment and decrement. -/
def updateOperators : List Token := ["++", "--"]

/-- The operators of assignments. -/
def assignmentOperators : List Token :=
  ["=", "*=", "/=", "%=", "+=", "-=", "<<=", ">>=", ">>>=", "&=", "^=", "|=", "**=", "&&=", "||=",
    "??="]

/-- The operators that do not always evaluate both operands. -/
def logicalOperators : List Token := ["&&", "||", "??"]

/-! ## §2. Nonterminals. -/

/-- The nonterminals, from the tightest to the loosest. -/
inductive NonTerminal where
  | primary | member | new | call | leftHandSide | update | unary | exponentiation
  | multiplicative | additive | shift | relational | equality | bitwiseAnd | bitwiseXor | bitwiseOr
  | logicalAnd | logicalOr | coalesceHead | coalesce | shortCircuit | conditional | assignment
  | expression
  deriving DecidableEq

namespace NonTerminal

/-- The nonterminals that are one of a nonterminal as they stand. -/
def units : NonTerminal → List NonTerminal
  | primary => []
  | member => [primary]
  | new => [member]
  | call => []
  | leftHandSide => [new, call]
  | update => [leftHandSide]
  | unary => [update]
  | exponentiation => [unary]
  | multiplicative => [exponentiation]
  | additive => [multiplicative]
  | shift => [additive]
  | relational => [shift]
  | equality => [relational]
  | bitwiseAnd => [equality]
  | bitwiseXor => [bitwiseAnd]
  | bitwiseOr => [bitwiseXor]
  | logicalAnd => [bitwiseOr]
  | logicalOr => [logicalAnd]
  | coalesceHead => [coalesce, bitwiseOr]
  | coalesce => []
  | shortCircuit => [logicalOr, coalesce]
  | conditional => [shortCircuit]
  | assignment => [conditional]
  | expression => [assignment]

/-- The operators that associate to the left, between one of the nonterminal and one of its unit. -/
def operators : NonTerminal → List Token
  | multiplicative => ["*", "/", "%"]
  | additive => ["+", "-"]
  | shift => ["<<", ">>", ">>>"]
  | relational => ["<", ">", "<=", ">=", "instanceof", "in"]
  | equality => ["==", "!=", "===", "!=="]
  | bitwiseAnd => ["&"]
  | bitwiseXor => ["^"]
  | bitwiseOr => ["|"]
  | logicalAnd => ["&&"]
  | logicalOr => ["||"]
  | _ => []

/-- How tightly the parts of a nonterminal are bound together. -/
def level : NonTerminal → Nat
  | primary | member | new => 18
  | call | leftHandSide => 17
  | update => 16
  | unary => 15
  | exponentiation => 14
  | multiplicative => 13
  | additive => 12
  | shift => 11
  | relational => 10
  | equality => 9
  | bitwiseAnd => 8
  | bitwiseXor => 7
  | bitwiseOr => 6
  | logicalAnd => 5
  | logicalOr | coalesceHead | coalesce => 4
  | shortCircuit => 3
  | conditional => 2
  | assignment => 1
  | expression => 0

end NonTerminal

/-! ## §3. Derivations. -/

/-- The node of a name. -/
def named (x : Token) : Node := .identifier x false none []

/-- The node of a type with a name. -/
def typeNamed (x : Token) : Node := .tsTypeReference (named x) none

/-- The node of an operator between two operands. -/
def operation (op : Token) (left right : Node) : Node :=
  if op ∈ logicalOperators then .logicalExpression op left right
  else .binaryExpression op left right

/-- Whether a node can be assigned to. -/
def isTarget : Node → Bool
  | .identifier _ _ _ _ | .memberExpression _ _ _ _ => true
  | _ => false

/-- Tokens with a tree. -/
abbrev Item := List Token × Node

/-- The tokens of the items with a token between them. -/
def separated (sep : Token) : List Item → List Token
  | [] => []
  | [item] => item.1
  | item :: rest => item.1 ++ sep :: separated sep rest

/-- The tokens of the items with commas between them. -/
abbrev commaSeparated (items : List Item) : List Token := separated "," items

/-- The trees of the items. -/
def trees (items : List Item) : List Node := items.map Prod.snd

/-- How a list can close: a comma may stand after the last item. -/
def closings (close : Token) : List Item → List (List Token)
  | [] => [[close]]
  | _ => [[close], [",", close]]

/-- A list can close without a comma. -/
theorem mem_closings (close : Token) (items : List Item) : [close] ∈ closings close items := by
  cases items <;> simp [closings]

/-- `Derives d a ts n`: in the grammar of a dialect the tokens `ts` are an `a` with the tree `n`.
Only the typed dialect has assertions. -/
inductive Derives (d : Dialect) : NonTerminal → List Token → Node → Prop where
  | unit {a b : NonTerminal} {ts : List Token} {n : Node} : a ∈ b.units →
      Derives d a ts n → Derives d b ts n
  | identifier {x : Token} : IsIdentifier x → Derives d .primary [x] (named x)
  | parens {ts : List Token} {n : Node} : Derives d .expression ts n →
      Derives d .primary ("(" :: (ts ++ [")"])) n
  | field {a : NonTerminal} {o : List Token} {x : Token} {no : Node} : a ∈ [.member, .call] →
      isWord x = true → Derives d a o no →
      Derives d a (o ++ [".", x]) (.memberExpression no (named x) false false)
  | index {a : NonTerminal} {o i : List Token} {no ni : Node} : a ∈ [.member, .call] →
      Derives d a o no → Derives d .expression i ni →
      Derives d a (o ++ "[" :: (i ++ ["]"])) (.memberExpression no ni true false)
  | nonNull {a : NonTerminal} {o : List Token} {no : Node} : d = .typed → a ∈ [.member, .call] →
      Derives d a o no → Derives d a (o ++ ["!"]) (.tsNonNullExpression no)
  | newWith {c : List Token} {nc : Node} {items : List Item} {close : List Token} :
      Derives d .member c nc → (∀ i ∈ items, Derives d .assignment i.1 i.2) →
      close ∈ closings ")" items →
      Derives d .member ("new" :: (c ++ "(" :: (commaSeparated items ++ close)))
        (.newExpression nc (trees items) false none)
  | newBare {c : List Token} {nc : Node} : Derives d .new c nc →
      Derives d .new ("new" :: c) (.newExpression nc [] false none)
  | call {a : NonTerminal} {c : List Token} {nc : Node} {items : List Item} {close : List Token} :
      a ∈ [.member, .call] → Derives d a c nc → (∀ i ∈ items, Derives d .assignment i.1 i.2) →
      close ∈ closings ")" items →
      Derives d .call (c ++ "(" :: (commaSeparated items ++ close))
        (.callExpression nc (trees items) false none)
  | updateAfter {op : Token} {ts : List Token} {n : Node} : op ∈ updateOperators → isTarget n →
      Derives d .leftHandSide ts n → Derives d .update (ts ++ [op]) (.updateExpression op false n)
  | updateBefore {op : Token} {ts : List Token} {n : Node} : op ∈ updateOperators → isTarget n →
      Derives d .unary ts n → Derives d .update (op :: ts) (.updateExpression op true n)
  | unaryOperator {op : Token} {ts : List Token} {n : Node} : op ∈ unaryOperators →
      Derives d .unary ts n → Derives d .unary (op :: ts) (.unaryExpression op true n)
  | await {ts : List Token} {n : Node} : Derives d .unary ts n →
      Derives d .unary ("await" :: ts) (.awaitExpression n)
  | typeAssertion {x : Token} {ts : List Token} {n : Node} : d = .typed → IsIdentifier x →
      Derives d .unary ts n →
      Derives d .unary ("<" :: x :: ">" :: ts) (.tsTypeAssertion n (typeNamed x))
  | power {l r : List Token} {nl nr : Node} : Derives d .update l nl →
      Derives d .exponentiation r nr → Derives d .exponentiation (l ++ "**" :: r)
        (operation "**" nl nr)
  | operator {a b : NonTerminal} {op : Token} {l r : List Token} {nl nr : Node} :
      op ∈ b.operators → a ∈ b.units → Derives d b l nl → Derives d a r nr →
      Derives d b (l ++ op :: r) (operation op nl nr)
  | as {x : Token} {ts : List Token} {n : Node} : d = .typed → IsIdentifier x →
      Derives d .relational ts n →
      Derives d .relational (ts ++ ["as", x]) (.tsAsExpression n (typeNamed x))
  | satisfies {x : Token} {ts : List Token} {n : Node} : d = .typed → IsIdentifier x →
      Derives d .relational ts n →
      Derives d .relational (ts ++ ["satisfies", x]) (.tsSatisfiesExpression n (typeNamed x))
  | coalesce {l r : List Token} {nl nr : Node} : Derives d .coalesceHead l nl →
      Derives d .bitwiseOr r nr → Derives d .coalesce (l ++ "??" :: r) (operation "??" nl nr)
  | conditional {t a b : List Token} {nt na nb : Node} : Derives d .shortCircuit t nt →
      Derives d .assignment a na → Derives d .assignment b nb →
      Derives d .conditional (t ++ "?" :: (a ++ ":" :: b)) (.conditionalExpression nt na nb)
  | assign {op : Token} {l r : List Token} {nl nr : Node} : op ∈ assignmentOperators →
      isTarget nl → Derives d .leftHandSide l nl → Derives d .assignment r nr →
      Derives d .assignment (l ++ op :: r) (.assignmentExpression op nl nr)
  | sequence {items : List Item} : 2 ≤ items.length → (∀ i ∈ items, Derives d .assignment i.1 i.2) →
      Derives d .expression (commaSeparated items) (.sequenceExpression (trees items))

/-! ## §4. Looser nonterminals. -/

/-- Whether every one of `a` is one of a nonterminal, by so many unit productions at most. -/
def NonTerminal.includes (a : NonTerminal) : (steps : Nat) → NonTerminal → Bool
  | 0, b => decide (a = b)
  | steps + 1, b => decide (a = b) || b.units.any (a.includes steps)

/-- `a ≤ b`: every `a` is a `b` as it stands. -/
instance : LE NonTerminal := ⟨fun a b => a.includes 20 b = true⟩

instance (a b : NonTerminal) : Decidable (a ≤ b) :=
  inferInstanceAs (Decidable (a.includes 20 b = true))

variable {d : Dialect}

/-- A tree of a nonterminal is one of every looser one. -/
theorem Derives.mono {a b : NonTerminal} {ts : List Token} {n : Node} (hab : a ≤ b)
    (h : Derives d a ts n) : Derives d b ts n := by
  have hsteps : ∀ steps (b : NonTerminal), a.includes steps b = true → Derives d b ts n := by
    intro steps
    induction steps with
    | zero =>
      intro b hb
      rwa [← of_decide_eq_true hb]
    | succ steps ih =>
      intro b hb
      rw [NonTerminal.includes, Bool.or_eq_true, decide_eq_true_eq, List.any_eq_true] at hb
      rcases hb with rfl | ⟨c, hc, hincl⟩
      · exact h
      · exact .unit hc (ih c hincl)
  exact hsteps 20 b hab

/-! ## §5. First tokens. -/

/-- The tokens do not begin with the end of a list. -/
def Opens (ts : List Token) : Prop := ∃ t more, ts = t :: more ∧ t ≠ ")"

/-- What follows does not matter. -/
theorem Opens.append {ts : List Token} (h : Opens ts) (us : List Token) : Opens (ts ++ us) := by
  obtain ⟨t, more, rfl, ht⟩ := h
  exact ⟨t, more ++ us, rfl, ht⟩

/-- Tokens that begin with a word do not begin with the end of a list. -/
theorem opens_of_isWord {ts : List Token} (h : ∃ x more, ts = x :: more ∧ isWord x = true) :
    Opens ts := by
  obtain ⟨x, more, rfl, hx⟩ := h
  refine ⟨x, more, rfl, ?_⟩
  rintro rfl
  exact absurd hx (by decide)

/-- A tree does not begin with the end of a list. -/
theorem Derives.opens {a : NonTerminal} {ts : List Token} {n : Node} (h : Derives d a ts n) :
    Opens ts := by
  have hops : ∀ op ∈ unaryOperators ++ updateOperators, op ≠ ")" := by decide
  induction h with
  | unit _ _ ih => exact ih
  | identifier hx => exact ⟨_, _, rfl, hx.ne (by decide)⟩
  | parens | newWith | newBare | await | typeAssertion => exact ⟨_, _, rfl, by decide⟩
  | unaryOperator hop => exact ⟨_, _, rfl, hops _ (List.mem_append_left _ hop)⟩
  | updateBefore hop => exact ⟨_, _, rfl, hops _ (List.mem_append_right _ hop)⟩
  | field _ _ _ ih | updateAfter _ _ _ ih | nonNull _ _ _ ih | as _ _ _ ih | satisfies _ _ _ ih =>
    exact ih.append _
  | index _ _ _ ih | power _ _ ih | coalesce _ _ ih | operator _ _ _ _ ih | assign _ _ _ _ ih
  | call _ _ _ _ ih | conditional _ _ _ ih => exact ih.append _
  | @sequence items hlen _ ih =>
    match items, hlen with
    | i :: j :: items, _ => exact (ih i List.mem_cons_self).append _

/-- What binds tighter than an operator begins with a word or a parenthesis. -/
theorem Derives.opens_tight {a : NonTerminal} {ts : List Token} {n : Node} (h : Derives d a ts n)
    (ha : 17 ≤ a.level) : ∃ t more, ts = t :: more ∧ (isWord t = true ∨ t = "(") := by
  induction h with
  | @unit a b _ _ hab _ ih =>
    have hlevel : ∀ a ∈ b.units, b.level ≤ a.level := by cases b <;> decide
    exact ih (Nat.le_trans ha (hlevel a hab))
  | identifier hx => exact ⟨_, _, rfl, .inl hx.1⟩
  | parens => exact ⟨_, _, rfl, .inr rfl⟩
  | newWith | newBare => exact ⟨_, _, rfl, .inl (by decide)⟩
  | field _ _ _ ih | index _ _ _ ih | nonNull _ _ _ ih =>
    obtain ⟨t, more, rfl, ht⟩ := ih ha
    exact ⟨t, _, rfl, ht⟩
  | @call a _ _ _ _ hmem _ _ _ ih =>
    have hlevel : ∀ a ∈ [NonTerminal.member, .call], 17 ≤ a.level := by decide
    obtain ⟨t, more, rfl, ht⟩ := ih (hlevel a hmem)
    exact ⟨t, _, rfl, ht⟩
  | @operator _ b op _ _ _ _ hop =>
    have hlevel : ∀ op ∈ b.operators, b.level < 17 := by cases b <;> decide
    exact absurd (hlevel op hop) (Nat.not_lt.mpr ha)
  | _ => exact absurd ha (by decide)

/-- A unary expression begins with a word, a parenthesis or the bracket of an assertion, or with its
own operator. -/
theorem Derives.opens_unary {ts : List Token} {n : Node} (h : Derives d .unary ts n) :
    ∃ t more, ts = t :: more ∧ (isWord t = true ∨ t ∈ ["(", "<"] ∨
      t ∈ unaryOperators ++ updateOperators ∧
        ∃ m, n = .unaryExpression t true m ∨ n = .updateExpression t true m) := by
  -- what is tighter than an operator in front begins with a word or a parenthesis
  have htight : ∀ t : Token, isWord t = true ∨ t = "(" → isWord t = true ∨ t ∈ ["(", "<"] ∨
      t ∈ unaryOperators ++ updateOperators ∧
        ∃ m, n = .unaryExpression t true m ∨ n = .updateExpression t true m := by
    rintro t (ht | rfl)
    · exact .inl ht
    · exact .inr (.inl (by decide))
  cases h with
  | unaryOperator hop =>
    exact ⟨_, _, rfl, .inr (.inr ⟨List.mem_append_left _ hop, _, .inl rfl⟩)⟩
  | await => exact ⟨_, _, rfl, .inl (by decide)⟩
  | typeAssertion => exact ⟨_, _, rfl, .inr (.inl (by decide))⟩
  | unit hab h =>
    obtain rfl : _ = NonTerminal.update := by simpa [NonTerminal.units] using hab
    cases h with
    | updateBefore hop =>
      exact ⟨_, _, rfl, .inr (.inr ⟨List.mem_append_right _ hop, _, .inr rfl⟩)⟩
    | updateAfter _ _ h =>
      obtain ⟨t, more, rfl, ht⟩ := h.opens_tight (by decide)
      exact ⟨t, _, rfl, htight t ht⟩
    | unit hab h =>
      obtain rfl : _ = NonTerminal.leftHandSide := by simpa [NonTerminal.units] using hab
      obtain ⟨t, more, rfl, ht⟩ := h.opens_tight (by decide)
      exact ⟨t, _, rfl, htight t ht⟩
    | field ha | index ha | nonNull _ ha => simp at ha
    | operator hop => cases hop
  | field ha | index ha | nonNull _ ha => simp at ha
  | operator hop => cases hop

end Estree.Expression
