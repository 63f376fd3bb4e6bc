import Estree.Precedence
import Estree.Proofs.Dispatch
import Estree.Proofs.Expression.Grammar

/-!
# Where an expression stands without parentheses

The trees of names, operators, members and calls (`Fragment`), and what a tree of each rank is read
as in the way it is written (`Shape`). Two scales of ranks decide where a tree is put in
parentheses. For every position it is shown here that a tree which is left as it is has a
nonterminal that the grammar allows in the position: the operand of a unary operator, either operand
of an operator between operands, the operand of an assertion, the test of a conditional, the part
before a member or before arguments.

Main results:

* `Fragment`: the trees that are read back.
* `Shape.le`: a tree stands as it is wherever its shape does.
-/

namespace Estree.Expression

/-! ## §1. The trees. -/

/-- The trees of names, operators, members and calls. -/
inductive Fragment : Node → Prop where
  | identifier {x : String} : IsIdentifier x → Fragment (named x)
  | unary {op : String} {n : Node} : op ∈ unaryOperators → Fragment n →
      Fragment (.unaryExpression op true n)
  | await {n : Node} : Fragment n → Fragment (.awaitExpression n)
  | update {op : String} {isPrefix : Bool} {n : Node} : op ∈ updateOperators → isTarget n →
      Fragment n → Fragment (.updateExpression op isPrefix n)
  | binary {op : String} {l r : Node} : op ∉ logicalOperators → (operatorRank? op).isSome →
      Fragment l → Fragment r → Fragment (.binaryExpression op l r)
  | logical {op : String} {l r : Node} : op ∈ logicalOperators → Fragment l → Fragment r →
      Fragment (.logicalExpression op l r)
  | conditional {t a b : Node} : Fragment t → Fragment a → Fragment b →
      Fragment (.conditionalExpression t a b)
  | assignment {op : String} {l r : Node} : op ∈ assignmentOperators → isTarget l → Fragment l →
      Fragment r → Fragment (.assignmentExpression op l r)
  | sequence {ns : List Node} : 2 ≤ ns.length → (∀ n ∈ ns, Fragment n) →
      Fragment (.sequenceExpression ns)
  | field {o : Node} {x : String} : Fragment o → IsIdentifier x →
      Fragment (.memberExpression o (named x) false false)
  | index {o i : Node} : Fragment o → Fragment i → Fragment (.memberExpression o i true false)
  | call {c : Node} {args : List Node} : Fragment c → (∀ n ∈ args, Fragment n) →
      Fragment (.callExpression c args false none)
  | new {c : Node} {args : List Node} : Fragment c → (∀ n ∈ args, Fragment n) →
      Fragment (.newExpression c args false none)

/-! ## §2. Operators. -/

/-- The nonterminals whose operators associate to the left. -/
def leftAssociative : List NonTerminal :=
  [.multiplicative, .additive, .shift, .relational, .equality, .bitwiseAnd, .bitwiseXor, .bitwiseOr,
    .logicalAnd, .logicalOr]

/-- The nonterminal of an operator between operands. -/
def operatorSort (op : Token) : NonTerminal :=
  if op = "**" then .exponentiation
  else if op = "??" then .coalesce
  else (leftAssociative.find? fun a => op ∈ a.operators).getD .primary

/-- The nonterminal of the operand on one side of an operator. -/
def operandSort (op : Token) (right : Bool) : NonTerminal :=
  if op = "**" then if right then .exponentiation else .update
  else if op = "??" then if right then .bitwiseOr else .coalesceHead
  else if right then (operatorSort op).units.head?.getD .primary else operatorSort op

/-- The operators between operands that always evaluate both. -/
def binaryOperators : List Token :=
  ["|", "^", "&", "==", "!=", "===", "!==", "<", ">", "<=", ">=", "in", "instanceof", "<<", ">>",
    ">>>", "+", "-", "*", "%", "/", "**"]

/-- Every operator with a rank is one of the grammar. -/
theorem mem_binaryOperators {op : String} (hl : op ∉ logicalOperators)
    (hr : (operatorRank? op).isSome) : op ∈ binaryOperators := by
  unfold operatorRank? at hr
  split at hr
  case h_26 => cases hr
  all_goals first | decide | exact absurd (by decide) hl

/-! ## §3. Shapes. -/

/-- How a tree of rank `r` is written: the tightest nonterminal that it is as it stands is `a`. -/
inductive Shape (r : Nat) (a : NonTerminal) (n : Node) : Prop where
  | tight : r = 19 ∨ r = 20 → a ∈ [NonTerminal.primary, .member, .call] → Shape r a n
  | update : r = 16 → a = .update → Shape r a n
  | unary : r = 15 → a = .unary → Shape r a n
  -- an `in` brings its own parentheses
  | binary {op : String} {left right : Node} : op ∈ binaryOperators →
      n = .binaryExpression op left right → r = 14 →
      a = (if op = "in" then .primary else operatorSort op) → Shape r a n
  /-- What is ranked like a binary operator and has none. -/
  | assertion : r = 14 → n.operator? = none → a = .relational → Shape r a n
  | logical {op : String} {left right : Node} : op ∈ logicalOperators →
      n = .logicalExpression op left right → r = 13 → a = operatorSort op → Shape r a n
  | loose : r = 3 ∨ r = 4 → a ∈ [NonTerminal.conditional, .assignment] → Shape r a n

/-- **Positions.** A tree stands as it is wherever its shape does. -/
theorem Shape.le {r : Nat} {a b : NonTerminal} {n : Node} (h : Shape r a n)
    (htight : ∀ c ∈ [NonTerminal.primary, .member, .call], c ≤ b)
    (hupdate : r = 16 → NonTerminal.update ≤ b)
    (hunary : r = 15 → NonTerminal.unary ≤ b)
    (hbinary : ∀ op left right, op ∈ binaryOperators → n = .binaryExpression op left right →
      r = 14 → operatorSort op ≤ b)
    (hassertion : n.operator? = none → r = 14 → NonTerminal.relational ≤ b)
    (hlogical : ∀ op left right, op ∈ logicalOperators → n = .logicalExpression op left right →
      r = 13 → operatorSort op ≤ b)
    (hloose : r = 3 ∨ r = 4 → ∀ c ∈ [NonTerminal.conditional, .assignment], c ≤ b) : a ≤ b := by
  cases h with
  | tight _ ha => exact htight _ ha
  | update hr ha => exact ha ▸ hupdate hr
  | unary hr ha => exact ha ▸ hunary hr
  | binary hop hn hr ha =>
    -- the operator `in` is put in parentheses of its own and is a primary expression
    have hin := htight .primary (by decide)
    have hsort := hbinary _ _ _ hop hn hr
    rw [ha]
    split
    · exact hin
    · exact hsort
  | assertion hr hn ha => exact ha ▸ hassertion hn hr
  | logical hop hn hr ha => exact ha ▸ hlogical _ _ _ hop hn hr
  | loose hr ha => exact hloose hr _ ha

/-- The dialect gives the tree, which is an `a` as it stands, the rank of its shape. -/
def Stands (d : Dialect) (a : NonTerminal) (n : Node) : Prop :=
  ∃ r : Nat, (Grammar.ofDialect d).scope.rank n.kind = some r ∧ Shape r a n

/-- Every expression is at most an assignment. -/
theorem Stands.le_assignment {d : Dialect} {a : NonTerminal} {n : Node} (h : Stands d a n) :
    a ≤ .assignment := by
  obtain ⟨r, -, h⟩ := h
  have hbinary : ∀ op ∈ binaryOperators, operatorSort op ≤ .assignment := by decide
  have hlogical : ∀ op ∈ logicalOperators, operatorSort op ≤ .assignment := by decide
  exact h.le (by decide) (fun _ => by decide) (fun _ => by decide)
    (fun op _ _ hop _ _ => hbinary op hop) (fun _ _ => by decide)
    (fun op _ _ hop _ _ => hlogical op hop) (fun _ => by decide)

/-! ## §4. Where parentheses are left out. -/

/-- What binds as tightly as a unary operator is a unary expression. -/
theorem Shape.le_unary {r : Nat} {a : NonTerminal} {n : Node} (h : Shape r a n) (hr : 15 ≤ r) :
    a ≤ .unary := by
  refine h.le (by decide) (fun _ => by decide) (fun _ => by decide) ?_ ?_ ?_ ?_
  · intros
    omega
  · intros
    omega
  · intros
    omega
  · intros
    omega

section Positions

variable {s : Scope} {n parent : Node} {right : Bool} {r p : Nat}

/-- Without parentheses the rank is not below that of the position. -/
theorem le_of_needsParens (hr : s.rank n.kind = some r) (hp : s.rank parent.kind = some p)
    (h : s.needsParens n parent right = false) : p ≤ r := by
  unfold Scope.needsParens at h
  rw [hr, hp] at h
  simp only at h
  split at h
  · cases h
  · split at h
    next =>
      rw [Bool.or_eq_false_iff, decide_eq_false_iff_not] at h
      exact Nat.not_lt.mp h.2
    next heq => exact Nat.le_of_eq (Decidable.not_not.mp heq).symm

/-- At the same rank the side decides. -/
theorem equalRank_of_needsParens (hr : s.rank n.kind = some r) (hp : s.rank parent.kind = some r)
    (h : s.needsParens n parent right = false) :
    Scope.equalRankNeedsParens r n parent right = false := by
  unfold Scope.needsParens at h
  rw [hr, hp] at h
  simp only [ne_eq, not_true, if_false] at h
  split at h
  · cases h
  · exact h

/-- The base of a power must not be a unary expression. -/
theorem needsParens_of_power (hr : s.rank n.kind = some 15) (hp : s.rank parent.kind = some 14)
    (ho : parent.operator? = some "**") : s.needsParens n parent false = true := by
  unfold Scope.needsParens
  rw [hr, hp, ho]
  rfl

end Positions

/-- The operand of a unary operator or of `await`. -/
theorem Stands.le_unary {d : Dialect} {a : NonTerminal} {n parent : Node} (h : Stands d a n)
    (hp : (Grammar.ofDialect d).scope.rank parent.kind = some Rank.unary)
    (hw : (Grammar.ofDialect d).scope.needsParens n parent false = false) : a ≤ .unary := by
  obtain ⟨r, hr, h⟩ := h
  exact h.le_unary (le_of_needsParens hr hp hw)

/-- The operation of a binary operator. -/
theorem operation_of_binary {op : Token} (hop : op ∈ binaryOperators) (l r : Node) :
    operation op l r = .binaryExpression op l r := by
  have hne : ∀ op ∈ binaryOperators, op ∉ logicalOperators := by decide
  exact if_neg (hne op hop)

/-- The operation of a logical operator. -/
theorem operation_of_logical {op : Token} (hop : op ∈ logicalOperators) (l r : Node) :
    operation op l r = .logicalExpression op l r := if_pos hop

/-- Every binary operation has one rank. -/
theorem scope_rank_binary (d : Dialect) (op : Token) (l r : Node) :
    (Grammar.ofDialect d).scope.rank (Node.binaryExpression op l r).kind = some 14 := by
  cases d <;> rfl

/-- Every logical operation has one rank, below that of the binary ones. -/
theorem scope_rank_logical (d : Dialect) (op : Token) (l r : Node) :
    (Grammar.ofDialect d).scope.rank (Node.logicalExpression op l r).kind = some 13 := by
  cases d <;> rfl

/-- The nonterminals of the binary operators. -/
def binarySorts : List NonTerminal :=
  [.exponentiation, .multiplicative, .additive, .shift, .relational, .equality, .bitwiseAnd,
    .bitwiseXor, .bitwiseOr]

/-- The ranks of the binary operators are the levels of the grammar. -/
theorem rank_of_binary {op : Token} (hop : op ∈ binaryOperators) : operatorSort op ∈ binarySorts ∧
    operatorRank? op = some ((operatorSort op).level - 1) := by
  revert op
  decide

/-- Both operators are binary: the ranks decide, and powers associate to the right. -/
theorem binary_in_binary {op op' : Token} {l r l' r' : Node} {right : Bool}
    (hop : op ∈ binaryOperators) (hop' : op' ∈ binaryOperators)
    (hw : Scope.equalRankNeedsParens 14 (.binaryExpression op' l' r')
      (.binaryExpression op l r) right = false) : operatorSort op' ≤ operandSort op right := by
  obtain ⟨hmem, hrank⟩ := rank_of_binary hop
  obtain ⟨hmem', hrank'⟩ := rank_of_binary hop'
  -- on the left equal levels may stand, on the right only higher ones
  have hleft : ∀ a ∈ binarySorts, ∀ b ∈ binarySorts, b.level - 1 ≤ a.level - 1 → a ≤ b := by decide
  have hright : ∀ a ∈ binarySorts, ∀ b ∈ binarySorts, b.level - 1 < a.level - 1 →
      a ≤ b.units.head?.getD .primary := by decide
  unfold Scope.equalRankNeedsParens at hw
  simp only [Node.operator?, Option.some.injEq, Option.bind_some, hrank, hrank'] at hw
  rw [if_neg (by decide)] at hw
  split at hw
  next hpow =>
    -- a power in a power is left as it is on the right side only
    obtain ⟨rfl, rfl⟩ := hpow
    obtain rfl : right = true := by simpa using hw
    decide
  next hpow =>
    rw [if_neg (by simp [Rank.logical])] at hw
    by_cases hop₂ : op = "**"
    · -- every other operator binds less than a power
      have hless : ∀ op ∈ binaryOperators, op ≠ "**" → (operatorSort op).level - 1 < 13 := by decide
      have hlt := hless op' hop' fun h => hpow ⟨h, hop₂⟩
      have hlevel : (operatorSort op).level - 1 = 13 := by
        rw [hop₂]
        decide
      rw [hlevel] at hw
      cases right <;> simp at hw <;> omega
    · have hne : ∀ op ∈ binaryOperators, op ≠ "??" := by decide
      rw [operandSort, if_neg hop₂, if_neg (hne op hop)]
      cases right with
      | false => exact hleft _ hmem' _ hmem (Nat.not_lt.mp (of_decide_eq_false hw))
      | true => exact hright _ hmem' _ hmem (Nat.not_le.mp (of_decide_eq_false hw))

/-- Both operators are logical: `??` does not mix with anything. -/
theorem logical_in_logical {op op' : Token} {l r l' r' : Node} {right : Bool}
    (hop : op ∈ logicalOperators) (hop' : op' ∈ logicalOperators)
    (hw : Scope.equalRankNeedsParens 13 (.logicalExpression op' l' r') (.logicalExpression op l r)
      right = false) : operatorSort op' ≤ operandSort op right := by
  unfold Scope.equalRankNeedsParens at hw
  simp only [Node.operator?, Option.some.injEq, Option.bind_some] at hw
  simp only [logicalOperators, List.mem_cons, List.not_mem_nil, or_false] at hop hop'
  rcases hop with rfl | rfl | rfl <;> rcases hop' with rfl | rfl | rfl <;> cases right <;>
    first
    | decide
    | exact absurd hw (by decide)

/-- What binds tighter than every operator between operands stands on either side of each. -/
theorem le_operandSort {op : Token} (hop : op ∈ binaryOperators ++ logicalOperators) (right : Bool)
    {a : NonTerminal} (ha : a ∈ [NonTerminal.primary, .member, .call] ++ [.update]) :
    a ≤ operandSort op right := by
  revert op right a
  decide

/-- An operand of a binary operator. -/
theorem Stands.le_binary {d : Dialect} {a : NonTerminal} {n left right : Node} {op : Token}
    {isRight : Bool} (h : Stands d a n) (hop : op ∈ binaryOperators)
    (hw : (Grammar.ofDialect d).scope.needsParens n (.binaryExpression op left right) isRight =
      false) :
    a ≤ operandSort op isRight := by
  obtain ⟨r, hr, h⟩ := h
  have hparent := scope_rank_binary d op left right
  have hle := le_of_needsParens hr hparent hw
  have hmem := List.mem_append_left logicalOperators hop
  refine h.le (fun b hb => le_operandSort hmem isRight (List.mem_append_left _ hb))
    (fun _ => le_operandSort hmem isRight (by decide)) ?_ ?_ ?_ ?_ ?_
  · rintro rfl
    have hunary : ∀ op ∈ binaryOperators, ∀ right, ¬ (op = "**" ∧ right = false) →
        NonTerminal.unary ≤ operandSort op right := by decide
    refine hunary op hop isRight ?_
    rintro ⟨rfl, rfl⟩
    have hwrapped := needsParens_of_power hr hparent rfl
    rw [hw] at hwrapped
    cases hwrapped
  · rintro op' left' right' hop' rfl rfl
    exact binary_in_binary hop hop' (equalRank_of_needsParens hr hparent hw)
  · rintro hn rfl
    -- without an operator of its own the tree is always in parentheses
    have hequal := equalRank_of_needsParens hr hparent hw
    have hparent? : (Node.binaryExpression op left right).operator? = some op := rfl
    simp [Scope.equalRankNeedsParens, hn, hparent?, (rank_of_binary hop).2, Rank.logical,
      Rank.binary] at hequal
  · intros
    omega
  · intros
    omega

/-- An operand of a logical operator. -/
theorem Stands.le_logical {d : Dialect} {a : NonTerminal} {n left right : Node} {op : Token}
    {isRight : Bool} (h : Stands d a n) (hop : op ∈ logicalOperators)
    (hw : (Grammar.ofDialect d).scope.needsParens n (.logicalExpression op left right) isRight =
      false) :
    a ≤ operandSort op isRight := by
  obtain ⟨r, hr, h⟩ := h
  have hparent := scope_rank_logical d op left right
  have hle := le_of_needsParens hr hparent hw
  have hmem := List.mem_append_right binaryOperators hop
  have htighter : ∀ op ∈ logicalOperators, ∀ right, NonTerminal.unary ≤ operandSort op right ∧
      NonTerminal.relational ≤ operandSort op right ∧
      ∀ op' ∈ binaryOperators, operatorSort op' ≤ operandSort op right := by decide
  obtain ⟨hunary, hrelational, hbinary⟩ := htighter op hop isRight
  refine h.le (fun b hb => le_operandSort hmem isRight (List.mem_append_left _ hb))
    (fun _ => le_operandSort hmem isRight (by decide)) (fun _ => hunary)
    (fun op' _ _ hop' _ _ => hbinary op' hop') (fun _ _ => hrelational) ?_ ?_
  · rintro op' left' right' hop' rfl rfl
    exact logical_in_logical hop hop' (equalRank_of_needsParens hr hparent hw)
  · intros
    omega

/-- The test of a conditional. -/
theorem Stands.le_shortCircuit {d : Dialect} {a : NonTerminal} {n : Node} (h : Stands d a n)
    (hw : Emit.testNeedsParens (Grammar.ofDialect d).scope n = false) : a ≤ .shortCircuit := by
  obtain ⟨r, hr, h⟩ := h
  have hle : 4 < r := by
    unfold Emit.testNeedsParens at hw
    rw [hr, show (Grammar.ofDialect d).scope.rank .conditionalExpression = some 4 by
      cases d <;> rfl] at hw
    simp only [Bool.or_eq_false_iff, decide_eq_false_iff_not, Nat.not_le] at hw
    exact hw.2
  have hbinary : ∀ op ∈ binaryOperators, operatorSort op ≤ .shortCircuit := by decide
  have hlogical : ∀ op ∈ logicalOperators, operatorSort op ≤ .shortCircuit := by decide
  refine h.le (by decide) (fun _ => by decide) (fun _ => by decide)
    (fun op _ _ hop _ _ => hbinary op hop) (fun _ _ => by decide)
    (fun op _ _ hop _ _ => hlogical op hop) (fun hr => ?_)
  omega

/-- What has a rank of at least 19 is a member or a call, or tighter. -/
theorem Shape.tight_of_le {r : Nat} {a : NonTerminal} {n : Node} (h : Shape r a n) (hr : 19 ≤ r) :
    a ∈ [NonTerminal.primary, .member, .call] := by
  cases h with
  | tight _ ha => exact ha
  | _ => omega

/-- No tree has the rank that is a mark, so a tree is wrapped in a position if its rank is less. -/
theorem Stands.le_of_ranksBelow {d : Dialect} {a : NonTerminal} {n : Node} {position : Kind}
    {p : Nat} (h : Stands d a n) (hp : (Grammar.ofDialect d).scope.rank position = some p)
    (hw : (Grammar.ofDialect d).scope.ranksBelow n.kind position = false) :
    ∃ r, p ≤ r ∧ Shape r a n := by
  obtain ⟨r, hr, h⟩ := h
  refine ⟨r, ?_, h⟩
  unfold Scope.ranksBelow at hw
  rw [hr, hp] at hw
  simp only [Bool.or_eq_false_iff, decide_eq_false_iff_not, Nat.not_lt] at hw
  exact hw.2

/-- The operand of an assertion after it. -/
theorem Stands.le_relational {a : NonTerminal} {n : Node} (h : Stands .typed a n)
    (hw : (Emit.isLooserOperator n ||
      (Grammar.ofDialect .typed).scope.ranksBelow n.kind .tsSatisfiesExpression) = false) :
    a ≤ .relational := by
  rw [Bool.or_eq_false_iff] at hw
  obtain ⟨hlooser, hw⟩ := hw
  obtain ⟨r, hle, h⟩ := h.le_of_ranksBelow (p := 14) rfl hw
  refine h.le (by decide) (fun _ => by decide) (fun _ => by decide) ?_ (fun _ _ => by decide) ?_ ?_
  · rintro op left right hop rfl -
    -- the operands play no part
    have hsort : ∀ op ∈ binaryOperators, Emit.isLooserOperator (.binaryExpression op (named "")
        (named "")) = false → operatorSort op ≤ .relational := by decide
    exact hsort op hop hlooser
  · intros
    omega
  · intros
    omega

/-- What is wrapped is not a call. -/
theorem Stands.ne_call_of_ranksBelow {d : Dialect} {a : NonTerminal} {n : Node} {position : Kind}
    (h : Stands d a n) (hp : (Grammar.ofDialect d).scope.rank position = some 19)
    (hw : (Grammar.ofDialect d).scope.ranksBelow n.kind position = true) : a ≠ .call := by
  obtain ⟨r, hr, h⟩ := h
  have hlt : r < 19 := by
    unfold Scope.ranksBelow at hw
    rw [hr, hp] at hw
    simp only [Bool.or_eq_true, beq_iff_eq, decide_eq_true_eq] at hw
    rcases hw with rfl | hlt
    · decide
    · exact hlt
  rintro rfl
  -- only a tight tree can be a call, and its rank is at least 19
  cases h with
  | tight hr => omega
  | binary hop _ _ ha =>
    have hne : ∀ op ∈ binaryOperators,
        NonTerminal.call ≠ if op = "in" then .primary else operatorSort op := by decide
    exact hne _ hop ha
  | logical hop _ _ ha =>
    have hne : ∀ op ∈ logicalOperators, NonTerminal.call ≠ operatorSort op := by decide
    exact hne _ hop ha
  | loose _ ha => exact absurd ha (by decide)
  | update _ ha | unary _ ha | assertion _ _ ha => cases ha

/-- What can be assigned to is tight. -/
theorem Stands.tight_of_target {d : Dialect} {a : NonTerminal} {n : Node} (h : Stands d a n)
    (ht : isTarget n = true) : a ∈ [NonTerminal.primary, .member, .call] := by
  obtain ⟨r, hr, h⟩ := h
  refine h.tight_of_le ?_
  unfold isTarget at ht
  split at ht
  · cases d <;> (obtain rfl := Option.some.inj hr; decide)
  · cases d <;> (obtain rfl := Option.some.inj hr; decide)
  · cases ht

end Estree.Expression
