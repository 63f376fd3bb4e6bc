import Estree.Kind

/-!
# Precedence

Two scales decide where parentheses stand. A precedence table ranks kinds of expressions, a higher
rank binding tighter; operators that share a rank are told apart by the rank of the operator itself.
The rank `Rank.wrapped` is a mark rather than a rank: an expression that has it is put in
parentheses wherever it is an operand, and it is tested for before ranks are compared.
-/

namespace Estree

/-! ## §1. Ranks of kinds. -/

/-- How tightly a kind of expression binds. -/
abbrev Rank := Nat

namespace Rank

/-- The mark of arrow, class, function and object expressions. -/
def wrapped : Rank := 17

/-- Unary operators. -/
def unary : Rank := 15

/-- Binary operators. -/
def binary : Rank := 14

/-- Logical operators. -/
def logical : Rank := 13

end Rank

/-- The ranks of the kinds that are expressions. -/
structure PrecedenceTable where
  rank : Kind → Option Rank

namespace PrecedenceTable

/-- No kind has a rank. -/
def empty : PrecedenceTable := ⟨fun _ => none⟩

/-- The table with one rank replaced. -/
def set (t : PrecedenceTable) (k : Kind) (r : Rank) : PrecedenceTable :=
  ⟨fun k' => if k' = k then some r else t.rank k'⟩

/-- Whether two tables give every kind the same rank. -/
def same (a b : PrecedenceTable) : Bool := Kind.all.all fun k => a.rank k == b.rank k

/-- The ranks of JavaScript. -/
def javaScript : PrecedenceTable where
  rank
    | .arrayExpression | .taggedTemplateExpression | .thisExpression | .identifier
    | .privateIdentifier | .templateLiteral | .super | .sequenceExpression => some 20
    | .memberExpression | .chainExpression | .callExpression | .newExpression => some 19
    | .literal => some 18
    | .arrowFunctionExpression | .classExpression | .functionExpression | .objectExpression =>
      some Rank.wrapped
    | .updateExpression => some 16
    | .unaryExpression | .awaitExpression => some Rank.unary
    | .binaryExpression => some Rank.binary
    | .logicalExpression => some Rank.logical
    | .conditionalExpression => some 4
    | .assignmentExpression => some 3
    | .yieldExpression => some 2
    | .restElement => some 1
    | _ => none

/-- The ranks of TypeScript: those of JavaScript and of the typed expressions. -/
def typeScript : PrecedenceTable where
  rank
    | .tsAsExpression => some 20
    | .tsNonNullExpression => some 19
    | .tsTypeAssertion => some Rank.unary
    | .tsSatisfiesExpression => some Rank.binary
    | k => javaScript.rank k

end PrecedenceTable

/-! ## §2. Ranks of operators. -/

/-- The rank of a binary or logical operator. -/
def operatorRank? : String → Option Nat
  | "||" => some 2
  | "??" => some 3
  | "&&" => some 4
  | "|" => some 5
  | "^" => some 6
  | "&" => some 7
  | "==" | "!=" | "===" | "!==" => some 8
  | "<" | ">" | "<=" | ">=" | "in" | "instanceof" => some 9
  | "<<" | ">>" | ">>>" => some 10
  | "+" | "-" => some 11
  | "*" | "%" | "/" => some 12
  | "**" => some 13
  | _ => none

/-- The operator rank at which `as` and `satisfies` bind. -/
def relationalRank : Nat := 9

end Estree
