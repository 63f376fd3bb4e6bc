import Estree.Emit.Scope

/-!
# Type assertions

`as`, `satisfies`, `<T>x` and `x!`. The first two bind like relational operators, so an operand that
binds looser is wrapped, or the assertion would apply to its last part only.
-/

namespace Estree

namespace Emit

/-- Whether a node is a binary operator that binds looser than the relational ones. -/
def isLooserOperator : Node → Bool
  | .binaryExpression operator _ _ =>
    match operatorRank? operator with
    | some r => decide (r < relationalRank)
    | none => false
  | _ => false

/-- The operand of `as` and `satisfies`. -/
def asserted (s : Scope) (operand : Node) : Doc :=
  (s.emit operand).parensIf
    (isLooserOperator operand || s.ranksBelow operand.kind .tsSatisfiesExpression)

/-- An `as` assertion, in parentheses so that it can stand at any place. -/
def asExpression (s : Scope) : Node → Doc
  | .tsAsExpression expression annot =>
    (asserted s expression ++ " as " ++ s.emit annot).parens
  | n => .expected n [.tsAsExpression]

/-- A `satisfies` assertion. -/
def satisfiesExpression (s : Scope) : Node → Doc
  | .tsSatisfiesExpression expression annot =>
    asserted s expression ++ " satisfies " ++ s.emit annot
  | n => .expected n [.tsSatisfiesExpression]

/-- An assertion before its operand. -/
def typeAssertion (s : Scope) : Node → Doc
  | .tsTypeAssertion expression annot =>
    "<" ++ s.emit annot ++ ">" ++ s.operand expression .tsTypeAssertion
  | n => .expected n [.tsTypeAssertion]

/-- An assertion that a value is present. -/
def nonNullExpression (s : Scope) : Node → Doc
  | .tsNonNullExpression expression => s.operand expression .tsNonNullExpression ++ "!"
  | n => .expected n [.tsNonNullExpression]

end Emit

end Estree
