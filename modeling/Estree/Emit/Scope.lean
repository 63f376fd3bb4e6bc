import Estree.Node.Query
import Estree.Doc
import Estree.Precedence

/-!
# What a procedure works with

A scope is what a procedure may use besides the node that it writes: the dispatch of nodes under
kinds, and the ranks of kinds. The functions here put documents of nodes together: lists, operands
in parentheses where precedence asks for them, annotations.
-/

namespace Estree

/-- The surroundings of a procedure: dispatch under a kind, and the rank of a kind. -/
structure Scope where
  emitAs : Kind → Node → Doc
  rank : Kind → Option Rank

namespace Scope

/-! ## §1. Nodes and lists. -/

/-- The document of a node under its own kind. -/
def emit (s : Scope) (n : Node) : Doc := s.emitAs n.kind n

/-- The document of a node that may be absent. -/
def emit? (s : Scope) (n : Option Node) : Doc := .ofOption n s.emit

/-- The nodes with a separator between them. -/
def joined (s : Scope) (sep : String) (ns : List Node) : Doc := .join sep (ns.map s.emit)

/-- The nodes in parentheses, as parameters and arguments are written. -/
def sequence (s : Scope) (ns : List Node) : Doc := (s.joined ", " ns).parens

/-- A node in parentheses. -/
def parenthesized (s : Scope) (n : Node) : Doc := (s.emit n).parens

/-- The type after a colon, if there is one. -/
def annot (s : Scope) (n : Option Node) : Doc := .ofOption n fun n => ": " ++ s.emit n

/-- Each node on a line of its own. -/
def lines (s : Scope) (ns : List Node) : Doc := .concat (ns.map fun n => (s.emit n).line)

/-- The nodes between braces, each on a line of its own, one level deeper. -/
def block (s : Scope) (ns : List Node) : Doc :=
  .braces (.deeper ++
    if ns.isEmpty then .shallower else .lineEnd ++ s.lines ns ++ .shallower ++ .indent)

/-- A key, in brackets when it is computed. -/
def key (s : Scope) (n : Node) (computed : Bool) : Doc :=
  if computed then (s.emit n).brackets else s.emit n

/-! ## §2. Operands. -/

/-- Whether a kind has to be wrapped in a position that wants the rank of `threshold` or more. -/
def ranksBelow (s : Scope) (k threshold : Kind) : Bool :=
  match s.rank k, s.rank threshold with
  | none, _ => false
  | some r, none => r == Rank.wrapped
  | some r, some t => r == Rank.wrapped || decide (r < t)

/-- Whether an operand of the rank that its parent has must be wrapped; only binary and logical
operators share a rank with operators that bind differently. -/
def equalRankNeedsParens (r : Rank) (n parent : Node) (right : Bool) : Bool :=
  if r ≠ Rank.logical ∧ r ≠ Rank.binary then false
  else if n.operator? = some "**" ∧ parent.operator? = some "**" then !right
  else if r = Rank.logical ∧ (n.operator? = some "??" ∨ parent.operator? = some "??") then true
  else
    match n.operator?.bind operatorRank?, parent.operator?.bind operatorRank? with
    | some a, some b => if right then decide (a ≤ b) else decide (a < b)
    | none, some _ => true
    | _, none => false

/-- Whether a node must be wrapped as an operand of `parent`. The base of a power must not be a
unary expression, although that binds tighter. -/
def needsParens (s : Scope) (n parent : Node) (right : Bool) : Bool :=
  match s.rank n.kind, s.rank parent.kind with
  | none, _ => false
  | some r, none => r == Rank.wrapped
  | some r, some p =>
    if r = Rank.wrapped then true
    else if r ≠ p then
      (!right && r == Rank.unary && p == Rank.binary && parent.operator? == some "**")
        || decide (r < p)
    else equalRankNeedsParens r n parent right

/-- An operand of `parent`, wrapped when it must be. -/
def operandOf (s : Scope) (n parent : Node) (right : Bool) : Doc :=
  (s.emit n).parensIf (s.needsParens n parent right)

/-- An operand in a position that wants the rank of a kind or more. -/
def operand (s : Scope) (n : Node) (position : Kind) : Doc :=
  (s.emit n).parensIf (s.ranksBelow n.kind position)

end Scope

end Estree
