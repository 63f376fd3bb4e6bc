import Estree.Emit.Scope

/-!
# Operators

Unary, update, binary, conditional and assignment expressions, with the parentheses that precedence
asks for and the spaces that keep tokens apart; sequences, spreads, `await` and `yield`.
-/

namespace Estree

namespace Emit

/-! ## §1. Unary operators. -/

/-- Whether an argument begins with the sign that the operator is, so that `- -a` must not become
`--a`. -/
def repeatsSign (argument : Node) (operator : String) : Bool :=
  if operator = "+" ∨ operator = "-" then
    match argument with
    | .unaryExpression inner isPrefix _ => isPrefix && inner.startsWith operator
    | .updateExpression inner isPrefix _ => isPrefix && inner.startsWith operator
    | _ => false
  else false

/-- Whether an operator takes up more than one byte, as word operators do. -/
def isLong (operator : String) : Bool := decide (1 < operator.utf8ByteSize)

/-- A prefix operator before its argument. -/
def prefixed (s : Scope) (n : Node) (operator : String) (argument : Node) : Doc :=
  if s.needsParens argument n false then
    operator ++ .onlyIf (isLong operator) " " ++ s.parenthesized argument
  else
    operator ++ .onlyIf (isLong operator || repeatsSign argument operator) " " ++ s.emit argument

/-- A unary expression. -/
def unaryExpression (s : Scope) (n : Node) : Doc :=
  match n with
  | .unaryExpression operator true argument => prefixed s n operator argument
  | .unaryExpression operator false argument => s.emit argument ++ operator
  | n => .expected n [.unaryExpression]

/-- An increment or decrement. -/
def updateExpression (s : Scope) : Node → Doc
  | .updateExpression operator true argument => operator ++ s.emit argument
  | .updateExpression operator false argument => s.emit argument ++ operator
  | n => .expected n [.updateExpression]

/-- An `await`. -/
def awaitExpression (s : Scope) (n : Node) : Doc :=
  match n with
  | .awaitExpression argument => "await " ++ s.operandOf argument n false
  | n => .expected n [.awaitExpression]

/-- A `yield`. -/
def yieldExpression (s : Scope) : Node → Doc
  | .yieldExpression argument delegate =>
    (if delegate then "yield*" else "yield") ++ .ofOption argument fun n => " " ++ s.emit n
  | n => .expected n [.yieldExpression]

/-- A rest element or a spread in the plain dialect. -/
def Plain.restElement (s : Scope) : Node → Doc
  | .restElement argument _ | .spreadElement argument _ => "..." ++ s.emit argument
  | n => .expected n [.restElement, .spreadElement]

/-- A rest element in the typed dialect, with its annotation. -/
def Typed.restElement (s : Scope) : Node → Doc
  | .restElement argument annot => "..." ++ s.emit argument ++ s.annot annot
  | n => .expected n [.restElement]

/-! ## §2. Binary operators. -/

/-- An operator between two operands. An `in` is always wrapped, because it would be misread in the
head of a loop. -/
def infixed (s : Scope) (n : Node) (operator : String) (left right : Node) : Doc :=
  .parensIf (operator == "in")
    (s.operandOf left n false ++ " " ++ operator ++ " " ++ s.operandOf right n true)

/-- A binary or logical expression. -/
def binaryExpression (s : Scope) (n : Node) : Doc :=
  match n with
  | .binaryExpression operator left right => infixed s n operator left right
  | .logicalExpression operator left right => infixed s n operator left right
  | n => .expected n [.binaryExpression, .logicalExpression]

/-- An assignment. -/
def assignmentExpression (s : Scope) : Node → Doc
  | .assignmentExpression operator left right =>
    s.emit left ++ " " ++ operator ++ " " ++ s.emit right
  | n => .expected n [.assignmentExpression]

/-- A pattern with a default. -/
def assignmentPattern (s : Scope) : Node → Doc
  | .assignmentPattern left right => s.emit left ++ " = " ++ s.emit right
  | n => .expected n [.assignmentPattern]

/-! ## §3. Other operators. -/

/-- Whether the test of a conditional must be wrapped: it must bind tighter than a conditional. -/
def testNeedsParens (s : Scope) (test : Node) : Bool :=
  match s.rank test.kind, s.rank .conditionalExpression with
  | none, _ => false
  | some r, none => r == Rank.wrapped
  | some r, some t => r == Rank.wrapped || decide (r ≤ t)

/-- A conditional expression. -/
def conditionalExpression (s : Scope) : Node → Doc
  | .conditionalExpression test consequent alternate =>
    (s.emit test).parensIf (testNeedsParens s test) ++ " ? " ++ s.emit consequent ++ " : "
      ++ s.emit alternate
  | n => .expected n [.conditionalExpression]

/-- A sequence, always in parentheses. -/
def sequenceExpression (s : Scope) : Node → Doc
  | .sequenceExpression expressions => s.sequence expressions
  | n => .expected n [.sequenceExpression]

end Emit

end Estree
