import Estree.Emit.Binding

/-!
# Statements

Programs, blocks and control flow. Statements of a block stand one level deeper, each on a line of
its own; the cases of a `switch` stand one level in and their statements two.
-/

namespace Estree

namespace Emit

/-! ## §1. Blocks. -/

/-- A program: its statements on lines of their own. -/
def program (s : Scope) : Node → Doc
  | .program body => s.lines body
  | n => .expected n [.program]

/-- A block of statements or the body of a class. -/
def block (s : Scope) : Node → Doc
  | .block .statement body | .block .classBody body => s.block body
  | n => .expected n [.blockStatement, .classBody]

/-- A static initialization block. -/
def staticBlock (s : Scope) : Node → Doc
  | .block .static body => "static " ++ s.block body
  | n => .expected n [.staticBlock]

/-! ## §2. Simple statements. -/

/-- Whether an expression assigns to an object pattern: `{a} = b` would be read as a block. -/
def assignsObject : Node → Bool
  | .assignmentExpression _ (.objectPattern _ _) _ => true
  | .assignmentExpression _ (.objectExpression _ _) _ => true
  | _ => false

/-- An expression as a statement, in parentheses where it would be read as something else. -/
def expressionStatement (s : Scope) : Node → Doc
  | .expressionStatement e _ =>
    (s.emit e).parensIf (s.rank e.kind == some Rank.wrapped || assignsObject e) ++ ";"
  | n => .expected n [.expressionStatement]

/-- A jump to the end or to the next round of a loop, perhaps with a label. -/
def jumpTo (s : Scope) (word : String) (label : Option Node) : Doc :=
  word ++ .ofOption label (fun n => " " ++ s.emit n) ++ ";"

/-- A jump. -/
def jump (s : Scope) : Node → Doc
  | .breakStatement label => jumpTo s "break" label
  | .continueStatement label => jumpTo s "continue" label
  | n => .expected n [.breakStatement, .continueStatement]

/-- A return. -/
def returnStatement (s : Scope) : Node → Doc
  | .returnStatement argument => "return" ++ .ofOption argument (fun n => " " ++ s.emit n) ++ ";"
  | n => .expected n [.returnStatement]

/-- A throw. -/
def throwStatement (s : Scope) : Node → Doc
  | .throwStatement argument => "throw " ++ s.emit argument ++ ";"
  | n => .expected n [.throwStatement]

/-! ## §3. Branches. -/

/-- A conditional statement. -/
def ifStatement (s : Scope) : Node → Doc
  | .ifStatement test consequent alternate =>
    "if (" ++ s.emit test ++ ") " ++ s.emit consequent
      ++ .ofOption alternate fun n => " else " ++ s.emit n
  | n => .expected n [.ifStatement]

/-- A statement with a label. -/
def labeledStatement (s : Scope) : Node → Doc
  | .labeledStatement label body => s.emit label ++ ": " ++ s.emit body
  | n => .expected n [.labeledStatement]

/-- A `with` statement. -/
def withStatement (s : Scope) : Node → Doc
  | .withStatement object body => "with (" ++ s.emit object ++ ") " ++ s.emit body
  | n => .expected n [.withStatement]

/-- The head of a case. -/
def caseHead (s : Scope) : Option Node → Doc
  | some test => "case " ++ s.emit test ++ ":"
  | none => "default:"

/-- A case of a `switch`: its head one level in from where the `switch` began, its statements at the
current depth. -/
def switchCase (s : Scope) (c : SwitchCase) : Doc :=
  .indentAt 1 ++ caseHead s c.test ++ .lineEnd ++ s.lines c.consequent

/-- A `switch` statement, two levels deeper from before its discriminant to its closing brace. -/
def switchStatement (s : Scope) : Node → Doc
  | .switchStatement discriminant cases =>
    .anchored (.deeper ++ .deeper ++ "switch (" ++ s.emit discriminant ++ ") \x7b" ++ .lineEnd
      ++ .concat (cases.map (switchCase s)) ++ .shallower ++ .shallower ++ .indent ++ "\x7d")
  | n => .expected n [.switchStatement]

/-- The handler of a `try`. -/
def handler (s : Scope) (c : CatchClause) : Doc :=
  (match c.param with
    | some param => " catch (" ++ s.emit param ++ ") "
    | none => " catch ")
    ++ s.emit c.body

/-- A `try` statement. -/
def tryStatement (s : Scope) : Node → Doc
  | .tryStatement tried clause finalizer =>
    "try " ++ s.emit tried ++ .ofOption clause (handler s)
      ++ .ofOption finalizer fun n => " finally " ++ s.emit n
  | n => .expected n [.tryStatement]

/-! ## §4. Loops. -/

/-- A loop that tests first. -/
def whileStatement (s : Scope) : Node → Doc
  | .whileStatement test body => "while (" ++ s.emit test ++ ") " ++ s.emit body
  | n => .expected n [.whileStatement]

/-- A loop that tests last. -/
def doWhileStatement (s : Scope) : Node → Doc
  | .doWhileStatement test body => "do " ++ s.emit body ++ " while (" ++ s.emit test ++ ");"
  | n => .expected n [.doWhileStatement]

/-- A clause in the head of a loop: a declaration goes without its terminator. -/
def loopHead (s : Scope) : Node → Doc
  | .variableDeclaration kind declarations _ => declarators s kind declarations
  | n => s.emit n

/-- A loop with three clauses. -/
def forStatement (s : Scope) : Node → Doc
  | .forStatement init test update body =>
    "for (" ++ .ofOption init (loopHead s) ++ "; " ++ s.emit? test ++ "; " ++ s.emit? update
      ++ ") " ++ s.emit body
  | n => .expected n [.forStatement]

/-- A loop over the keys or the items of a collection. -/
def loopOver (s : Scope) (word : String) (left right body : Node) (await : Bool) : Doc :=
  (if await then "for await (" else "for (") ++ loopHead s left ++ word ++ s.emit right ++ ") "
    ++ s.emit body

/-- A loop over a collection. -/
def forEach (s : Scope) : Node → Doc
  | .forInStatement left right body await => loopOver s " in " left right body await
  | .forOfStatement left right body await => loopOver s " of " left right body await
  | n => .expected n [.forInStatement, .forOfStatement]

end Emit

end Estree
