import Estree.Emit.Binding

/-!
# Functions

Function declarations and expressions, arrow functions, and signatures without a body.
-/

namespace Estree

namespace Emit

/-- `async function* name`: everything before the parameters. -/
def functionHead (f : FunctionLike) : Doc :=
  .onlyIf f.async "async " ++ (if f.generator then "function* " else "function ")
    ++ .ofOption f.id fun id => .ofExcept id.identifierName Doc.text

/-- A function with its body in the plain dialect. -/
def Plain.functionWithBody (s : Scope) (n : Node) (f : FunctionLike) : Doc :=
  functionHead f ++ s.sequence f.params ++ " "
    ++ match f.body with
      | some body => s.emit body
      | none => .malformed n .noBody

/-- A function declaration or expression in the plain dialect. -/
def Plain.function (s : Scope) (n : Node) : Doc :=
  match n with
  | .function .declaration f => Plain.functionWithBody s n f
  | .function .expression f => Plain.functionWithBody s n f
  | n => .expected n [.functionDeclaration, .functionExpression]

/-- Type parameters, parameters and result type. -/
def Typed.functionSignature (s : Scope) (f : FunctionLike) : Doc :=
  s.emit? f.typeParameters ++ s.sequence f.params ++ s.annot f.returnType

/-- A function with its body in the typed dialect. -/
def Typed.functionWithBody (s : Scope) (n : Node) (f : FunctionLike) : Doc :=
  functionHead f ++ Typed.functionSignature s f ++ " "
    ++ match f.body with
      | some body => s.emit body
      | none => .malformed n .noBody

/-- A function declaration or expression in the typed dialect. -/
def Typed.function (s : Scope) (n : Node) : Doc :=
  match n with
  | .function .declaration f => Typed.functionWithBody s n f
  | .function .expression f => Typed.functionWithBody s n f
  | n => .expected n [.functionDeclaration, .functionExpression]

/-- A function without a body: an overload or an ambient function. -/
def bodilessFunction (s : Scope) : Node → Doc
  | .function .declared f | .function .emptyBody f =>
    .onlyIf f.declare "declare " ++ functionHead f ++ Typed.functionSignature s f
  | n => .expected n [.tsDeclareFunction, .tsEmptyBodyFunctionExpression]

/-- The body of an arrow function: an object is wrapped so that it is not read as a block. -/
def arrowBody (s : Scope) (body : Node) : Doc :=
  " => " ++
    match body with
    | .objectExpression _ _ | .objectPattern _ _ => (s.emitAs .objectExpression body).parens
    | body => s.emit body

/-- The parameters of an arrow function in the plain dialect: a lone name goes without
parentheses. -/
def arrowParams (s : Scope) : List Node → Doc
  | [.identifier name _ _ _] => name
  | params => s.sequence params

/-- An arrow function in the plain dialect. -/
def Plain.arrowFunction (s : Scope) : Node → Doc
  | .arrowFunctionExpression f =>
    .onlyIf f.async "async " ++ arrowParams s f.params ++ arrowBody s f.body
  | n => .expected n [.arrowFunctionExpression]

/-- An arrow function in the typed dialect: the parameters always stand in parentheses. -/
def Typed.arrowFunction (s : Scope) : Node → Doc
  | .arrowFunctionExpression f =>
    s.emit? f.typeParameters ++ .onlyIf f.async "async " ++ s.sequence f.params
      ++ s.annot f.returnType ++ arrowBody s f.body
  | n => .expected n [.arrowFunctionExpression]

end Emit

end Estree
