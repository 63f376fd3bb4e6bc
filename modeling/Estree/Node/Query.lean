import Estree.EmitError
import Estree.Json.Compact

/-!
# Questions about nodes

What emission asks of a node besides its kind: its operator, the name that it is, the name under
which a module exports it, the function that it holds, and whether a call stands on its member
chain.
-/

namespace Estree

namespace Node

/-- The operator of a unary, update, binary, logical or assignment expression. -/
def operator? : Node → Option String
  | .unaryExpression operator _ _ => some operator
  | .updateExpression operator _ _ => some operator
  | .binaryExpression operator _ _ => some operator
  | .logicalExpression operator _ _ => some operator
  | .assignmentExpression operator _ _ => some operator
  | _ => none

/-- The name of an identifier. -/
def identifierName? : Node → Option String
  | .identifier name _ _ _ => some name
  | _ => none

/-- The name of a node that has to be an identifier. -/
def identifierName (n : Node) : Except EmitError String :=
  match n.identifierName? with
  | some name => .ok name
  | none => .error (.malformed n.kind (.notOneOf [.identifier]))

/-- The text of a name that a module exports: an identifier or a literal. -/
def exportName? : Node → Option String
  | .identifier name _ _ _ => some name
  | .literal l => some (l.raw.getD l.value.compact)
  | _ => none

/-- The text of a node that has to name an export. -/
def exportName (n : Node) : Except EmitError String :=
  match n.exportName? with
  | some name => .ok name
  | none => .error (.malformed n.kind (.notOneOf [.identifier, .literal]))

/-- The contents of a function, with or without a body. -/
def function? : Node → Option FunctionLike
  | .function _ f => some f
  | _ => none

/-- Whether a call stands on the object side of a chain of members: `new (a()).b` and `new a().b`
mean different things. -/
def hasCall : Node → Bool
  | .callExpression _ _ _ _ => true
  | .memberExpression object _ _ _ => hasCall object
  | _ => false

end Node

/-- The members of an enumeration, wherever they stand. -/
def EnumDeclaration.allMembers (e : EnumDeclaration) : List Node :=
  match e.members, e.body with
  | [], some members => members
  | members, _ => members

/-- Whether a module declaration is of the global scope. -/
def ModuleDeclaration.isGlobal (m : ModuleDeclaration) : Bool :=
  m.global || m.kind == some "global"

end Estree
