import Estree.Emit.Scope

/-!
# Calls and member access

Calls, instantiations, optional chains, member access, tagged templates and meta properties. The
callee of `new` is wrapped when a call stands on its member chain, which would end the callee early.
-/

namespace Estree

namespace Emit

/-- The callee of `new`. -/
def newCallee (s : Scope) (callee : Node) : Doc :=
  "new " ++ (s.emit callee).parensIf (s.ranksBelow callee.kind .callExpression || callee.hasCall)

/-- An instantiation in the plain dialect. -/
def Plain.newExpression (s : Scope) : Node → Doc
  | .newExpression callee arguments _ _ => newCallee s callee ++ s.sequence arguments
  | n => .expected n [.newExpression]

/-- An instantiation in the typed dialect. -/
def Typed.newExpression (s : Scope) : Node → Doc
  | .newExpression callee arguments _ typeArguments =>
    newCallee s callee ++ s.emit? typeArguments ++ s.sequence arguments
  | n => .expected n [.newExpression]

/-- A call in the plain dialect. -/
def Plain.callExpression (s : Scope) : Node → Doc
  | .callExpression callee arguments optional _ =>
    s.operand callee .callExpression ++ .onlyIf optional "?." ++ s.sequence arguments
  | n => .expected n [.callExpression]

/-- A call in the typed dialect. -/
def Typed.callExpression (s : Scope) : Node → Doc
  | .callExpression callee arguments optional typeArguments =>
    s.operand callee .callExpression ++ .onlyIf optional "?." ++ s.emit? typeArguments
      ++ s.sequence arguments
  | n => .expected n [.callExpression]

/-- An optional chain. -/
def chainExpression (s : Scope) : Node → Doc
  | .chainExpression expression => s.emit expression
  | n => .expected n [.chainExpression]

/-- The member after its object. -/
def memberName (s : Scope) (name : Node) (computed optional : Bool) : Doc :=
  if computed then .onlyIf optional "?." ++ (s.emit name).brackets
  else (if optional then "?." else ".") ++ s.emit name

/-- A member access. -/
def memberExpression (s : Scope) : Node → Doc
  | .memberExpression object name computed optional =>
    s.operand object .memberExpression ++ memberName s name computed optional
  | n => .expected n [.memberExpression]

/-- A template with a tag. -/
def taggedTemplate (s : Scope) : Node → Doc
  | .taggedTemplateExpression tag quasi => s.operand tag .memberExpression ++ s.emit quasi
  | n => .expected n [.taggedTemplateExpression]

/-- A meta property such as `new.target`. -/
def metaProperty : Node → Doc
  | .metaProperty object name =>
    .ofExcept object.identifierName fun o => o ++ "." ++ .ofExcept name.identifierName Doc.text
  | n => .expected n [.metaProperty]

end Emit

end Estree
