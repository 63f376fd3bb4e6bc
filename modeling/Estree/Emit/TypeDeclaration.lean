import Estree.Emit.Scope

/-!
# Declarations of types

Interfaces, type aliases and enumerations, and the members of object types. The members of an
interface stand on lines of their own, those of an inline object type on one line.
-/

namespace Estree

namespace Emit

/-! ## §1. Interfaces. -/

/-- An interface. -/
def interfaceDeclaration (s : Scope) : Node → Doc
  | .tsInterfaceDeclaration i =>
    .onlyIf i.declare "declare " ++ "interface " ++ .ofExcept i.id.identifierName Doc.text
      ++ s.emit? i.typeParameters ++ " "
      ++ .onlyIf (!i.bases.isEmpty) ("extends " ++ s.joined ", " i.bases ++ " ")
      ++ s.emit i.body
  | n => .expected n [.tsInterfaceDeclaration]

/-- The body of an interface: one member a line, each closed by a semicolon. -/
def interfaceBody (s : Scope) : Node → Doc
  | .tsInterfaceBody body =>
    .braces (
      if body.isEmpty then .nil
      else
        .deeper ++ .lineEnd ++ .concat (body.map fun n => (s.emit n ++ ";" : Doc).line)
          ++ .shallower ++ .indent)
  | n => .expected n [.tsInterfaceBody]

/-- An entry of an `extends` or `implements` clause. -/
def heritage (s : Scope) : Node → Doc
  | .heritage _ expression typeArguments => s.emit expression ++ s.emit? typeArguments
  | n => .expected n [.tsInterfaceHeritage, .tsExpressionWithTypeArguments, .tsClassImplements]

/-! ## §2. Members of object types. -/

/-- An inline object type. -/
def typeLiteral (s : Scope) : Node → Doc
  | .tsTypeLiteral members => (s.joined "; " members).braces
  | n => .expected n [.tsTypeLiteral]

/-- A property. -/
def propertySignature (s : Scope) : Node → Doc
  | .tsPropertySignature p =>
    .onlyIf p.static "static " ++ .onlyIf p.readonly "readonly " ++ s.key p.key p.computed
      ++ .onlyIf p.optional "?" ++ s.annot p.annot
  | n => .expected n [.tsPropertySignature]

/-- A method. -/
def methodSignature (s : Scope) : Node → Doc
  | .tsMethodSignature m =>
    .onlyIf (m.kind == "get" || m.kind == "set") (m.kind ++ " ") ++ s.key m.key m.computed
      ++ .onlyIf m.optional "?" ++ s.emit? m.typeParameters ++ s.sequence m.params
      ++ s.annot m.returnType
  | n => .expected n [.tsMethodSignature]

/-- An index signature. -/
def indexSignature (s : Scope) : Node → Doc
  | .tsIndexSignature parameters annot readonly static =>
    .onlyIf static "static " ++ .onlyIf readonly "readonly "
      ++ (s.joined ", " parameters).brackets ++ s.annot annot
  | n => .expected n [.tsIndexSignature]

/-- The parameters and the result of a signature. -/
def signatureOf (s : Scope) (params : List Node) (returnType typeParameters : Option Node) : Doc :=
  s.emit? typeParameters ++ s.sequence params ++ s.annot returnType

/-- A call or construct signature. -/
def callSignature (s : Scope) : Node → Doc
  | .signature .call params returnType typeParameters _ =>
    signatureOf s params returnType typeParameters
  | .signature .construct params returnType typeParameters _ =>
    "new " ++ signatureOf s params returnType typeParameters
  | n => .expected n [.tsCallSignatureDeclaration, .tsConstructSignatureDeclaration]

/-! ## §3. Aliases and enumerations. -/

/-- A type alias. -/
def typeAlias (s : Scope) : Node → Doc
  | .tsTypeAliasDeclaration id annot typeParameters declare =>
    .onlyIf declare "declare " ++ "type " ++ .ofExcept id.identifierName Doc.text
      ++ s.emit? typeParameters ++ " = " ++ s.emit annot ++ ";"
  | n => .expected n [.tsTypeAliasDeclaration]

/-- An enumeration. -/
def enumDeclaration (s : Scope) : Node → Doc
  | .tsEnumDeclaration e =>
    .onlyIf e.declare "declare " ++ .onlyIf e.const "const " ++ "enum "
      ++ .ofExcept e.id.identifierName Doc.text ++ " " ++ (s.joined ", " e.allMembers).braces
  | n => .expected n [.tsEnumDeclaration]

/-- A member of an enumeration. -/
def enumMember (s : Scope) : Node → Doc
  | .tsEnumMember id initializer computed =>
    s.key id computed ++ .ofOption initializer fun n => " = " ++ s.emit n
  | n => .expected n [.tsEnumMember]

end Emit

end Estree
