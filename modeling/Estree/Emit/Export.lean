import Estree.Emit.Import

/-!
# Exports

Exports of names, of declarations, of a default, and of all that another module exports.
-/

namespace Estree

namespace Emit


/-- A specifier of an export. -/
def exportSpecifier (d : Dialect) : Node → Doc
  | .exportSpecifier localName exported kind =>
    kindWord d kind ++ .ofExcept localName.exportName fun first =>
      .ofExcept exported.exportName fun second => renamed first second
  | n => .expected n [.exportSpecifier]

/-- An export of names or of a declaration. -/
def exportNamed (d : Dialect) (s : Scope) : Node → Doc
  | .exportNamedDeclaration e =>
    "export " ++
      match e.declaration with
      | some declaration => s.emit declaration
      | none =>
        kindWord d e.exportKind
          ++ (Doc.join ", " (e.specifiers.map (exportSpecifier d))).braces
          ++ .ofOption e.source (fun n => " from " ++ s.emitAs .literal n)
          ++ attributeClause s e.attributes ++ ";"
  | n => .expected n [.exportNamedDeclaration]

/-- Whether a node is a function or class, which ends an export without a terminator. -/
def isDeclarationLike : Node → Bool
  | .function .declaration _ | .function .expression _ => true
  | .classDeclaration _ | .classExpression _ => true
  | _ => false

/-- A default export; expressions end with a terminator. -/
def exportDefault (s : Scope) : Node → Doc
  | .exportDefaultDeclaration declaration =>
    "export default " ++ s.emit declaration
      ++ .onlyIf ((s.rank declaration.kind).isSome && !isDeclarationLike declaration) ";"
  | n => .expected n [.exportDefaultDeclaration]

/-- An export of everything. -/
def exportAll (d : Dialect) (s : Scope) : Node → Doc
  | .exportAllDeclaration exported source kind attributes =>
    "export " ++ kindWord d kind ++ "* "
      ++ .ofOption exported (fun n => "as " ++ .ofExcept n.exportName (fun name => name ++ " "))
      ++ "from " ++ s.emitAs .literal source ++ attributeClause s attributes ++ ";"
  | n => .expected n [.exportAllDeclaration]

end Emit

end Estree
