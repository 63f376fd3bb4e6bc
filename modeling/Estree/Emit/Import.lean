import Estree.Dialect
import Estree.Emit.Scope

/-!
# Imports

Import declarations, their attributes, and dynamic imports. The typed dialect writes kinds (`type`,
`typeof`), the plain dialect leaves them out. Default and namespace specifiers lead; from the first
other specifier on, all stand in braces and have to be named.
-/

namespace Estree

namespace Emit

/-! ## §1. Kinds and attributes. -/

/-- The kind of an import or export, unless it is absent or the kind of values. -/
def kindWord (d : Dialect) (kind : Option String) : Doc :=
  d.typedOnly (.ofOption kind fun k => .onlyIf (k != "value") (k ++ " "))

/-- The attributes of an import or export. -/
def attributeClause (s : Scope) (attributes : List Node) : Doc :=
  if attributes.isEmpty then .nil
  else
    " with \x7b " ++ .join ", " (attributes.map (s.emitAs .importAttribute)) ++ " \x7d"

/-- An attribute. -/
def importAttribute (s : Scope) : Node → Doc
  | .importAttribute key value => s.emit key ++ ": " ++ s.emitAs .literal value
  | n => .expected n [.importAttribute]

/-- A name and, when it differs, the name after `as`. -/
def renamed (first second : String) : Doc :=
  first ++ .onlyIf (first != second) (" as " ++ second)

/-! ## §2. Import declarations. -/

/-- Whether a specifier stands before the braces. -/
def isLeading : Node → Bool
  | .importDefaultSpecifier _ | .importNamespaceSpecifier _ => true
  | _ => false

/-- The text of a specifier before the braces. -/
def leadingName : Node → Except EmitError String
  | .importDefaultSpecifier localName => localName.identifierName
  | .importNamespaceSpecifier localName => localName.identifierName.map ("* as " ++ ·)
  | _ => .ok ""

/-- The specifiers before the braces, with `sep` before the first of them. -/
def leadingSpecifiers (sep : Doc) : List Node → Doc
  | [] => .nil
  | n :: rest => .ofExcept (leadingName n) (fun name => sep ++ name) ++ leadingSpecifiers ", " rest

/-- A specifier in braces. -/
def importSpecifier (d : Dialect) : Node → Doc
  | .importSpecifier imported localName kind =>
    kindWord d kind ++ .ofExcept imported.exportName fun first =>
      .ofExcept localName.identifierName fun second => renamed first second
  | n => .expected n [.importSpecifier]

/-- The specifiers of an import: a run of default and namespace specifiers, then the others in
braces. -/
def importSpecifiers (d : Dialect) (specifiers : List Node) : Doc :=
  let leading := specifiers.takeWhile isLeading
  let named := specifiers.dropWhile isLeading
  leadingSpecifiers .nil leading ++
    if named.isEmpty then .nil
    else
      .onlyIf (!leading.isEmpty) ", " ++ (Doc.join ", " (named.map (importSpecifier d))).braces

/-- An import. -/
def importDeclaration (d : Dialect) (s : Scope) : Node → Doc
  | .importDeclaration specifiers source kind attributes =>
    "import " ++ kindWord d kind
      ++ .onlyIf (!specifiers.isEmpty) (importSpecifiers d specifiers ++ " from ")
      ++ s.emitAs .literal source ++ attributeClause s attributes ++ ";"
  | n => .expected n [.importDeclaration]

/-! ## §3. Dynamic imports. -/

/-- A dynamic import in the plain dialect. -/
def Plain.importExpression (s : Scope) : Node → Doc
  | .importExpression source _ _ => "import(" ++ s.emit source ++ ")"
  | n => .expected n [.importExpression]

/-- A dynamic import in the typed dialect, with its options, given as an argument or by name. -/
def Typed.importExpression (s : Scope) : Node → Doc
  | .importExpression source arguments options =>
    "import(" ++ s.emit source ++ .ofOption arguments.head? (fun n => ", " ++ s.emit n)
      ++ .ofOption options (fun n => ", " ++ s.emit n) ++ ")"
  | n => .expected n [.importExpression]

end Emit

end Estree
