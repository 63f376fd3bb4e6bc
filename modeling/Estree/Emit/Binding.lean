import Estree.Emit.Scope

/-!
# Names and variables

Identifiers with what a binding carries in the typed dialect, decorators, and variable declarations.
Where each dialect has a procedure of its own, the two stand side by side.
-/

namespace Estree

namespace Emit

/-! ## §1. Decorators. -/

/-- Decorators on the line of what they decorate. -/
def inlineDecorators (s : Scope) (decorators : List Node) : Doc :=
  .concat (decorators.map fun n => s.emit n ++ " ")

/-- Decorators on lines of their own. -/
def decoratorLines (s : Scope) (decorators : List Node) : Doc :=
  .concat (decorators.map fun n => s.emit n ++ .lineEnd ++ .indent)

/-- A decorator. -/
def decorator (s : Scope) : Node → Doc
  | .decorator expression => "@" ++ s.emit expression
  | n => .expected n [.decorator]

/-! ## §2. Identifiers. -/

/-- An identifier in the plain dialect: its name only. -/
def Plain.identifier : Node → Doc
  | .identifier name _ _ _ => name
  | n => .expected n [.identifier]

/-- A typed binding: decorators, name, `!`, `?` and annotation. -/
def Typed.binding (s : Scope) (name : String) (definite optional : Bool) (annot : Option Node)
    (decorators : List Node) : Doc :=
  inlineDecorators s decorators ++ name ++ .onlyIf definite "!" ++ .onlyIf optional "?"
    ++ s.annot annot

/-- An identifier in the typed dialect. -/
def Typed.identifier (s : Scope) : Node → Doc
  | .identifier name optional annot decorators =>
    Typed.binding s name false optional annot decorators
  | n => .expected n [.identifier]

/-- A private name. -/
def privateIdentifier : Node → Doc
  | .privateIdentifier name => "#" ++ name
  | n => .expected n [.privateIdentifier]

/-! ## §3. Variables. -/

/-- The keyword and the declarators, without a terminator. -/
def declarators (s : Scope) (kind : String) (declarations : List Node) : Doc :=
  kind ++ " " ++ .join ", " (declarations.map (s.emitAs .variableDeclarator))

/-- A variable declaration in the plain dialect. -/
def Plain.variableDeclaration (s : Scope) : Node → Doc
  | .variableDeclaration kind declarations _ => declarators s kind declarations ++ ";"
  | n => .expected n [.variableDeclaration]

/-- A variable declaration in the typed dialect. -/
def Typed.variableDeclaration (s : Scope) : Node → Doc
  | .variableDeclaration kind declarations declare =>
    .onlyIf declare "declare " ++ declarators s kind declarations ++ ";"
  | n => .expected n [.variableDeclaration]

/-- One name of a variable declaration in the plain dialect. -/
def Plain.variableDeclarator (s : Scope) : Node → Doc
  | .variableDeclarator id init _ => s.emit id ++ .ofOption init fun n => " = " ++ s.emit n
  | n => .expected n [.variableDeclarator]

/-- The name of a declarator in the typed dialect, which marks a definite identifier. -/
def Typed.declared (s : Scope) (id : Node) (definite : Bool) : Doc :=
  match definite, id with
  | true, .identifier name optional annot decorators =>
    Typed.binding s name true optional annot decorators
  | _, id => s.emit id

/-- A name that is not definite is dispatched. -/
theorem Typed.declared_false (s : Scope) (id : Node) : Typed.declared s id false = s.emit id := by
  unfold Typed.declared
  split
  · contradiction
  · rfl

/-- One name of a variable declaration in the typed dialect. -/
def Typed.variableDeclarator (s : Scope) : Node → Doc
  | .variableDeclarator id init definite =>
    Typed.declared s id definite ++ .ofOption init fun n => " = " ++ s.emit n
  | n => .expected n [.variableDeclarator]

/-- A constructor parameter that declares a field. -/
def parameterProperty (s : Scope) : Node → Doc
  | .tsParameterProperty p =>
    inlineDecorators s p.decorators ++ .ofOption p.accessibility (fun a => a ++ " ")
      ++ .onlyIf p.static "static " ++ .onlyIf p.override "override "
      ++ .onlyIf p.readonly "readonly " ++ s.emit p.parameter
  | n => .expected n [.tsParameterProperty]

end Emit

end Estree
