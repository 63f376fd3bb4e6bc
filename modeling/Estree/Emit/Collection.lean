import Estree.Emit.Scope

/-!
# Arrays and objects

Array literals and patterns keep their holes. Object literals stand on several lines, one property
each; object patterns stay on one.
-/

namespace Estree

namespace Emit

/-- Elements and holes: a hole is written by its comma alone, also at the end. -/
def elementList (s : Scope) : List (Option Node) → Doc
  | [] => .nil
  | none :: rest => ", " ++ elementList s rest
  | [some n] => s.emit n
  | some n :: rest => s.emit n ++ ", " ++ elementList s rest

/-- The elements in brackets. -/
def elements (s : Scope) (es : List (Option Node)) : Doc := (elementList s es).brackets

/-- An array literal or pattern. -/
def arrayExpression (s : Scope) : Node → Doc
  | .arrayExpression es _ => elements s es
  | .arrayPattern es _ => elements s es
  | n => .expected n [.arrayExpression, .arrayPattern]

/-- An array pattern with its annotation. -/
def arrayPattern (s : Scope) : Node → Doc
  | .arrayPattern es annot => elements s es ++ s.annot annot
  | n => .expected n [.arrayPattern]

/-- The properties of an object literal, one a line. -/
def objectLines (s : Scope) (properties : List Node) : Doc :=
  .braces (
    if properties.isEmpty then .nil
    else
      .deeper ++ .lineEnd
        ++ .join ("," ++ .lineEnd) (properties.map fun n => .indent ++ s.emit n)
        ++ .shallower ++ .lineEnd ++ .indent)

/-- An object literal, or a pattern written as one. -/
def objectExpression (s : Scope) : Node → Doc
  | .objectExpression properties _ => objectLines s properties
  | .objectPattern properties _ => objectLines s properties
  | n => .expected n [.objectExpression, .objectPattern]

/-- The properties of an object pattern on one line. -/
def objectBraces (s : Scope) (properties : List Node) : Doc := (s.joined ", " properties).braces

/-- An object pattern in the plain dialect. -/
def Plain.objectPattern (s : Scope) : Node → Doc
  | .objectPattern properties _ => objectBraces s properties
  | n => .expected n [.objectPattern]

/-- An object pattern in the typed dialect, with its annotation. -/
def Typed.objectPattern (s : Scope) : Node → Doc
  | .objectPattern properties annot => objectBraces s properties ++ s.annot annot
  | n => .expected n [.objectPattern]

/-- An entry of an object: a method is written as one, a shorthand by its value alone. -/
def property (s : Scope) (n : Node) : Doc :=
  match n with
  | .property p =>
    if p.method || p.kind != "init" then s.emitAs .methodDefinition n
    else .onlyIf (!p.shorthand) (s.key p.key p.computed ++ ": ") ++ s.emit p.value
  | n => .expected n [.property]

end Emit

end Estree
