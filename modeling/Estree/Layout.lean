import Estree.Node.Load

/-!
# Layout of the generated text

A layout is one unit of indentation, the line terminator and the level at which the root starts. It
can be loaded from JSON: fields that are absent keep their defaults and unknown fields are passed
over. A text is read as a stream, so the first fault in the text wins, whether it is one of the text
or one of a field.
-/

namespace Estree

/-- The layout of generated text. -/
structure Layout where
  /-- One unit of indentation. -/
  indent : String := "  "
  /-- The line terminator. -/
  lineEnd : String := "\n"
  /-- The level at which the root starts. -/
  level : Nat := 0
  deriving DecidableEq, Repr

namespace Layout

/-- Whether a layout is the one that is used when nothing is said. -/
def isDefault (l : Layout) : Bool := decide (l = ({} : Layout))

/-! ## §1. Fields. -/

/-- The fields given so far. -/
structure Given where
  indent : Option String := none
  lineEnd : Option String := none
  level : Option Nat := none

/-- The layout with the given fields. -/
def Given.layout (g : Given) : Layout :=
  { indent := g.indent.getD "  "
    lineEnd := g.lineEnd.getD "\n"
    level := g.level.getD 0 }

/-- A text. -/
def textOf : Json → Except LoadError String
  | .string s => .ok s
  | v => .error (.unfit v .text)

/-- A count. -/
def countOf : Json → Except LoadError Nat
  | .number (.int i) => if i < 0 then .error (.negativeCount i) else .ok i.toNat
  | v => .error (.unfit v .count)

/-- The name of a field of a layout. -/
inductive FieldName where
  | indent | lineEnd | level
  deriving DecidableEq

/-- The key of a field. -/
def FieldName.key : FieldName → String
  | .indent => "indent"
  | .lineEnd => "lineEnd"
  | .level => "startingIndentLevel"

/-- The field under a key. -/
def FieldName.ofKey? (key : String) : Option FieldName :=
  [FieldName.indent, .lineEnd, .level].find? fun f => f.key == key

namespace Given

/-- Whether a field was given. -/
def has (g : Given) : FieldName → Bool
  | .indent => g.indent.isSome
  | .lineEnd => g.lineEnd.isSome
  | .level => g.level.isSome

/-- Gives a field the value that it loads from a JSON value. -/
def give (g : Given) (f : FieldName) (v : Json) : Except LoadError Given :=
  match f with
  | .indent => (textOf v).map fun s => { g with indent := some s }
  | .lineEnd => (textOf v).map fun s => { g with lineEnd := some s }
  | .level => (countOf v).map fun n => { g with level := some n }

/-- Visits the members from left to right. -/
def visit (g : Given) : List (String × Json) → Except LoadError Given
  | [] => .ok g
  | (key, v) :: rest =>
    match FieldName.ofKey? key with
    | none => visit g rest
    | some f =>
      if g.has f then .error (.duplicate f.key)
      else
        match g.give f v with
        | .error e => .error e
        | .ok g => visit g rest

end Given

/-! ## §2. Values and texts. -/

/-- Loads a layout from a JSON value, whose keys are visited in sorted order. -/
def ofValue (v : Json) : Except LoadError Layout :=
  match v.canonical with
  | .object members => (Given.visit {} members).map Given.layout
  | v => .error (.unfit v .layout)

/-- The value that a token begins, as far as its sort goes: an object or a list is wrong for every
field and is not read any further. -/
def headOf (t : Token) (wanted : Wanted) : Except LoadError Json :=
  match t with
  | .openBrace => .error (.invalidType .map wanted)
  | .openBracket => .error (.invalidType .sequence wanted)
  | t =>
    match Json.scalar? t with
    | some v => .ok v
    | none => .error .illFormed

/-- What a field of a layout wants. -/
def FieldName.wanted : FieldName → Wanted
  | .indent | .lineEnd => .text
  | .level => .count

/-- Reads the members after the opening brace, or after a comma, each as it comes; gives the tokens
after the closing brace. -/
def ofTokens (g : Given) : (fuel : Nat) → List Token → Except LoadError (Given × List Token)
  | 0, _ => .error .illFormed
  | fuel + 1, .string key :: ts =>
    match FieldName.ofKey? key, ts with
    | none, .colon :: ts =>
      match Json.skip? (2 * ts.length + 1) ts with
      | some (.comma :: ts) => ofTokens g fuel ts
      | some (.closeBrace :: rest) => .ok (g, rest)
      | _ => .error .illFormed
    | none, _ => .error .illFormed
    | some f, ts =>
      if g.has f then .error (.duplicate f.key)
      else
        match ts with
        | .colon :: t :: ts =>
          match headOf t f.wanted with
          | .error e => .error e
          | .ok v =>
            match g.give f v, ts with
            | .error e, _ => .error e
            | .ok g, .comma :: ts => ofTokens g fuel ts
            | .ok g, .closeBrace :: rest => .ok (g, rest)
            | .ok _, _ => .error .illFormed
        | _ => .error .illFormed
  | _, _ => .error .illFormed

/-- Loads a layout from a text. -/
def ofText (text : String) : Except LoadError Layout :=
  match Token.ofText text with
  | [] => .error .illFormed
  | .openBrace :: ts =>
    let result : Except LoadError (Given × List Token) :=
      match ts with
      | .closeBrace :: rest => .ok ({}, rest)
      | ts => ofTokens {} (ts.length + 1) ts
    match result with
    | .error e => .error e
    | .ok (g, rest) => if rest.isEmpty then .ok g.layout else .error .illFormed
  | t :: _ =>
    match headOf t .layout with
    | .error e => .error e
    | .ok v => .error (.unfit v .layout)

end Layout

end Estree
