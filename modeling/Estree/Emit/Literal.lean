import Estree.Emit.Scope

/-!
# Literals and templates

A literal is written as it was read, if its text was kept; otherwise as a regular expression, as a
big integer, or as the compact JSON of its value. A template interleaves the raw texts of its quasis
with its holes.
-/

namespace Estree

namespace Emit

/-! ## §1. Literals. -/

/-- A regular expression, if the literal is one. -/
def regExp (n : Node) (l : Literal) : Doc :=
  match l.regex with
  | some r => "/" ++ r.pattern ++ "/" ++ r.flags
  | none => .malformed n .noPattern

/-- The text of a literal. -/
def literalText (n : Node) (l : Literal) : Doc :=
  match l.raw, l.regex, l.bigint with
  | some raw, _, _ => raw
  | none, some _, _ => regExp n l
  | none, none, some digits => digits ++ "n"
  | none, none, none => l.value.compact

/-- A literal. -/
def literal (n : Node) : Doc :=
  match n with
  | .literal l => literalText n l
  | .regExpLiteral l => literalText n l
  | n => .expected n [.literal, .regExpLiteral]

/-- A literal as a regular expression. -/
def regExpLiteral (n : Node) : Doc :=
  match n with
  | .literal l => regExp n l
  | .regExpLiteral l => regExp n l
  | n => .expected n [.literal, .regExpLiteral]

/-! ## §2. Templates. -/

/-- The raw text of a template element. -/
def templateElement : Node → Doc
  | .templateElement value _ => value.raw
  | n => .expected n [.templateElement]

/-- Quasis and holes in turn, the quasis at both ends. -/
def interleaved (s : Scope) : List Node → List Node → Doc
  | quasi :: quasis, hole :: holes =>
    templateElement quasi ++ "$\x7b" ++ s.emit hole ++ "\x7d" ++ interleaved s quasis holes
  | [quasi], [] => templateElement quasi
  | _, _ => .nil

/-- A template; there must be one quasi more than holes. -/
def template (s : Scope) (n : Node) (quasis holes : List Node) : Doc :=
  if quasis.length = holes.length + 1 then "`" ++ interleaved s quasis holes ++ "`"
  else .malformed n (.templateCounts quasis.length holes.length)

/-- A template literal. -/
def templateLiteral (s : Scope) (n : Node) : Doc :=
  match n with
  | .templateLiteral quasis expressions => template s n quasis expressions
  | n => .expected n [.templateLiteral]

/-- A template literal type. -/
def templateLiteralType (s : Scope) (n : Node) : Doc :=
  match n with
  | .tsTemplateLiteralType quasis types => template s n quasis types
  | n => .expected n [.tsTemplateLiteralType]

end Emit

end Estree
