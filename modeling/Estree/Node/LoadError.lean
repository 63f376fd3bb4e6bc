import Estree.Json.Compact
import Estree.Kind

/-!
# Faults of a JSON tree

`LoadError` says why a JSON text or value is no tree (or no layout), and `LoadError.message` words
it. Which of several faults is reported is decided where values are read.
-/

namespace Estree

/-! ## §1. What was found and what was wanted. -/

/-- The records inside nodes that are not nodes themselves. -/
inductive RecordType where
  | switchCase | catchClause | templateText | regExp | enumBody
  deriving DecidableEq, Repr

/-- The name of a record in messages. -/
def RecordType.name : RecordType → String
  | .switchCase => "SwitchCase"
  | .catchClause => "CatchClause"
  | .templateText => "TemplateValue"
  | .regExp => "RegexLiteral"
  | .enumBody => "EnumBody"

/-- The sort of a value that stands where it does not belong. -/
inductive Found where
  | null
  | bool (b : Bool)
  | number (n : Number)
  | string (s : String)
  | map
  | sequence
  deriving DecidableEq, Repr

namespace Found

/-- The sort of a value. -/
def ofJson : Json → Found
  | .null => .null
  | .bool b => .bool b
  | .number n => .number n
  | .string s => .string s
  | .array _ => .sequence
  | .object _ => .map

/-- One character of a string in a message. -/
def escapedChar (c : Char) : List Char :=
  if c = '"' then ['\\', '"']
  else if c = '\\' then ['\\', '\\']
  else if c = '\n' then ['\\', 'n']
  else if c = '\r' then ['\\', 'r']
  else if c = '\t' then ['\\', 't']
  else if c = '\x00' then ['\\', '0']
  else if c.toNat < 0x20 ∨ c = '\x7f' then
    ['\\', 'u', '\x7b'] ++ Nat.toDigits 16 c.toNat ++ ['\x7d']
  else [c]

/-- The wording of a sort. -/
def wording : Found → String
  | .null => "null"
  | .bool true => "boolean `true`"
  | .bool false => "boolean `false`"
  | .number (.int i) => "integer `" ++ Number.intText i ++ "`"
  | .number (.float x) => "floating point `" ++ x.text ++ "`"
  | .string s => "string \"" ++ String.ofList (s.toList.flatMap escapedChar) ++ "\""
  | .map => "map"
  | .sequence => "sequence"

end Found

/-- What is wanted in a place. -/
inductive Wanted where
  | node
  | tag
  | text
  | flag
  | list
  | count
  | record (r : RecordType)
  | layout
  deriving DecidableEq, Repr

/-- The wording of what is wanted. -/
def Wanted.wording : Wanted → String
  | .node => "internally tagged enum Node"
  | .tag => "variant identifier"
  | .text => "a string"
  | .flag => "a boolean"
  | .list => "a sequence"
  | .count => "usize"
  | .record r => "struct " ++ r.name
  | .layout => "struct GenerateOptions"

/-- The places that take values of several sorts. -/
inductive Choice where
  | typeParameterName | mappedModifier
  deriving DecidableEq, Repr

/-- The name of a choice in messages. -/
def Choice.name : Choice → String
  | .typeParameterName => "TypeParameterName"
  | .mappedModifier => "MappedModifier"

/-! ## §2. Faults. -/

/-- Why a text or value could not be loaded. -/
inductive LoadError where
  /-- The text is no JSON value. -/
  | illFormed
  /-- A required field is absent. -/
  | missing (field : String)
  /-- A field is given twice, under one name or under two. -/
  | duplicate (field : String)
  /-- The tag names no kind. -/
  | unknownTag (tag : String)
  /-- The tag is a number, and there is no kind at that position. -/
  | unknownIndex (i : Nat)
  /-- A value of one sort stands where another is wanted. -/
  | invalidType (found : Found) (wanted : Wanted)
  /-- A negative integer stands where a count is wanted. -/
  | negativeCount (i : Int)
  /-- A value is of none of the sorts that its place takes. -/
  | noChoice (c : Choice)
  deriving DecidableEq, Repr

namespace LoadError

/-- Every tag in backquotes, in the order of the kinds. -/
def tagList : String :=
  ", ".intercalate (Kind.all.map fun k => "`" ++ k.tag ++ "`")

/-- The wording of a fault; a text that is no JSON value has none. -/
def message : LoadError → String
  | .illFormed => ""
  | .missing field => "missing field `" ++ field ++ "`"
  | .duplicate field => "duplicate field `" ++ field ++ "`"
  | .unknownTag tag => "unknown variant `" ++ tag ++ "`, expected one of " ++ tagList
  | .unknownIndex i =>
    "invalid value: integer `" ++ Number.intText i ++ "`, expected variant index 0 <= i < "
      ++ Number.intText Kind.all.length
  | .invalidType found wanted =>
    "invalid type: " ++ found.wording ++ ", expected " ++ wanted.wording
  | .negativeCount i => "invalid value: integer `" ++ Number.intText i ++ "`, expected usize"
  | .noChoice c => "data did not match any variant of untagged enum " ++ c.name

end LoadError

end Estree
