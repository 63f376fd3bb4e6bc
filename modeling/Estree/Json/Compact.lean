import Estree.Json.Value

/-!
# Compact JSON text

`Json.compact` writes a value without blanks. In strings the quote, the backslash and the control
characters with a short escape are escaped with one letter, the other characters below U+0020 by
four hexadecimal digits, and all others stand for themselves.
-/

namespace Estree

namespace Json

/-- Two lower-case hexadecimal digits of a number below 256. -/
def hexPair (n : Nat) : List Char := [Nat.digitChar (n / 16), Nat.digitChar (n % 16)]

/-- One character of a string, escaped where JSON requires it. -/
def escapedChar (c : Char) : List Char :=
  if c = '"' then ['\\', '"']
  else if c = '\\' then ['\\', '\\']
  else if c = '\x08' then ['\\', 'b']
  else if c = '\x0c' then ['\\', 'f']
  else if c = '\n' then ['\\', 'n']
  else if c = '\r' then ['\\', 'r']
  else if c = '\t' then ['\\', 't']
  else if c.toNat < 0x20 then ['\\', 'u', '0', '0'] ++ hexPair c.toNat
  else [c]

/-- A string in quotes. -/
def quoted (s : String) : String :=
  String.ofList ('"' :: (s.toList.flatMap escapedChar ++ ['"']))

mutual

/-- The compact text of a value. -/
def compact : Json → String
  | .null => "null"
  | .bool true => "true"
  | .bool false => "false"
  | .number n => n.text
  | .string s => quoted s
  | .array [] => "[]"
  | .array (v :: rest) => "[" ++ compact v ++ compactItems rest ++ "]"
  | .object [] => "\x7b\x7d"
  | .object ((k, v) :: rest) =>
    "\x7b" ++ quoted k ++ ":" ++ compact v ++ compactMembers rest ++ "\x7d"

/-- The items after the first, each led by a comma. -/
def compactItems : List Json → String
  | [] => ""
  | v :: rest => "," ++ compact v ++ compactItems rest

/-- The members after the first, each led by a comma. -/
def compactMembers : List (String × Json) → String
  | [] => ""
  | (k, v) :: rest => "," ++ quoted k ++ ":" ++ compact v ++ compactMembers rest

end

end Json

end Estree
