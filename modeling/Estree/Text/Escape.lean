/-!
# Escapes of a quoted JavaScript string

`Text.escape` makes a text fit to stand between double quotes: the quote, the backslash, the line
terminators and the control characters are escaped, and all else stands for itself.
-/

namespace Estree

namespace Text

/-- Four lower-case hexadecimal digits. -/
def hexQuad (n : Nat) : List Char :=
  [Nat.digitChar (n / 4096 % 16), Nat.digitChar (n / 256 % 16), Nat.digitChar (n / 16 % 16),
    Nat.digitChar (n % 16)]

/-- One character, escaped where it has to be. -/
def escapeChar (c : Char) : List Char :=
  if c = '\\' then ['\\', '\\']
  else if c = '"' then ['\\', '"']
  else if c = '\n' then ['\\', 'n']
  else if c = '\r' then ['\\', 'r']
  else if c = '\t' then ['\\', 't']
  else if c.toNat < 0x20 ∨ c.toNat = 0x2028 ∨ c.toNat = 0x2029 then
    '\\' :: 'u' :: hexQuad c.toNat
  else [c]

/-- The text with escapes. -/
def escape (s : String) : String := String.ofList (s.toList.flatMap escapeChar)

end Text

end Estree
