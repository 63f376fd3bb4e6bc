import Estree.Number.Literal

/-!
# Tokens of a JSON text

The lexer is a machine that reads one character at a time: `Lexer.step` takes a state and a
character and pushes at most two tokens. Where the text is no JSON token the machine pushes
`Token.bad` and stops, so a fault is met by whoever reads the tokens up to it, and by nobody who
stops before.

A string whose escapes name no character (a surrogate without its partner) is a complete token of
its own kind, `Token.stray`: it has no value, but a reader that skips strings may pass over it.
-/

namespace Estree

/-! ## §1. Tokens. -/

/-- A token of a JSON text. -/
inductive Token where
  | openBrace
  | closeBrace
  | openBracket
  | closeBracket
  | comma
  | colon
  | null
  | bool (b : Bool)
  | string (s : String)
  /-- A string with an escape that names no character. -/
  | stray
  | numeral (t : Numeral)
  /-- The text goes on with no token. -/
  | bad
  deriving DecidableEq, Repr

namespace Lexer

/-- A string being read: its characters, latest first, a high surrogate that waits for its partner,
and whether every escape so far named a character. -/
structure Literal where
  chars : List Char := []
  high : Option Nat := none
  sound : Bool := true

/-- How far a numeral has been read. -/
inductive Stage where
  /-- After the minus sign. -/
  | sign
  /-- After a leading zero. -/
  | zero
  /-- Within the whole digits. -/
  | whole
  /-- After the point. -/
  | point
  /-- Within the digits after the point. -/
  | frac
  /-- After the exponent letter. -/
  | mark
  /-- After the sign of the exponent. -/
  | expSign
  /-- Within the digits of the exponent. -/
  | exp
  deriving DecidableEq

/-- What the machine is in the middle of. -/
inductive Mode where
  | idle
  /-- Within a string. -/
  | text (lit : Literal)
  /-- After a backslash. -/
  | escape (lit : Literal)
  /-- After a backslash and a `u`, with the digits read so far. -/
  | hex (lit : Literal) (count value : Nat)
  /-- Within a word, with the letters still to come. -/
  | word (left : List Char) (t : Token)
  /-- Within a numeral, its digit lists latest first. -/
  | numeral (stage : Stage) (t : Numeral)
  /-- After a fault. -/
  | stopped

/-- The machine: its mode and the tokens read, latest first. -/
structure State where
  mode : Mode := .idle
  done : List Token := []

/-! ## §2. Strings. -/

namespace Literal

/-- Adds a character. A surrogate that still waits has no partner. -/
def push (lit : Literal) (c : Char) : Literal :=
  { chars := c :: lit.chars, high := none, sound := lit.sound && lit.high.isNone }

/-- Adds the code unit that an escape names: a high surrogate waits for the next escape. -/
def pushUnit (lit : Literal) (n : Nat) : Literal :=
  if 0xDC00 ≤ n ∧ n ≤ 0xDFFF then
    match lit.high with
    | some h =>
      { lit with
        chars := Char.ofNat (0x10000 + (h - 0xD800) * 0x400 + (n - 0xDC00)) :: lit.chars
        high := none }
    | none => { lit with sound := false }
  else if 0xD800 ≤ n ∧ n ≤ 0xDBFF then
    { lit with high := some n, sound := lit.sound && lit.high.isNone }
  else lit.push (Char.ofNat n)

/-- The token of the finished string. -/
def token (lit : Literal) : Token :=
  if lit.sound && lit.high.isNone then .string (String.ofList lit.chars.reverse) else .stray

end Literal

/-- The value of a hexadecimal digit. -/
def hexDigit? (c : Char) : Option Nat :=
  if '0' ≤ c ∧ c ≤ '9' then some (c.toNat - '0'.toNat)
  else if 'a' ≤ c ∧ c ≤ 'f' then some (c.toNat - 'a'.toNat + 10)
  else if 'A' ≤ c ∧ c ≤ 'F' then some (c.toNat - 'A'.toNat + 10)
  else none

/-- The character that a one-letter escape names. -/
def shortEscape? : Char → Option Char
  | '"' => some '"'
  | '\\' => some '\\'
  | '/' => some '/'
  | 'b' => some '\x08'
  | 'f' => some '\x0c'
  | 'n' => some '\n'
  | 'r' => some '\r'
  | 't' => some '\t'
  | _ => none

/-! ## §3. Numerals. -/

/-- A numeral with its digits in reading order. -/
def inOrder (t : Numeral) : Numeral :=
  { t with
    whole := t.whole.reverse
    frac := t.frac.map List.reverse
    exp := t.exp.map fun (neg, ds) => (neg, ds.reverse) }

/-- The next stage of a numeral that goes on with the character; `none` when it does not. -/
def extend? (stage : Stage) (t : Numeral) (c : Char) : Option (Stage × Numeral) :=
  let pushFrac := { t with frac := some (c :: t.frac.getD []) }
  let pushExp :=
    { t with exp := some ((t.exp.getD (false, [])).1, c :: (t.exp.getD (false, [])).2) }
  match stage with
  | .sign =>
    if c = '0' then some (.zero, { t with whole := [c] })
    else if c.isDigit then some (.whole, { t with whole := [c] })
    else none
  | .zero =>
    if c = '.' then some (.point, { t with frac := some [] })
    else if c = 'e' ∨ c = 'E' then some (.mark, t)
    else none
  | .whole =>
    if c.isDigit then some (.whole, { t with whole := c :: t.whole })
    else if c = '.' then some (.point, { t with frac := some [] })
    else if c = 'e' ∨ c = 'E' then some (.mark, t)
    else none
  | .point => if c.isDigit then some (.frac, pushFrac) else none
  | .frac =>
    if c.isDigit then some (.frac, pushFrac)
    else if c = 'e' ∨ c = 'E' then some (.mark, t)
    else none
  | .mark =>
    if c = '+' then some (.expSign, { t with exp := some (false, []) })
    else if c = '-' then some (.expSign, { t with exp := some (true, []) })
    else if c.isDigit then some (.exp, pushExp)
    else none
  | .expSign => if c.isDigit then some (.exp, pushExp) else none
  | .exp => if c.isDigit then some (.exp, pushExp) else none

/-- Whether a numeral may end at the stage. -/
def Stage.complete : Stage → Bool
  | .zero | .whole | .frac | .exp => true
  | .sign | .point | .mark | .expSign => false

/-! ## §4. The machine. -/

namespace State

/-- Stops at a fault. -/
def fail (s : State) : State := { mode := .stopped, done := .bad :: s.done }

/-- Pushes a token and goes back to the space between tokens. -/
def push (s : State) (t : Token) : State := { mode := .idle, done := t :: s.done }

/-- Reads a character between two tokens. -/
def start (s : State) (c : Char) : State :=
  match c with
  | ' ' | '\n' | '\t' | '\r' => s
  | '\x7b' => s.push .openBrace
  | '\x7d' => s.push .closeBrace
  | '[' => s.push .openBracket
  | ']' => s.push .closeBracket
  | ',' => s.push .comma
  | ':' => s.push .colon
  | '"' => { s with mode := .text {} }
  | 'n' => { s with mode := .word ['u', 'l', 'l'] .null }
  | 't' => { s with mode := .word ['r', 'u', 'e'] (.bool true) }
  | 'f' => { s with mode := .word ['a', 'l', 's', 'e'] (.bool false) }
  | '-' => { s with mode := .numeral .sign ⟨true, [], none, none⟩ }
  | c =>
    match extend? .sign ⟨false, [], none, none⟩ c with
    | some (stage, t) => { s with mode := .numeral stage t }
    | none => s.fail

end State

/-- Reads one character. -/
def step (s : State) (c : Char) : State :=
  match s.mode with
  | .idle => s.start c
  | .text lit =>
    if c = '"' then s.push lit.token
    else if c = '\\' then { s with mode := .escape lit }
    else if c.toNat < 0x20 then s.fail
    else { s with mode := .text (lit.push c) }
  | .escape lit =>
    if c = 'u' then { s with mode := .hex lit 0 0 }
    else
      match shortEscape? c with
      | some d => { s with mode := .text (lit.push d) }
      | none => s.fail
  | .hex lit count value =>
    match hexDigit? c with
    | none => s.fail
    | some d =>
      if count = 3 then { s with mode := .text (lit.pushUnit (value * 16 + d)) }
      else { s with mode := .hex lit (count + 1) (value * 16 + d) }
  | .word [] _ => s.fail
  | .word [d] t => if c = d then s.push t else s.fail
  | .word (d :: left) t => if c = d then { s with mode := .word left t } else s.fail
  | .numeral stage t =>
    match extend? stage t c with
    | some (stage, t) => { s with mode := .numeral stage t }
    | none =>
      if stage = .zero ∧ c.isDigit then s.fail
      else if stage.complete then (s.push (.numeral (inOrder t))).start c
      else s.fail
  | .stopped => s

/-- Ends the text. -/
def finish (s : State) : List Token :=
  let s :=
    match s.mode with
    | .idle | .stopped => s
    | .numeral stage t => if stage.complete then s.push (.numeral (inOrder t)) else s.fail
    | _ => s.fail
  s.done.reverse

end Lexer

/-- The tokens of a text, up to and including the first fault. -/
def Token.ofText (text : String) : List Token :=
  Lexer.finish (text.toList.foldl Lexer.step {})

end Estree
