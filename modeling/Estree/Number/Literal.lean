import Estree.Number.Shortest

/-!
# Numbers of a JSON text

A number is an integer when it has neither fraction nor exponent and fits 64 bits, signed or
unsigned; every other number, and minus zero, is a 64-bit binary fraction.

A fraction is read from its significand, the leading digits that fit 64 bits, by one scaling with a
power of ten. Each step rounds to nearest, so texts of up to fifteen digits and a small exponent
read exactly. Digits that do not fit only move the exponent.
-/

namespace Estree

/-! ## §1. Numbers. -/

/-- A number of a JSON value. -/
inductive Number where
  /-- An integer that fits 64 bits, signed or unsigned. -/
  | int (i : Int)
  /-- Any other number. -/
  | float (x : Binary64)
  deriving DecidableEq, Repr

namespace Number

/-- Equality of numbers: an integer is never a fraction, and both zero fractions are equal. -/
def same : Number → Number → Bool
  | .int i, .int j => i == j
  | .float x, .float y => x.same y
  | _, _ => false

/-- The text of an integer. -/
def intText (i : Int) : String :=
  String.ofList (if i < 0 then '-' :: Nat.toDigits 10 i.natAbs else Nat.toDigits 10 i.natAbs)

/-- The text of a number in source code and in messages. -/
def text : Number → String
  | .int i => intText i
  | .float x => x.text

end Number

/-! ## §2. Reading. -/

/-- A number as it is spelled: sign, whole digits, digits after the point, exponent. -/
structure Numeral where
  negative : Bool
  whole : List Char
  frac : Option (List Char)
  exp : Option (Bool × List Char)
  deriving DecidableEq, Repr

namespace Numeral

/-- The value of one digit. -/
def digit (c : Char) : Nat := c.toNat - '0'.toNat

/-- The value of a list of digits. -/
def natOf (ds : List Char) : Nat := ds.foldl (fun n c => n * 10 + digit c) 0

/-- The greatest significand. -/
def maxSignificand : Nat := Nat.pow 2 64 - 1

/-- The leading digits that still fit the significand, and the digits left over. -/
def absorb : Nat → List Char → Nat × List Char
  | n, [] => (n, [])
  | n, c :: cs =>
    if n * 10 + digit c ≤ maxSignificand then absorb (n * 10 + digit c) cs else (n, c :: cs)

/-- The significand and the power of ten that it is scaled with. -/
def scaled (t : Numeral) : Nat × Int :=
  let (n, dropped) := absorb 0 t.whole
  let frac := t.frac.getD []
  let (n, rest) := absorb n frac
  let shift : Int := dropped.length - (frac.length - rest.length : Nat)
  let exp : Int :=
    match t.exp with
    | none => 0
    | some (true, ds) => -(natOf ds : Int)
    | some (false, ds) => natOf ds
  (n, shift + exp)

/-- The power `10^k` as a magnitude. -/
def tenPow (k : Nat) : Option Magnitude := Magnitude.nearest (Nat.pow 10 k) 1

/-- Divides by `10^k`, in steps of `10^308` as long as `k` is greater. Three such steps lead from
any significand to zero. -/
def scaleDown (a : Magnitude) (k : Nat) : Option Magnitude :=
  let steps := (k - 1) / 308
  let k := k - 308 * steps
  let big := tenPow 308
  let a := (min steps 3).repeat (fun a => do (← a).div (← big)) (some a)
  do (← a).div (← tenPow k)

/-- The magnitude of a significand scaled with a power of ten; `none` when it is out of range. -/
def scale (n : Nat) (k : Int) : Option Magnitude :=
  match Magnitude.nearest n 1 with
  | none => none
  | some a =>
    if a.isZero then some a
    else if k < 0 then scaleDown a k.natAbs
    else if 308 < k then none
    else do a.mul (← tenPow k.toNat)

/-- The fraction that a numeral reads as. -/
def float? (t : Numeral) : Option Number :=
  let (n, k) := t.scaled
  (scale n k).map fun a => .float ⟨t.negative, a⟩

/-- The number that a numeral reads as; `none` when it is out of range. -/
def number? (t : Numeral) : Option Number :=
  match t.frac, t.exp with
  | none, none =>
    let n := natOf t.whole
    if t.negative then
      if 0 < n ∧ n ≤ Nat.pow 2 63 then some (.int (-(n : Int))) else t.float?
    else if n ≤ maxSignificand then some (.int n)
    else t.float?
  | _, _ => t.float?

end Numeral

end Estree
