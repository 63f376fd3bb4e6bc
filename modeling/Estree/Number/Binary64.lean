/-!
# Finite 64-bit binary fractions

A finite number of 64 bits is `± m * 2^q` with a mantissa below `2^53` and an exponent of at least
`-1074`. Only one operation rounds: `nearest num den` is the number nearest to the quotient
`num / den`, where a tie goes to the even mantissa. Product and quotient of two numbers round once,
through `nearest`, so every operation here is exact arithmetic on natural numbers followed by one
rounding.
-/

namespace Estree

/-! ## §1. Magnitudes. -/

/-- The magnitude `mant * 2^exp` of a finite number. -/
structure Magnitude where
  mant : Nat
  exp : Int
  deriving DecidableEq, Repr

namespace Magnitude

/-- The least exponent. -/
def minExp : Int := -1074

/-- The greatest exponent of a finite number. -/
def maxExp : Int := 971

/-- Zero, written with the least exponent like every number below the normal range. -/
def zero : Magnitude := ⟨0, minExp⟩

/-- Whether the magnitude is zero. -/
def isZero (a : Magnitude) : Bool := a.mant == 0

/-- The numerator of `mant * 2^exp`. -/
def num (a : Magnitude) : Nat := a.mant * Nat.pow 2 a.exp.toNat

/-- The denominator of `mant * 2^exp`. -/
def den (a : Magnitude) : Nat := Nat.pow 2 (-a.exp).toNat

/-- The quotient rounded to the nearest natural number, a tie to the even one. -/
def divRound (n d : Nat) : Nat :=
  let q := n / d
  let r := n % d
  if 2 * r < d then q
  else if d < 2 * r then q + 1
  else if q % 2 = 0 then q else q + 1

/-- The exponent at which a nonzero quotient has a mantissa of 53 bits. -/
def normalExp (n d : Nat) : Int :=
  let k : Int := (n.log2 : Int) - d.log2
  let below : Bool := if 0 ≤ k then n < d * Nat.pow 2 k.toNat else n * Nat.pow 2 (-k).toNat < d
  if below then k - 53 else k - 52

/-- The magnitude nearest to `n / d`, a tie to the even mantissa; `none` when it is out of range. -/
def nearest (n d : Nat) : Option Magnitude :=
  if n = 0 then some zero
  else
    let e := max minExp (normalExp n d)
    let m := divRound (n * Nat.pow 2 (-e).toNat) (d * Nat.pow 2 e.toNat)
    let a : Magnitude := if m = Nat.pow 2 53 then ⟨Nat.pow 2 52, e + 1⟩ else ⟨m, e⟩
    if maxExp < a.exp then none else some a

/-- The product, rounded once. -/
def mul (a b : Magnitude) : Option Magnitude :=
  nearest (a.num * b.num) (a.den * b.den)

/-- The quotient by a nonzero magnitude, rounded once. -/
def div (a b : Magnitude) : Option Magnitude :=
  nearest (a.num * b.den) (a.den * b.num)

end Magnitude

/-! ## §2. Signed numbers. -/

/-- A finite 64-bit number: a sign and a magnitude, so zero has two forms. -/
structure Binary64 where
  negative : Bool
  magnitude : Magnitude
  deriving DecidableEq, Repr

namespace Binary64

/-- Equality of values: both zeros are one value. -/
def same (a b : Binary64) : Bool :=
  a == b || (a.magnitude.isZero && b.magnitude.isZero)

end Binary64

end Estree
