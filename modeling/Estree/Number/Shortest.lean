import Estree.Number.Binary64

/-!
# The shortest decimal of a number

`Magnitude.shortest` gives the decimal `digits * 10^exp` with the fewest digits that reads back as
the same magnitude. Decimal grids are tried from coarse to fine. On each grid only the two
neighbours of the value can be nearest, and the first grid with a neighbour inside the rounding
interval wins; of two such neighbours the nearer is taken, and the even one of two equally near.

`Binary64.text` writes it: with `e` the exponent of the first digit, plain notation for
`-5 ≤ e ≤ 15`, always with a fraction, and exponent notation otherwise.
-/

namespace Estree

/-! ## §1. Digits. -/

/-- A decimal `digits * 10^exp`. -/
structure ShortDecimal where
  digits : Nat
  exp : Int
  deriving DecidableEq, Repr

namespace Magnitude

/-- Half the gap to the number below, in quarters of the last mantissa place: the gap is half as
wide just above a power of two. -/
def lowerQuarters (a : Magnitude) : Nat :=
  if a.mant = Nat.pow 2 52 ∧ minExp < a.exp then 1 else 2

/-- The point of the grid `10^k` nearest to the value among those that read back as it. -/
def onGrid? (a : Magnitude) (k : Int) : Option Nat :=
  let q := a.exp - 2
  let unit := Nat.pow 2 q.toNat * Nat.pow 10 (-k).toNat
  let den := Nat.pow 2 (-q).toNat * Nat.pow 10 k.toNat
  let value := 4 * a.mant * unit
  let low := (4 * a.mant - a.lowerQuarters) * unit
  let high := (4 * a.mant + 2) * unit
  let closed : Bool := a.mant % 2 == 0
  let inside (c : Nat) : Bool :=
    decide (0 < c) &&
      (if closed then low ≤ c * den && c * den ≤ high else low < c * den && c * den < high)
  let d := value / den
  let r := value % den
  if inside d && inside (d + 1) then
    if 2 * r < den then some d
    else if den < 2 * r then some (d + 1)
    else if d % 2 = 0 then some d else some (d + 1)
  else if inside d then some d
  else if inside (d + 1) then some (d + 1)
  else none

/-- Searches the grids `10^k`, `10^(k-1)`, ... for the first with a hit. -/
def searchGrid (a : Magnitude) : Nat → Int → ShortDecimal
  | 0, k => ⟨0, k⟩
  | n + 1, k =>
    match a.onGrid? k with
    | some d => ⟨d, k⟩
    | none => a.searchGrid n (k - 1)

/-- A grid that is coarser than the value, by at most three places. -/
def coarseGrid (a : Magnitude) : Int :=
  ((a.exp + a.mant.log2 + 1) * 30103) / 100000 + 1

/-- The shortest decimal of a nonzero magnitude: seventeen digits always suffice. -/
def shortest (a : Magnitude) : ShortDecimal :=
  a.searchGrid 21 a.coarseGrid

end Magnitude

/-! ## §2. Text. -/

namespace ShortDecimal

/-- The digits as characters. -/
def chars (d : ShortDecimal) : List Char := Nat.toDigits 10 d.digits

/-- The exponent of the first digit. -/
def lead (d : ShortDecimal) : Int := d.exp + d.chars.length - 1

/-- Plain notation, always with a fraction. -/
def plain (d : ShortDecimal) : List Char :=
  let ds := d.chars
  let e := d.lead
  if e < 0 then ['0', '.'] ++ List.replicate (-e - 1).toNat '0' ++ ds
  else
    let whole := e.toNat + 1
    if ds.length ≤ whole then ds ++ List.replicate (whole - ds.length) '0' ++ ['.', '0']
    else ds.take whole ++ ['.'] ++ ds.drop whole

/-- Exponent notation: one digit before the point, and the sign of the exponent always written. -/
def scientific (d : ShortDecimal) : List Char :=
  let e := d.lead
  let frac := d.chars.drop 1
  d.chars.take 1 ++ (if frac.isEmpty then [] else '.' :: frac)
    ++ ['e', if e < 0 then '-' else '+'] ++ Nat.toDigits 10 e.natAbs

end ShortDecimal

namespace Binary64

/-- The text of a number: the fewest digits that read back as it. -/
def text (x : Binary64) : String :=
  let body :=
    if x.magnitude.isZero then ['0', '.', '0']
    else
      let d := x.magnitude.shortest
      if -5 ≤ d.lead ∧ d.lead ≤ 15 then d.plain else d.scientific
  String.ofList (if x.negative then '-' :: body else body)

end Binary64

end Estree
