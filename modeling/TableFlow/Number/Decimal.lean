import TableFlow.Number.Double

/-!
# Decimal texts of doubles

`Double.shortest` is the decimal with the fewest digits that reads back as a given double, and among those with
equally few digits the one nearest to it.  The search goes from coarse to fine powers of ten; on each only the two
neighbours of the double can read back without a coarser power doing so too.  Where both neighbours read back and
are equally near, a `TieRule` decides.

Two layouts show the digits: `Double.plain`, always positional, and `Double.scientific`, which writes an exponent
outside a middle range and otherwise always a point.
-/

namespace TableFlow

/-- The number `digits · 10 ^ exponent`. -/
structure Decimal where
  digits : Nat
  exponent : Int
deriving DecidableEq

/-- Which of two equally near neighbours is taken. -/
inductive TieRule where
  | up
  | even
deriving DecidableEq

namespace Double

/-- The decimal reads as this double. -/
def isReadFrom (d : Double) (c : Decimal) : Bool :=
  ofDecimal? d.negative c.digits c.exponent = some d

/-- Whether the upper of the two neighbours `c · 10 ^ e` and `(c + 1) · 10 ^ e` of the size `n / m` is taken:
`remainder / unit` is the way from the lower neighbour to the size, as a part of the whole step. -/
def takesUpper (rule : TieRule) (c remainder unit : Nat) : Bool :=
  unit < 2 * remainder || (unit == 2 * remainder && (rule == .up || c % 2 == 1))

/-- The neighbour of `d` on the multiples of `10 ^ e` that reads back as `d`, the nearer one if both do. -/
def onGrid? (d : Double) (rule : TieRule) (e : Int) : Option Decimal :=
  let n := d.quanta * Nat.pow 10 (-e).toNat
  let unit := Nat.pow 10 e.toNat <<< 1074
  let lower : Decimal := ⟨n / unit, e⟩
  let upper : Decimal := ⟨n / unit + 1, e⟩
  match d.isReadFrom lower, d.isReadFrom upper with
  | true, true => some (if takesUpper rule lower.digits (n % unit) unit then upper else lower)
  | true, false => some lower
  | false, true => some upper
  | false, false => none

/-- The exact value, for a quantum is `5 ^ 1074 · 10 ^ (-1074)`. -/
def exactDecimal (d : Double) : Decimal :=
  ⟨d.quanta * Nat.pow 5 1074, -1074⟩

/-- An exponent of ten above the size of `d`, by at most two: `30103 / 100000` is `log 2 / log 10`, nearly. -/
def decimalCeiling (d : Double) : Int :=
  ((d.quanta.log2 : Int) - 1073) * 30103 / 100000 + 1

/-- The shortest decimal that reads back as `d`.  Seventeen digits always suffice, so twenty powers are tried. -/
def shortest (d : Double) (rule : TieRule) : Decimal :=
  if d.quanta = 0 then ⟨0, 0⟩
  else ((List.range 21).findSome? fun (i : Nat) => d.onGrid? rule (d.decimalCeiling - i)).getD d.exactDecimal

end Double

namespace Decimal

/-- The digits of the number. -/
def digitChars (c : Decimal) : List Char :=
  Nat.toDigits 10 c.digits

/-- The number in positional form, with a point only when there are places behind it. -/
def positional (c : Decimal) : List Char :=
  let places := (-c.exponent).toNat
  let padded := List.replicate (places + 1 - c.digitChars.length) '0' ++ c.digitChars
  if 0 ≤ c.exponent then c.digitChars ++ List.replicate c.exponent.toNat '0'
  else padded.take (padded.length - places) ++ '.' :: padded.drop (padded.length - places)

/-- The exponent of ten of the first digit. -/
def leadingExponent (c : Decimal) : Int :=
  c.exponent + (c.digitChars.length - 1 : Nat)

/-- The number with one digit before the point and a signed exponent. -/
def withExponent (c : Decimal) : List Char :=
  let x := c.leadingExponent
  let mantissa := match c.digitChars with
    | first :: more@(_ :: _) => first :: '.' :: more
    | single => single
  mantissa ++ 'e' :: (if x < 0 then '-' else '+') :: Nat.toDigits 10 x.natAbs

end Decimal

namespace Double

private def signed (d : Double) (size : List Char) : List Char :=
  if d.negative then '-' :: size else size

/-- The text of a double in scripts and queries: positional, a whole number without a point. -/
def plain (d : Double) : String :=
  .ofList (d.signed (d.shortest .up).positional)

/-- The text of a double in documents: positional with a point when the first digit stands for a power of ten from
`10 ^ (-5)` to `10 ^ 15`, with an exponent otherwise. -/
def scientific (d : Double) : String :=
  let c := d.shortest .even
  let x := c.leadingExponent
  .ofList (d.signed (
    if -5 ≤ x ∧ x < 16 then c.positional ++ (if 0 ≤ c.exponent then ['.', '0'] else []) else c.withExponent))

end Double

end TableFlow
