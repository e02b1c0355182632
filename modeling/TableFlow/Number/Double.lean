/-!
# Doubles

A finite double is `± mantissa · 2 ^ exponent` quanta, one quantum being `2 ^ (-1074)`, the least positive double.
The three bounds of the structure leave one representation for every double, zero having two signs, so equality of
the structure is equality of doubles.  All arithmetic is exact, on natural numbers.

* `Double.ofQuotient?` rounds a nonnegative quotient of naturals, counted in quanta, to the nearest double.
* `Double.ofDecimal?` is the double nearest to `± digits · 10 ^ exponent`, or nothing when that is too large.
-/

namespace TableFlow

/-- A finite double: `± mantissa · 2 ^ exponent` quanta of `2 ^ (-1074)`. -/
structure Double where
  negative : Bool
  mantissa : Nat
  exponent : Nat
  mantissa_lt : mantissa < 1 <<< 53
  exponent_le : exponent ≤ 2045
  normal : exponent = 0 ∨ 1 <<< 52 ≤ mantissa
deriving DecidableEq

namespace Double

/-- Zero with a sign. -/
def zero (negative : Bool) : Double where
  negative := negative
  mantissa := 0
  exponent := 0
  mantissa_lt := by decide
  exponent_le := by decide
  normal := .inl rfl

/-- The double with these parts, if they are the parts of one. -/
def ofParts? (negative : Bool) (mantissa exponent : Nat) : Option Double :=
  if h : mantissa < 1 <<< 53 ∧ exponent ≤ 2045 ∧ (exponent = 0 ∨ 1 <<< 52 ≤ mantissa) then
    some ⟨negative, mantissa, exponent, h.1, h.2.1, h.2.2⟩
  else
    none

/-- The size of a double in quanta. -/
def quanta (d : Double) : Nat :=
  d.mantissa <<< d.exponent

/-- The quotient `n / d` rounded to a natural number, a half going to the even neighbour. -/
def roundHalfEven (n d : Nat) : Nat :=
  if 2 * (n % d) < d ∨ (2 * (n % d) = d ∧ n / d % 2 = 0) then n / d else n / d + 1

/-- The double nearest to `± n / d` quanta, if it is not beyond all of them.  A mantissa has 53 bits, so its unit
is `2 ^ (bits of the quotient - 53)` quanta, but never less than one; rounding up may carry into one bit more. -/
def ofQuotient? (negative : Bool) (n d : Nat) : Option Double :=
  let exponent := (n / d).log2 - 52
  let mantissa := roundHalfEven n (d <<< exponent)
  if mantissa = 1 <<< 53 then ofParts? negative (1 <<< 52) (exponent + 1) else ofParts? negative mantissa exponent

/-- The double nearest to `± digits · 10 ^ exponent`, if it is not beyond all of them.  It is rounded exactly and once:
this is the reader that a decimal has to have to be read back as the double it was written for.  A size above
`10 ^ 400` is beyond every double and a size below `10 ^ (-400)` rounds to zero; both are settled before any power is
computed. -/
def ofDecimal? (negative : Bool) (digits : Nat) (exponent : Int) : Option Double :=
  if digits = 0 then some (zero negative)
  else if 400 < exponent then none
  else if exponent + digits.log2 + 401 < 0 then some (zero negative)
  else ofQuotient? negative ((digits * Nat.pow 10 exponent.toNat) <<< 1074) (Nat.pow 10 (-exponent).toNat)

end Double

end TableFlow
