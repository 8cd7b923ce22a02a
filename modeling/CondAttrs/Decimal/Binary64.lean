import CondAttrs.Text.Basic

/-!
# Double-precision numbers

A finite number is a sign, a mantissa below 2⁵³ and a power of two. Reading a
decimal numeral gives the nearest such number, ties going to the even mantissa;
what is too large is infinite. All arithmetic is exact and on naturals.
-/

namespace CondAttrs

/-- A double-precision number. -/
inductive Binary64 where
  /-- The number `mantissa * 2 ^ exponent`, or its negative. -/
  | finite (negative : Bool) (mantissa : Nat) (exponent : Int)
  /-- What lies beyond the largest number. -/
  | infinite (negative : Bool)
  /-- No number. -/
  | nan
deriving DecidableEq

namespace Binary64

/-- The integer nearest to `num / den`; a tie goes to the even one. -/
def roundDiv (num den : Nat) : Nat :=
  let quotient := num / den
  match compare (2 * (num % den)) den with
  | .lt => quotient
  | .gt => quotient + 1
  | .eq => if quotient % 2 = 0 then quotient else quotient + 1

/-- The least power of two by which a mantissa is scaled. -/
def minExponent : Int := -1074

/-- The greatest power of two by which a mantissa is scaled. -/
def maxExponent : Int := 971

/-- Numerator and denominator of `num / den / 2 ^ exponent`. -/
def scale (num den : Nat) (exponent : Int) : Nat × Nat :=
  (num * Nat.pow 2 (-exponent).toNat, den * Nat.pow 2 exponent.toNat)

/-- The number nearest to the positive quotient `num / den`. -/
def nearest (negative : Bool) (num den : Nat) : Binary64 :=
  let estimate : Int := (num.log2 : Int) - (den.log2 : Int) - 52
  let (n, d) := scale num den estimate
  let exponent := max (if n < Nat.pow 2 52 * d then estimate - 1 else estimate) minExponent
  let (n, d) := scale num den exponent
  let mantissa := roundDiv n d
  let (mantissa, exponent) :=
    if mantissa = Nat.pow 2 53 then (Nat.pow 2 52, exponent + 1) else (mantissa, exponent)
  if exponent > maxExponent then .infinite negative else .finite negative mantissa exponent

/-- The number nearest to `digits * 10 ^ exponent`. Exponents far out of range are
decided by the number of digits alone. -/
def ofDecimal (negative : Bool) (digits : Nat) (exponent : Int) : Binary64 :=
  let size := ((Text.decimal digits).length : Int) + exponent
  if digits = 0 || size < -330 then .finite negative 0 minExponent
  else if size > 310 then .infinite negative
  else nearest negative (digits * Nat.pow 10 exponent.toNat) (Nat.pow 10 (-exponent).toNat)

end Binary64

end CondAttrs
