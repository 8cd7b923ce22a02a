import CondAttrs.Decimal.Binary64

/-!
# The shortest decimal

A number is shown with the fewest digits that read back as the same number. The
decimals that do so fill an interval around the number; for one digit, two digits
and so on, the two neighbours of the number on the grid of such decimals are
tested, and the first grid with a hit wins. Of two hits the nearer is taken, and a
tie goes to the even last digit.

Numbers whose leading digit stands between four places behind the point and
sixteen before it are written positionally, and always with a point; all others
with an exponent of at least two digits.
-/

namespace CondAttrs.Binary64

/-- How `n * 10 ^ p` compares with `k * 2 ^ r`. -/
def compareScaled (n : Nat) (p : Int) (k : Nat) (r : Int) : Ordering :=
  compare (n * Nat.pow 10 p.toNat * Nat.pow 2 (-r).toNat)
    (k * Nat.pow 2 r.toNat * Nat.pow 10 (-p).toNat)

/-- Whether `n * 10 ^ p` reads back as `mantissa * 2 ^ exponent`. The interval ends
halfway to the two neighbours; below a power of two the neighbour is nearer. The
ends belong to it if the mantissa is even. -/
def readsBack (mantissa : Nat) (exponent : Int) (n : Nat) (p : Int) : Bool :=
  let low :=
    if mantissa = Nat.pow 2 52 && exponent > minExponent then 4 * mantissa - 1 else 4 * mantissa - 2
  let high := 4 * mantissa + 2
  let even := mantissa % 2 = 0
  let above := compareScaled n p low (exponent - 2)
  let below := compareScaled n p high (exponent - 2)
  (above = .gt || (even && above = .eq)) && (below = .lt || (even && below = .eq))

/-- The greatest `n` with `n * 10 ^ p` at most `mantissa * 2 ^ exponent`. -/
def floorAt (mantissa : Nat) (exponent : Int) (p : Int) : Nat :=
  (mantissa * Nat.pow 2 exponent.toNat * Nat.pow 10 (-p).toNat) /
    (Nat.pow 2 (-exponent).toNat * Nat.pow 10 p.toNat)

/-- The decimal exponent of the leading digit. The estimate takes the logarithm of
two as 0.30103 and is at most one too low. -/
def leadingExponent (mantissa : Nat) (exponent : Int) : Int :=
  let estimate := ((mantissa.log2 : Int) + exponent) * 30103 / 100000
  if floorAt mantissa exponent (estimate + 1) ≥ 1 then estimate + 1 else estimate

/-- The neighbour on the grid `10 ^ p` that reads back, the nearer one if both do. -/
def hitAt (mantissa : Nat) (exponent : Int) (p : Int) : Option Nat :=
  let low := floorAt mantissa exponent p
  match readsBack mantissa exponent low p, readsBack mantissa exponent (low + 1) p with
  | false, false => none
  | true, false => some low
  | false, true => some (low + 1)
  | true, true =>
    match compareScaled (2 * low + 1) p (2 * mantissa) exponent with
    | .lt => some (low + 1)
    | .gt => some low
    | .eq => some (if low % 2 = 0 then low else low + 1)

/-- The shortest decimal, as digits and the exponent of the last one. Seventeen
digits always suffice. -/
def shortest (mantissa : Nat) (exponent : Int) : Nat × Int :=
  let leading := leadingExponent mantissa exponent
  let hit := (List.range 17).findSome? fun (k : Nat) =>
    (hitAt mantissa exponent (leading - k)).map fun n => (n, leading - (k : Int))
  hit.getD (floorAt mantissa exponent (leading - 16), leading - 16)

/-- Lays out digits whose leading one stands at the given exponent. -/
def layout (digits : Text) (leading : Int) : Text :=
  if leading < -4 || leading ≥ 16 then
    let size := Text.decimal leading.natAbs
    digits.take 1 ++ (if digits.length > 1 then '.' :: digits.drop 1 else []) ++
      ['e', if leading < 0 then '-' else '+'] ++ List.replicate (2 - size.length) '0' ++ size
  else if leading < 0 then
    "0." ++ List.replicate (leading.natAbs - 1) '0' ++ digits
  else
    let places := leading.toNat + 1
    let padded := digits ++ List.replicate (places + 1 - digits.length) '0'
    padded.take places ++ '.' :: padded.drop places

/-- The text of a number. -/
def text : Binary64 → Text
  | finite negative mantissa exponent =>
    let magnitude : Text :=
      if mantissa = 0 then "0.0"
      else
        let (n, p) := shortest mantissa exponent
        let digits := Text.decimal n
        layout (digits.reverse.dropWhile (· = '0')).reverse (p + digits.length - 1)
    (if negative then ['-'] else []) ++ magnitude
  | infinite negative => if negative then "-inf" else "inf"
  | nan => "nan"

end CondAttrs.Binary64
