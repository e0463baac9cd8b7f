/-!
# Double precision numbers

A finite double is represented by its shortest decimal: of the decimals that
round to it, those with the fewest digits, and of those the nearest (a tie goes
to the even digit). Two doubles are equal exactly when their shortest decimals
are, so the representation loses nothing, and all arithmetic is on integers.

Main definitions.
* `Double.ofDecimal` — the double nearest to a decimal.
* `Double.text` — its usual text.
* `Double.whole?` — the whole number that it is.
-/

namespace BuildDigest

/-- A double: `digits * 10 ^ scale` with a sign, or one of the special values. -/
inductive Double
  | nan
  | infinite (negative : Bool)
  | finite (negative : Bool) (digits : Nat) (scale : Int)
  deriving DecidableEq, Repr

namespace Double

/-- The quotient rounded to the nearest integer, a half to the even one. -/
def roundQuotient (num den : Nat) : Nat :=
  let q := num / den
  let r := num % den
  if den < 2 * r ∨ (2 * r = den ∧ q % 2 = 1) then q + 1 else q

/-- A quotient divided by a power of a base. -/
def scaled (base : Nat) (num den : Nat) (exponent : Int) : Nat × Nat :=
  if 0 ≤ exponent then (num, den * Nat.pow base exponent.toNat)
  else (num * Nat.pow base (-exponent).toNat, den)

/-- The least significand of doubles that are not close to zero, of 53 binary digits. -/
def leastFull : Nat := 4503599627370496

def minExponent : Int := -1074

def maxExponent : Int := 971

/-- The significand and unit exponent of the double nearest to a positive quotient;
`none` above the largest double. -/
def nearest (num den : Nat) : Option (Nat × Int) :=
  let guess : Int := (Nat.log2 num : Int) - Nat.log2 den - 52
  let (n, d) := scaled 2 num den guess
  let exponent := max minExponent (if n < d * leastFull then guess - 1 else guess)
  let (n, d) := scaled 2 num den exponent
  let significand := roundQuotient n d
  let (significand, exponent) :=
    if significand = 2 * leastFull then (leastFull, exponent + 1) else (significand, exponent)
  if maxExponent < exponent then none else some (significand, exponent)

/-- The count of decimal digits of a number. -/
def digitCount (n : Nat) : Nat :=
  (Nat.toDigits 10 n).length

/-- The decimal exponent of the leading digit of a positive quotient. -/
def leading (num den : Nat) : Int :=
  if den ≤ num then (digitCount (num / den) : Int) - 1
  else
    let k := digitCount (den / num) - 1
    if den ≤ num * Nat.pow 10 k then -(k : Int) else -((k : Int) + 1)

/-- The decimal on the grid `10 ^ scale` that is nearest to `mid` among those between
`low` and `high` (ends count if `closed`), all three over the denominator `den`. -/
def onGrid? (low mid high den : Nat) (closed : Bool) (scale : Int) : Option Nat :=
  let (unit, factor) : Nat × Nat :=
    if 0 ≤ scale then (den * Nat.pow 10 scale.toNat, 1) else (den, Nat.pow 10 (-scale).toNat)
  let low := low * factor
  let mid := mid * factor
  let high := high * factor
  let below := mid / unit
  let above := below + 1
  let inside (n : Nat) : Bool :=
    if closed then low ≤ n * unit && n * unit ≤ high else low < n * unit && n * unit < high
  let down := mid - below * unit
  let up := above * unit - mid
  match inside below, inside above with
  | true, true => some (if down < up || (down == up && below % 2 == 0) then below else above)
  | true, false => some below
  | false, true => some above
  | false, false => none

/-- The first grid, from coarse to fine, with a decimal that reads back. -/
def shortestFrom (low mid high den : Nat) (closed : Bool) : Nat → Int → Nat × Int
  | 0, scale => (mid / den, scale)
  | fuel + 1, scale =>
    match onGrid? low mid high den closed scale with
    | some n => (n, scale)
    | none => shortestFrom low mid high den closed fuel (scale - 1)

/-- A decimal without trailing zeros among its digits. -/
def dropZeros : Nat → Nat → Int → Nat × Int
  | 0, n, scale => (n, scale)
  | fuel + 1, n, scale =>
    if n ≠ 0 ∧ n % 10 = 0 then dropZeros fuel (n / 10) (scale + 1) else (n, scale)

/-- The shortest decimal of the double `significand * 2 ^ exponent`. -/
def shortest (significand : Nat) (exponent : Int) : Nat × Int :=
  let below := if significand = leastFull ∧ minExponent < exponent then 1 else 2
  let exponent := exponent - 2
  let (factor, den) : Nat × Nat :=
    if 0 ≤ exponent then (Nat.pow 2 exponent.toNat, 1) else (1, Nat.pow 2 (-exponent).toNat)
  let mid := 4 * significand * factor
  let low := (4 * significand - below) * factor
  let high := (4 * significand + 2) * factor
  let (n, scale) :=
    shortestFrom low mid high den (significand % 2 == 0) 17 (leading mid den)
  dropZeros 20 n scale

/-- The double nearest to `digits * 10 ^ scale`. -/
def ofDecimal (negative : Bool) (digits : Nat) (scale : Int) : Double :=
  if digits = 0 then .finite negative 0 0
  else
    let top := (digitCount digits : Int) + scale
    if top < -400 then .finite negative 0 0
    else if 400 < top then .infinite negative
    else
      let (num, den) := scaled 10 digits 1 (-scale)
      match nearest num den with
      | none => .infinite negative
      | some (0, _) => .finite negative 0 0
      | some (significand, exponent) =>
        let (n, s) := shortest significand exponent
        .finite negative n s

/-- The whole number that a double is, if it is one. -/
def whole? : Double → Option Int
  | .finite negative digits scale =>
    if digits = 0 then some 0
    else
      let (num, den) := scaled 10 digits 1 (-scale)
      match nearest num den with
      | none => none
      | some (significand, exponent) =>
        let (num, den) := scaled 2 significand 1 (-exponent)
        if num % den = 0 then some (if negative then -(num / den : Nat) else (num / den : Nat))
        else none
  | _ => none

/-- Whether a double is zero, of either sign. -/
def isZero : Double → Bool
  | .finite _ digits _ => digits == 0
  | _ => false

/-- The text of a positive decimal: a leading digit of exponent -4 to 15 is written in
place, others with an exponent of at least two digits; there is a point or an exponent. -/
def decimalText (digits : Nat) (scale : Int) : List Char :=
  let ds := Nat.toDigits 10 digits
  let count : Int := ds.length
  let exponent := count - 1 + scale
  if exponent < -4 ∨ 16 ≤ exponent then
    let mantissa := match ds with
      | [] => []
      | [d] => [d]
      | d :: rest => d :: '.' :: rest
    let magnitude := Nat.toDigits 10 exponent.natAbs
    let padded := if magnitude.length < 2 then '0' :: magnitude else magnitude
    mantissa ++ 'e' :: (if exponent < 0 then '-' else '+') :: padded
  else if 0 ≤ scale then ds ++ List.replicate scale.toNat '0' ++ ['.', '0']
  else if 0 < count + scale then
    let whole := (count + scale).toNat
    ds.take whole ++ '.' :: ds.drop whole
  else '0' :: '.' :: List.replicate (-(count + scale)).toNat '0' ++ ds

def text : Double → String
  | .nan => "nan"
  | .infinite negative => if negative then "-inf" else "inf"
  | .finite negative digits scale =>
    let body := if digits = 0 then ['0', '.', '0'] else decimalText digits scale
    String.ofList (if negative then '-' :: body else body)

end Double

end BuildDigest
