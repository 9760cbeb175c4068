/-!
# Finite binary64 numbers

A finite binary64 number is its sign, its exponent field and its fraction field.  Arithmetic is exact
on natural numbers and rounds once at the end: `ofRatio` gives the number nearest to a quotient, and
of two equally near ones the one with an even significand.
-/

namespace LayeredConfig

/-- A finite binary64 number; infinities and NaNs have no representation. -/
structure Binary64 where
  negative : Bool
  exponent : Fin 2047
  fraction : Fin (Nat.pow 2 52)
  deriving DecidableEq

/-- The quotient rounded to the nearest natural number, a half to the even neighbour. -/
def roundDiv (num den : Nat) : Nat :=
  let below := num / den
  let twice := 2 * (num % den)
  if den < twice || (den = twice && below % 2 = 1) then below + 1 else below

namespace Binary64

/-- Zero with the given sign. -/
def zero (negative : Bool) : Binary64 := ⟨negative, 0, 0⟩

/-- The whole number that the magnitude is a power of two times of. -/
def significand (x : Binary64) : Nat :=
  if x.exponent.val = 0 then x.fraction.val else Nat.pow 2 52 + x.fraction.val

/-- The power of two that scales the significand. -/
def power (x : Binary64) : Int := (max x.exponent.val 1 : Nat) - 1075

/-- Numerator of the magnitude over `denominator`. -/
def numerator (x : Binary64) : Nat := x.significand * Nat.pow 2 x.power.toNat

/-- Denominator of the magnitude, a power of two. -/
def denominator (x : Binary64) : Nat := Nat.pow 2 (-x.power).toNat

/-- The floor of the binary logarithm of a positive quotient. -/
def floorLog2 (num den : Nat) : Int :=
  let estimate : Int := (Nat.log2 num : Int) - Nat.log2 den
  if den * Nat.pow 2 estimate.toNat ≤ num * Nat.pow 2 (-estimate).toNat then estimate else estimate - 1

/-- The number nearest to `num / den`, ties to an even significand; `none` beyond the largest finite
number. -/
def ofRatio (negative : Bool) (num den : Nat) : Option Binary64 :=
  if num = 0 then some (zero negative)
  else
    let unit := max (floorLog2 num den - 52) (-1074)
    let rounded := roundDiv (num * Nat.pow 2 (-unit).toNat) (den * Nat.pow 2 unit.toNat)
    let code := (unit + 1074).toNat * Nat.pow 2 52 + rounded
    if h : code / Nat.pow 2 52 < 2047 then
      some ⟨negative, ⟨code / Nat.pow 2 52, h⟩, ⟨code % Nat.pow 2 52, Nat.mod_lt _ (by decide)⟩⟩
    else none

/-- The number nearest to a natural number. -/
def ofNat (n : Nat) : Option Binary64 := ofRatio false n 1

/-- The rounded product of two magnitudes. -/
def mul (x y : Binary64) : Option Binary64 :=
  ofRatio false (x.numerator * y.numerator) (x.denominator * y.denominator)

/-- The rounded quotient of two magnitudes. -/
def div (x y : Binary64) : Option Binary64 :=
  ofRatio false (x.numerator * y.denominator) (x.denominator * y.numerator)

/-- The number nearest to `n * 10 ^ exponent`.  Exponents far outside the range of binary64 are
decided without computing the power. -/
def ofDecimal (negative : Bool) (n : Nat) (exponent : Int) : Option Binary64 :=
  let magnitude : Int := (Nat.toDigits 10 n).length + exponent
  if n = 0 || magnitude < -400 then some (zero negative)
  else if 400 < magnitude then none
  else ofRatio negative (n * Nat.pow 10 exponent.toNat) (Nat.pow 10 (-exponent).toNat)

end Binary64

end LayeredConfig
