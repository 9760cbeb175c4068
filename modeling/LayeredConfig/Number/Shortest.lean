import LayeredConfig.Number.Binary64

/-!
# Shortest decimal text of a binary64 number

The digits written are the fewest that read back as the same number.  They are found on the grids of
one, two, ... seventeen digits: the first grid with a point that rounds to the number wins, and of two
such points the nearer one, a tie going to the even digit.
-/

namespace LayeredConfig

/-- Decimal digits `d₁d₂…dₙ` that stand for `d₁.d₂…dₙ * 10 ^ exponent`. -/
structure Digits where
  digits : List Char
  exponent : Int
  deriving DecidableEq

/-- How digits are laid out as text. -/
structure DecimalLayout where
  /-- Exponents from here on are written positionally. -/
  positionalFrom : Int
  /-- Exponents from here on are written in scientific notation. -/
  scientificFrom : Int
  /-- Whether a positive exponent has a plus sign. -/
  plusSign : Bool

namespace Binary64

/-- The floor of the decimal logarithm of a positive quotient. -/
def floorLog10 (num den : Nat) : Int :=
  if den ≤ num then ((Nat.toDigits 10 (num / den)).length : Int) - 1
  else -((Nat.toDigits 10 ((den - 1) / num)).length : Int)

/-- The multiple of `10 ^ unit` that reads back as the given positive number, if there is one.

With everything scaled to quarters of the spacing, the number stands at `4 * significand`, and what
reads back as it lies two quarters around it, or one quarter below a power of two.  The ends belong to
it when the significand is even. -/
def gridPoint (x : Binary64) (unit : Int) : Option Nat :=
  let quarter := x.power - 2
  let scale := Nat.pow 2 quarter.toNat * Nat.pow 10 (-unit).toNat
  let step := Nat.pow 2 (-quarter).toNat * Nat.pow 10 unit.toNat
  let value := 4 * x.significand * scale
  let least := (4 * x.significand - if x.fraction.val = 0 && 1 < x.exponent.val then 1 else 2) * scale
  let greatest := (4 * x.significand + 2) * scale
  let inside (n : Nat) : Bool :=
    if x.significand % 2 = 0 then least ≤ n * step && n * step ≤ greatest
    else least < n * step && n * step < greatest
  let below := value / step
  let above := below + 1
  if inside below && inside above then
    let down := value - below * step
    let up := above * step - value
    some (if down < up || (down = up && below % 2 = 0) then below else above)
  else if inside below then some below
  else if inside above then some above
  else none

/-- The first grid of at least `count` digits that holds a point reading back as the number. -/
def shortestFrom (x : Binary64) (leading : Int) : Nat → Nat → Nat × Int
  | 0, _ => (0, 0)
  | grids + 1, count =>
    let unit := leading - count + 1
    match gridPoint x unit with
    | some n => (n, unit)
    | none => shortestFrom x leading grids (count + 1)

/-- The fewest digits that read back as the magnitude of a number. -/
def shortest (x : Binary64) : Digits :=
  if x.significand = 0 then ⟨['0'], 0⟩
  else
    let (n, unit) := shortestFrom x (floorLog10 x.numerator x.denominator) 17 1
    let digits := Nat.toDigits 10 n
    let kept := (digits.reverse.dropWhile (· = '0')).reverse
    ⟨kept, unit + digits.length - 1⟩

end Binary64

/-- A whole number in decimal. -/
def decimal (i : Int) : List Char :=
  if i < 0 then '-' :: Nat.toDigits 10 i.natAbs else Nat.toDigits 10 i.natAbs

/-- Digits in positional notation, with at least one digit after the point. -/
def Digits.positional (d : Digits) : List Char :=
  if d.exponent < 0 then
    '0' :: '.' :: (List.replicate (-d.exponent - 1).toNat '0' ++ d.digits)
  else
    let whole := d.exponent.toNat + 1
    let fraction := d.digits.drop whole
    d.digits.take whole ++ List.replicate (whole - d.digits.length) '0' ++ '.' ::
      (if fraction.isEmpty then ['0'] else fraction)

/-- Digits in scientific notation, without a point after a single digit. -/
def Digits.scientific (d : Digits) (plusSign : Bool) : List Char :=
  let mantissa :=
    match d.digits with
    | first :: second :: rest => first :: '.' :: second :: rest
    | digits => digits
  let sign := if plusSign && 0 < d.exponent then ['+'] else []
  mantissa ++ 'e' :: (sign ++ decimal d.exponent)

/-- The shortest text of a number in a layout. -/
def Binary64.text (x : Binary64) (layout : DecimalLayout) : List Char :=
  let d := x.shortest
  let magnitude :=
    if layout.positionalFrom ≤ d.exponent && d.exponent < layout.scientificFrom then d.positional
    else d.scientific layout.plusSign
  if x.negative then '-' :: magnitude else magnitude

end LayeredConfig
