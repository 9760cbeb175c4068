import LayeredConfig.Json.Reader

/-!
# Plain scalars

What an unquoted YAML scalar stands for: null, a truth value, a whole number, a binary64 number or its
own text.
-/

namespace LayeredConfig.Yaml

/-- The meaning of a plain scalar. -/
inductive Plain where
  | null
  | bool (b : Bool)
  /-- A whole number of up to 128 bits. -/
  | whole (n : Int)
  | float (x : Binary64)
  /-- An infinity or a NaN. -/
  | nonFinite
  /-- Nothing but its text. -/
  | text
  deriving DecidableEq

/-- The spellings of null. -/
def isNull (s : String) : Bool := s = "null" || s = "Null" || s = "NULL" || s = "~"

/-- The truth value that a text spells. -/
def bool? (s : String) : Option Bool :=
  if s = "true" || s = "True" || s = "TRUE" then some true
  else if s = "false" || s = "False" || s = "FALSE" then some false
  else none

/-- The value of a digit in bases up to sixteen. -/
def digit? (base : Nat) (c : Char) : Option Nat := (Json.hexValue? c).filter (· < base)

/-- The number that a non-empty run of digits stands for. -/
def digits? (base : Nat) : List Char → Option Nat
  | [] => none
  | s => s.foldlM (fun n c => (digit? base c).map (base * n + ·)) 0

/-- A natural number with a marker of its base, or in decimal. -/
def magnitude? : List Char → Option Nat
  | '0' :: 'x' :: s => digits? 16 s
  | '0' :: 'o' :: s => digits? 8 s
  | '0' :: 'b' :: s => digits? 2 s
  | s => digits? 10 s

/-- A text without one sign in front. -/
def unsigned : List Char → List Char
  | '-' :: s => s
  | '+' :: s => s
  | s => s

/-- Digits with a leading zero, which are a text and not a number. -/
def isZeroPadded (s : List Char) : Bool :=
  match unsigned s with
  | '0' :: c :: rest => (c :: rest).all Text.isDigit
  | _ => false

/-- The whole number of up to 128 bits that a text spells. -/
def whole? (s : List Char) : Option Int :=
  if isZeroPadded s then none
  else
    match s with
    | '-' :: s => ((magnitude? s).filter (· ≤ Nat.pow 2 127)).map fun n => -(n : Int)
    | '+' :: s => ((magnitude? s).filter (· < Nat.pow 2 128)).map Int.ofNat
    | s => ((magnitude? s).filter (· < Nat.pow 2 128)).map Int.ofNat

/-- The digits after a point, if there is a point. -/
def fractionDigits : List Char → List Char × List Char
  | '.' :: s => Json.spanDigits s
  | s => ([], s)

/-- The binary64 number that an unsigned text spells; digits may be missing on one side of the point. -/
def unsignedFloat? (negative : Bool) (s : List Char) : Option Binary64 := do
  let (whole, s) := Json.spanDigits s
  let (fraction, s) := fractionDigits s
  let (exponent, s) ← Json.readExponent s
  if !s.isEmpty || (whole.isEmpty && fraction.isEmpty) then none
  Binary64.ofDecimal negative (Json.digitsValue (whole ++ fraction))
    (exponent.getD 0 - fraction.length)

/-- The finite binary64 number that a text spells. -/
def float? : List Char → Option Binary64
  | '+' :: s => unsignedFloat? false s
  | '-' :: s => unsignedFloat? true s
  | s => unsignedFloat? false s

/-- The spellings of infinities and NaN. -/
def isNonFinite (s : String) : Bool :=
  s = ".inf" || s = ".Inf" || s = ".INF" || s = "+.inf" || s = "+.Inf" || s = "+.INF" ||
    s = "-.inf" || s = "-.Inf" || s = "-.INF" || s = ".nan" || s = ".NaN" || s = ".NAN"

/-- The number that a text spells, if it spells one. -/
def number? (s : String) : Option Plain :=
  let chars := s.toList
  match whole? chars with
  | some n => some (.whole n)
  | none =>
    if isZeroPadded chars then none
    else if isNonFinite s then some .nonFinite
    else (float? chars).map .float

/-- What a plain scalar stands for. -/
def plain (s : String) : Plain :=
  if s.isEmpty || isNull s then .null
  else
    match bool? s with
    | some b => .bool b
    | none => (number? s).getD .text

end LayeredConfig.Yaml
