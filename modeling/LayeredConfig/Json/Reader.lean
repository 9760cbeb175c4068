import LayeredConfig.Json.Value
import LayeredConfig.Text

/-!
# Reading JSON

A reader of standard JSON text.  A repeated member name overwrites the value and keeps the position of
its first occurrence.  A number without fraction and exponent that fits 64 bits is whole.  Every other
number is binary64: its digits are gathered into 64 bits, digits that no longer fit are dropped, and
the result is scaled by a power of ten in one rounded operation.
-/

namespace LayeredConfig

namespace Binary64

/-- The number nearest to a power of ten. -/
def powerOfTen (k : Nat) : Option Binary64 := ofNat (Nat.pow 10 k)

/-- A magnitude times a power of ten, by one rounded product or quotient.  Powers of ten end at `308`; a
smaller scale divides by `10 ^ 308` first, which leaves zero after two steps. -/
def scaled (x : Binary64) (exponent : Int) : Option Binary64 :=
  if x.significand = 0 then some (zero false)
  else if 308 < exponent then none
  else if 0 ≤ exponent then (powerOfTen exponent.toNat).bind x.mul
  else if -308 ≤ exponent then (powerOfTen (-exponent).toNat).bind x.div
  else if -616 ≤ exponent then do
    let small ← (powerOfTen 308).bind x.div
    (powerOfTen (-exponent - 308).toNat).bind small.div
  else some (zero false)

end Binary64

namespace Json

/-- White space between the tokens of JSON. -/
def isSpace (c : Char) : Bool := c = ' ' || c = '\n' || c = '\t' || c = '\r'

/-- The value of a decimal digit. -/
def digitValue (c : Char) : Nat := c.toNat - '0'.toNat

/-- The number that some decimal digits stand for. -/
def digitsValue (digits : List Char) : Nat := digits.foldl (fun n c => 10 * n + digitValue c) 0

/-- The value of a digit of base sixteen. -/
def hexValue? (c : Char) : Option Nat :=
  if Text.isDigit c then some (digitValue c)
  else if 'a' ≤ c && c ≤ 'f' then some (c.toNat - 'a'.toNat + 10)
  else if 'A' ≤ c && c ≤ 'F' then some (c.toNat - 'A'.toNat + 10)
  else none

/-- Digits gathered into 64 bits: the number, and the digits from the first that does not fit on. -/
def gather (n : Nat) : List Char → Nat × List Char
  | [] => (n, [])
  | c :: rest =>
    let next := 10 * n + digitValue c
    if next < 18446744073709551616 then gather next rest else (n, c :: rest)

/-- The binary64 number of a decimal text, given its whole digits, fraction digits and exponent. -/
def floatOf (negative : Bool) (whole fraction : List Char) (exponent : Int) : Option Binary64 := do
  let (n, dropped) := gather 0 whole
  let (n, unused) := gather n fraction
  let scale : Int := dropped.length - (fraction.length - unused.length : Nat)
  let magnitude ← (← Binary64.ofNat n).scaled (scale + exponent)
  return { magnitude with negative }

/-- The number of a decimal text.  Minus zero and whole numbers of more than 64 bits are binary64. -/
def numberOf (negative : Bool) (whole : List Char) (fraction : Option (List Char))
    (exponent : Option Int) : Option Number :=
  let n := digitsValue whole
  let asFloat := (floatOf negative whole (fraction.getD []) (exponent.getD 0)).map Number.float
  if fraction.isSome || exponent.isSome || (negative && n = 0) then asFloat
  else
    match Whole.ofInt? (if negative then -n else n) with
    | some w => some (.whole w)
    | none => asFloat

/-- The digits at the start of a text, and the rest. -/
def spanDigits (s : List Char) : List Char × List Char :=
  (s.takeWhile Text.isDigit, s.dropWhile Text.isDigit)

/-- At least one digit, and the rest. -/
def readDigits (s : List Char) : Option (List Char × List Char) :=
  match spanDigits s with
  | ([], _) => none
  | found => some found

/-- The digits after a point, if there is a point. -/
def readFraction : List Char → Option (Option (List Char) × List Char)
  | '.' :: s => (readDigits s).map fun (digits, rest) => (some digits, rest)
  | s => some (none, s)

/-- The exponent, if there is one. -/
def readExponent (s : List Char) : Option (Option Int × List Char) :=
  let signed (s : List Char) : Option (Option Int × List Char) :=
    match s with
    | '-' :: s => (readDigits s).map fun (digits, rest) => (some (-(digitsValue digits : Int)), rest)
    | '+' :: s => (readDigits s).map fun (digits, rest) => (some (digitsValue digits), rest)
    | s => (readDigits s).map fun (digits, rest) => (some (digitsValue digits), rest)
  match s with
  | 'e' :: s => signed s
  | 'E' :: s => signed s
  | s => some (none, s)

/-- The number at the start of a text. -/
def readNumber (s : List Char) : Option (Number × List Char) := do
  let (negative, s) := match s with
    | '-' :: s => (true, s)
    | s => (false, s)
  let (whole, s) ← readDigits s
  if whole.head? = some '0' && whole.length ≠ 1 then none
  let (fraction, s) ← readFraction s
  let (exponent, s) ← readExponent s
  return (← numberOf negative whole fraction exponent, s)

/-- Four digits of base sixteen. -/
def readHex : List Char → Option (Nat × List Char)
  | a :: b :: c :: d :: s => do
    let n := 16 * (16 * (16 * (← hexValue? a) + (← hexValue? b)) + (← hexValue? c)) + (← hexValue? d)
    return (n, s)
  | _ => none

/-- The code point at the start of a text whose first unit has been announced; a high surrogate needs a
low one behind it. -/
def readUnit (s : List Char) : Option (Char × List Char) := do
  let (n, s) ← readHex s
  if 0xd800 ≤ n && n < 0xdc00 then
    match s with
    | '\\' :: 'u' :: s =>
      let (low, s) ← readHex s
      if 0xdc00 ≤ low && low < 0xe000 then
        return (Char.ofNat (0x10000 + (n - 0xd800) * 0x400 + (low - 0xdc00)), s)
      else none
    | _ => none
  else if 0xdc00 ≤ n && n < 0xe000 then none
  else return (Char.ofNat n, s)

/-- The character that an escape stands for, after its backslash. -/
def readEscape : List Char → Option (Char × List Char)
  | '"' :: s => some ('"', s)
  | '\\' :: s => some ('\\', s)
  | '/' :: s => some ('/', s)
  | 'b' :: s => some ('\x08', s)
  | 'f' :: s => some ('\x0c', s)
  | 'n' :: s => some ('\n', s)
  | 'r' :: s => some ('\r', s)
  | 't' :: s => some ('\t', s)
  | 'u' :: s => readUnit s
  | _ => none

/-- The characters up to the closing quote, after the opening one.  The bound counts characters. -/
def readChars : Nat → List Char → Option (List Char × List Char)
  | 0, _ => none
  | _ + 1, [] => none
  | _ + 1, '"' :: s => some ([], s)
  | bound + 1, '\\' :: s => do
    let (c, s) ← readEscape s
    let (cs, s) ← readChars bound s
    return (c :: cs, s)
  | bound + 1, c :: s =>
    if c.toNat < 0x20 then none
    else do
      let (cs, s) ← readChars bound s
      return (c :: cs, s)

/-- The string at the start of a text, after the opening quote. -/
def readString (s : List Char) : Option (String × List Char) :=
  (readChars s.length s).map fun (cs, rest) => (String.ofList cs, rest)

mutual

/-- The value at the start of a text.  The bound counts calls, of which each character needs two. -/
def readValue : Nat → List Char → Option (Value × List Char)
  | 0, _ => none
  | bound + 1, s =>
    match s.dropWhile isSpace with
    | 'n' :: 'u' :: 'l' :: 'l' :: s => some (.null, s)
    | 't' :: 'r' :: 'u' :: 'e' :: s => some (.bool true, s)
    | 'f' :: 'a' :: 'l' :: 's' :: 'e' :: s => some (.bool false, s)
    | '"' :: s => (readString s).map fun (text, rest) => (.string text, rest)
    | '[' :: s =>
      match s.dropWhile isSpace with
      | ']' :: s => some (.array [], s)
      | s => (readItems bound s).map fun (items, rest) => (.array items, rest)
    | '{' :: s =>
      match s.dropWhile isSpace with
      | '}' :: s => some (.object [], s)
      | s => (readMembers bound s).map fun (members, rest) => (.object (Entries.putAll [] members), rest)
    | s => (readNumber s).map fun (n, rest) => (.number n, rest)

/-- The items up to the closing bracket. -/
def readItems : Nat → List Char → Option (List Value × List Char)
  | 0, _ => none
  | bound + 1, s => do
    let (item, s) ← readValue bound s
    match s.dropWhile isSpace with
    | ',' :: s =>
      let (items, s) ← readItems bound s
      return (item :: items, s)
    | ']' :: s => return ([item], s)
    | _ => none

/-- The members up to the closing brace. -/
def readMembers : Nat → List Char → Option (List (String × Value) × List Char)
  | 0, _ => none
  | bound + 1, s => do
    match s.dropWhile isSpace with
    | '"' :: s =>
      let (key, s) ← readString s
      match s.dropWhile isSpace with
      | ':' :: s =>
        let (value, s) ← readValue bound s
        match s.dropWhile isSpace with
        | ',' :: s =>
          let (members, s) ← readMembers bound s
          return ((key, value) :: members, s)
        | '}' :: s => return ([(key, value)], s)
        | _ => none
      | _ => none
    | _ => none

end

end Json

/-- The value that a whole text stands for. -/
def Value.parse? (text : String) : Option Value :=
  let s := text.toList
  match Json.readValue (2 * s.length + 2) s with
  | some (v, rest) => if rest.all Json.isSpace then some v else none
  | none => none

end LayeredConfig
