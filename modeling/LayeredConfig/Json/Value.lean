import LayeredConfig.Number.Binary64
import LayeredConfig.OrderedMap

/-!
# JSON values

The values that properties hold.  Members of an object are kept in order.  A number is a whole number
of 64 bits or a finite binary64 number, and the two kinds never agree: `1` is not `1.0`.
-/

namespace LayeredConfig

/-- A whole number that fits 64 bits, unsigned or negative. -/
structure Whole where
  value : Int
  lower : -9223372036854775808 ≤ value
  upper : value < 18446744073709551616
  deriving DecidableEq

namespace Whole

/-- A whole number, if it fits 64 bits. -/
def ofInt? (i : Int) : Option Whole :=
  if h : -9223372036854775808 ≤ i ∧ i < 18446744073709551616 then some ⟨i, h.1, h.2⟩ else none

end Whole

/-- A JSON number. -/
inductive Number where
  | whole (n : Whole)
  | float (x : Binary64)
  deriving DecidableEq

namespace Number

/-- Numeric agreement within one kind; the two zeros of binary64 agree. -/
def agrees : Number → Number → Bool
  | .whole m, .whole n => m = n
  | .float x, .float y => x = y || (x.significand = 0 && y.significand = 0)
  | _, _ => false

end Number

/-- A JSON value. -/
inductive Value where
  | null
  | bool (b : Bool)
  | number (n : Number)
  | string (s : String)
  | array (items : List Value)
  | object (members : List (String × Value))

namespace Value

mutual

private def decideEq : (v w : Value) → Decidable (v = w)
  | .null, .null => isTrue rfl
  | .bool a, .bool b => decidable_of_iff (a = b) (by simp)
  | .number a, .number b => decidable_of_iff (a = b) (by simp)
  | .string a, .string b => decidable_of_iff (a = b) (by simp)
  | .array xs, .array ys =>
    match decideEqItems xs ys with
    | isTrue h => isTrue (by rw [h])
    | isFalse h => isFalse (by simpa using h)
  | .object xs, .object ys =>
    match decideEqMembers xs ys with
    | isTrue h => isTrue (by rw [h])
    | isFalse h => isFalse (by simpa using h)
  | .null, .bool _ | .null, .number _ | .null, .string _ | .null, .array _ | .null, .object _
  | .bool _, .null | .bool _, .number _ | .bool _, .string _ | .bool _, .array _
  | .bool _, .object _
  | .number _, .null | .number _, .bool _ | .number _, .string _ | .number _, .array _
  | .number _, .object _
  | .string _, .null | .string _, .bool _ | .string _, .number _ | .string _, .array _
  | .string _, .object _
  | .array _, .null | .array _, .bool _ | .array _, .number _ | .array _, .string _
  | .array _, .object _
  | .object _, .null | .object _, .bool _ | .object _, .number _ | .object _, .string _
  | .object _, .array _ => isFalse (by simp)

private def decideEqItems : (xs ys : List Value) → Decidable (xs = ys)
  | [], [] => isTrue rfl
  | [], _ :: _ => isFalse (by simp)
  | _ :: _, [] => isFalse (by simp)
  | x :: xs, y :: ys =>
    match decideEq x y with
    | isFalse h => isFalse (by simp [h])
    | isTrue h =>
      match decideEqItems xs ys with
      | isTrue hs => isTrue (by rw [h, hs])
      | isFalse hs => isFalse (by simp [hs])

private def decideEqMembers : (xs ys : List (String × Value)) → Decidable (xs = ys)
  | [], [] => isTrue rfl
  | [], _ :: _ => isFalse (by simp)
  | _ :: _, [] => isFalse (by simp)
  | (k, x) :: xs, (l, y) :: ys =>
    if hk : k = l then
      match decideEq x y with
      | isFalse h => isFalse (by simp [h])
      | isTrue h =>
        match decideEqMembers xs ys with
        | isTrue hs => isTrue (by rw [hk, h, hs])
        | isFalse hs => isFalse (by simp [hs])
    else isFalse (by simp [hk])

end

instance : DecidableEq Value := decideEq

mutual

/-- Equality of content: objects agree in any order of their members. -/
def agrees : Value → Value → Bool
  | .null, .null => true
  | .bool a, .bool b => a = b
  | .number a, .number b => a.agrees b
  | .string a, .string b => a = b
  | .array xs, .array ys => itemsAgree xs ys
  | .object xs, .object ys => xs.length = ys.length && membersAgree xs ys
  | _, _ => false

/-- Agreement of two lists item by item. -/
def itemsAgree : List Value → List Value → Bool
  | [], [] => true
  | x :: xs, y :: ys => agrees x y && itemsAgree xs ys
  | _, _ => false

/-- Whether each member agrees with the member of that name in a second object. -/
def membersAgree : List (String × Value) → List (String × Value) → Bool
  | [], _ => true
  | (k, x) :: xs, ys =>
    (match Entries.get? k ys with
      | some y => agrees x y
      | none => false) && membersAgree xs ys

end

/-- The text of a string value. -/
def string? : Value → Option String
  | .string s => some s
  | _ => none

/-- The truth value of a boolean. -/
def bool? : Value → Option Bool
  | .bool b => some b
  | _ => none

/-- The items of an array. -/
def items? : Value → Option (List Value)
  | .array items => some items
  | _ => none

/-- The members of an object. -/
def members? : Value → Option (List (String × Value))
  | .object members => some members
  | _ => none

/-- The whole number that a value is. -/
def whole? : Value → Option Int
  | .number (.whole n) => some n.value
  | _ => none

/-- A natural number as a value; numbers of more than 64 bits have none. -/
def ofNat? (n : Nat) : Option Value := (Whole.ofInt? n).map fun w => .number (.whole w)

end Value

end LayeredConfig
