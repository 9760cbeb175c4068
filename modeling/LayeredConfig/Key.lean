import LayeredConfig.Text

/-!
# Property keys

A key is a sequence of segments, `name(.name|[digits])*`.  A name is non-empty and holds neither `.` nor
`[`; an index is at most `65535`, with any number of leading zeros.  Reading a key gives its tokens: each
segment with the byte position at which it starts and the text of the key from there on.
-/

namespace LayeredConfig.Key

/-- A step into a document: to the entry of a map or to the element of a list. -/
inductive Segment where
  | name (text : String)
  | index (value : Nat)
  deriving DecidableEq

/-- A segment where it stands in a key. -/
structure Token where
  segment : Segment
  /-- Byte position of the first character of the segment, the bracket for an index. -/
  offset : Nat
  /-- The key from this segment on. -/
  remainder : List Char
  deriving DecidableEq

/-- The largest index that a key may hold. -/
def maxIndex : Nat := 65535

/-- Why a text is not a key, or why a key cannot be placed in a document. -/
inductive Problem where
  | emptyName (position : Nat)
  | unterminatedIndex
  | emptyIndex
  | nonNumericIndex (digits : List Char)
  | indexOutOfRange
  | unexpectedAfterIndex (position : Nat)
  /-- The element already holds a map or a list, and the key ends there. -/
  | nestedElement (index : Nat)
  /-- The key continues at an element that holds a value of another kind. -/
  | elementConflict (index : Nat)
  deriving DecidableEq

/-- The wording of a problem. -/
def Problem.message : Problem → String
  | .emptyName position => s!"empty name at position {position}"
  | .unterminatedIndex => "unterminated '['"
  | .emptyIndex => "empty index"
  | .nonNumericIndex digits => s!"non-numeric index '{String.ofList digits}'"
  | .indexOutOfRange => "index out of range"
  | .unexpectedAfterIndex position => s!"unexpected character after ']' at position {position}"
  | .nestedElement index => s!"element [{index}] already holds a nested value"
  | .elementConflict index => s!"element [{index}] conflicts with another key"

/-- Characters that a name may hold. -/
def isNameChar (c : Char) : Bool := c ≠ '.' && c ≠ '['

/-- The number that some decimal digits stand for. -/
def indexValue (digits : List Char) : Nat :=
  digits.foldl (fun n c => 10 * n + (c.toNat - '0'.toNat)) 0

/-- The segment that must come next. -/
inductive Expected where
  | name
  | index
  deriving DecidableEq

theorem length_dropWhile_le {α : Type} (p : α → Bool) (s : List α) :
    (s.dropWhile p).length ≤ s.length :=
  (List.dropWhile_sublist p).length_le

/-- The tokens of the text from `position` on.  When an index is expected its bracket has been read, and
`position` is that of the bracket. -/
def tokensFrom (expected : Expected) (position : Nat) (s : List Char) :
    Except Problem (List Token) :=
  match expected with
  | .name =>
    let name := s.takeWhile isNameChar
    let token : Token := ⟨.name (String.ofList name), position, s⟩
    let stop := position + Text.byteLength name
    if name.isEmpty then .error (.emptyName position)
    else
      match h : s.dropWhile isNameChar with
      | [] => .ok [token]
      | c :: rest =>
        have : rest.length < s.length := by
          have := length_dropWhile_le isNameChar s
          rw [h] at this
          exact this
        if c = '.' then (tokensFrom .name (stop + 1) rest).map (token :: ·)
        else (tokensFrom .index stop rest).map (token :: ·)
  | .index =>
    let digits := s.takeWhile (· ≠ ']')
    let token : Token := ⟨.index (indexValue digits), position, '[' :: s⟩
    let close := position + 1 + Text.byteLength digits
    match h : s.dropWhile (· ≠ ']') with
    | [] => .error .unterminatedIndex
    | _ :: rest =>
      have : rest.length < s.length := by
        have := length_dropWhile_le (· ≠ ']') s
        rw [h] at this
        exact this
      if digits.isEmpty then .error .emptyIndex
      else if !digits.all Text.isDigit then .error (.nonNumericIndex digits)
      else if maxIndex < indexValue digits then .error .indexOutOfRange
      else
        match rest with
        | [] => .ok [token]
        | c :: tail =>
          have : tail.length < s.length := by
            simp only [List.length_cons] at this
            omega
          if c = '.' then (tokensFrom .name (close + 2) tail).map (token :: ·)
          else if c = '[' then (tokensFrom .index (close + 1) tail).map (token :: ·)
          else .error (.unexpectedAfterIndex (close + 1))
termination_by s.length

/-- The tokens of a key. -/
def parse (key : String) : Except Problem (List Token) := tokensFrom .name 0 key.toList

/-- The text of a key with the given segments. -/
def text : List Segment → List Char
  | [] => []
  | .name n :: rest => n.toList ++ continued rest
  | .index i :: rest => '[' :: (Nat.toDigits 10 i ++ ']' :: continued rest)
where
  /-- The text of segments behind others: a name follows a point. -/
  continued : List Segment → List Char
    | [] => []
    | .name n :: rest => '.' :: (n.toList ++ continued rest)
    | .index i :: rest => '[' :: (Nat.toDigits 10 i ++ ']' :: continued rest)

end LayeredConfig.Key
