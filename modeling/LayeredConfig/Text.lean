/-!
# Text

Operations on a text seen as a list of characters: white space and trimming, fields between
separators, search for a part, and the division of a text into the matches of a pattern and the
characters between them.
-/

namespace LayeredConfig.Text

/-- The Unicode property `White_Space`. -/
def isBlank (c : Char) : Bool :=
  ('\t' ≤ c && c ≤ '\r') || c = ' ' || c = '\u0085' || c = '\u00a0' || c = '\u1680' ||
    ('\u2000' ≤ c && c ≤ '\u200a') || c = '\u2028' || c = '\u2029' || c = '\u202f' ||
    c = '\u205f' || c = '\u3000'

/-- Decimal digits of ASCII. -/
def isDigit (c : Char) : Bool := '0' ≤ c && c ≤ '9'

/-- A text without its leading white space. -/
def trimStart (s : List Char) : List Char := s.dropWhile isBlank

/-- A text without its trailing white space. -/
def trimEnd (s : List Char) : List Char := (s.reverse.dropWhile isBlank).reverse

/-- A text without the white space around it. -/
def trim (s : List Char) : List Char := trimEnd (trimStart s)

/-- The fields between the occurrences of a separator; there is always at least one. -/
def fields (separator : Char) : List Char → List (List Char)
  | [] => [[]]
  | c :: s =>
    if c = separator then [] :: fields separator s
    else
      match fields separator s with
      | [] => [[c]]
      | field :: rest => (c :: field) :: rest

/-- Whether `part` occurs in a text as a run of adjacent characters. -/
def contains (part : List Char) : List Char → Bool
  | [] => part.isEmpty
  | c :: s => part.isPrefixOf (c :: s) || contains part s

/-- The letters of ASCII in lower case, other characters unchanged. -/
def lower (s : List Char) : List Char := s.map Char.toLower

/-- A part of a divided text: a match of the pattern, or a character outside all matches. -/
inductive Piece (α : Type) where
  | plain (c : Char)
  | found (a : α)

/-- What is matched at the start of a text, and how many characters the match takes. -/
abbrev Pattern (α : Type) := List Char → Option (α × Nat)

/-- The pieces of a text after its first `skip` characters. -/
def piecesAfter {α : Type} (pattern : Pattern α) : Nat → List Char → List (Piece α)
  | _, [] => []
  | skip + 1, _ :: s => piecesAfter pattern skip s
  | 0, c :: s =>
    match pattern (c :: s) with
    | some (a, taken) => .found a :: piecesAfter pattern (taken - 1) s
    | none => .plain c :: piecesAfter pattern 0 s

/-- A text divided into the leftmost matches of a pattern, which do not overlap, and the characters
between them. -/
def pieces {α : Type} (pattern : Pattern α) (s : List Char) : List (Piece α) :=
  piecesAfter pattern 0 s

/-- The matches of a pattern from left to right. -/
def occurrences {α : Type} (pattern : Pattern α) (s : List Char) : List α :=
  (pieces pattern s).filterMap fun
    | .found a => some a
    | .plain _ => none

/-- A text with something else written for every match of a pattern. -/
def replaceMatches {α : Type} (pattern : Pattern α) (written : α → List Char) (s : List Char) : List Char :=
  (pieces pattern s).flatMap fun
    | .found a => written a
    | .plain c => [c]

/-- The pattern that matches one fixed text. -/
def literal (part : List Char) : Pattern Unit := fun s =>
  if part.isPrefixOf s then some ((), part.length) else none

/-- A text with every occurrence of `part` replaced, from left to right. -/
def replaceAll (part replacement : List Char) (s : List Char) : List Char :=
  replaceMatches (literal part) (fun _ => replacement) s

/-- How many bytes the UTF-8 form of a text takes. -/
def byteLength : List Char → Nat
  | [] => 0
  | c :: s => c.utf8Size + byteLength s

/-- Parts joined with a separator between neighbours. -/
def joinWith (separator : List Char) : List (List Char) → List Char
  | [] => []
  | [part] => part
  | part :: rest => part ++ separator ++ joinWith separator rest

end LayeredConfig.Text
