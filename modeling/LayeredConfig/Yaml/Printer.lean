import LayeredConfig.Json.Printer
import LayeredConfig.Yaml.Character
import LayeredConfig.Yaml.Scalar

/-!
# Writing YAML

Values are written in block style with two spaces for each level; list items stand at the column of
their key.  A string is plain where that reads back as the same string, else in single quotes, else in
double quotes; a string with line feeds is a literal block where its characters allow it.
-/

namespace LayeredConfig.Yaml

/-- Numbers in YAML are laid out as in JSON, but an exponent has no plus sign. -/
def yamlNumber : DecimalLayout := ⟨-5, 16, false⟩

/-- Characters that need no escape. -/
def isPrintable (c : Char) : Bool :=
  c = '\n' || (' ' ≤ c && c ≤ '~') ||
    ('\u00a0' ≤ c && c ≠ '\ufeff' && c ≠ '\ufffe' && c ≠ '\uffff')

/-- Whether an indicator stands where it would be read as one, behind the first character. -/
def indicatorWithin (previous : Char) : List Char → Bool
  | [] => false
  | c :: s =>
    (c = ':' && gapFollows s) || (c = '#' && isGap previous) || indicatorWithin c s

/-- Whether a text would be read as something else than a plain scalar. -/
def hasIndicator (s : List Char) : Bool :=
  "---".toList.isPrefixOf s || "...".toList.isPrefixOf s ||
    match s with
    | [] => false
    | c :: rest =>
      isIndicator c || (isLooseIndicator c && gapFollows rest) || indicatorWithin c rest

/-- Whether `first` is followed by `second` anywhere in a text. -/
def adjacent (first second : Char → Bool) : List Char → Bool
  | c :: d :: s => (first c && second d) || adjacent first second (d :: s)
  | _ => false

/-- The ways to write a scalar. -/
inductive Style where
  | plain
  | single
  | double
  | literal
  deriving DecidableEq

/-- The style of a text: a literal block for several lines, single quotes for what would be read as
another type, and from there on the first style that its characters allow. -/
def styleOf (s : List Char) : Style :=
  let isSpace (c : Char) : Bool := c = ' '
  let edge (p : Char → Bool) : Bool := s.head?.any p || s.getLast?.any p
  let unsafeText := adjacent isSpace isBreak s || !s.all isPrintable
  let singleAllowed := !unsafeText && !adjacent isBreak isSpace s
  let literalAllowed := !unsafeText && !s.getLast?.any isSpace
  let plainAllowed := singleAllowed && !edge isSpace && !s.any isBreak && !hasIndicator s
  let asText := plain (String.ofList s) = .text && !isZeroPadded s
  if s.contains '\n' then if literalAllowed then .literal else .double
  else if asText && plainAllowed then .plain
  else if singleAllowed then .single
  else .double

/-- The indentation of a column. -/
def indent (column : Nat) : List Char := List.replicate column ' '

/-- The lines of a text, each but the first indented where it is not empty; `atStart` tells that a line
begins. -/
def indentedLines (column : Nat) (atStart : Bool) : List Char → List Char
  | [] => []
  | c :: s =>
    if isBreak c then c :: indentedLines column true s
    else (if atStart then indent column else []) ++ c :: indentedLines column false s

/-- How a literal block treats its end: `-` without a final line break, `+` with several. -/
def chompHint (s : List Char) : List Char :=
  match s.reverse with
  | [] => ['-']
  | c :: rest =>
    if !isBreak c then ['-']
    else if rest.head?.all isBreak then ['+']
    else []

/-- A literal block with its lines at a column. -/
def literalText (column : Nat) (s : List Char) : List Char :=
  let indentHint := if s.head?.any fun c => c = ' ' || isBreak c then ['2'] else []
  '|' :: (indentHint ++ chompHint s ++ '\n' :: indentedLines column true s)

/-- A text in single quotes, with its further lines at a column. -/
def singleText (column : Nat) (s : List Char) : List Char :=
  let closing := if s.getLast?.any isBreak then indent column else []
  let doubled := s.flatMap fun c => if c = '\'' then ['\'', '\''] else [c]
  '\'' :: (indentedLines column false doubled ++ closing ++ ['\''])

/-- A code point in base sixteen with a fixed number of digits. -/
def hexText (width : Nat) (c : Char) : List Char :=
  let digits := (Nat.toDigits 16 c.toNat).map Char.toUpper
  List.replicate (width - digits.length) '0' ++ digits

/-- One character in double quotes. -/
def escape (c : Char) : List Char :=
  if c = '"' then ['\\', '"']
  else if c = '\\' then ['\\', '\\']
  else if isPrintable c && !isBreak c then [c]
  else if c = '\x00' then ['\\', '0']
  else if c = '\x07' then ['\\', 'a']
  else if c = '\x08' then ['\\', 'b']
  else if c = '\t' then ['\\', 't']
  else if c = '\n' then ['\\', 'n']
  else if c = '\x0b' then ['\\', 'v']
  else if c = '\x0c' then ['\\', 'f']
  else if c = '\r' then ['\\', 'r']
  else if c = '\x1b' then ['\\', 'e']
  else if c = '\u0085' then ['\\', 'N']
  else if c = '\u2028' then ['\\', 'L']
  else if c = '\u2029' then ['\\', 'P']
  else if c.toNat ≤ 0xff then '\\' :: 'x' :: hexText 2 c
  else if c.toNat ≤ 0xffff then '\\' :: 'u' :: hexText 4 c
  else '\\' :: 'U' :: hexText 8 c

/-- A text in double quotes. -/
def doubleText (s : List Char) : List Char := '"' :: (s.flatMap escape ++ ['"'])

/-- A string as a scalar whose further lines stand at a column. -/
def stringText (column : Nat) (s : List Char) : List Char :=
  match styleOf s with
  | .plain => s
  | .single => singleText column s
  | .double => doubleText s
  | .literal => literalText column s

/-- The text of a scalar or of an empty container. -/
def scalarText (column : Nat) : Value → List Char
  | .null => "null".toList
  | .bool b => Json.boolText b
  | .number (.whole n) => decimal n.value
  | .number (.float x) => x.text yamlNumber
  | .string s => stringText column s.toList
  | .array _ => "[]".toList
  | .object _ => ['{', '}']

/-- A text that ends its line. -/
def endLine (s : List Char) : List Char := if s.getLast?.any isBreak then s else s ++ ['\n']

/-- Whether a key fits on the line of its value. -/
def isSimpleKey (s : List Char) : Bool := !s.any isBreak && Text.byteLength s ≤ 128

mutual

/-- The lines of a sequence at a column, the first of them behind `lead`. -/
def sequenceLines (column : Nat) (lead : List Char) : List Value → List Char
  | [] => []
  | v :: rest => lead ++ '-' :: (attached column v ++ sequenceLines column (indent column) rest)

/-- The lines of a mapping at a column, the first of them behind `lead`. -/
def mappingLines (column : Nat) (lead : List Char) : List (String × Value) → List Char
  | [] => []
  | (k, v) :: rest =>
    let key := k.toList
    let entry :=
      if isSimpleKey key then stringText (column + 2) key ++ ':' :: entryValue column v
      else
        '?' :: ' ' :: (endLine (stringText (column + 2) key) ++ indent column ++
          ':' :: attached column v)
    lead ++ entry ++ mappingLines column (indent column) rest

/-- What follows an indicator at a column: a container begins on the same line. -/
def attached (column : Nat) : Value → List Char
  | .array (v :: rest) => ' ' :: sequenceLines (column + 2) [] (v :: rest)
  | .object (m :: rest) => ' ' :: mappingLines (column + 2) [] (m :: rest)
  | v => ' ' :: endLine (scalarText (column + 2) v)

/-- What follows a key at a column: a container begins on a line of its own. -/
def entryValue (column : Nat) : Value → List Char
  | .array (v :: rest) => '\n' :: sequenceLines column (indent column) (v :: rest)
  | .object (m :: rest) => '\n' :: mappingLines (column + 2) (indent (column + 2)) (m :: rest)
  | v => ' ' :: endLine (scalarText (column + 2) v)

end

/-- The text of a whole document. -/
def document : Value → List Char
  | .array (v :: rest) => sequenceLines 0 [] (v :: rest)
  | .object (m :: rest) => mappingLines 0 [] (m :: rest)
  | v => endLine (scalarText 2 v)

end LayeredConfig.Yaml
