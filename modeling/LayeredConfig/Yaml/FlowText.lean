import LayeredConfig.Json.Reader
import LayeredConfig.Yaml.Cursor

/-!
# Scalars that run over lines

Plain and quoted scalars.  A line break within one is folded: a single break stands for a space, and of
several breaks the first one is dropped.
-/

namespace LayeredConfig.Yaml

/-- White space within a scalar, which counts only once the scalar goes on behind it. -/
structure Gap where
  /-- The blanks before the first line break, last one first. -/
  blanks : List Char := []
  /-- Whether there is a line break. -/
  broken : Bool := false
  /-- The first line break; an escaped one leaves nothing. -/
  first : Option Char := none
  /-- The further line breaks, last one first. -/
  further : List Char := []

namespace Gap

/-- Whether there is no white space. -/
def isEmpty (gap : Gap) : Bool := gap.blanks.isEmpty && !gap.broken

/-- Add a blank; behind a line break it is indentation. -/
def addBlank (gap : Gap) (c : Char) : Gap :=
  if gap.broken then gap else { gap with blanks := c :: gap.blanks }

/-- Add a line break. -/
def addBreak (gap : Gap) (c : Char) : Gap :=
  if gap.broken then { gap with further := breakText c :: gap.further }
  else { broken := true, first := some (breakText c) }

/-- What the white space stands for, last character first. -/
def folded (gap : Gap) : List Char :=
  if gap.broken then
    match gap.first with
    | none => gap.further
    | some '\n' => if gap.further.isEmpty then [' '] else gap.further
    | some c => gap.further ++ [c]
  else gap.blanks

end Gap

/-- A scalar that has been read. -/
structure FlowText where
  text : String
  /-- Whether it was followed by a line break that was read with it. -/
  endsLine : Bool := false
  after : Cursor

namespace FlowText

/-- A scalar from its characters, last one first. -/
def ofReversed (text : List Char) (endsLine : Bool) (after : Cursor) : FlowText :=
  ⟨String.ofList text.reverse, endsLine, after⟩

/-- Whether a plain scalar ends before some text that follows the given white space. -/
def plainEnds (inFlow : Bool) (least : Int) (mark : Mark) (gap : Gap) : List Char → Bool
  | [] => true
  | c :: s =>
    (!gap.isEmpty && (c = '#' || (!inFlow && (mark.column : Int) < least) ||
      (mark.column = 0 && isDocumentMark (c :: s)))) ||
      (c = ':' && gapFollows s) || (inFlow && isFlowIndicator c)

/-- The rest of a plain scalar of which `text` has been read, last character first, and behind it `gap`.  Its
further lines start at column `least` or later, except in flow collections. -/
def plainFrom (inFlow : Bool) (least : Int) (mark : Mark) (text : List Char) (gap : Gap) :
    List Char → Option FlowText
  | [] => some (ofReversed text gap.broken ⟨[], mark⟩)
  | '\r' :: '\n' :: s => plainFrom inFlow least (mark.nextLine 2) text (gap.addBreak '\n') s
  | c :: s =>
    if isBreak c then plainFrom inFlow least (mark.nextLine 1) text (gap.addBreak c) s
    else if isBlank c then
      if c = '\t' && gap.broken && (mark.column : Int) < least then none
      else plainFrom inFlow least (mark.forward 1) text (gap.addBlank c) s
    else if plainEnds inFlow least mark gap (c :: s) then
      some (ofReversed text gap.broken ⟨c :: s, mark⟩)
    else if inFlow && c = ':' && s.head?.any fun d => isFlowIndicator d || d = '?' then none
    else plainFrom inFlow least (mark.forward 1) (c :: (gap.folded ++ text)) {} s

/-- The plain scalar at a cursor. -/
def plain? (inFlow : Bool) (least : Int) (cursor : Cursor) : Option FlowText :=
  plainFrom inFlow least cursor.mark [] {} cursor.rest

/-- The rest of a scalar in single quotes, in which two quotes stand for one. -/
def singleFrom (mark : Mark) (text : List Char) (gap : Gap) : List Char → Option FlowText
  | [] => none
  | '\'' :: '\'' :: s => singleFrom (mark.forward 2) ('\'' :: (gap.folded ++ text)) {} s
  | '\r' :: '\n' :: s => singleFrom (mark.nextLine 2) text (gap.addBreak '\n') s
  | c :: s =>
    if c = '\'' then some (ofReversed (gap.folded ++ text) false ⟨s, mark.forward 1⟩)
    else if isBreak c then singleFrom (mark.nextLine 1) text (gap.addBreak c) s
    else if isBlank c then singleFrom (mark.forward 1) text (gap.addBlank c) s
    else if mark.column = 0 && isDocumentMark (c :: s) then none
    else singleFrom (mark.forward 1) (c :: (gap.folded ++ text)) {} s

/-- The character that an escape of one letter stands for. -/
def escape? (c : Char) : Option Char :=
  match c with
  | '0' => some '\x00'
  | 'a' => some '\x07'
  | 'b' => some '\x08'
  | 't' | '\t' => some '\t'
  | 'n' => some '\n'
  | 'v' => some '\x0b'
  | 'f' => some '\x0c'
  | 'r' => some '\r'
  | 'e' => some '\x1b'
  | ' ' | '"' | '/' | '\\' => some c
  | 'N' => some '\u0085'
  | '_' => some '\u00a0'
  | 'L' => some '\u2028'
  | 'P' => some '\u2029'
  | _ => none

/-- How many digits the escape of a code point takes. -/
def escapeWidth? (c : Char) : Option Nat :=
  match c with
  | 'x' => some 2
  | 'u' => some 4
  | 'U' => some 8
  | _ => none

/-- The character whose code point a text starts with, in hexadecimal digits of the given number. -/
def codePoint? (width : Nat) (s : List Char) : Option Char := do
  let digits := s.take width
  if digits.length < width then none
  let code ← digits.foldlM (fun n c => (Json.hexValue? c).map (16 * n + ·)) 0
  if h : code.isValidChar then some (Char.ofNatAux code h) else none

/-- The character that an escape stands for, and how many characters it takes behind the backslash. -/
def escaped? : List Char → Option (Char × Nat)
  | [] => none
  | c :: s =>
    match escapeWidth? c with
    | some width => (codePoint? width s).map fun d => (d, width + 1)
    | none => (escape? c).map fun d => (d, 1)

/-- The rest of a scalar in double quotes behind its next `skip` characters, which an escape has taken. -/
def doubleFrom (mark : Mark) (text : List Char) (gap : Gap) : Nat → List Char → Option FlowText
  | _, [] => none
  | skip + 1, _ :: s => doubleFrom (mark.forward 1) text gap skip s
  | 0, '\\' :: '\r' :: '\n' :: s =>
    doubleFrom ((mark.forward 1).nextLine 2) (gap.folded ++ text) { broken := true } 0 s
  | 0, '\r' :: '\n' :: s => doubleFrom (mark.nextLine 2) text (gap.addBreak '\n') 0 s
  | 0, c :: s =>
    if c = '"' then some (ofReversed (gap.folded ++ text) false ⟨s, mark.forward 1⟩)
    else if c = '\\' then
      if s.head?.any isBreak then
        match s with
        | [] => none
        | _ :: s => doubleFrom ((mark.forward 1).nextLine 1) (gap.folded ++ text) { broken := true } 0 s
      else
        match escaped? s with
        | some (d, taken) => doubleFrom (mark.forward 1) (d :: (gap.folded ++ text)) {} taken s
        | none => none
    else if isBreak c then doubleFrom (mark.nextLine 1) text (gap.addBreak c) 0 s
    else if isBlank c then doubleFrom (mark.forward 1) text (gap.addBlank c) 0 s
    else if mark.column = 0 && isDocumentMark (c :: s) then none
    else doubleFrom (mark.forward 1) (c :: (gap.folded ++ text)) {} 0 s

/-- The scalar whose opening quote is at a cursor. -/
def quoted? (cursor : Cursor) : Option FlowText :=
  let inside := cursor.skip 1
  if cursor.rest.head? = some '\'' then singleFrom inside.mark [] {} inside.rest
  else doubleFrom inside.mark [] {} 0 inside.rest

end FlowText

end LayeredConfig.Yaml
