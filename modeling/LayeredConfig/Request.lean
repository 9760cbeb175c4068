import LayeredConfig.Text.Quoted
import LayeredConfig.Words

/-!
# Requests

A request names an application, a profile and possibly a label, each of them possibly a list.  No part of
an accepted request can lead out of a directory, neither literally nor after percent escapes are decoded.
-/

namespace LayeredConfig

/-- A request for an environment. -/
structure Request where
  application : String
  profile : String
  label : Option String
  deriving DecidableEq

namespace Request

/-- The parts of a request. -/
inductive Part where
  | application
  | profile
  | label
  deriving DecidableEq

/-- The name of a part in messages. -/
def Part.name : Part → String
  | .application => "application"
  | .profile => "profile"
  | .label => "label"

/-- Why a request is rejected. -/
inductive Problem where
  | unsafePart (part : Part) (text : String)
  | blankApplication
  /-- Neither the request nor the repository names a label. -/
  | noLabel
  deriving DecidableEq

/-- The wording of a problem. -/
def Problem.message : Problem → String
  | .unsafePart part text => "invalid " ++ part.name ++ ": " ++ String.ofList (Text.quoted text.toList)
  | .blankApplication => "application name must not be empty"
  | .noLabel => "no label requested and no default label configured"

/-- Replace a percent escape, given by its two digits, by the character that it stands for. -/
def decodeEscape (high low out : Char) : List Char → List Char
  | '%' :: a :: b :: s =>
    if a = high && b = low then out :: decodeEscape high low out s
    else '%' :: decodeEscape high low out (a :: b :: s)
  | c :: s => c :: decodeEscape high low out s
  | [] => []

/-- A text with the escapes of points, slashes, backslashes and NUL decoded one kind after another.  A
text with a percent sign is put into lower case first. -/
def decodeSeparators (s : List Char) : List Char :=
  if s.contains '%' then
    decodeEscape '0' '0' '\x00'
      (decodeEscape '5' 'c' '\\' (decodeEscape '2' 'f' '/' (decodeEscape '2' 'e' '.' (Text.lower s))))
  else s

/-- Whether a part could lead out of a directory once decoded. -/
def isUnsafe (s : List Char) : Bool :=
  let decoded := decodeSeparators s
  Text.contains ['.', '.'] decoded || decoded.contains '\\' || decoded.contains '\x00'

/-- A text in which `(_)` stands for a slash, with the slashes restored. -/
def restoreSlashes : List Char → List Char
  | '(' :: '_' :: ')' :: s => '/' :: restoreSlashes s
  | c :: s => c :: restoreSlashes s
  | [] => []

/-- A name with its slashes restored. -/
def normalize (text : String) : String := String.ofList (restoreSlashes text.toList)

/-- Reject a part that could lead out of a directory. -/
def checkPart (part : Part) (text : String) : Except Problem Unit :=
  if isUnsafe text.toList then .error (.unsafePart part text) else .ok ()

/-- The request of the given parts.  A blank label is none. -/
def make (application profile : String) (label : Option String) : Except Problem Request := do
  checkPart .application application
  checkPart .profile profile
  match label with
  | some text => checkPart .label text
  | none => .ok ()
  if isBlankText application then .error .blankApplication
  else
    .ok {
      application := normalize application
      profile := profile
      label := (label.filter fun text => !isBlankText text).map normalize }

/-- The label, or the empty text. -/
def labelText (request : Request) : String := request.label.getD ""

end Request

end LayeredConfig
