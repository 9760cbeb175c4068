import LayeredConfig.Json.Printer
import LayeredConfig.Properties
import LayeredConfig.Words

/-!
# Placeholders

A placeholder `${key}` or `${key:default}` in a text stands for the property under its key.  The
innermost placeholders are replaced first, and the text that results is searched again, ten times at
most.  A backslash before the opening keeps it as it is.
-/

namespace LayeredConfig

/-- The plain text of a value; null has none. -/
def Value.plainText? : Value → Option (List Char)
  | .null => none
  | .string s => some s.toList
  | v => some v.compact

namespace Placeholder

/-- A placeholder as it stands in a text. -/
structure Reference where
  key : List Char
  fallback : Option (List Char)
  deriving DecidableEq

/-- The text of a placeholder. -/
def Reference.text (r : Reference) : List Char :=
  match r.fallback with
  | none => '$' :: '{' :: (r.key ++ ['}'])
  | some fallback => '$' :: '{' :: (r.key ++ ':' :: (fallback ++ ['}']))

/-- Characters of a default. -/
def isDefaultChar (c : Char) : Bool := c ≠ '$' && c ≠ '{' && c ≠ '}'

/-- Characters of a key. -/
def isKeyChar (c : Char) : Bool := isDefaultChar c && c ≠ ':'

/-- The placeholder at the start of a text. -/
def reference : Text.Pattern Reference
  | '$' :: '{' :: s =>
    let key := s.takeWhile isKeyChar
    if key.isEmpty then none
    else
      match s.dropWhile isKeyChar with
      | '}' :: _ => some (⟨key, none⟩, key.length + 3)
      | ':' :: rest =>
        let fallback := rest.takeWhile isDefaultChar
        match rest.dropWhile isDefaultChar with
        | '}' :: _ => some (⟨key, some fallback⟩, key.length + fallback.length + 4)
        | _ => none
      | _ => none
  | _ => none

/-- The name that a placeholder looks up. -/
def Reference.name (r : Reference) : String := String.ofList (Text.trim r.key)

/-- The text of the property that a placeholder is bound to. -/
def bound? (properties : Properties) (r : Reference) : Option (List Char) :=
  (properties.get? r.name).bind Value.plainText?

/-- What a placeholder is replaced by: the text of its property, else its default, else itself. -/
def substitute (properties : Properties) (r : Reference) : List Char :=
  match bound? properties r with
  | some text => text
  | none => r.fallback.getD r.text

/-- A text with its innermost placeholders replaced once. -/
def pass (properties : Properties) (s : List Char) : List Char :=
  Text.replaceMatches reference (substitute properties) s

/-- How often a text is searched again. -/
def maxPasses : Nat := 10

/-- The character that stands for an escaped opening while placeholders are replaced. -/
def maskChar : Char := '\ue000'

/-- A text with its escaped openings masked. -/
def mask : List Char → List Char
  | '\\' :: '$' :: '{' :: s => maskChar :: mask s
  | c :: s => c :: mask s
  | [] => []

/-- A text with its masks replaced by the opening that they stand for. -/
def unmask (s : List Char) : List Char := s.flatMap fun c => if c = maskChar then ['$', '{'] else [c]

/-- Whether a text holds the opening of a placeholder. -/
def hasOpening (s : List Char) : Bool := Text.contains ['$', '{'] s

/-- A text searched again as often as it is allowed, but no more once a search has changed nothing. -/
def searchAgain (properties : Properties) : Nat → List Char → List Char
  | 0, s => s
  | n + 1, s =>
    let next := pass properties s
    if next = s then s else searchAgain properties n next

/-- A text with its placeholders replaced and its escaped openings still masked. -/
def resolveMasked (properties : Properties) (s : List Char) : List Char :=
  searchAgain properties maxPasses (mask s)

/-- A text with its placeholders replaced. -/
def resolve (properties : Properties) (s : List Char) : List Char :=
  if hasOpening s then unmask (resolveMasked properties s) else s

/-- The names of the placeholders in a text, sorted. -/
def referencedNames (s : List Char) : List String :=
  sortedWords ((Text.occurrences reference (mask s)).map Reference.name)

/-- The names of the placeholders that are left when every property is resolved, sorted. -/
def unresolvedNames (properties : Properties) : List String :=
  sortedWords <| properties.entries.flatMap fun e =>
    match e.2.plainText? with
    | some text =>
      if hasOpening text then referencedNames (resolveMasked properties text) else []
    | none => []

end Placeholder

end LayeredConfig
