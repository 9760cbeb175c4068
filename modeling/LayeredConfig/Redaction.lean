import LayeredConfig.Properties
import LayeredConfig.Text

/-!
# Redaction

Secrets are masked before anything is logged: the values of properties whose name says that they are
secret, passwords in addresses, and bearer tokens.
-/

namespace LayeredConfig.Redaction

/-- What stands for a secret. -/
def mask : List Char := "******".toList

/-- What stands for a bearer token. -/
def tokenMask : List Char := "[REDACTED_TOKEN]".toList

/-- The last name of a property key, without the brackets of indices behind it. -/
def lastName (key : List Char) : List Char :=
  let reversed := key.reverse.takeWhile fun c => c ≠ '.' && c ≠ '['
  (reversed.dropWhile (· = ']')).reverse

/-- A character without distinction of case.  Besides the ASCII letters only the long s and the Kelvin
sign fold to letters of the secret words. -/
def foldCase (c : Char) : Char :=
  if c = '\u017f' then 's' else if c = '\u212a' then 'k' else c.toLower

/-- The words that the name of a secret ends in. -/
def secretWords : List String :=
  ["password", "passwd", "secret", "token", "credential", "credentials",
    "apikey", "api-key", "api_key", "privatekey", "private-key", "private_key"]

/-- Whether a property is secret by its key. -/
def isSensitive (key : String) : Bool :=
  let name := (lastName key.toList).map foldCase
  secretWords.any fun word => word.toList.isSuffixOf name

/-- Characters of the user of an address. -/
def isUserChar (c : Char) : Bool := c ≠ ':' && c ≠ '/' && c ≠ '@' && !Text.isBlank c

/-- Characters of the password of an address. -/
def isPasswordChar (c : Char) : Bool := c ≠ '@' && c ≠ '/' && !Text.isBlank c

/-- The user of an address at the start of a text that has a password, `://user:password@`. -/
def credentials : Text.Pattern (List Char)
  | ':' :: '/' :: '/' :: s =>
    let user := s.takeWhile isUserChar
    match s.dropWhile isUserChar with
    | ':' :: rest =>
      let password := rest.takeWhile isPasswordChar
      match rest.dropWhile isPasswordChar with
      | '@' :: _ =>
        if user.isEmpty || password.isEmpty then none
        else some (user, user.length + password.length + 5)
      | _ => none
    | _ => none
  | _ => none

/-- Characters of a bearer token in front of its padding. -/
def isTokenChar (c : Char) : Bool :=
  c.isAlphanum || c = '-' || c = '.' || c = '_' || c = '~' || c = '+' || c = '/'

/-- A bearer token at the start of a text. -/
def bearer : Text.Pattern Unit
  | 'B' :: 'e' :: 'a' :: 'r' :: 'e' :: 'r' :: s =>
    let blanks := s.takeWhile Text.isBlank
    let rest := s.dropWhile Text.isBlank
    let token := rest.takeWhile isTokenChar
    let padding := (rest.dropWhile isTokenChar).takeWhile (· = '=')
    if blanks.isEmpty || token.isEmpty then none
    else some ((), 6 + blanks.length + token.length + padding.length)
  | _ => none

/-- A text with the passwords of addresses masked. -/
def hidePasswords (s : List Char) : List Char :=
  Text.replaceMatches credentials (fun user => ':' :: '/' :: '/' :: (user ++ ':' :: (mask ++ ['@']))) s

/-- A text with bearer tokens masked. -/
def hideTokens (s : List Char) : List Char := Text.replaceMatches bearer (fun _ => tokenMask) s

/-- A text with all secrets masked. -/
def text (s : List Char) : List Char := hideTokens (hidePasswords s)

/-- The value of a property as it may be logged. -/
def value (key : String) : Value → Value
  | .null => .null
  | v =>
    if isSensitive key then .string (String.ofList mask)
    else
      match v with
      | .string s => .string (String.ofList (text s.toList))
      | v => v

/-- Properties with all secrets masked. -/
def properties (p : Properties) : Properties := p.mapValues value

end LayeredConfig.Redaction
