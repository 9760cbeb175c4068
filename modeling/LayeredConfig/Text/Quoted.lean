import LayeredConfig.Text.GraphemeExtend
import LayeredConfig.Text.Unprintable

/-!
# Quoted text

A text between double quotes on which nothing is hidden: quotes, backslashes and the usual control
characters have short escapes, and every other character that would not show by itself is written as
its code point in braces.
-/

namespace LayeredConfig.Text

/-- One character of a quoted text. -/
def quotedChar (c : Char) : List Char :=
  if c = '\x00' then ['\\', '0']
  else if c = '\t' then ['\\', 't']
  else if c = '\r' then ['\\', 'r']
  else if c = '\n' then ['\\', 'n']
  else if c = '\\' then ['\\', '\\']
  else if c = '"' then ['\\', '"']
  else if isGraphemeExtend c || isUnprintable c then
    '\\' :: 'u' :: '{' :: (Nat.toDigits 16 c.toNat ++ ['}'])
  else [c]

/-- A text between quotes. -/
def quoted (s : List Char) : List Char := '"' :: (s.flatMap quotedChar ++ ['"'])

end LayeredConfig.Text
