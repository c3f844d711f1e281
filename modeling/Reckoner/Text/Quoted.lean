import Reckoner.Text.Printable

/-!
# Quoted text

A text in quotation marks on one line. Single marks are used unless the text
holds a single mark and no double one. Inside, the backslash and the mark itself
stand behind a backslash, the usual control characters have letters, and any
other character that is not printable is written as its code point.
-/

namespace Reckoner.Text

/-- The mark that a text is quoted with. -/
def quoteMark (text : List Char) : Char :=
  if text.contains '\'' && !text.contains '"' then '"' else '\''

/-- `value` in lower-case hexadecimal digits, padded with zeros to `width` of them. -/
def hexadecimal (width value : Nat) : List Char :=
  let digits := Nat.toDigits 16 value
  List.replicate (width - digits.length) '0' ++ digits

/-- The code point of a character behind a letter that tells the number of digits. -/
def codePoint (c : Char) : List Char :=
  if c.toNat < 0x100 then '\\' :: 'x' :: hexadecimal 2 c.toNat
  else if c.toNat < 0x10000 then '\\' :: 'u' :: hexadecimal 4 c.toNat
  else '\\' :: 'U' :: hexadecimal 8 c.toNat

/-- A character between two marks. -/
def escaped (mark c : Char) : List Char :=
  if c == mark || c == '\\' then ['\\', c]
  else if c == '\n' then ['\\', 'n']
  else if c == '\r' then ['\\', 'r']
  else if c == '\t' then ['\\', 't']
  else if isPrintable c then [c]
  else codePoint c

/-- `text` in quotation marks. -/
def quoted (text : String) : String :=
  let mark := quoteMark text.toList
  String.ofList (mark :: text.toList.flatMap (escaped mark) ++ [mark])

end Reckoner.Text
