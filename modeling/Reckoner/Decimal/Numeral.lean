import Reckoner.Text.Blank
import Reckoner.Text.Digit

/-!
# Reading numerals

A numeral is an optional sign with either decimal digits, which may hold one
point and end in an exponent, or one of the words `inf`, `infinity` and `nan`
in any case. Its value is the nearest double; what is too large becomes an
infinity.

`parse?` reads a bare numeral. `read?` is for text that a person typed: blanks
around it, digits of other scripts and single underscores between digits are
accepted too.
-/

namespace Reckoner.Decimal

/-- `digits * 10 ^ exponent` as the nearest double. -/
def nearestDouble (digits : Nat) (exponent : Int) : Float :=
  let size : Int := (Nat.toDigits 10 digits).length + exponent
  if digits == 0 || size < -400 then 0.0
  else if 400 < size then 1.0 / 0.0
  else Float.ofScientific digits (exponent < 0) exponent.natAbs

/-- The value of ASCII digits, most significant first. -/
def naturalOf (digits : List Char) : Nat :=
  digits.foldl (fun n c => 10 * n + (c.toNat - '0'.toNat)) 0

/-- A sign character and what follows it. -/
def splitSign : List Char → Bool × List Char
  | '-' :: rest => (true, rest)
  | '+' :: rest => (false, rest)
  | rest => (false, rest)

/-- The exponent after the digits: absent, or `e` with an optional sign and digits. -/
def exponent? : List Char → Option Int
  | [] => some 0
  | c :: rest =>
    if c == 'e' || c == 'E' then
      let (negative, digits) := splitSign rest
      if digits.isEmpty || !digits.all Char.isDigit then none
      else some (if negative then -(naturalOf digits : Int) else naturalOf digits)
    else none

/-- Digits with at most one point among them and an optional exponent. -/
def unsigned? (text : List Char) : Option Float :=
  let whole := text.takeWhile Char.isDigit
  let afterWhole := text.dropWhile Char.isDigit
  let (fraction, rest) := match afterWhole with
    | '.' :: more => (more.takeWhile Char.isDigit, more.dropWhile Char.isDigit)
    | other => ([], other)
  if whole.isEmpty && fraction.isEmpty then none
  else (exponent? rest).map fun e => nearestDouble (naturalOf (whole ++ fraction)) (e - fraction.length)

/-- The words for what digits cannot write. -/
def word? (text : List Char) : Option Float :=
  let lower := text.map Char.toLower
  if lower == ['i', 'n', 'f'] || lower == ['i', 'n', 'f', 'i', 'n', 'i', 't', 'y'] then some (1.0 / 0.0)
  else if lower == ['n', 'a', 'n'] then some (0.0 / 0.0)
  else none

/-- The double that a numeral stands for. -/
def parse? (text : List Char) : Option Float :=
  let (negative, body) := splitSign text
  (word? body <|> unsigned? body).map fun x => if negative then -x else x

/-- The text without its underscores, if each of them stands between two digits. -/
def dropUnderscores? : Option Char → List Char → Option (List Char)
  | _, [] => some []
  | before, '_' :: rest =>
    if (before.map Char.isDigit).getD false && (rest.head?.map Char.isDigit).getD false then
      dropUnderscores? none rest
    else none
  | _, c :: rest => (dropUnderscores? (some c) rest).map (c :: ·)

/-- The double that a typed numeral stands for. -/
def read? (text : String) : Option Float :=
  (dropUnderscores? none ((Text.trimMargins text.toList).map Text.foldDigit)).bind parse?

end Reckoner.Decimal
