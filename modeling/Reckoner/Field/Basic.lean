import Reckoner.Datum
import Reckoner.Decimal.Numeral
import Reckoner.Decimal.Places

/-!
# Reading fields

A field is read from a `Datum` that may have the wrong shape. The readers are
lenient where the meaning is plain: a numeral in a text is a number, a whole
number with a point is an integer, and a few words are truth values. What cannot
be read is a `Violation`; `Complaint`s name the field, and all fields of a
record are read before any is reported.
-/

namespace Reckoner

/-- Why a field cannot be read. -/
inductive Violation where
  | absent
  | notText
  | notList
  | notTruth
  | unknownTruth
  | notNumber
  | unreadableNumber
  | notInteger
  | unreadableInteger
  | fractionalInteger
  | infiniteInteger
  | hugeInteger
  | notPositive
  | unknownWord
  deriving DecidableEq, Repr

def Violation.name : Violation → String
  | .absent => "missing"
  | .notText => "string_type"
  | .notList => "list_type"
  | .notTruth => "bool_type"
  | .unknownTruth => "bool_parsing"
  | .notNumber => "float_type"
  | .unreadableNumber => "float_parsing"
  | .notInteger => "int_type"
  | .unreadableInteger => "int_parsing"
  | .fractionalInteger => "int_from_float"
  | .infiniteInteger => "finite_number"
  | .hugeInteger => "int_parsing_size"
  | .notPositive => "greater_than"
  | .unknownWord => "literal_error"

/-- A field that cannot be read. -/
structure Complaint where
  field : String
  violation : Violation
  deriving DecidableEq, Repr

namespace Field

/-- Two neighbouring underscores. -/
def hasDoubleUnderscore : List Char → Bool
  | '_' :: '_' :: _ => true
  | _ :: rest => hasDoubleUnderscore rest
  | [] => false

/-- The text without its underscores, which may stand neither at an end nor side by side. -/
def withoutUnderscores? (text : List Char) : Option (List Char) :=
  if text.head? == some '_' || text.getLast? == some '_' || hasDoubleUnderscore text then none
  else some (text.filter (· != '_'))

/-- What follows a zero and further zeros or underscores, of which `last` was the
last one: a digit or a minus sign begins the number anew, and a point or the end
of the text needs the last zero back. -/
def afterZeros? (last : Char) : List Char → Option (List Char)
  | [] => some [last]
  | c :: rest =>
    if c == '0' || c == '_' then afterZeros? c rest
    else if c.isDigit || c == '-' then some (c :: rest)
    else if c == '.' then some (last :: c :: rest)
    else none

/-- The text of an integer without a plus sign and without the zeros before its
first digit. A minus sign keeps the zeros behind it. -/
def withoutPadding? : List Char → Option (List Char)
  | [] => none
  | c :: rest =>
    if c == '+' then
      match rest with
      | [] => none
      | first :: more => if first == '-' then none else unpadded? first more
    else unpadded? c rest
where
  unpadded? (first : Char) (rest : List Char) : Option (List Char) :=
    if first == '0' then afterZeros? first rest
    else if first.isDigit || first == '-' then some (first :: rest)
    else none

/-- The text before a point that only zeros follow, and at least one. -/
def withoutZeroFraction (text : List Char) : List Char :=
  let fraction := (text.dropWhile (· != '.')).drop 1
  if !fraction.isEmpty && fraction.all (· == '0') then text.takeWhile (· != '.') else text

/-- The greatest number of characters that an integer may be written with. -/
def integerReach : Nat := 4300

/-- The integer of an optional minus sign and digits without needless zeros. -/
def plainInteger (text : List Char) : Except Violation Int :=
  let (negative, body) := match text with
    | '-' :: rest => (true, rest)
    | rest => (false, rest)
  let digits := body.takeWhile Char.isDigit
  let padded := body.head? == some '0' && 1 < digits.length
  if !padded && integerReach < text.length - body.length + digits.length then .error .hugeInteger
  else if padded || digits.isEmpty || digits.length < body.length then .error .unreadableInteger
  else
    let size : Int := Decimal.naturalOf digits
    .ok (if negative then -size else size)

/-- The integer that a text stands for. Margins, a plus sign, zeros in front,
zeros behind a point and underscores between digits do not count. -/
def integerOfText (value : String) : Except Violation Int :=
  match (withoutPadding? (Text.trimMargins value.toList)).bind fun text =>
      Decimal.dropUnderscores? none (withoutZeroFraction text) with
  | some text => plainInteger text
  | none => .error .unreadableInteger

/-- `2 ^ 63`, the number of integers of 64 bits that have a minus sign. -/
def signedReach : Int := 0x8000000000000000

/-- An integer of 64 bits, one of which is the sign. -/
def fitsWord (n : Int) : Bool :=
  -signedReach ≤ n && n < signedReach

/-- A whole double as an integer; what takes more than a word is refused. -/
def integerOf (x : Float) : Except Violation Int :=
  match Decimal.Binary.ofFloat x with
  | .finite negative _ _ =>
    if Decimal.isWhole x then
      let size : Int := Decimal.wholeMagnitude x
      if size < signedReach then .ok (if negative then -size else size)
      else .error .hugeInteger
    else .error .fractionalInteger
  | _ => .error .infiniteInteger

def integer : Datum → Except Violation Int
  | .integer value => .ok value
  | .flag value => .ok (if value then 1 else 0)
  | .real value => integerOf value
  | .text value => integerOfText value
  | _ => .error .notInteger

/-- An integer above zero. -/
def positive (d : Datum) : Except Violation Nat :=
  match integer d with
  | .ok value => if 0 < value then .ok value.toNat else .error .notPositive
  | .error violation => .error violation

/-- The double nearest to an integer. -/
def realOf (value : Int) : Float :=
  let size := Decimal.nearestDouble value.natAbs 0
  if value < 0 then -size else size

/-- The number that a text stands for. There may be margins around it or
underscores in it, but not both. -/
def numberOfText? (value : String) : Option Float :=
  Decimal.parse? (Text.trimMargins value.toList) <|>
    (withoutUnderscores? value.toList).bind Decimal.parse?

def number : Datum → Except Violation Float
  | .integer value =>
    let x := realOf value
    if x.isInf then .error .notNumber else .ok x
  | .flag value => .ok (if value then 1.0 else 0.0)
  | .real value => .ok value
  | .text value =>
    match numberOfText? value with
    | some number => .ok number
    | none => .error .unreadableNumber
  | _ => .error .notNumber

/-- A number, or nothing. -/
def optionalNumber : Datum → Except Violation (Option Float)
  | .null => .ok none
  | d => (number d).map some

def trueWords : List String := ["1", "on", "t", "true", "y", "yes"]

def falseWords : List String := ["0", "off", "f", "false", "n", "no"]

/-- The truth value of zero and one. -/
def truthOf (value : Int) : Except Violation Bool :=
  if value == 0 then .ok false
  else if value == 1 then .ok true
  else .error .unknownTruth

def truth : Datum → Except Violation Bool
  | .flag value => .ok value
  | .integer value => if fitsWord value then truthOf value else .error .notTruth
  | .real value =>
    match integerOf value with
    | .ok value => truthOf value
    | .error _ => .error .notTruth
  | .text value =>
    let word := value.toLower
    if trueWords.contains word then .ok true
    else if falseWords.contains word then .ok false
    else .error .unknownTruth
  | _ => .error .notTruth

def text : Datum → Except Violation String
  | .text value => .ok value
  | _ => .error .notText

/-- The value of the field called `name`, or the complaint about it. An absent
field has the value `default?`, if there is one. -/
def read {α : Type} (fields : List (String × Datum)) (name : String) (default? : Option α)
    (reader : Datum → Except Violation α) : Except (List Complaint) α :=
  match Datum.field? name fields with
  | some d =>
    match reader d with
    | .ok value => .ok value
    | .error violation => .error [⟨name, violation⟩]
  | none =>
    match default? with
    | some value => .ok value
    | none => .error [⟨name, .absent⟩]

/-- The complaints of a reading. -/
def complaints {α : Type} : Except (List Complaint) α → List Complaint
  | .ok _ => []
  | .error list => list

/-- A list of texts; every bad item is named by its position. -/
def textItems (name : String) (position : Nat) : List Datum → Except (List Complaint) (List String)
  | [] => .ok []
  | d :: rest =>
    match text d, textItems name (position + 1) rest with
    | .ok value, .ok values => .ok (value :: values)
    | .error violation, others =>
      .error (⟨name ++ "." ++ toString position, violation⟩ :: complaints others)
    | .ok _, .error list => .error list

/-- The field called `name`, which has to be a list of texts. -/
def texts (fields : List (String × Datum)) (name : String) :
    Except (List Complaint) (List String) :=
  match Datum.field? name fields with
  | some (.list items) => textItems name 0 items
  | some _ => .error [⟨name, .notList⟩]
  | none => .error [⟨name, .absent⟩]

end Field

end Reckoner
