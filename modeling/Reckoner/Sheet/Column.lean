import Reckoner.Datum
import Reckoner.Decimal.Numeral
import Reckoner.Field.Basic
import Reckoner.Sheet.Record

/-!
# Columns of a sheet

The first record of a sheet names the columns. What a column holds follows from
all its cells together: integers, numbers, truth values, or texts. Some words
mark a missing cell; among numbers a missing one is not a number.
-/

namespace Reckoner.Sheet

/-- The values of a column, from the top. -/
inductive Column where
  | integers (values : List Int)
  | reals (values : List Float)
  | flags (values : List Bool)
  /-- Texts or truth values, some of which may be missing. -/
  | mixed (values : List Datum)

namespace Column

def entries : Column → List Datum
  | integers values => values.map .integer
  | reals values => values.map .real
  | flags values => values.map .flag
  | mixed values => values

end Column

/-- The words for a missing cell. -/
def missingWords : List String :=
  ["", "#N/A", "#N/A N/A", "#NA", "-1.#IND", "-1.#QNAN", "-NaN", "-nan", "1.#IND", "1.#QNAN", "<NA>",
    "N/A", "NA", "NULL", "NaN", "None", "n/a", "nan", "null"]

/-- The text of a cell; a missing cell has none. -/
def cellText? (text : String) : Option String :=
  if missingWords.contains text then none else some text

/-- An integer of 64 bits without a sign. -/
def fitsUnsigned (n : Int) : Bool :=
  0 ≤ n && n < 2 * Field.signedReach

/-- The ASCII blanks, which may surround a number in a cell. -/
def isPadding (c : Char) : Bool :=
  c == ' ' || (0x09 ≤ c.toNat && c.toNat ≤ 0x0D)

/-- The characters of a cell without the padding at its two ends. -/
def unpadded (text : String) : List Char :=
  ((text.toList.dropWhile isPadding).reverse.dropWhile isPadding).reverse

/-- The integer of an optional sign and digits, with blanks around it. -/
def integer? (text : String) : Option Int :=
  let (negative, digits) := Decimal.splitSign (unpadded text)
  if digits.isEmpty || !digits.all Char.isDigit then none
  else
    let size : Int := Decimal.naturalOf digits
    some (if negative then -size else size)

/-- The number of a numeral with blanks around it. -/
def real? (text : String) : Option Float :=
  (Decimal.parse? (unpadded text)).filter fun x => !x.isNaN

/-- The truth value of a word. -/
def flag? (text : String) : Option Bool :=
  if ["True", "TRUE", "true"].contains text then some true
  else if ["False", "FALSE", "false"].contains text then some false
  else none

/-- All values, if `f` reads every cell. -/
def readAll {α : Type} (f : String → Option α) (cells : List (Option String)) :
    Option (List (Option α)) :=
  cells.mapM fun cell =>
    match cell with
    | some text => (f text).map some
    | none => some none

/-- Integers if none is missing, numbers otherwise. -/
def Column.ofIntegers (cells : List (Option String)) (values : List (Option Int)) : Column :=
  if values.all Option.isSome then
    let whole := values.filterMap id
    if whole.all Field.fitsWord || whole.all fitsUnsigned then .integers whole
    else .mixed (cells.map fun cell => (cell.map Datum.text).getD .null)
  else .reals (values.map fun value => (value.map Field.realOf).getD (0.0 / 0.0))

/-- The column of some cells. -/
def Column.ofCells (cells : List (Option String)) : Column :=
  match readAll integer? cells, readAll real? cells, readAll flag? cells with
  | some values, _, _ => .ofIntegers cells values
  | none, some values, _ => .reals (values.map (·.getD (0.0 / 0.0)))
  | none, none, some values =>
    if values.all Option.isSome then .flags (values.filterMap id)
    else .mixed (values.map fun value => (value.map Datum.flag).getD .null)
  | none, none, none => .mixed (cells.map fun cell => (cell.map Datum.text).getD .null)

/-- The column at `position`. A record that is too short for it has no cell there. -/
def columnAt (rows : List (List Cell)) (position : Nat) : Column :=
  .ofCells (rows.map fun row => row[position]?.bind fun cell => cellText? cell.text)

/-- A column of a sheet, and the columns of labels in front of its rows. -/
structure Extract where
  labels : List Column
  values : Column

/-- The column called `name` of a sheet. Fields that the first row has more than
the header are labels. -/
def extract? (name : String) (text : String) : Option Extract :=
  match records text with
  | [] => none
  | header :: rows =>
    let leading := ((rows.head?.map List.length).getD 0) - header.length
    (header.findIdx? (·.text == name)).map fun position =>
      ⟨(List.range leading).map (columnAt rows), columnAt rows (leading + position)⟩

end Reckoner.Sheet
