import Reckoner.Decimal.Fixed
import Reckoner.Sheet.Column

/-!
# Tables

A table shows columns side by side under their headers, with a label before each
row. Labels stand on the left of their column and everything else on the right.
Every entry keeps a place for a sign: a number of its own, any other value a blank.
-/

namespace Reckoner.Sheet

/-- The header and the entries of a column of a table. -/
structure Block where
  header : String
  entries : List String

def padLeft (width : Nat) (text : String) : String :=
  String.ofList (List.replicate (width - text.length) ' ') ++ text

def padRight (width : Nat) (text : String) : String :=
  text ++ String.ofList (List.replicate (width - text.length) ' ')

def widest (texts : List String) : Nat :=
  (texts.map String.length).foldl max 0

/-- The lines of a block, all as long as the longest. -/
def Block.lines (b : Block) : List String :=
  let texts := b.header :: b.entries
  texts.map (padLeft (widest texts))

/-- The lines of a table: the labels below an empty header, then the blocks. -/
def tableLines (labels : List String) (blocks : List Block) : List String :=
  let labelColumn := ("" :: labels).map (padRight (widest labels))
  blocks.foldl (fun lines block => List.zipWith (fun line text => line ++ " " ++ text) lines block.lines)
    labelColumn

/-- The places behind the point in a column of numbers. -/
def realPlaces : Nat := 6

/-- Digits with a point: the numbers whose trailing zeros are dropped. -/
def hasFraction (text : String) : Bool :=
  let digits := text.toList.dropWhile fun c => c == ' ' || c == '-'
  let rest := digits.dropWhile Char.isDigit
  !(digits.takeWhile Char.isDigit).isEmpty && rest.head? == some '.' && (rest.drop 1).all Char.isDigit

/-- The number of zeros at the end of a text. -/
def trailingZeros (text : String) : Nat :=
  (text.toList.reverse.takeWhile (· == '0')).length

/-- `text` without its last `count` characters; a point at the end gets a zero. -/
def shortened (count : Nat) (text : String) : String :=
  let kept := text.toList.take (text.length - count)
  String.ofList (if kept.getLast? == some '.' then kept ++ ['0'] else kept)

/-- Drops the zeros at the end that all numbers with a point have in common. -/
def dropCommonZeros (texts : List String) : List String :=
  match (texts.filter hasFraction).map trailingZeros with
  | [] => texts
  | first :: rest =>
    let count := rest.foldl min first
    texts.map fun text => if hasFraction text then shortened count text else text

/-- Some number is too small for the places, or some text is too long and some
number large. -/
def needsExponent (values : List Float) (texts : List String) : Bool :=
  let small := values.any fun x => x.abs < 1e-6 && 0.0 < x.abs
  let large := values.any fun x => 1e6 < x.abs
  small || (large && decide (realPlaces + 6 < widest texts))

/-- The entries of a column of numbers. -/
def realEntries (values : List Float) : List String :=
  let texts := dropCommonZeros (values.map (Decimal.fixed realPlaces))
  if needsExponent values texts then
    dropCommonZeros (values.map (Decimal.exponential realPlaces))
  else texts

/-- Line ends and tabs are written with a backslash. -/
def visible (text : String) : String :=
  String.ofList (text.toList.flatMap fun c =>
    if c == '\t' then ['\\', 't']
    else if c == '\r' then ['\\', 'r']
    else if c == '\n' then ['\\', 'n']
    else [c])

def flagText (value : Bool) : String := if value then "True" else "False"

/-- A value among others of different types. -/
def mixedText : Datum → String
  | .text value => visible value
  | .flag value => flagText value
  | _ => "NaN"

def signPlace (text : String) : String := " " ++ text

def integerText (value : Int) : String :=
  if value < 0 then toString value else signPlace (toString value)

/-- The block of a column. Over numbers and truth values the header has a place
for the sign too. -/
def Column.block (header : String) : Column → Block
  | .integers values => ⟨signPlace header, values.map integerText⟩
  | .reals values => ⟨signPlace header, realEntries values⟩
  | .flags values => ⟨signPlace header, values.map fun value => signPlace (flagText value)⟩
  | .mixed values => ⟨header, values.map fun value => signPlace (mixedText value)⟩

/-- The number of blanks in front of a text. -/
def leadingBlanks (text : String) : Nat :=
  (text.toList.takeWhile (· == ' ')).length

/-- The entries of a column of labels, without the blanks that all of them begin with. -/
def Column.labelTexts (column : Column) : List String :=
  match (column.block "").entries with
  | [] => []
  | first :: rest =>
    let common := rest.foldl (fun n text => min n (leadingBlanks text)) (leadingBlanks first)
    (first :: rest).map fun text => String.ofList (text.toList.drop common)

/-- The labels of a row, blank where they begin like those of the row `above`. The
last one is always there. -/
def withoutRepeated : (above labels : List String) → List String
  | first :: above, label :: rest =>
    if rest.isEmpty then [label]
    else if first == label then "" :: withoutRepeated above rest
    else label :: rest
  | _, labels => labels

/-- One text for each row from the columns of its labels, side by side. -/
def rowLabels (columns : List Column) : List String :=
  let texts := columns.map Column.labelTexts
  let rows := (List.range ((texts.map List.length).foldl max 0)).map fun row =>
    texts.map (·.getD row "")
  let shown := List.zipWith withoutRepeated ([] :: rows) rows
  shown.map fun labels => " ".intercalate (List.zipWith padRight (texts.map widest) labels)

end Reckoner.Sheet
