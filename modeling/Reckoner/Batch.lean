import Reckoner.Calculator
import Reckoner.Field.Basic

/-!
# Series of expressions

A series is evaluated row by row. Each row keeps its own outcome, so a failure
does not end the series. In a chained series the value of a row is the last
answer for the rows after it, until another row succeeds.
-/

namespace Reckoner

/-- An entry of a series and what became of it. -/
structure Row where
  expression : Datum
  outcome : Except Error Float

namespace Row

/-- The names of what a row shows. -/
def columns : List String := ["expression", "result", "error"]

/-- The value; a failed row has none. -/
def value? (r : Row) : Option Float :=
  match r.outcome with
  | .ok value => some value
  | .error _ => none

/-- The value as a number; that of a failed row is not a number. -/
def result (r : Row) : Float := r.value?.getD (0.0 / 0.0)

/-- The report of a failed row. -/
def error? (r : Row) : Option String :=
  match r.outcome with
  | .ok _ => none
  | .error cause => some cause.report

end Row

/-- The outcome of one entry when `answer` is the last answer. What is no text
counts as an empty one. -/
def evaluateEntry (catalog : Catalog) (settings : Settings) (levels : Nat) (draws : Draws)
    (answer : Option Float) (entry : Datum) : Except Error Float :=
  evaluateText catalog (answerConstants answer) settings levels draws (some (entry.text?.getD ""))

/-- The last answer after a row. -/
def nextAnswer (chained : Bool) (answer : Option Float) (r : Row) : Option Float :=
  if chained then r.value?.or answer else answer

/-- One row per entry, in order. -/
def evaluateSeries (catalog : Catalog) (settings : Settings) (levels : Nat) (draws : Draws)
    (chained : Bool) (answer : Option Float) : List Datum → List Row
  | [] => []
  | entry :: rest =>
    let row : Row := ⟨entry, evaluateEntry catalog settings levels draws answer entry⟩
    row :: evaluateSeries catalog settings levels draws chained (nextAnswer chained answer row) rest

/-- The labels of a series have a common type if they can: integers beside reals
are reals too, and a missing label among numbers is not a number. -/
def commonLabels (labels : List Datum) : List Datum :=
  if labels.all isNumeric && labels.any isNumber && !labels.all isInteger then
    labels.map realLabel
  else labels
where
  isInteger : Datum → Bool
    | .integer _ => true
    | _ => false
  isNumber : Datum → Bool
    | .integer _ | .real _ => true
    | _ => false
  isNumeric : Datum → Bool
    | .integer _ | .real _ | .null => true
    | _ => false
  realLabel : Datum → Datum
    | .integer value => .real (Field.realOf value)
    | .null => .real (0.0 / 0.0)
    | label => label

end Reckoner
