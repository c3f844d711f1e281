import Reckoner.Batch
import Reckoner.Expression.Analysis
import Reckoner.Expression.Outline
import Reckoner.Field.Basic

/-!
# The calculation service

The service answers requests about one expression, or about a list of them. A
body that cannot be read is refused with a complaint about each of its fields;
an expression that fails is refused with its report. Numbers that are infinite
or not a number are left out of a result and shown as words beside it.
-/

namespace Reckoner.Service

/-- A request about one expression. -/
structure Query where
  expression : String
  answer : Option Float

/-- A request about a list of expressions. -/
structure BatchQuery where
  expressions : List String
  answer : Option Float
  chained : Bool

def Query.ofRecord (fields : List (String × Datum)) : Except (List Complaint) Query :=
  match Field.read fields "expression" none Field.text,
    Field.read fields "ans" (some none) Field.optionalNumber with
  | .ok expression, .ok answer => .ok ⟨expression, answer⟩
  | expression, answer => .error (Field.complaints expression ++ Field.complaints answer)

def BatchQuery.ofRecord (fields : List (String × Datum)) : Except (List Complaint) BatchQuery :=
  match Field.texts fields "expressions",
    Field.read fields "ans" (some none) Field.optionalNumber,
    Field.read fields "chain" (some false) Field.truth with
  | .ok expressions, .ok answer, .ok chained => .ok ⟨expressions, answer, chained⟩
  | expressions, answer, chained =>
    .error (Field.complaints expressions ++ Field.complaints answer ++ Field.complaints chained)

/-- A finite number; others have no place in an answer. -/
def finite? (x : Float) : Option Float :=
  if x.isFinite then some x else none

/-- A number in words for people: twelve digits, or a name. -/
def display (x : Float) : String :=
  if x.isNaN then "NaN"
  else if x.isInf then (if 0.0 < x then "Infinity" else "-Infinity")
  else (Decimal.Layout.general 12).write x

/-- What is answered about a value. -/
structure Shown where
  result : Option Float
  display : String

def Shown.of (x : Float) : Shown := ⟨finite? x, Service.display x⟩

/-- One row of the answer to a batch: a shown value or a report. -/
structure ShownRow where
  expression : String
  shown : Except String Shown

inductive Endpoint where
  | functions
  | parse
  | ast
  | evaluate
  | evaluateBatch
  deriving DecidableEq, Repr

/-- An answer of the service. -/
inductive Reply where
  | functions (entries : List Entry)
  | analysis (a : Analysis)
  | tree (drawing : String) (outline : Outline)
  | value (expression : String) (shown : Shown)
  | rows (rows : List ShownRow)
  /-- The expression failed; the text is its report. -/
  | refused (report : String)
  /-- The body cannot be read. -/
  | invalid (complaints : List Complaint)

variable (settings : Settings) (levels : Nat) (draws : Draws)

/-- The expression of a query, read over the standard catalog. -/
def Query.parse (q : Query) : Except ParseError Expression :=
  Reckoner.parse .standard (answerConstants q.answer) settings (some q.expression)

/-- The report of a parse error. -/
def report (cause : ParseError) : String := (Error.parse cause).report

def parseReply (q : Query) : Reply :=
  match q.parse settings with
  | .ok root => .analysis root.analyze
  | .error cause => .refused (report cause)

def treeReply (q : Query) : Reply :=
  match q.parse settings with
  | .ok root => .tree (root.drawing defaultIndent) root.outline
  | .error cause => .refused (report cause)

def evaluateReply (q : Query) : Reply :=
  match evaluateText .standard (answerConstants q.answer) settings levels draws (some q.expression) with
  | .ok value => .value q.expression (.of value)
  | .error cause => .refused cause.report

def ShownRow.of (expression : String) (r : Row) : ShownRow :=
  ⟨expression,
    match r.outcome with
    | .ok value => .ok (.of value)
    | .error cause => .error cause.report⟩

def batchReply (q : BatchQuery) : Reply :=
  let rows := evaluateSeries .standard settings levels draws q.chained q.answer (q.expressions.map .text)
  .rows (List.zipWith ShownRow.of q.expressions rows)

/-- Answers a request, whose body is a list of named data. -/
def reply (endpoint : Endpoint) (body : List (String × Datum)) : Reply :=
  match endpoint with
  | .functions => .functions Catalog.standard.listing
  | .parse => single (parseReply settings)
  | .ast => single (treeReply settings)
  | .evaluate => single (evaluateReply settings levels draws)
  | .evaluateBatch =>
    match BatchQuery.ofRecord body with
    | .ok q => batchReply settings levels draws q
    | .error complaints => .invalid complaints
where
  single (answer : Query → Reply) : Reply :=
    match Query.ofRecord body with
    | .ok q => answer q
    | .error complaints => .invalid complaints

end Reckoner.Service
