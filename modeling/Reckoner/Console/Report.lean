import Reckoner.Batch
import Reckoner.Console.Arguments
import Reckoner.Expression.Outline
import Reckoner.Sheet.Table

/-!
# The report of a command line

A report has up to four parts: the expression that was asked for and its value,
the rows of a sheet, and a check of a few expressions whose values are known.
-/

namespace Reckoner.Console

/-- What a command prints, and the status that it ends with. -/
structure Outcome where
  status : Nat
  output : String
  deriving DecidableEq, Repr

/-- `line` and a line end. -/
def printed (line : String) : String := line ++ "\n"

variable (settings : Settings) (levels : Nat) (draws : Draws)

/-- The tree, if it is wanted, and the value of an expression. -/
def resultText (r : Request) : String :=
  match parse .standard (answerConstants r.answer) settings (some r.expression) with
  | .error cause => printed ("Error: " ++ (Error.parse cause).report)
  | .ok root =>
    let tree := if r.tree then printed (root.drawing defaultIndent) ++ printed "" else ""
    tree ++
      match root.value levels none draws with
      | .error cause => printed ("Error: " ++ (Error.evaluation cause).report)
      | .ok value => printed ("Result: " ++ Decimal.Layout.exact.write value)

def expressionText (r : Request) : String :=
  printed "\nEvaluating:" ++ printed ("  " ++ r.expression ++ "\n") ++ resultText settings levels draws r

/-- Rows as a table. Without labels of their own they are labelled by their numbers. -/
def rowsText (e : Sheet.Extract) (rows : List Row) : String :=
  if rows.isEmpty then
    "Empty DataFrame\nColumns: [" ++ ", ".intercalate Row.columns ++ "]\nIndex: []"
  else
    let labels :=
      if e.labels.isEmpty then (List.range rows.length).map toString else Sheet.rowLabels e.labels
    let errors := rows.map fun row => Sheet.signPlace ((row.error?.map Sheet.visible).getD "None")
    "\n".intercalate (Sheet.tableLines labels
      [e.values.block "expression", (Sheet.Column.reals (rows.map Row.result)).block "result",
        ⟨"error", errors⟩])

/-- The expressions of a sheet, evaluated row by row. -/
def sheetText (r : Request) (e : Sheet.Extract) : String :=
  let rows := evaluateSeries .standard settings levels draws r.chained r.answer e.values.entries
  let failed := rows.countP fun row => row.error?.isSome
  printed ("\nBatch results (" ++ toString rows.length ++ " rows, " ++ toString failed ++ " failed):") ++
    printed (rowsText e rows)

/-- The part about the file that was asked for; `contents` gives the texts of the
files that exist. There is no such part about a sheet without expressions. -/
def fileText? (contents : String → Option String) (r : Request) : Option String :=
  match r.file with
  | none => some ""
  | some "" => some ""
  | some file =>
    match contents file with
    | none =>
      some (printed ("\nCSV not found: " ++ file ++ " (generate one with scripts/gen_expressions.py)"))
    | some text => (Sheet.extract? "expression" text).map (sheetText settings levels draws r)

/-- Expressions and their values, worked out by hand. -/
def knownAnswers : List (String × Float) :=
  [("2+3*4", 14.0), ("2-3*4+5", -5.0), ("2^3^2", 512.0), ("-5+3", -2.0), ("3*-2", -6.0),
    ("2(3+4)", 14.0), ("min(3,1,4,1,5)", 1.0), ("sum(1,2,3)", 6.0), ("5!", 120.0), ("3!2", 12.0)]

/-- The calculator gives the value that is known. -/
def agrees (source : String) (known : Float) : Bool :=
  match evaluateText .standard [] settings levels draws (some source) with
  | .ok value => value == known
  | .error _ => false

def knownAnswersText : String :=
  printed "\nKnown-answer checks:" ++
    String.join (knownAnswers.map fun (source, known) =>
      printed ("  " ++ Sheet.padRight 20 source ++ " -> " ++
        Sheet.flagText (agrees settings levels draws source known)))

/-- The options and what they do. -/
def optionWords : List (String × String) :=
  [("-h, --help", "show this help message and exit"), ("--expr EXPR", "Expression to evaluate."),
    ("--ans ANS", "Previous answer, available as Ans."), ("--tree", "Print the parsed expression tree."),
    ("--file FILE", "CSV with an 'expression' column."),
    ("--chain", "Feed each CSV result into the next row as Ans.")]

/-- The words about the options, below two lines that show their order. -/
def helpText : String :=
  let usage := "usage: smoke_test.py "
  printed (usage ++ "[-h] [--expr EXPR] [--ans ANS] [--tree] [--file FILE]") ++
    printed (Sheet.padLeft usage.length "" ++ "[--chain]") ++ printed "\noptions:" ++
    String.join (optionWords.map fun (option, words) =>
      printed ("  " ++ Sheet.padRight (widestOption + 2) option ++ words))
where
  widestOption : Nat := Sheet.widest (optionWords.map Prod.fst)

/-- The outcome of a request. -/
def Request.outcome (contents : String → Option String) (r : Request) : Outcome :=
  let expression := expressionText settings levels draws r
  match fileText? settings levels draws contents r with
  | some file =>
    ⟨0, expression ++ file ++ knownAnswersText settings levels draws ++ printed "\nDone."⟩
  | none => ⟨1, expression⟩

/-- The outcome of a command line. -/
def outcome (contents : String → Option String) (arguments : List String) : Outcome :=
  match Request.ofArguments arguments with
  | .ok r => r.outcome settings levels draws contents
  | .error .helpWanted => ⟨0, helpText⟩
  | .error .misuse => ⟨2, ""⟩

end Reckoner.Console
