import Reckoner.Proofs.Calculator.Parse
import Reckoner.Proofs.Series.History
import Reckoner.Service.Reply

/-!
# Batches and single requests

A row of a batch is what the service answers about its expression alone, asked with the last
answer behind the earlier rows. The rows are read from a table with a number and a report in each,
where the report decides: a value that is not a number is shown, and the number of a failed
row is not.
-/

namespace Reckoner.Service

/-- A row with the number and the report that a table has for it. -/
def ShownRow.ofCells (expression : String) (result : Float) (report : Option String) : ShownRow :=
  ⟨expression,
    match report with
    | some report => .error report
    | none => .ok (.of result)⟩

/-- What is answered about a single expression whose row would be `row`. -/
def ShownRow.reply (row : ShownRow) : Reply :=
  match row.shown with
  | .ok shown => .value row.expression shown
  | .error report => .refused report

/-- A row shows no more than its cells. -/
theorem ShownRow.of_eq_ofCells (expression : String) (r : Row) :
    ShownRow.of expression r = .ofCells expression r.result r.error? := by
  obtain ⟨entry, outcome⟩ := r
  cases outcome <;> rfl

/-- A request about one expression is answered as its row is shown. -/
theorem evaluateReply_eq (settings : Settings) (levels : Nat) (draws : Draws) (expression : String) (answer : Option Float) :
    evaluateReply settings levels draws ⟨expression, answer⟩ =
      (ShownRow.of expression ⟨.text expression, evaluateEntry .standard settings levels draws answer (.text expression)⟩).reply := by
  simp only [evaluateReply, ShownRow.of, evaluateEntry, Datum.text?, Option.getD_some]
  cases evaluateText .standard (answerConstants answer) settings levels draws (some expression) <;> rfl

/-- A batch has one row for each expression, in order. Each row is read from its cells, and is what the service
answers about the expression alone with the last answer behind the earlier rows. -/
theorem batchReply_rows (settings : Settings) (levels : Nat) (draws : Draws) (q : BatchQuery) :
    let table := evaluateSeries .standard settings levels draws q.chained q.answer (q.expressions.map .text)
    ∃ rows, batchReply settings levels draws q = .rows rows ∧ rows.length = q.expressions.length ∧
      ∀ i expression, q.expressions[i]? = some expression → ∃ r row answer,
        table[i]? = some r ∧ rows[i]? = some row ∧ row = .ofCells expression r.result r.error? ∧
        LastAnswer q.chained q.answer (table.take i) answer ∧
        r.outcome = evaluateText .standard (answerConstants answer) settings levels draws (some expression) ∧
        evaluateReply settings levels draws ⟨expression, answer⟩ = row.reply := by
  intro table
  have length : table.length = q.expressions.length := by
    rw [length_evaluateSeries, List.length_map]
  refine ⟨List.zipWith ShownRow.of q.expressions table, rfl, by simp [length], ?_⟩
  intro i expression there
  have entry : (q.expressions.map Datum.text)[i]? = some (.text expression) := by simp [there]
  have row : table[i]? = some ⟨.text expression,
      evaluateEntry .standard settings levels draws (answerBehind q.chained q.answer (table.take i)) (.text expression)⟩ := by
    rw [evaluateSeries_getElem?, entry, Option.map_some]
  refine ⟨_, _, _, row, ?_, ShownRow.of_eq_ofCells expression _, lastAnswer_answerBehind _ _ _, rfl, ?_⟩
  · rw [List.getElem?_zipWith, there, row]
  · exact evaluateReply_eq settings levels draws expression _

/-- In a chained batch the third expression is answered as it is alone behind the value of the first one, although
the second one fails. -/
theorem batchReply_rows_chained :
    let q : BatchQuery := ⟨["pi", "", "Ans"], none, true⟩
    ∀ levels draws, 0 < levels → ∃ rows row, batchReply {} levels draws q = .rows rows ∧ rows[2]? = some row ∧
      row.expression = "Ans" ∧ evaluateReply {} levels draws ⟨"Ans", some piValue⟩ = row.reply := by
  rintro q (_ | levels) draws positive
  · cases positive
  have tokenized : tokenize "pi" = .ok [⟨.name, "pi", 0⟩] := by decide +kernel
  have parsed : parse .standard [] {} (some "pi") = .ok (.reference (.constant "pi" piValue "3.14159...")) :=
    parse_eq_ok_iff.2 ⟨_, _, rfl, by decide, by decide, tokenized, by simp, rfl, by decide +kernel⟩
  have first : evaluateText .standard (answerConstants none) {} (levels + 1) draws (some "pi") = .ok piValue := by
    rw [evaluateText, show answerConstants none = [] from rfl, parsed]
    rfl
  have second :
      evaluateText .standard (answerConstants (some piValue)) {} (levels + 1) draws (some "") = .error (.parse .emptyInput) := by
    rw [evaluateText, parse_some, if_pos (by decide)]
  obtain ⟨rows, replied, -, each⟩ := batchReply_rows {} (levels + 1) draws q
  obtain ⟨r, row, answer, -, there, cells, last, -, alone⟩ := each 2 "Ans" rfl
  have behind : answer = some piValue := by
    rw [last.eq_answerBehind]
    simp only [q, List.map_cons, List.map_nil, evaluateSeries, evaluateEntry, Datum.text?, Option.getD_some, first,
      nextAnswer, Row.value?, if_true, Option.some_or, second, List.take_succ_cons, List.take_zero]
    rfl
  refine ⟨rows, row, replied, there, by rw [cells]; rfl, ?_⟩
  rw [← behind]
  exact alone

end Reckoner.Service
