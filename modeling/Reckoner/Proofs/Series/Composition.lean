import Reckoner.Proofs.Evaluation.Refusals
import Reckoner.Proofs.Series.History

/-!
# Series in parts

A series of rows can be split: the second part starts with the last answer behind the first one.
A failed row leaves no trace in the rows after it, and if a series is not chained no row does, so
that its rows go wherever their entries go. Every row shows a value or why there is none.
-/

namespace Reckoner

/-- The list without the places that are dropped. -/
def without {α : Type} (dropped : Nat → Bool) : List α → List α
  | [] => []
  | x :: rest =>
    let later := without (fun i => dropped (i + 1)) rest
    if dropped 0 then later else x :: later

variable {c : Catalog} {settings : Settings} {levels : Nat} {draws : Draws} {chained : Bool} {answer : Option Float} {r : Row}

theorem answerBehind_nil : answerBehind chained answer [] = answer := by
  cases chained <;> rfl

/-- A failed row does not change the last answer. -/
theorem nextAnswer_of_failed (failed : r.value? = none) : nextAnswer chained answer r = answer := by
  cases chained with
  | false => rfl
  | true => rw [nextAnswer, if_pos rfl, failed, Option.none_or]

theorem evaluateSeries_append (xs ys : List Datum) (answer : Option Float) :
    evaluateSeries c settings levels draws chained answer (xs ++ ys) =
      evaluateSeries c settings levels draws chained answer xs ++
        evaluateSeries c settings levels draws chained
          (answerBehind chained answer (evaluateSeries c settings levels draws chained answer xs)) ys := by
  induction xs generalizing answer with
  | nil => rw [List.nil_append, evaluateSeries, List.nil_append, answerBehind_nil]
  | cons entry rest ih =>
    rw [List.cons_append, evaluateSeries, evaluateSeries, ih, answerBehind_cons]
    rfl

/-- Rows are dropped with their entries, if they have failed. -/
theorem evaluateSeries_without (xs : List Datum) (answer : Option Float) (dropped : Nat → Bool)
    (failed : ∀ i r, dropped i = true → (evaluateSeries c settings levels draws chained answer xs)[i]? = some r → r.value? = none) :
    evaluateSeries c settings levels draws chained answer (without dropped xs) =
      without dropped (evaluateSeries c settings levels draws chained answer xs) := by
  induction xs generalizing answer dropped with
  | nil => rfl
  | cons entry rest ih =>
    rw [evaluateSeries] at failed ⊢
    have later := ih _ (fun i => dropped (i + 1)) fun i r drop there => failed (i + 1) r drop there
    by_cases first : dropped 0 = true
    · -- The dropped row leaves the last answer as it is.
      rw [nextAnswer_of_failed (failed 0 _ first rfl)] at later ⊢
      simp only [without, first, if_true]
      exact later
    · simp only [without, first, evaluateSeries, Bool.false_eq_true, if_false, later]

/-- A row of a series that is not chained depends on its entry only. -/
theorem evaluateSeries_unchained (xs : List Datum) :
    evaluateSeries c settings levels draws false answer xs = xs.map fun entry => ⟨entry, evaluateEntry c settings levels draws answer entry⟩ := by
  induction xs with
  | nil => rfl
  | cons entry rest ih =>
    rw [evaluateSeries, List.map_cons]
    exact congrArg _ ih

theorem Error.report_ne_empty (cause : Error) : cause.report ≠ "" := by
  intro blank
  have chars := congrArg String.toList blank
  simp [Error.report] at chars

/-- A row shows a value and no error, or an error and what is not a number. -/
theorem Row.shows (r : Row) : (∃ value, r.outcome = .ok value ∧ r.result = value ∧ r.error? = none) ∨
    ∃ cause, r.outcome = .error cause ∧ r.result.isNaN = true ∧ r.error? = some cause.report := by
  obtain ⟨entry, outcome⟩ := r
  cases outcome with
  | ok value => exact .inl ⟨value, rfl, rfl, rfl⟩
  | error cause =>
    have missing : (0.0 / 0.0 : Float).isNaN = true := by decide
    exact .inr ⟨cause, rfl, missing, rfl⟩

/-- Whatever a row of a series over the standard operations fails for is reported. -/
theorem refusal_of_mem {xs : List Datum} {cause : Error} (member : r ∈ evaluateSeries .standard settings levels draws chained answer xs)
    (failed : r.outcome = .error cause) : cause.Refusal := by
  obtain ⟨i, there⟩ := List.mem_iff_getElem?.1 member
  rw [evaluateSeries_getElem?] at there
  obtain ⟨entry, -, rfl⟩ := Option.map_eq_some_iff.1 there
  exact evaluateText_refusal failed

/-- A series has one row for each entry, in order: the entry and what its text, or the empty one, is evaluated to behind
the last answer of the rows before. The rows of two series, one behind the other, are those of the first one and those of
the second one that starts with the last answer behind the first. Entries whose rows have failed may be left out. The
rows of a series that is not chained move with their entries. Every row shows a value and no error, or what is not a number
and the report of an error that the text accounts for. -/
theorem evaluateSeries_composes (settings : Settings) (levels : Nat) (draws : Draws) (chained : Bool)
    (answer : Option Float) (xs : List Datum) :
    let rows := evaluateSeries .standard settings levels draws chained
    (rows answer xs).length = xs.length ∧
    (∀ i entry, xs[i]? = some entry → ∃ answer', LastAnswer chained answer ((rows answer xs).take i) answer' ∧
      (rows answer xs)[i]? = some ⟨entry,
        evaluateText .standard (answerConstants answer') settings levels draws (some (entry.text?.getD ""))⟩) ∧
    (∀ ys, ∃ answer', LastAnswer chained answer (rows answer xs) answer' ∧
      rows answer (xs ++ ys) = rows answer xs ++ rows answer' ys) ∧
    (∀ dropped : Nat → Bool, (∀ i r, dropped i = true → (rows answer xs)[i]? = some r → r.value? = none) →
      rows answer (without dropped xs) = without dropped (rows answer xs)) ∧
    (chained = false → ∀ ys : List Datum, xs.Perm ys → (rows answer xs).Perm (rows answer ys) ∧
      ∀ i j : Nat, xs[i]? = ys[j]? → (rows answer xs)[i]? = (rows answer ys)[j]?) ∧
    ∀ r ∈ rows answer xs, (∃ value, r.outcome = .ok value ∧ r.result = value ∧ r.error? = none) ∨
      ∃ cause, r.outcome = .error cause ∧ cause.Refusal ∧ r.result.isNaN = true ∧
        r.error? = some cause.report ∧ cause.report ≠ "" := by
  intro rows
  refine ⟨length_evaluateSeries xs answer, fun i entry there => ?_, fun ys => ?_, evaluateSeries_without xs answer, ?_,
    fun r member => ?_⟩
  · refine ⟨_, lastAnswer_answerBehind chained answer _, ?_⟩
    rw [evaluateSeries_getElem?, there, Option.map_some]
    rfl
  · exact ⟨_, lastAnswer_answerBehind chained answer (rows answer xs), evaluateSeries_append xs ys answer⟩
  · rintro rfl ys perm
    have fixed : ∀ zs, rows answer zs = zs.map _ := evaluateSeries_unchained
    refine ⟨?_, fun i j same => ?_⟩
    · rw [fixed, fixed]
      exact perm.map _
    · rw [fixed, fixed, List.getElem?_map, List.getElem?_map, same]
  · rcases r.shows with value | ⟨cause, failed, result, error⟩
    · exact .inl value
    · exact .inr ⟨cause, failed, refusal_of_mem member failed, result, error, cause.report_ne_empty⟩

/-- A blank entry of a chained series has a row of its own and may be left out, and two entries of one that is not chained may
change places. -/
theorem evaluateSeries_composes_blank :
    let xs : List Datum := [.text "pi", .text "", .text "Ans"]
    ∀ levels draws, let rows := evaluateSeries .standard {} levels draws
      (rows true none xs).length = 3 ∧ (rows true none xs)[1]? = some ⟨.text "", .error (.parse .emptyInput)⟩ ∧
      (∀ i r, (i == 1) = true → (rows true none xs)[i]? = some r → r.value? = none) ∧
      rows true none (without (· == 1) xs) = without (· == 1) (rows true none xs) ∧
      (rows false none [.text "pi", .text "e"]).Perm (rows false none [.text "e", .text "pi"]) := by
  intro xs levels draws rows
  have blank (answer : Option Float) :
      evaluateText .standard (answerConstants answer) {} levels draws (some "") = .error (.parse .emptyInput) := by
    rw [evaluateText, parse_some, if_pos (by decide)]
  obtain ⟨length, each, -, leaves, -, -⟩ := evaluateSeries_composes {} levels draws true none xs
  obtain ⟨answer, -, second⟩ := each 1 (.text "") rfl
  rw [Datum.text?, Option.getD_some, blank] at second
  have failed : ∀ i r, (i == 1) = true → (rows true none xs)[i]? = some r → r.value? = none := by
    intro i r here there
    obtain rfl : i = 1 := eq_of_beq here
    cases second.symm.trans there
    rfl
  obtain ⟨-, -, -, -, moves, -⟩ := evaluateSeries_composes {} levels draws false none [.text "pi", .text "e"]
  exact ⟨length, second, failed, leaves _ failed, (moves rfl _ (.swap _ _ [])).1⟩

end Reckoner
