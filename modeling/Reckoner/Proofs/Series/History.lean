import Mathlib.Data.List.Induction
import Reckoner.Batch

/-!
# Rows and the rows before them

The entry of a row is evaluated with the last answer behind the rows before it. Nothing else of
these rows matters, and of the answers among them only the latest.
-/

namespace Reckoner

/-- `a` is the last answer behind `rows`: the given one if the series is not chained or no row has
succeeded, and otherwise the value of the latest row that has. -/
inductive LastAnswer (chained : Bool) (answer : Option Float) (rows : List Row) : Option Float → Prop where
  | fixed (unchained : chained = false) : LastAnswer chained answer rows answer
  | first (failed : ∀ r ∈ rows, r.value? = none) : LastAnswer chained answer rows answer
  | latest {before r after value} (feeds : chained = true) (split : rows = before ++ r :: after)
      (succeeded : r.value? = some value) (failed : ∀ later ∈ after, later.value? = none) :
      LastAnswer chained answer rows (some value)

/-- The last answer behind some rows, from the latest row back. -/
def answerBehind (chained : Bool) (answer : Option Float) (rows : List Row) : Option Float :=
  if chained then (rows.reverse.findSome? Row.value?).or answer else answer

variable {c : Catalog} {settings : Settings} {levels : Nat} {draws : Draws} {chained : Bool} {answer a : Option Float}
  {rows : List Row}

/-- Going over the rows from the first to the last leads to the same answer. -/
theorem answerBehind_cons (r : Row) (rows : List Row) :
    answerBehind chained answer (r :: rows) = answerBehind chained (nextAnswer chained answer r) rows := by
  cases chained with
  | false => rfl
  | true =>
    simp only [answerBehind, nextAnswer, if_true, List.reverse_cons, List.findSome?_append, Option.or_assoc]
    cases value : r.value? <;> simp [value]

theorem lastAnswer_answerBehind (chained : Bool) (answer : Option Float) (rows : List Row) :
    LastAnswer chained answer rows (answerBehind chained answer rows) := by
  cases chained with
  | false => exact .fixed rfl
  | true =>
    rw [answerBehind, if_pos rfl]
    cases found : rows.reverse.findSome? Row.value? with
    | none =>
      refine .first fun r member => ?_
      exact List.findSome?_eq_none_iff.1 found r (List.mem_reverse.2 member)
    | some value =>
      obtain ⟨after, r, before, split, succeeded, failed⟩ := List.findSome?_eq_some_iff.1 found
      have order : rows = before.reverse ++ r :: after.reverse := by
        rw [← List.reverse_reverse rows, split]
        simp
      exact .latest rfl order succeeded fun later member => failed later (List.mem_reverse.1 member)

/-- There is one last answer. -/
theorem LastAnswer.eq_answerBehind (h : LastAnswer chained answer rows a) : a = answerBehind chained answer rows := by
  cases h with
  | fixed unchained => simp [answerBehind, unchained]
  | first failed =>
    have none_succeeded : rows.reverse.findSome? Row.value? = none :=
      List.findSome?_eq_none_iff.2 fun r member => failed r (List.mem_reverse.1 member)
    simp [answerBehind, none_succeeded]
  | @latest before r after value feeds split succeeded failed =>
    have later_failed : after.reverse.findSome? Row.value? = none :=
      List.findSome?_eq_none_iff.2 fun r member => failed r (List.mem_reverse.1 member)
    simp [answerBehind, feeds, split, List.findSome?_append, later_failed, succeeded]

theorem length_evaluateSeries (entries : List Datum) (answer : Option Float) :
    (evaluateSeries c settings levels draws chained answer entries).length = entries.length := by
  induction entries generalizing answer with
  | nil => rfl
  | cons entry rest ih => simp only [evaluateSeries, List.length_cons, ih]

/-- Each row is that of its entry, with the last answer behind the rows before it. -/
theorem evaluateSeries_getElem? (entries : List Datum) (answer : Option Float) (i : Nat) :
    (evaluateSeries c settings levels draws chained answer entries)[i]? = entries[i]?.map fun entry =>
      ⟨entry, evaluateEntry c settings levels draws
        (answerBehind chained answer ((evaluateSeries c settings levels draws chained answer entries).take i)) entry⟩ := by
  induction entries generalizing answer i with
  | nil => rfl
  | cons entry rest ih =>
    cases i with
    | zero => simp [evaluateSeries, answerBehind]
    | succ i =>
      simp only [evaluateSeries, List.getElem?_cons_succ, List.take_succ_cons, answerBehind_cons]
      exact ih _ i

end Reckoner
