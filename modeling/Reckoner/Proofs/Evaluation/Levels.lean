import Reckoner.Proofs.Evaluation.Whole

/-!
# How far an evaluation goes down

An evaluation that may go down fewer levels comes to the same result or ends because it may not go further. So a tree comes
to its result on every machine that goes down far enough, and on no machine to another one.
-/

namespace Reckoner

open Expression

variable {β γ : Type} {m m' : Evaluation β} {below below' : Evaluator} {left right : Option Expression}

/-- `m` does what `m'` does, or ends for want of levels. -/
def Truncates (m m' : Evaluation β) : Prop :=
  ∀ draws, m.run draws = .error .tooDeep ∨ m.run draws = m'.run draws

namespace Truncates

theorem refl (m : Evaluation β) : Truncates m m := fun _ => .inr rfl

theorem bind {f f' : β → Evaluation γ} (h : Truncates m m') (later : ∀ x, Truncates (f x) (f' x)) :
    Truncates (m >>= f) (m' >>= f') := by
  intro draws
  rw [StateT.run_bind, StateT.run_bind]
  rcases h draws with deep | same
  · rw [deep]
    exact .inl rfl
  · rw [same]
    cases m'.run draws with
    | error cause => exact .inr rfl
    | ok pair => exact later pair.1 pair.2

theorem mapM {f f' : γ → Evaluation β} (h : ∀ x, Truncates (f x) (f' x)) (xs : List γ) :
    Truncates (xs.mapM f) (xs.mapM f') := by
  induction xs with
  | nil => exact refl _
  | cons x rest ih =>
    rw [List.mapM_cons, List.mapM_cons]
    exact (h x).bind fun y => ih.bind fun ys => refl _

end Truncates

/-- The nodes below are evaluated so, with and without a position. -/
def TruncatesBelow (below below' : Evaluator) : Prop :=
  ∀ i e, Truncates (below i e) (below' i e)

namespace TruncatesBelow

variable (h : TruncatesBelow below below')

include h

theorem operandValue (o : Option Expression) : Truncates (operandValue below o) (operandValue below' o) := by
  cases o with
  | none => exact .refl _
  | some e => exact h none e

theorem argumentValue (position : Nat) (o : Option Expression) :
    Truncates (argumentValue below position o) (argumentValue below' position o) := by
  cases o with
  | none => exact .refl _
  | some e => exact h (some (position : Int)) e

theorem timesRight (value : Float) (o : Option Expression) :
    Truncates (timesRight below value o) (timesRight below' value o) := by
  cases o with
  | none => exact .refl _
  | some e => exact (h none e).bind fun x => .refl _

/-- The operands are evaluated one after the other. -/
theorem rule (rule : Rule) : Truncates (rule.evaluate below left right) (rule.evaluate below' left right) := by
  cases rule with
  | add | multiply | divide | power =>
    exact (h.operandValue left).bind fun x => (h.operandValue right).bind fun y => .refl _
  | subtract =>
    cases left with
    | none => exact (h.operandValue right).bind fun x => .refl _
    | some a => exact (h.operandValue (some a)).bind fun x => (h.operandValue right).bind fun y => .refl _
  | factorial =>
    refine (h.operandValue left).bind fun n => ?_
    cases Number.factorial? n with
    | none => exact .refl _
    | some value => exact h.timesRight value right
  | elementary f => exact (h.operandValue right).bind fun x => .refl _
  | pairing f => exact (h.argumentValue 0 right).bind fun x => (h.argumentValue 1 right).bind fun y => .refl _
  | summary f => exact (Truncates.mapM (fun position => h.argumentValue position right) _).bind fun xs => .refl _
  | count => exact .refl _
  | constant value => exact h.timesRight value right
  | random => exact (Truncates.refl draw).bind fun value => h.timesRight value right

theorem node : TruncatesBelow (evaluateNode below) (evaluateNode below') := by
  intro i e
  unfold evaluateNode
  cases e.operation with
  | literal value => exact h.timesRight value e.right
  | arguments items =>
    dsimp only
    cases i.bind (itemAt? items) with
    | none => exact .refl _
    | some item => exact h none item
  | reference entry => exact (Truncates.refl _).bind fun _ => h.rule entry.rule
  | bare => exact .refl _
  | boundary => exact .refl _

end TruncatesBelow

/-- Fewer levels change nothing but that they may not be enough. -/
theorem evaluateWithin_truncates {n m : Nat} (fewer : n ≤ m) : TruncatesBelow (evaluateWithin n) (evaluateWithin m) := by
  induction n generalizing m with
  | zero => exact fun _ _ _ => .inl rfl
  | succ n ih =>
    obtain ⟨m, rfl⟩ : ∃ k, m = k + 1 := ⟨m - 1, by omega⟩
    exact (ih (Nat.le_of_succ_le_succ fewer)).node

/-- What becomes of a tree, however many levels a machine goes down: the result, if these are as many as the tree has, and
with fewer the result or that they are too few. -/
structure Expression.ComesTo (e : Expression) (draws : Draws) (result : Except EvalError Float) : Prop where
  enough : ∀ levels, e.depth ≤ levels → e.value levels none draws = result
  fewer : ∀ levels, e.value levels none draws = result ∨ e.value levels none draws = .error .tooDeep

namespace Expression

variable {e : Expression} {draws : Draws} {levels : Nat}

theorem value_of_depth_le (enough : e.depth ≤ levels) : e.value levels none draws = e.evaluate draws := by
  rw [value, evaluateWithin_of_le enough]
  rfl

theorem comesTo_evaluate (e : Expression) (draws : Draws) : e.ComesTo draws (e.evaluate draws) where
  enough _ enough := value_of_depth_le enough
  fewer levels := by
    by_cases enough : e.depth ≤ levels
    · exact .inl (value_of_depth_le enough)
    · rcases evaluateWithin_truncates (Nat.le_of_not_le enough) none e draws with deep | same
      · refine .inr ?_
        rw [value, deep]
        rfl
      · refine .inl ?_
        rw [value, same]
        rfl

end Expression

end Reckoner
