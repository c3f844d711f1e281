import Reckoner.Expression.Evaluate
import Reckoner.Proofs.Expression.Shape

/-!
# Evaluation of a whole tree

Beyond the depth of a tree the bound on the levels of its evaluation does not matter.
`whole` goes down as far as each tree is deep, and so it satisfies the equation
of `evaluateNode` without any bound. A tree without random numbers is evaluated
to the same result whatever is drawn.
-/

namespace Reckoner

open Expression

section

variable {below below' : Evaluator} {left right : Option Expression}

theorem operandValue_congr {o : Option Expression} (same : ∀ e ∈ o, ∀ i, below i e = below' i e) :
    operandValue below o = operandValue below' o := by
  cases o with
  | none => rfl
  | some e => exact same e rfl none

theorem argumentValue_congr {o : Option Expression} (same : ∀ e ∈ o, ∀ i, below i e = below' i e) (position : Nat) :
    argumentValue below position o = argumentValue below' position o := by
  cases o with
  | none => rfl
  | some e => exact same e rfl (some position)

theorem timesRight_congr {o : Option Expression} (same : ∀ e ∈ o, ∀ i, below i e = below' i e) (value : Float) :
    timesRight below value o = timesRight below' value o := by
  cases o with
  | none => rfl
  | some e => simp only [timesRight, same e rfl none]

theorem argumentValues_congr {o : Option Expression} (same : ∀ e ∈ o, ∀ i, below i e = below' i e) :
    argumentValues below o = argumentValues below' o := by
  simp only [argumentValues, argumentValue_congr same]

/-- A rule sees its operands through the evaluator alone. -/
theorem Rule.evaluate_congr (rule : Rule) (hl : ∀ e ∈ left, ∀ i, below i e = below' i e)
    (hr : ∀ e ∈ right, ∀ i, below i e = below' i e) :
    rule.evaluate below left right = rule.evaluate below' left right := by
  cases rule <;>
    simp only [Rule.evaluate, operandValue_congr hl, operandValue_congr hr, argumentValue_congr hr,
      argumentValues_congr hr, timesRight_congr hr]

theorem Expression.mem_of_itemAt? {items : List Expression} {item : Expression} {k : Int}
    (there : itemAt? items k = some item) : item ∈ items := by
  unfold itemAt? at there
  split at there
  · cases there
  · exact List.mem_of_getElem? there

/-- A node sees its children through the evaluator alone. -/
theorem evaluateNode_congr {e : Expression} (same : ∀ child ∈ e.children, ∀ i, below i child = below' i child)
    (i : Option Int) : evaluateNode below i e = evaluateNode below' i e := by
  have hl : ∀ l ∈ e.left, ∀ i, below i l = below' i l := fun l member => same l (by simp_all [children])
  have hr : ∀ r ∈ e.right, ∀ i, below i r = below' i r := fun r member => same r (by simp_all [children])
  unfold evaluateNode
  cases operation : e.operation with
  | literal value => exact timesRight_congr hr value
  | reference entry => simp only [entry.rule.evaluate_congr hl hr]
  | arguments items =>
    dsimp only
    cases found : i.bind (itemAt? items) with
    | none => rfl
    | some item =>
      obtain ⟨k, -, there⟩ := Option.bind_eq_some_iff.1 found
      exact same item (by simp [children, operation, Operation.items, mem_of_itemAt? there]) none
  | bare => rfl
  | boundary => rfl

end

/-- Every child is less deep. -/
theorem depth_lt {e child : Expression} (h : child ∈ e.children) : child.depth < e.depth := by
  have bound := depthList_le_iff.1 (Nat.le_refl _) child h
  have deeper := depth_eq e
  omega

theorem depth_pos (e : Expression) : 0 < e.depth := by
  rw [depth_eq]
  omega

/-- What holds of a tree as soon as it holds of all its children holds of every tree. -/
theorem Expression.induction_on_children {P : Expression → Prop}
    (step : ∀ e : Expression, (∀ child ∈ e.children, P child) → P e) (e : Expression) : P e := by
  induction same : e.depth using Nat.strongRecOn generalizing e with
  | ind d ih =>
    apply step
    intro child member
    have less := depth_lt member
    exact ih child.depth (by omega) child rfl

namespace Expression

variable {operation : Operation Expression} {left right : Option Expression} {child : Expression}

theorem left_mem_children (here : child ∈ left) : child ∈ children ⟨operation, left, right⟩ := by
  simp [children, Option.mem_def.1 here]

theorem right_mem_children (here : child ∈ right) : child ∈ children ⟨operation, left, right⟩ := by
  simp [children, Option.mem_def.1 here]

theorem item_mem_children {items : List Expression} (here : child ∈ items) :
    child ∈ children ⟨.arguments items, left, right⟩ := by
  simp [children, Operation.items, here]

end Expression

/-- More levels than a tree has change nothing. -/
theorem evaluateWithin_of_le {n : Nat} {e : Expression} (h : e.depth ≤ n) (i : Option Int) :
    evaluateWithin n i e = evaluateWithin e.depth i e := by
  induction n using Nat.strongRecOn generalizing e i with
  | ind n ih =>
    have positive := depth_pos e
    obtain ⟨m, rfl⟩ : ∃ m, n = m + 1 := ⟨n - 1, by omega⟩
    obtain ⟨d, same⟩ : ∃ d, e.depth = d + 1 := ⟨e.depth - 1, by omega⟩
    rw [same, evaluateWithin, evaluateWithin]
    refine evaluateNode_congr (fun child member j => ?_) i
    have less := depth_lt member
    rw [ih m (by omega) (by omega), ih d (by omega) (by omega)]

/-- Evaluation with as many levels as a tree has. -/
def whole : Evaluator := fun i e => evaluateWithin e.depth i e

theorem whole_eq (i : Option Int) (e : Expression) : whole i e = evaluateNode whole i e := by
  obtain ⟨d, same⟩ : ∃ d, e.depth = d + 1 := ⟨e.depth - 1, by have := depth_pos e; omega⟩
  rw [whole, same, evaluateWithin]
  refine evaluateNode_congr (fun child member j => ?_) i
  have less := depth_lt member
  exact evaluateWithin_of_le (by omega) j

theorem Expression.evaluate_eq (draws : Draws) (e : Expression) :
    e.evaluate draws = ((whole none e).run draws).map Prod.fst := rfl

/-- The computation has one result, whatever is drawn, and draws nothing itself. -/
def Steady {β : Type} (m : Evaluation β) : Prop :=
  ∃ result : Except EvalError β, ∀ draws, m.run draws = result.map fun x => (x, draws)

namespace Steady

variable {β γ : Type}

theorem pure (x : β) : Steady (Pure.pure x : Evaluation β) := ⟨.ok x, fun _ => rfl⟩

theorem throw (cause : EvalError) : Steady (MonadExcept.throw cause : Evaluation β) := ⟨.error cause, fun _ => rfl⟩

theorem lift (result : Except EvalError β) : Steady (liftM result : Evaluation β) :=
  ⟨result, fun draws => by cases result <;> rfl⟩

theorem bind {m : Evaluation β} {f : β → Evaluation γ} (hm : Steady m) (hf : ∀ x, Steady (f x)) :
    Steady (m >>= f) := by
  obtain ⟨result, same⟩ := hm
  cases result with
  | error cause => exact ⟨.error cause, fun draws => by rw [StateT.run_bind, same]; rfl⟩
  | ok x =>
    obtain ⟨result', same'⟩ := hf x
    exact ⟨result', fun draws => by rw [StateT.run_bind, same]; exact same' draws⟩

theorem mapM {f : β → Evaluation γ} (hf : ∀ x, Steady (f x)) (xs : List β) : Steady (xs.mapM f) := by
  induction xs with
  | nil =>
    rw [List.mapM_nil]
    exact .pure []
  | cons x rest ih =>
    rw [List.mapM_cons]
    exact (hf x).bind fun y => ih.bind fun ys => .pure (y :: ys)

/-- A steady computation that gives a value once is that value. -/
theorem eq_pure {m : Evaluation β} (h : Steady m) {draws : Draws} {x : β}
    (given : (m.run draws).map Prod.fst = .ok x) : m = Pure.pure x := by
  obtain ⟨result, same⟩ := h
  rw [same draws] at given
  cases result with
  | error cause => cases given
  | ok y =>
    cases given
    exact funext same

end Steady

section

variable {below : Evaluator} {left right : Option Expression}

theorem steady_operandValue {o : Option Expression} (steady : ∀ e ∈ o, ∀ i, Steady (below i e)) :
    Steady (operandValue below o) := by
  cases o with
  | none => exact .throw _
  | some e => exact steady e rfl none

theorem steady_argumentValue {o : Option Expression} (steady : ∀ e ∈ o, ∀ i, Steady (below i e)) (position : Nat) :
    Steady (argumentValue below position o) := by
  cases o with
  | none => exact .throw _
  | some e => exact steady e rfl (some position)

theorem steady_timesRight {o : Option Expression} (steady : ∀ e ∈ o, ∀ i, Steady (below i e)) (value : Float) :
    Steady (timesRight below value o) := by
  cases o with
  | none => exact .pure _
  | some e => exact (steady e rfl none).bind fun x => .pure _

/-- Only one rule draws a number. -/
theorem Rule.steady {rule : Rule} (other : rule ≠ .random) (hl : ∀ e ∈ left, ∀ i, Steady (below i e))
    (hr : ∀ e ∈ right, ∀ i, Steady (below i e)) : Steady (rule.evaluate below left right) := by
  have a := steady_operandValue hl
  have b := steady_operandValue hr
  have between (f : Float → Float → Float) :
      Steady (do let x ← operandValue below left; let y ← operandValue below right; return f x y) :=
    a.bind fun x => b.bind fun y => .pure _
  cases rule with
  | add => exact between _
  | subtract =>
    cases left with
    | none => exact b.bind fun y => .pure _
    | some l => exact between _
  | multiply => exact between _
  | divide => exact between _
  | power => exact between _
  | factorial =>
    refine a.bind fun n => ?_
    split
    · exact steady_timesRight hr _
    · exact .throw _
  | elementary f => exact b.bind fun y => .pure _
  | pairing f =>
    exact (steady_argumentValue hr 0).bind fun x => (steady_argumentValue hr 1).bind fun y => .pure _
  | summary f => exact (Steady.mapM (fun position => steady_argumentValue hr position) _).bind fun xs => .pure _
  | count => exact .pure _
  | constant value => exact steady_timesRight hr value
  | random => exact absurd rfl other

end

/-- No random number occurs in the tree. -/
def Expression.Fixed (e : Expression) : Prop :=
  ∀ n ∈ e.nodes, ∀ entry, n.operation = .reference entry → entry.rule ≠ .random

/-- A tree without random numbers is evaluated to one result. -/
theorem Expression.Fixed.steady {e : Expression} (h : e.Fixed) (i : Option Int) : Steady (whole i e) := by
  induction e using induction_on_children generalizing i with
  | step e ih =>
    obtain ⟨root, below⟩ := forall_nodes.1 h
    have children : ∀ child ∈ e.children, ∀ i, Steady (whole i child) := fun child member =>
      ih child member (below child member)
    have hl : ∀ l ∈ e.left, ∀ i, Steady (whole i l) := fun l member => children l (by simp_all [Expression.children])
    have hr : ∀ r ∈ e.right, ∀ i, Steady (whole i r) := fun r member => children r (by simp_all [Expression.children])
    rw [whole_eq, evaluateNode]
    cases operation : e.operation with
    | literal value => exact steady_timesRight hr value
    | reference entry =>
      exact (Steady.lift (entry.checkArguments e.right)).bind fun _ => Rule.steady (root entry operation) hl hr
    | arguments items =>
      dsimp only
      split
      · next item found =>
        obtain ⟨k, -, there⟩ := Option.bind_eq_some_iff.1 found
        exact children item (by simp [Expression.children, operation, Operation.items, mem_of_itemAt? there]) none
      · exact .throw _
    | bare => exact .throw _
    | boundary => exact .throw _

end Reckoner
