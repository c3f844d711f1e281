import Reckoner.Proofs.Evaluation.Alike
import Reckoner.Proofs.Evaluation.Evaluable
import Reckoner.Proofs.Evaluation.Route

/-!
# The first failure decides

A computation follows a route if it draws the numbers that the nodes of the route draw and
ends with the failure of the first of them that fails. Routes are joined as computations
are, so that every rule follows the route of its operands; and a tree that can be
evaluated follows its own.
-/

namespace Reckoner

open Expression

variable {β γ : Type} {draws rest : Draws} {xs ys : List Visit} {cause : EvalError} {node : Expression}

theorem firstFailure_append (xs ys : List Visit) :
    firstFailure (xs ++ ys) = (firstFailure xs).or (firstFailure ys) :=
  List.findSome?_append

theorem remaining_append (draws : Draws) (xs ys : List Visit) :
    remaining draws (xs ++ ys) = remaining (remaining draws xs) ys := by
  funext n
  simp only [remaining, List.countP_append]
  congr 1
  omega

/-- A result that the visits have: the first failure among them, or else the numbers that they leave. -/
def Agrees (result : Except EvalError (β × Draws)) (visits : List Visit) (draws : Draws) : Prop :=
  match result with
  | .ok (_, rest) => firstFailure visits = none ∧ rest = remaining draws visits
  | .error cause => firstFailure visits = some cause

/-- Nothing after the first failure matters. -/
theorem Agrees.stop (h : Agrees (.error cause : Except EvalError (β × Draws)) xs draws) :
    Agrees (.error cause : Except EvalError (γ × Draws)) (xs ++ ys) draws := by
  have first : firstFailure xs = some cause := h
  change firstFailure (xs ++ ys) = some cause
  rw [firstFailure_append, first, Option.some_or]

theorem Agrees.go {x : β} {result : Except EvalError (γ × Draws)} (h : Agrees (.ok (x, rest)) xs draws)
    (later : Agrees result ys rest) : Agrees result (xs ++ ys) draws := by
  obtain ⟨passed, rfl⟩ : firstFailure xs = none ∧ rest = remaining draws xs := h
  unfold Agrees at later ⊢
  rw [firstFailure_append, passed, Option.none_or, remaining_append]
  exact later

theorem Agrees.pass (x : β) (passes : Visit.failure? ⟨node, draws⟩ = none) (dry : node.isRandom = false) :
    Agrees (.ok (x, rest)) [⟨node, draws⟩] rest := by
  constructor
  · simp [firstFailure, passes]
  · funext n
    simp [remaining, dry]

theorem Agrees.fail (rest : Draws) (fails : Visit.failure? ⟨node, draws⟩ = some cause) :
    Agrees (.error cause : Except EvalError (β × Draws)) [⟨node, draws⟩] rest := by
  simp [Agrees, firstFailure, fails]

/-- `m` comes to the nodes of the route, and to nothing behind the first of them that fails. -/
def Follows (m : Evaluation β) (r : Route) : Prop :=
  ∀ draws, Agrees (m.run draws) (r draws) draws

/-- A node that neither fails itself nor draws a number. -/
structure Quiet (node : Expression) : Prop where
  passes (draws : Draws) : Visit.failure? ⟨node, draws⟩ = none
  dry : node.isRandom = false

theorem Route.andThen_stay (r : Route) : r.andThen .stay = r := by
  funext draws
  simp [andThen, stay]

namespace Follows

variable {m : Evaluation β} {f : β → Evaluation γ} {r s : Route}

theorem pure (x : β) : Follows (Pure.pure x) .stay :=
  fun _ => ⟨rfl, rfl⟩

theorem bind (h : Follows m r) (later : ∀ x, Follows (f x) s) : Follows (m >>= f) (r.andThen s) := by
  intro draws
  have first := h draws
  rw [StateT.run_bind]
  cases result : m.run draws with
  | error cause =>
    rw [result] at first
    exact first.stop
  | ok pair =>
    obtain ⟨x, rest⟩ := pair
    rw [result] at first
    obtain rfl : rest = remaining draws (r draws) := first.2
    exact first.go (later x _)

theorem map (h : Follows m r) (g : β → γ) : Follows (do return g (← m)) r := by
  have mapped := h.bind fun x => pure (g x)
  rwa [Route.andThen_stay] at mapped

theorem reach (h : Follows m r) (quiet : Quiet node) : Follows m (r.reach node) := by
  intro draws
  have first := h draws
  cases result : m.run draws with
  | error cause =>
    rw [result] at first
    exact first.stop
  | ok pair =>
    rw [result] at first
    exact first.go (.pass pair.1 (quiet.passes draws) quiet.dry)

/-- A quiet node without a left operand comes before the rest of the route. -/
theorem enter (quiet : Quiet node) (h : Follows m r) : Follows m ((Route.stay.reach node).andThen r) :=
  ((pure ()).reach quiet).bind fun _ => h

/-- A failing node without a left operand ends the route. -/
theorem fail (fails : ∀ draws, Visit.failure? ⟨node, draws⟩ = some cause) :
    Follows (throw cause : Evaluation β) ((Route.stay.reach node).andThen r) := by
  intro draws
  exact (Agrees.fail (β := β) draws (fails draws)).stop

/-- A node that is judged by the value of what is left of it, before anything behind it. -/
theorem check (h : Follows m r) (verdict : β → Option EvalError) (dry : node.isRandom = false)
    (judged : ∀ draws, Visit.failure? ⟨node, draws⟩ =
      match m.run draws with
      | .ok (x, _) => verdict x
      | .error _ => none)
    (refused : ∀ x cause, verdict x = some cause → f x = throw cause)
    (later : ∀ x, verdict x = none → Follows (f x) s) : Follows (m >>= f) ((r.reach node).andThen s) := by
  intro draws
  have first := h draws
  have judgement := judged draws
  rw [StateT.run_bind]
  cases result : m.run draws with
  | error cause =>
    rw [result] at first
    exact (first.stop (γ := β)).stop
  | ok pair =>
    obtain ⟨x, rest⟩ := pair
    rw [result] at first judgement
    cases failed : verdict x with
    | some cause =>
      have here := first.go (.fail (β := γ) rest (judgement.trans failed))
      change Agrees ((f x).run rest) _ draws
      rw [refused x cause failed]
      exact here.stop
    | none =>
      have here := first.go (.pass x (judgement.trans failed) dry)
      obtain rfl : rest = remaining draws (r.reach node draws) := here.2
      exact here.go (later x failed _)

/-- The values of a list of trees, one after the other. -/
theorem range {items : List Expression} {g : Nat → Evaluation γ}
    (each : ∀ i item, items[i]? = some item → Follows (g i) item.route) :
    Follows ((List.range items.length).mapM g) (routeList items) := by
  induction items generalizing g with
  | nil =>
    rw [List.length_nil, List.range_zero, List.mapM_nil]
    exact pure []
  | cons item items ih =>
    rw [List.length_cons, List.range_succ_eq_map, List.mapM_cons, List.mapM_map]
    have first : Follows (g 0) item.route := each 0 item rfl
    have later : Follows ((List.range items.length).mapM fun i => g (i + 1)) (routeList items) :=
      ih fun i item there => each (i + 1) item there
    exact first.bind fun y => later.map fun ys => y :: ys

theorem timesRight {right : Option Expression} (factor : ∀ r ∈ right, Follows (whole none r) r.route) (value : Float) :
    Follows (timesRight whole value right) (routeOption right) := by
  cases right with
  | none => exact pure value
  | some r => exact (factor r rfl).map fun x => value * x

end Follows

end Reckoner
