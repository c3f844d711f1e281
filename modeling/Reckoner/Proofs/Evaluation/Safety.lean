import Reckoner.Proofs.Evaluation.FirstFailure

/-!
# The errors of an evaluation

An evaluation fails by the failure of one node of the tree: a factorial of a number
that has none, a call with too few or too many arguments, or a constant with an argument
list. No operand is ever missing and no argument out of range, whatever numbers occur.
-/

namespace Reckoner

open Expression

/-- The ways in which a node fails by itself. -/
inductive EvalError.RaisedBy : EvalError → Expression → Prop where
  | factorial {entry operand right draws n} (kind : entry.kind = .suffix) (value : operand.evaluate draws = .ok n)
      (lacks : Number.lacksFactorial n = true) : RaisedBy (.factorialUndefined n) ⟨.reference entry, some operand, right⟩
  | call {entry left right} (kind : entry.kind = .unary ∨ entry.kind = .variadic)
      (refused : entry.arity.admits (argumentTotal right) = false) :
      RaisedBy (.argumentCount entry.name entry.arity (argumentTotal right)) ⟨.reference entry, left, right⟩
  | constant {entry left list} (kind : entry.kind = .nullary) (several : list.isList = true) :
      RaisedBy (.listRefused entry.name list.argumentCount) ⟨.reference entry, left, some list⟩

theorem Visit.raisedBy {visit : Visit} {cause : EvalError} (h : visit.failure? = some cause) :
    cause.RaisedBy visit.node := by
  obtain ⟨⟨operation, left, right⟩, draws⟩ := visit
  cases operation with
  | reference entry =>
    simp only [failure?, entry?] at h
    cases kind : entry.kind with
    | binary => simp [kind] at h
    | unary =>
      simp only [kind] at h
      split at h
      · cases h
      · next refused =>
        cases h
        exact .call (.inl kind) (eq_false_of_ne_true refused)
    | variadic =>
      simp only [kind] at h
      split at h
      · cases h
      · next refused =>
        cases h
        exact .call (.inr kind) (eq_false_of_ne_true refused)
    | suffix =>
      cases left with
      | none => simp [kind] at h
      | some operand =>
        cases value : operand.evaluate draws with
        | error _ => simp [kind, value] at h
        | ok n =>
          simp only [kind, value] at h
          obtain ⟨missing, rfl⟩ := factorial?_of_failure h
          exact .factorial kind value (Number.factorial?_eq_none_iff.1 missing)
    | nullary =>
      cases right with
      | none => simp [kind] at h
      | some list =>
        simp only [kind] at h
        split at h
        · next several =>
          cases h
          exact .constant kind several
        · cases h
  | _ => cases h

/-- A route that comes to nodes of `nodes` only. -/
def Route.Within (r : Route) (nodes : List Expression) : Prop :=
  ∀ draws, ∀ visit ∈ r draws, visit.node ∈ nodes

namespace Route.Within

variable {r s : Route} {nodes : List Expression} {node : Expression}

theorem stay (nodes : List Expression) : Route.stay.Within nodes := by
  intro draws visit member
  cases member

theorem reach (h : r.Within nodes) (root : node ∈ nodes) : (r.reach node).Within nodes := by
  intro draws visit member
  rcases List.mem_append.1 member with earlier | last
  · exact h draws visit earlier
  · rw [List.mem_singleton.1 last]
    exact root

theorem andThen (hr : r.Within nodes) (hs : s.Within nodes) : (r.andThen s).Within nodes := by
  intro draws visit member
  rcases List.mem_append.1 member with earlier | later
  · exact hr draws visit earlier
  · exact hs _ visit later

theorem option {o : Option Expression} (h : ∀ a ∈ o, a.route.Within nodes) : (routeOption o).Within nodes := by
  cases o with
  | none => exact stay nodes
  | some a => exact h a rfl

theorem list {items : List Expression} (h : ∀ item ∈ items, item.route.Within nodes) : (routeList items).Within nodes := by
  induction items with
  | nil => exact stay nodes
  | cons first rest ih =>
    have later : ∀ item ∈ rest, item.route.Within nodes := fun item member => h item (List.mem_cons_of_mem _ member)
    exact (h first List.mem_cons_self).andThen (ih later)

end Route.Within

/-- An evaluation comes to no nodes but those of the tree. -/
theorem Expression.route_within (e : Expression) : e.route.Within e.nodes := by
  induction e using induction_on_children with
  | step e ih =>
    have root : e ∈ e.nodes := by simp [nodes_eq e]
    have child {a : Expression} (member : a ∈ e.children) : a.route.Within e.nodes := by
      intro draws visit come
      have inside : visit.node ∈ a.nodes := ih a member draws visit come
      rw [nodes_eq]
      exact List.mem_cons_of_mem _ (List.mem_flatMap.2 ⟨a, member, inside⟩)
    obtain ⟨operation, left, right⟩ := e
    have hl : (routeOption left).Within (nodes ⟨operation, left, right⟩) :=
      .option fun a there => child (left_mem_children there)
    have hr : (routeOption right).Within (nodes ⟨operation, left, right⟩) :=
      .option fun a there => child (right_mem_children there)
    have reached := hl.reach root
    cases operation with
    | arguments items =>
      have each : (routeList items).Within (nodes ⟨.arguments items, left, right⟩) :=
        .list fun item member => child (item_mem_children member)
      exact (reached.andThen hr).andThen each
    | reference entry =>
      by_cases rule : entry.rule = .count
      · rw [route_of_count rule]
        exact reached
      · rw [route_of_ne_count rule]
        exact reached.andThen hr
    | literal value => exact reached.andThen hr
    | bare => exact reached.andThen hr
    | boundary symbol position => exact reached.andThen hr

/-- The evaluation of what is read over the standard operations and any constants, with levels enough for the
tree, gives a number or an error that a node of the tree raises by itself. -/
theorem evaluate_safe {constants : List (String × Float)} {settings : Settings} {source : Option String}
    {root : Expression} (parsed : parse Catalog.standard constants settings source = .ok root) {levels : Nat}
    (enough : root.depth ≤ levels) (draws : Draws) :
    (∃ value rest, (evaluateWithin levels none root).run draws = .ok (value, rest)) ∨
      ∃ cause, (evaluateWithin levels none root).run draws = .error cause ∧ ∃ n ∈ root.nodes, cause.RaisedBy n := by
  rw [evaluateWithin_of_le enough]
  have along := (evaluable_of_parse parsed).follows draws
  change Agrees ((evaluateWithin root.depth none root).run draws) _ _ at along
  cases result : (evaluateWithin root.depth none root).run draws with
  | ok pair =>
    obtain ⟨value, rest⟩ := pair
    exact .inl ⟨value, rest, rfl⟩
  | error cause =>
    rw [result] at along
    obtain ⟨visit, come, failure⟩ := List.exists_of_findSome?_eq_some along
    exact .inr ⟨cause, rfl, visit.node, root.route_within draws visit come, visit.raisedBy failure⟩

/-- A constant that hides a function refuses two arguments. -/
theorem evaluate_safe_hidden :
    ∃ root, parse Catalog.standard [("abs", 0.0)] {} (some "-abs(e,pi)") = .ok root ∧ root.depth ≤ 4 ∧
      ∀ draws, (evaluateWithin 4 none root).run draws = .error (.listRefused "abs" 2) ∧
        ∃ n ∈ root.nodes, (EvalError.listRefused "abs" 2).RaisedBy n := by
  let tokens : List Token :=
    [⟨.operator .minus, "-", 0⟩, ⟨.name, "abs", 1⟩, ⟨.opening, "(", 4⟩, ⟨.name, "e", 5⟩, ⟨.comma, ",", 6⟩,
      ⟨.name, "pi", 7⟩, ⟨.closing, ")", 9⟩]
  have tokenized : tokenize "-abs(e,pi)" = .ok tokens := by decide +kernel
  obtain ⟨root, built, shallow, enough, refused⟩ : ∃ root,
      (Catalog.standard.withConstants [("abs", 0.0)]).expression tokens = .ok root ∧ root.measuredDepth ≤ 100 ∧
        root.depth ≤ 4 ∧
        ∀ draws, (evaluateWithin 4 none root).run draws = .error (.listRefused "abs" 2) :=
    ⟨_, rfl, by decide +kernel, by decide, fun draws => rfl⟩
  have parsed : parse Catalog.standard [("abs", 0.0)] {} (some "-abs(e,pi)") = .ok root :=
    parse_eq_ok_iff.2 ⟨_, tokens, rfl, by decide, by decide, tokenized, by simp [tokens], built, shallow⟩
  refine ⟨root, parsed, enough, fun draws => ⟨refused draws, ?_⟩⟩
  rcases evaluate_safe parsed enough draws with ⟨value, rest, given⟩ | ⟨cause, failed, raised⟩
  · rw [refused draws] at given
    cases given
  · rw [refused draws] at failed
    cases failed
    exact raised

end Reckoner
