import Reckoner.Proofs.Evaluation.Levels
import Reckoner.Proofs.Evaluation.Order

/-!
# Which error an evaluation ends with

Every kind of node follows its route: an operator evaluates its operands from left to
right, a call checks the number of its arguments before the first of them, a factorial
checks its operand before the factor behind it, and a count goes no further. So an
evaluation fails exactly if some node of the route fails, with the error of the first.
-/

namespace Reckoner

open Expression Grammar

variable {entry : Entry} {left right : Option Expression} {a b r : Expression}

theorem whole_reference (entry : Entry) (left right : Option Expression) :
    whole none ⟨.reference entry, left, right⟩ =
      (liftM (entry.checkArguments right) >>= fun _ => entry.rule.evaluate whole left right) := by
  rw [whole_eq]
  rfl

theorem isCount_reference : isCount ⟨.reference entry, left, right⟩ = true ↔ entry.rule = .count := by
  simp only [isCount, entry?, Option.any_some]
  cases entry.rule <;> simp

theorem route_of_count (rule : entry.rule = .count) (left right : Option Expression) :
    route ⟨.reference entry, left, right⟩ = (routeOption left).reach ⟨.reference entry, left, right⟩ :=
  if_pos (isCount_reference.2 rule)

/-- A reference goes on to its right operand, unless it counts. -/
theorem route_of_ne_count (other : entry.rule ≠ .count) (left right : Option Expression) :
    route ⟨.reference entry, left, right⟩ =
      ((routeOption left).reach ⟨.reference entry, left, right⟩).andThen (routeOption right) :=
  if_neg (mt isCount_reference.1 other)

/-! ### Operators -/

theorem Operator.rule_ne_count (o : Operator) : o.rule ≠ .count := by
  cases o <;> simp [Operator.rule]

/-- Both operands are evaluated, the left one first. -/
theorem Operator.evaluate (o : Operator) :
    ∃ f : Float → Float → Float, ∀ a b : Expression,
      o.rule.evaluate whole (some a) (some b) = do return f (← whole none a) (← whole none b) := by
  cases o with
  | plus => exact ⟨(· + ·), fun _ _ => rfl⟩
  | minus => exact ⟨(· - ·), fun _ _ => rfl⟩
  | star => exact ⟨(· * ·), fun _ _ => rfl⟩
  | slash => exact ⟨(· / ·), fun _ _ => rfl⟩
  | caret => exact ⟨Number.power, fun _ _ => rfl⟩

theorem quiet_operator {o : Operator} (kind : entry.kind = .binary) (rule : entry.rule = o.rule) :
    Quiet ⟨.reference entry, left, right⟩ where
  passes draws := by simp [Visit.failure?, entry?, kind]
  dry := by
    cases o <;> simp [isRandom, entry?, rule, Operator.rule]

theorem follows_binary {o : Operator} (kind : entry.kind = .binary) (rule : entry.rule = o.rule)
    (ha : Follows (whole none a) a.route) (hb : Follows (whole none b) b.route) :
    Follows (whole none ⟨.reference entry, some a, some b⟩) (route ⟨.reference entry, some a, some b⟩) := by
  obtain ⟨f, evaluate⟩ := o.evaluate
  rw [route_of_ne_count (rule ▸ o.rule_ne_count), whole_reference]
  simp only [Entry.checkArguments, kind, lift_ok, pure_bind, rule, evaluate]
  exact (ha.reach (quiet_operator kind rule)).bind fun x => hb.map fun y => f x y

theorem follows_negation (kind : entry.kind = .binary) (rule : entry.rule = .subtract)
    (ha : Follows (whole none a) a.route) :
    Follows (whole none ⟨.reference entry, none, some a⟩) (route ⟨.reference entry, none, some a⟩) := by
  rw [route_of_ne_count (by simp [rule]), whole_reference]
  simp only [Entry.checkArguments, kind, lift_ok, pure_bind, rule, Rule.evaluate]
  exact (ha.map fun x => -x).enter (quiet_operator (o := .minus) kind rule)

/-! ### Factorials -/

theorem factorial?_of_failure {n : Float} {cause : EvalError} (h : factorialFailure? n = some cause) :
    Number.factorial? n = none ∧ cause = .factorialUndefined n := by
  unfold factorialFailure? at h
  split at h
  · next lacks =>
    cases h
    exact ⟨Number.factorial?_eq_none_iff.2 lacks, rfl⟩
  · cases h

theorem exists_factorial? {n : Float} (h : factorialFailure? n = none) : ∃ value, Number.factorial? n = some value := by
  refine Option.ne_none_iff_exists'.1 fun missing => ?_
  have lacks := Number.factorial?_eq_none_iff.1 missing
  simp [factorialFailure?, lacks] at h

/-- The operand is evaluated and checked before the factor behind the sign. -/
theorem follows_factorial (kind : entry.kind = .suffix) (rule : entry.rule = .factorial)
    (ha : Follows (whole none a) a.route) (factor : ∀ r ∈ right, Follows (whole none r) r.route) :
    Follows (whole none ⟨.reference entry, some a, right⟩) (route ⟨.reference entry, some a, right⟩) := by
  rw [route_of_ne_count (by simp [rule]), whole_reference]
  simp only [Entry.checkArguments, kind, lift_ok, pure_bind, rule, Rule.evaluate, operandValue]
  refine ha.check factorialFailure? ?_ ?_ ?_ ?_
  · simp [isRandom, entry?, rule]
  · intro draws
    simp only [Visit.failure?, entry?, kind, Expression.evaluate_eq]
    cases (whole none a).run draws <;> rfl
  · intro n cause failed
    obtain ⟨missing, rfl⟩ := factorial?_of_failure failed
    simp only [missing]
  · intro n passed
    obtain ⟨value, found⟩ := exists_factorial? passed
    simp only [found]
    exact .timesRight factor value

/-! ### Constants -/

/-- The next number is drawn at a `random`. -/
theorem follows_draw {node : Expression} (passes : ∀ draws, Visit.failure? ⟨node, draws⟩ = none)
    (random : node.isRandom = true) : Follows draw (Route.stay.reach node) := by
  intro draws
  constructor
  · simp [firstFailure, Route.reach, Route.stay, passes]
  · funext n
    simp [remaining, Route.reach, Route.stay, random]

theorem follows_constant (kind : entry.kind = .nullary) (callable : entry.Callable)
    (single : ∀ r ∈ right, r.isList = false) (factor : ∀ r ∈ right, Follows (whole none r) r.route) :
    Follows (whole none ⟨.reference entry, none, right⟩) (route ⟨.reference entry, none, right⟩) := by
  have passes (draws : Draws) : Visit.failure? ⟨⟨.reference entry, none, right⟩, draws⟩ = none := by
    cases right with
    | none => simp [Visit.failure?, entry?, kind]
    | some r => simp [Visit.failure?, entry?, kind, single r rfl]
  have admitted : entry.checkArguments right = .ok () := by
    cases right with
    | none => simp [Entry.checkArguments, kind]
    | some r => simp [Entry.checkArguments, kind, single r rfl]
  rcases callable.takesFactor.2 kind with rule | ⟨value, rule⟩
  · rw [route_of_ne_count (by simp [rule]), whole_reference, admitted, lift_ok, pure_bind, rule]
    have random : isRandom ⟨.reference entry, none, right⟩ = true := by simp [isRandom, entry?, rule]
    exact (follows_draw passes random).bind fun value => .timesRight factor value
  · rw [route_of_ne_count (by simp [rule]), whole_reference, admitted, lift_ok, pure_bind, rule]
    have dry : isRandom ⟨.reference entry, none, right⟩ = false := by simp [isRandom, entry?, rule]
    exact (Follows.timesRight factor value).enter ⟨passes, dry⟩

/-- A call or constant that refuses its arguments fails before any of them is evaluated. -/
theorem follows_refused (cause : EvalError) (refused : entry.checkArguments right = .error cause)
    (fails : ∀ draws, Visit.failure? ⟨⟨.reference entry, none, right⟩, draws⟩ = some cause) :
    Follows (whole none ⟨.reference entry, none, right⟩) (route ⟨.reference entry, none, right⟩) := by
  have thrown : whole none ⟨.reference entry, none, right⟩ = throw cause := by
    rw [whole_reference, refused]
    rfl
  rw [thrown]
  by_cases rule : entry.rule = .count
  · rw [route_of_count rule, ← Route.andThen_stay (Route.reach _ _)]
    exact .fail fails
  · rw [route_of_ne_count rule]
    exact .fail fails

theorem follows_refusal (kind : entry.kind = .nullary) (several : r.isList = true) :
    Follows (whole none ⟨.reference entry, none, some r⟩) (route ⟨.reference entry, none, some r⟩) :=
  follows_refused (.listRefused entry.name r.argumentCount) (by simp [Entry.checkArguments, kind, several])
    fun draws => by simp [Visit.failure?, entry?, kind, several]

/-! ### Calls -/

theorem argumentTotal_some (r : Expression) : argumentTotal (some r) = r.asArguments.length := by
  change r.argumentCount = _
  unfold argumentCount asArguments
  cases r.operation <;> rfl

theorem routeList_one (e : Expression) : routeList [e] = e.route :=
  Route.andThen_stay e.route

namespace Expression.Supplied

/-- Each position has the value of its argument. -/
theorem value_at (h : r.Supplied) {i : Nat} (there : r.asArguments[i]? = some a) :
    argumentValue whole i (some r) = whole none a := by
  cases h with
  | single h =>
    rw [asArguments_of_not_list h.single, List.getElem?_singleton] at there
    split at there
    · cases there
      exact whole_of_single h.single _
    · cases there
  | @list items length each =>
    have inside : itemAt? items (i : Int) = some a := by
      unfold itemAt?
      rw [if_neg (by omega), Int.toNat_natCast]
      exact there
    change whole (some (i : Int)) (arguments items) = _
    rw [whole_eq]
    simp only [evaluateNode, arguments, Option.bind_some, inside]

/-- To come to the arguments in order is to follow the route of what stands in the parentheses. -/
theorem follows {β : Type} {m : Evaluation β} (h : r.Supplied) (along : Follows m (routeList r.asArguments)) :
    Follows m r.route := by
  cases h with
  | single h =>
    rwa [asArguments_of_not_list h.single, routeList_one] at along
  | @list items length each =>
    have quiet : Quiet (arguments items) := ⟨fun draws => rfl, rfl⟩
    have node : (Route.stay.reach (arguments items)).andThen .stay = Route.stay.reach (arguments items) :=
      Route.andThen_stay _
    change Follows m (((Route.stay.reach (arguments items)).andThen .stay).andThen (routeList items))
    rw [node]
    exact along.enter quiet

end Expression.Supplied

/-- What is called by name, and the numbers of arguments that the functions of one and of two numbers admit. -/
theorem Entry.Callable.call_cases (h : entry.Callable) (named : entry.kind ≠ .nullary) :
    (∃ f, entry.rule = .elementary f ∧ entry.arity = ⟨1, some 1⟩) ∨
      (∃ f, entry.rule = .pairing f ∧ entry.arity = ⟨2, some 2⟩) ∨ (∃ f, entry.rule = .summary f) ∨ entry.rule = .count := by
  unfold Entry.Callable at h
  split at h <;> simp_all

theorem Arity.admits_exactly {n count : Nat} (h : Arity.admits ⟨n, some n⟩ count = true) : count = n := by
  simp only [Arity.admits, Option.all_some, Bool.and_eq_true, decide_eq_true_eq] at h
  omega

/-- A call that is admitted evaluates its arguments from the first to the last. -/
theorem follows_arguments (callable : entry.Callable) (named : entry.kind ≠ .nullary) (supplied : r.Supplied)
    (admitted : entry.arity.admits r.asArguments.length = true) (other : entry.rule ≠ .count)
    (each : ∀ a ∈ r.asArguments, Follows (whole none a) a.route) :
    Follows (entry.rule.evaluate whole none (some r)) (routeList r.asArguments) := by
  have values (i : Nat) (a : Expression) (there : r.asArguments[i]? = some a) :
      Follows (argumentValue whole i (some r)) a.route := by
    rw [supplied.value_at there]
    exact each a (List.mem_of_getElem? there)
  rcases callable.call_cases named with ⟨f, rule, arity⟩ | ⟨f, rule, arity⟩ | ⟨f, rule⟩ | rule
  · rw [arity] at admitted
    have one := Arity.admits_exactly admitted
    -- A single argument is no list, and it is evaluated as a node.
    cases supplied with
    | list length => exact absurd one length
    | single h =>
      have arguments := asArguments_of_not_list h.single
      have operand : Follows (whole none r) r.route := each r (by simp [arguments])
      rw [arguments, rule, routeList_one]
      exact operand.map f.apply
  · rw [arity] at admitted
    obtain ⟨a, b, two⟩ := List.length_eq_two.1 (Arity.admits_exactly admitted)
    rw [two] at values ⊢
    rw [routeList, routeList_one, rule]
    exact (values 0 a rfl).bind fun x => (values 1 b rfl).map fun y => f.apply x y
  · rw [rule]
    simp only [Rule.evaluate, argumentValues, argumentTotal_some]
    exact (Follows.range values).map f.apply
  · exact absurd rule other

theorem follows_call (callable : entry.Callable) (kind : entry.kind = .unary ∨ entry.kind = .variadic)
    (supplied : r.Supplied) (each : ∀ a ∈ r.asArguments, Follows (whole none a) a.route) :
    Follows (whole none ⟨.reference entry, none, some r⟩) (route ⟨.reference entry, none, some r⟩) := by
  have named : entry.kind ≠ .nullary := by rcases kind with kind | kind <;> simp [kind]
  by_cases admitted : entry.arity.admits r.asArguments.length = true
  · have passes (draws : Draws) : Visit.failure? ⟨⟨.reference entry, none, some r⟩, draws⟩ = none := by
      rcases kind with kind | kind <;> simp [Visit.failure?, entry?, kind, argumentTotal_some, admitted]
    have dry : isRandom ⟨.reference entry, none, some r⟩ = false := by
      rcases callable.call_cases named with ⟨f, rule, -⟩ | ⟨f, rule, -⟩ | ⟨f, rule⟩ | rule <;>
        simp [isRandom, entry?, rule]
    have checked : entry.checkArguments (some r) = .ok () := by
      rcases kind with kind | kind <;> simp [Entry.checkArguments, kind, argumentTotal_some, admitted]
    rw [whole_reference, checked, lift_ok, pure_bind]
    -- A count is done when the number of its arguments is checked.
    by_cases rule : entry.rule = .count
    · rw [route_of_count rule, rule]
      exact (Follows.pure _).reach ⟨passes, dry⟩
    · rw [route_of_ne_count rule]
      have along := follows_arguments callable named supplied admitted rule each
      exact (supplied.follows along).enter ⟨passes, dry⟩
  · refine follows_refused (.argumentCount entry.name entry.arity r.asArguments.length) ?_ fun draws => ?_
    · rcases kind with kind | kind <;> simp [Entry.checkArguments, kind, argumentTotal_some, admitted]
    · rcases kind with kind | kind <;> simp [Visit.failure?, entry?, kind, argumentTotal_some, admitted]

/-! ### Whole trees -/

/-- A tree that can be evaluated follows its own route. -/
theorem Expression.Evaluable.follows {e : Expression} (h : e.Evaluable) : Follows (whole none e) e.route := by
  induction h with
  | @literal value right factor ih =>
    rw [whole_eq]
    change Follows (timesRight whole value right) ((Route.stay.reach _).andThen (routeOption right))
    exact (Follows.timesRight ih value).enter ⟨fun draws => rfl, rfl⟩
  | binary o kind rule _ _ left right => exact follows_binary kind rule left right
  | negation kind rule _ operand => exact follows_negation kind rule operand
  | factorial kind rule _ _ operand factor => exact follows_factorial kind rule operand factor
  | constant kind callable factor ih => exact follows_constant kind callable (fun r there => (factor r there).single) ih
  | refusal kind several => exact follows_refusal kind several
  | @call entry a kind callable argument ih =>
    refine follows_call callable kind (.single argument) ?_
    rw [asArguments_of_not_list argument.single]
    intro x member
    rw [List.mem_singleton.1 member]
    exact ih
  | callList kind callable length each ih => exact follows_call callable kind (.list length each) ih

/-- The outcome of an evaluation is the first failure on its route. -/
theorem Expression.Evaluable.evaluate {e : Expression} (h : e.Evaluable) (draws : Draws) :
    match e.evaluate draws with
    | .ok _ => firstFailure (e.route draws) = none
    | .error cause => firstFailure (e.route draws) = some cause := by
  have along := h.follows draws
  rw [Expression.evaluate_eq]
  cases result : (whole none e).run draws with
  | error cause =>
    rw [result] at along
    exact along
  | ok pair =>
    rw [result] at along
    exact along.1

/-- What is read over the standard operations and any constants is evaluated to a number unless some node
on its route fails, and otherwise fails as the first of them does. A machine that goes down as many levels as the
tree has comes to this, and one with fewer levels does so or finds the tree too deep. -/
theorem evaluate_first_failure {constants : List (String × Float)} {settings : Settings} {source : Option String}
    {root : Expression} (parsed : parse Catalog.standard constants settings source = .ok root) (draws : Draws) :
    root.ComesTo draws (root.evaluate draws) ∧
    ((∃ value, root.evaluate draws = .ok value) ↔ ∀ visit ∈ root.route draws, visit.failure? = none) ∧
    ∀ cause, root.evaluate draws = .error cause ↔
      ∃ before visit after, root.route draws = before ++ visit :: after ∧ visit.failure? = some cause ∧
        ∀ earlier ∈ before, earlier.failure? = none := by
  refine ⟨root.comesTo_evaluate draws, ?_⟩
  have outcome := (evaluable_of_parse parsed).evaluate draws
  have none_fails : firstFailure (root.route draws) = none ↔ ∀ visit ∈ root.route draws, visit.failure? = none :=
    List.findSome?_eq_none_iff
  have first_fails (cause : EvalError) : firstFailure (root.route draws) = some cause ↔
      ∃ before visit after, root.route draws = before ++ visit :: after ∧ visit.failure? = some cause ∧
        ∀ earlier ∈ before, earlier.failure? = none := List.findSome?_eq_some_iff
  rw [← none_fails]
  simp only [← first_fails]
  cases result : root.evaluate draws with
  | ok value =>
    rw [result] at outcome
    simp [outcome]
  | error cause =>
    rw [result] at outcome
    simp [outcome]

/-- In `abs(e,pi)+pi!` both operands fail, and the error is that of the call. -/
theorem evaluate_first_failure_call :
    ∃ root, parse Catalog.standard [] {} (some "abs(e,pi)+pi!") = .ok root ∧
      ∀ draws, root.evaluate draws = .error (.argumentCount "abs" ⟨1, some 1⟩ 2) ∧
        root.ComesTo draws (.error (.argumentCount "abs" ⟨1, some 1⟩ 2)) := by
  let tokens : List Token :=
    [⟨.name, "abs", 0⟩, ⟨.opening, "(", 3⟩, ⟨.name, "e", 4⟩, ⟨.comma, ",", 5⟩, ⟨.name, "pi", 6⟩, ⟨.closing, ")", 8⟩,
      ⟨.operator .plus, "+", 9⟩, ⟨.name, "pi", 10⟩, ⟨.bang, "!", 12⟩]
  have tokenized : tokenize "abs(e,pi)+pi!" = .ok tokens := by decide +kernel
  obtain ⟨root, built, shallow, visit, later, route, failure⟩ : ∃ root,
      (Catalog.standard.withConstants []).expression tokens = .ok root ∧ root.measuredDepth ≤ 100 ∧
        ∃ (visit : Draws → Visit) (later : Draws → List Visit), (∀ draws, root.route draws = visit draws :: later draws) ∧
          ∀ draws, (visit draws).failure? = some (.argumentCount "abs" ⟨1, some 1⟩ 2) :=
    ⟨_, rfl, by decide +kernel, _, _, fun draws => rfl, fun draws => rfl⟩
  have parsed : parse Catalog.standard [] {} (some "abs(e,pi)+pi!") = .ok root :=
    parse_eq_ok_iff.2 ⟨_, tokens, rfl, by decide, by decide, tokenized, by simp [tokens], built, shallow⟩
  refine ⟨root, parsed, fun draws => ?_⟩
  obtain ⟨comes, -, failing⟩ := evaluate_first_failure parsed draws
  have result := (failing _).2 ⟨[], visit draws, later draws, route draws, failure draws, by simp⟩
  rw [result] at comes
  exact ⟨result, comes⟩

end Reckoner
