import Reckoner.Proofs.Evaluation.Evaluable
import Reckoner.Proofs.Stack.Sound
import Reckoner.Proofs.Token.Places

/-!
# Failures that a text accounts for

Whatever a text is refused for, reading and evaluating it does not run into a state that
the calculator has no answer to: no step of the parser misses a piece, and no operand and no
operation is missing at a node that is evaluated, however few levels the evaluation may go down.
-/

namespace Reckoner

open Expression

/-- The causes that evaluating what has been read can have: every operation is known, and every operand is there. -/
def EvalError.Refusal : EvalError → Prop
  | .unknownOperation | .operandMissing => False
  | _ => True

/-- The causes that a text can have. -/
def Error.Refusal : Error → Prop
  | .parse cause => cause.Refusal
  | .evaluation cause => cause.Refusal

/-- The computation fails for such causes only, whatever is drawn. -/
def Orderly {β : Type} (m : Evaluation β) : Prop :=
  ∀ draws cause, m.run draws = .error cause → cause.Refusal

namespace Orderly

variable {β γ : Type}

theorem pure (x : β) : Orderly (Pure.pure x : Evaluation β) := by
  intro draws cause failed
  cases failed

theorem throw {cause : EvalError} (refusal : cause.Refusal) : Orderly (MonadExcept.throw cause : Evaluation β) := by
  intro draws cause' failed
  cases failed
  exact refusal

theorem lift {result : Except EvalError β} (h : ∀ cause, result = .error cause → cause.Refusal) :
    Orderly (liftM result : Evaluation β) := by
  intro draws cause failed
  cases result with
  | ok x => cases failed
  | error cause' =>
    cases failed
    exact h _ rfl

theorem bind {m : Evaluation β} {f : β → Evaluation γ} (hm : Orderly m) (hf : ∀ x, Orderly (f x)) : Orderly (m >>= f) := by
  intro draws cause failed
  rw [StateT.run_bind] at failed
  cases first : m.run draws with
  | error cause' =>
    rw [first] at failed
    cases failed
    exact hm draws _ first
  | ok pair =>
    rw [first] at failed
    exact hf pair.1 pair.2 cause failed

theorem mapM {f : β → Evaluation γ} (hf : ∀ x, Orderly (f x)) (xs : List β) : Orderly (xs.mapM f) := by
  induction xs with
  | nil =>
    rw [List.mapM_nil]
    exact .pure []
  | cons x rest ih =>
    rw [List.mapM_cons]
    exact (hf x).bind fun y => ih.bind fun ys => .pure (y :: ys)

end Orderly

section

variable {below : Evaluator} {left right : Option Expression} {entry : Entry}

theorem orderly_timesRight (hr : ∀ e ∈ right, ∀ i, Orderly (below i e)) (value : Float) :
    Orderly (timesRight below value right) := by
  cases right with
  | none => exact .pure _
  | some e => exact (hr e rfl none).bind fun x => .pure _

/-- Arguments are refused for their number, or as a list where there is none. -/
theorem orderly_checkArguments (entry : Entry) (right : Option Expression) :
    Orderly (liftM (entry.checkArguments right) : Evaluation Unit) := by
  refine .lift fun cause failed => ?_
  cases kind : entry.kind with
  | nullary =>
    simp only [Entry.checkArguments, kind] at failed
    split at failed
    · split at failed
      · cases failed
        trivial
      · cases failed
    · cases failed
  | unary | variadic =>
    simp only [Entry.checkArguments, kind] at failed
    split at failed
    · cases failed
    · cases failed
      trivial
  | binary | suffix =>
    simp only [Entry.checkArguments, kind] at failed
    cases failed

theorem orderly_operator {a b : Expression} (o : Operator) (ha : ∀ i, Orderly (below i a)) (hb : ∀ i, Orderly (below i b)) :
    Orderly (o.rule.evaluate below (some a) (some b)) := by
  cases o <;> exact (ha none).bind fun x => (hb none).bind fun y => .pure _

theorem orderly_factorial {a : Expression} (ha : ∀ i, Orderly (below i a)) (hr : ∀ e ∈ right, ∀ i, Orderly (below i e)) :
    Orderly (Rule.factorial.evaluate below (some a) right) := by
  refine (ha none).bind fun n => ?_
  split
  · exact orderly_timesRight hr _
  · exact .throw trivial

/-- What is called by name has its arguments on the right, if it is no constant. -/
theorem orderly_callable (callable : entry.Callable) (called : entry.kind ≠ .nullary → right.isSome = true)
    (hr : ∀ e ∈ right, ∀ i, Orderly (below i e)) : Orderly (entry.rule.evaluate below left right) := by
  have argument (needs : entry.kind ≠ .nullary) : ∃ e, right = some e ∧ ∀ i, Orderly (below i e) := by
    obtain ⟨e, there⟩ := Option.isSome_iff_exists.1 (called needs)
    exact ⟨e, there, hr e there⟩
  unfold Entry.Callable at callable
  split at callable
  · next rule =>
    rw [rule]
    exact orderly_timesRight hr _
  · next rule =>
    rw [rule]
    exact Orderly.bind (fun draws cause failed => by cases failed) fun x => orderly_timesRight hr x
  · next kind rule =>
    obtain ⟨e, rfl, he⟩ := argument (by simp [kind])
    rw [rule]
    exact (he none).bind fun x => .pure _
  · next kind rule =>
    obtain ⟨e, rfl, he⟩ := argument (by simp [kind])
    rw [rule]
    exact (he _).bind fun x => (he _).bind fun y => .pure _
  · next kind rule =>
    obtain ⟨e, rfl, he⟩ := argument (by simp [kind])
    rw [rule]
    exact (Orderly.mapM (fun position => he (some (position : Nat))) _).bind fun xs => .pure _
  · next rule =>
    rw [rule]
    exact .pure _
  · exact callable.elim

/-- A node fails for no other cause than its operands. -/
theorem Expression.Evaluable.orderly_node {e : Expression} (h : e.Evaluable)
    (operand : ∀ {a : Expression}, a.Supplied → ∀ i, Orderly (below i a)) (i : Option Int) :
    Orderly (evaluateNode below i e) := by
  have option {o : Option Expression} (ho : ∀ a ∈ o, a.Evaluable) : ∀ a ∈ o, ∀ i, Orderly (below i a) :=
    fun a there => operand (.single (ho a there))
  cases h with
  | literal factor => exact orderly_timesRight (option factor) _
  | @binary entry a b o kind rule left right =>
    refine (orderly_checkArguments entry _).bind fun _ => ?_
    rw [rule]
    exact orderly_operator o (operand (.single left)) (operand (.single right))
  | @negation entry a kind rule only =>
    refine (orderly_checkArguments entry _).bind fun _ => ?_
    rw [rule]
    exact (operand (.single only) none).bind fun x => .pure _
  | @factorial entry a right kind rule left factor =>
    refine (orderly_checkArguments entry _).bind fun _ => ?_
    rw [rule]
    exact orderly_factorial (operand (.single left)) (option factor)
  | @constant entry right kind callable factor =>
    refine (orderly_checkArguments entry _).bind fun _ => ?_
    exact orderly_callable callable (fun other => absurd kind other) (option factor)
  | @refusal entry list kind several =>
    have refused : entry.checkArguments (some list) = .error (.listRefused entry.name list.argumentCount) := by
      simp [Entry.checkArguments, kind, several]
    intro draws cause failed
    simp only [evaluateNode, refused] at failed
    cases failed
    trivial
  | @call entry a kind callable argument =>
    refine (orderly_checkArguments entry _).bind fun _ => ?_
    refine orderly_callable callable (fun _ => rfl) fun e there => ?_
    cases there
    exact operand (.single argument)
  | @callList entry items kind callable length each =>
    refine (orderly_checkArguments entry _).bind fun _ => ?_
    refine orderly_callable callable (fun _ => rfl) fun e there => ?_
    cases there
    exact operand (.list length each)

/-- A list of arguments has one of them evaluated, or is asked for one that is not there. -/
theorem orderly_arguments {items : List Expression} (each : ∀ item ∈ items, ∀ i, Orderly (below i item)) (i : Option Int) :
    Orderly (evaluateNode below i (arguments items)) := by
  unfold evaluateNode
  dsimp only [arguments]
  split
  · next item found =>
    obtain ⟨k, -, there⟩ := Option.bind_eq_some_iff.1 found
    exact each item (mem_of_itemAt? there) none
  · exact .throw trivial

end

/-- However few levels an evaluation may go down, it fails for no other cause. -/
theorem Expression.Supplied.orderly {e : Expression} (h : e.Supplied) (levels : Nat) (i : Option Int) :
    Orderly (evaluateWithin levels i e) := by
  induction levels generalizing e i with
  | zero => exact .throw trivial
  | succ levels ih =>
    rw [evaluateWithin]
    cases h with
    | list _ each => exact orderly_arguments (fun item member => ih (.single (each item member))) i
    | single h => exact h.orderly_node ih i

variable {constants : List (String × Float)} {settings : Settings} {source : Option String} {levels : Nat} {draws : Draws}

/-- What refuses tokens, if there are any, is no fault of the parser. -/
theorem expression_refusal {c : Catalog} (regular : c.Regular) {tokens : List Token} {cause : ParseError} (filled : tokens ≠ [])
    (refused : c.expression tokens = .error cause) : cause.Refusal := by
  have ending := Grammar.build_ending regular tokens
  rw [Catalog.expression] at refused
  cases built : Assembly.empty.build c tokens with
  | ok result =>
    rw [built] at refused
    cases refused
  | error failure =>
    rw [built] at refused ending
    cases refused
    exact ending.resolve_right fun none => filled none.1

/-- A text that is not read over the standard operations and any constants is refused. -/
theorem parse_refusal {cause : ParseError} (refused : parse .standard constants settings source = .error cause) :
    cause.Refusal := by
  cases source with
  | none =>
    cases refused
    trivial
  | some text =>
    rcases parse_error_cases refused with limit | lexed | ⟨tokens, -, filled, failed⟩
    · cases cause with
      | emptyInput => trivial
      | inputTooLong => trivial
      | expressionTooDeep => trivial
      | _ => exact limit.elim
    · obtain ⟨c, position, -, -, -, rfl⟩ := readsAt_of_refused lexed
      trivial
    · exact expression_refusal (Catalog.regular_withConstants constants) filled failed

/-- A text without a value, over the standard operations and any constants, accounts for that. -/
theorem evaluateText_refusal {cause : Error} (failed : evaluateText .standard constants settings levels draws source = .error cause) :
    cause.Refusal := by
  unfold evaluateText at failed
  split at failed
  · next refused =>
    cases failed
    exact parse_refusal refused
  · next root parsed =>
    split at failed
    · next cause' valued =>
      cases failed
      have orderly := (Supplied.single (evaluable_of_parse parsed)).orderly levels none
      rw [Expression.value] at valued
      cases evaluated : (evaluateWithin levels none root).run draws with
      | ok pair =>
        rw [evaluated] at valued
        cases valued
      | error cause'' =>
        rw [evaluated] at valued
        cases valued
        exact orderly draws _ evaluated
    · cases failed

end Reckoner
