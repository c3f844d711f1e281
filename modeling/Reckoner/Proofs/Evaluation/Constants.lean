import Reckoner.Proofs.Evaluation.Levels
import Reckoner.Proofs.Grammar.Constants
import Reckoner.Proofs.Grammar.Exact
import Reckoner.Proofs.Grammar.Marks

/-!
# Constants and numbers

A constant that has been added behaves as the number typed in its place. Where numbers
stand for the constants of a text, the tree is the same but for these nodes, and is
evaluated to the same result, with any number of levels.
-/

namespace Reckoner

open Expression Grammar

variable {constants : List (String × Float)} {below : Evaluator} {left right : Option Expression} {e : Expression}

theorem timesRight_map (f : Expression → Expression) (value : Float) :
    timesRight below value (right.map f) = timesRight (fun i e => below i (f e)) value right := by
  cases right <;> rfl

theorem itemAt?_map (f : Expression → Expression) (items : List Expression) (k : Int) :
    itemAt? (items.map f) k = (itemAt? items k).map f := by
  unfold itemAt?
  split
  · rfl
  · exact List.getElem?_map

/-- Rewritten operands are evaluated by rewriting them first. -/
theorem Rule.evaluate_map {f : Expression → Expression} (count : ∀ e, (f e).argumentCount = e.argumentCount) (rule : Rule) :
    rule.evaluate below (left.map f) (right.map f) = rule.evaluate (fun i e => below i (f e)) left right := by
  have total : argumentTotal (right.map f) = argumentTotal right := by
    cases right with
    | none => rfl
    | some e => exact count e
  have operand (o : Option Expression) : operandValue below (o.map f) = operandValue (fun i e => below i (f e)) o := by
    cases o <;> rfl
  have argument (position : Nat) :
      argumentValue below position (right.map f) = argumentValue (fun i e => below i (f e)) position right := by
    cases right <;> rfl
  cases rule with
  | subtract =>
    simp only [Rule.evaluate, operand]
    cases left <;> rfl
  | _ => simp only [Rule.evaluate, operand, argument, argumentValues, total, timesRight_map]

theorem checkArguments_withNumbers (entry : Entry) (right : Option Expression) :
    entry.checkArguments (right.map (withNumbers constants)) = entry.checkArguments right := by
  cases right with
  | none => rfl
  | some e =>
    simp only [Entry.checkArguments, Option.map_some, argumentTotal, isList_withNumbers, argumentCount_withNumbers]
    cases entry.kind <;> rfl

/-- A node is evaluated as before, with its children rewritten. A number refuses no argument list, so none may
stand behind one. -/
theorem evaluateNode_withNumbers (shaped : (e.withNumbers constants).WellShaped) (i : Option Int) :
    evaluateNode below i (e.withNumbers constants) = evaluateNode (fun j child => below j (child.withNumbers constants)) i e := by
  obtain ⟨operation, left, right⟩ := e
  cases operation with
  | literal value =>
    simp only [withNumbers, withNumbersOption_eq, evaluateNode]
    exact timesRight_map _ value
  | reference entry =>
    cases stands : entry.number? constants with
    | none =>
      rw [withNumbers_reference stands]
      simp only [evaluateNode, checkArguments_withNumbers, entry.rule.evaluate_map argumentCount_withNumbers]
    | some value =>
      rw [withNumbers_constant stands] at shaped ⊢
      obtain ⟨kind, rule⟩ := Entry.of_number? stands
      have admitted : entry.checkArguments right = .ok () := by
        cases right with
        | none => simp [Entry.checkArguments, kind]
        | some r =>
          cases list : r.isList with
          | false => simp [Entry.checkArguments, kind, list]
          | true =>
            obtain ⟨_, operation, -⟩ := shaped.right _ rfl (by rw [isList_withNumbers, list])
            cases operation
      simp only [evaluateNode, admitted, rule, Rule.evaluate]
      exact timesRight_map _ value
  | arguments items =>
    simp only [withNumbers, withNumbersList_eq, evaluateNode, List.length_map]
    cases i with
    | none => rfl
    | some k =>
      simp only [Option.bind_some, itemAt?_map]
      cases itemAt? items k <;> rfl
  | bare => rfl
  | boundary => rfl

/-- A tree is evaluated as before, with any number of levels. -/
theorem evaluateWithin_withNumbers (shaped : ∀ n ∈ (e.withNumbers constants).nodes, n.WellShaped) (levels : Nat)
    (i : Option Int) : evaluateWithin levels i (e.withNumbers constants) = evaluateWithin levels i e := by
  induction levels generalizing e i with
  | zero => rfl
  | succ levels ih =>
    obtain ⟨root, children⟩ := forall_nodes.1 shaped
    rw [children_withNumbers] at children
    rw [evaluateWithin, evaluateNode_withNumbers root]
    exact evaluateNode_congr (fun child member j => ih (children _ (List.mem_map_of_mem member)) j) i

/-- What numbers in the place of added constants are built to is also built of the constants, if none of them is
called: the tree is the same but for the numbers, in whose place it has the names, and its value is the same. The machines
on which the two are evaluated need not go down equally far, and the same comes of both unless one of them is too deep. -/
theorem evaluate_constants (constants : List (String × Float)) {tokens typed : List Token} {root' : Expression}
    (stands : List.Forall₂ (Token.Numbered constants) tokens typed)
    (uncalled : ∀ before t o after, tokens = before ++ t :: o :: after → (t.constant? constants).isSome →
      o.kind ≠ .opening)
    (built : Catalog.standard.expression typed = .ok root') :
    ∃ root, (Catalog.standard.withConstants constants).expression tokens = .ok root ∧
      root.withNumbers constants = root' ∧
      root.marks.filter (fun m => !m.isStar) = (tokens.filterMap Token.mark?).filter (fun m => !m.isStar) ∧
      (∀ draws, root.evaluate draws = root'.evaluate draws) ∧
      ∀ draws, root.ComesTo draws (root'.evaluate draws) ∧ root'.ComesTo draws (root'.evaluate draws) := by
  have regular := Catalog.regular_withConstants constants
  have phrase := (expression_eq_ok_iff Catalog.regular_standard).1 built
  have numbered : Grammar.Numbered constants none tokens typed := by
    refine ⟨stands, fun before t after split constant => ?_⟩
    cases after with
    | nil => simp
    | cons o after => simpa using uncalled before t o after split constant
  obtain ⟨root, read, rfl⟩ := phrase.restores Catalog.regular_standard numbered id
  have same (draws : Draws) : root.evaluate draws = (root.withNumbers constants).evaluate draws := by
    -- Both trees are evaluated with the levels of the deeper one.
    rw [← value_of_depth_le (le_max_left root.depth (root.withNumbers constants).depth),
      ← value_of_depth_le (le_max_right root.depth (root.withNumbers constants).depth), value, value,
      evaluateWithin_withNumbers (phrase.denotes Catalog.regular_standard).2.shaped]
  refine ⟨root, (expression_eq_ok_iff regular).2 read, rfl, (read.shown regular []).filter_eq, same, fun draws => ?_⟩
  refine ⟨?_, comesTo_evaluate _ draws⟩
  rw [← same]
  exact root.comesTo_evaluate draws

/-- With a constant of the name `sin` that is two, `3 sin !` is evaluated as `3 2 !` is. -/
theorem evaluate_constants_hidden :
    ∃ v, Decimal.read? "2" = some v ∧
      let constants := [("sin", v)]
      let tokens : List Token := [⟨.number, "3", 0⟩, ⟨.name, "sin", 2⟩, ⟨.bang, "!", 6⟩]
      let typed : List Token := [⟨.number, "3", 0⟩, ⟨.number, "2", 2⟩, ⟨.bang, "!", 6⟩]
      ∃ root root', Catalog.standard.expression typed = .ok root' ∧
        (Catalog.standard.withConstants constants).expression tokens = .ok root ∧
        root.withNumbers constants = root' ∧ ∀ draws, root.evaluate draws = root'.evaluate draws := by
  obtain ⟨v, read⟩ : ∃ v, Decimal.read? "2" = some v := ⟨_, rfl⟩
  refine ⟨v, read, ?_⟩
  intro constants tokens typed
  obtain ⟨root', built⟩ : ∃ root', Catalog.standard.expression typed = .ok root' := ⟨_, rfl⟩
  have stands : List.Forall₂ (Token.Numbered constants) tokens typed := .cons rfl (.cons ⟨rfl, read⟩ (.cons rfl .nil))
  have uncalled : ∀ before t o after, tokens = before ++ t :: o :: after → (t.constant? constants).isSome →
      o.kind ≠ .opening := by
    intro before t o after split _ opening
    have member : o ∈ tokens := by simp [split]
    simp only [tokens, List.mem_cons, List.not_mem_nil, or_false] at member
    rcases member with rfl | rfl | rfl <;> cases opening
  obtain ⟨root, built', same, -, value, -⟩ := evaluate_constants constants stands uncalled built
  exact ⟨root, root', built, built', same, value⟩

end Reckoner
