import Mathlib.Data.List.Forall2
import Reckoner.Proofs.Evaluation.Whole
import Reckoner.Proofs.Grammar.References

/-!
# Trees of the same value

Two trees are alike if evaluation cannot tell them apart. Nodes with alike children are
alike, and so are the two ways in which a parser multiplies operands that stand side by
side: by a product, or by a factor on the free right side of a node.
-/

namespace Reckoner

open Expression Grammar

/-- Two trees, neither of them an argument list, with one value. -/
structure Alike (e e' : Expression) : Prop where
  single : e.isList = false
  single' : e'.isList = false
  value : whole none e = whole none e'

/-- The same for what may stand in the parentheses of a call. -/
inductive AlikeContent : Expression → Expression → Prop where
  | single {e e'} (h : Alike e e') : AlikeContent e e'
  | list {items items'} (h : List.Forall₂ Alike items items') : AlikeContent (.arguments items) (.arguments items')

variable {e e' a a' b b' : Expression} {entry : Entry} {items items' : List Expression}

/-- Positions matter only to argument lists. -/
theorem whole_of_single (single : e.isList = false) (i : Option Int) : whole i e = whole none e := by
  rw [whole_eq i, whole_eq none, evaluateNode, evaluateNode]
  cases operation : e.operation with
  | arguments items => simp [isList, operation] at single
  | _ => rfl

theorem itemAt?_alike (h : List.Forall₂ Alike items items') (k : Int) :
    itemAt? items k = none ∧ itemAt? items' k = none ∨
      ∃ item item', itemAt? items k = some item ∧ itemAt? items' k = some item' ∧ Alike item item' := by
  unfold itemAt?
  split
  · exact .inl ⟨rfl, rfl⟩
  · generalize k.toNat = n
    induction h generalizing n with
    | nil => exact .inl ⟨rfl, rfl⟩
    | cons first rest ih =>
      cases n with
      | zero => exact .inr ⟨_, _, rfl, rfl, first⟩
      | succ n => exact ih n

namespace AlikeContent

theorem value (h : AlikeContent e e') (i : Option Int) : whole i e = whole i e' := by
  cases h with
  | single h => rw [whole_of_single h.single, whole_of_single h.single', h.value]
  | @list items items' h =>
    rw [whole_eq, whole_eq i (.arguments items')]
    simp only [evaluateNode, arguments, h.length_eq]
    cases i with
    | none => rfl
    | some k =>
      rcases itemAt?_alike h k with ⟨none, none'⟩ | ⟨item, item', found, found', alike⟩
      · simp only [Option.bind_some, none, none']
      · simp only [Option.bind_some, found, found', alike.value]

theorem isList_eq (h : AlikeContent e e') : e.isList = e'.isList := by
  cases h with
  | single h => rw [h.single, h.single']
  | list h => rfl

theorem argumentCount_eq (h : AlikeContent e e') : e.argumentCount = e'.argumentCount := by
  have one {e : Expression} (single : e.isList = false) : e.argumentCount = 1 := by
    unfold argumentCount
    split
    · next items operation => simp [isList, operation] at single
    · rfl
  cases h with
  | single h => rw [one h.single, one h.single']
  | list h => exact h.length_eq

theorem asArguments (h : AlikeContent e e') : List.Forall₂ Alike e.asArguments e'.asArguments := by
  cases h with
  | single h =>
    rw [asArguments_of_not_list h.single, asArguments_of_not_list h.single']
    exact .cons h .nil
  | list h => exact h

theorem snoc (h : AlikeContent a a') (last : Alike b b') :
    AlikeContent (.arguments (a.asArguments ++ [b])) (.arguments (a'.asArguments ++ [b'])) :=
  .list (List.rel_append h.asArguments (.cons last .nil))

end AlikeContent

section

variable {left left' right right' : Option Expression}

theorem operandValue_alike (h : Option.Rel AlikeContent left left') :
    operandValue whole left = operandValue whole left' := by
  cases h with
  | none => rfl
  | some h => exact h.value none

theorem argumentValue_alike (h : Option.Rel AlikeContent right right') (position : Nat) :
    argumentValue whole position right = argumentValue whole position right' := by
  cases h with
  | none => rfl
  | some h => exact h.value (some position)

theorem argumentTotal_alike (h : Option.Rel AlikeContent right right') :
    argumentTotal right = argumentTotal right' := by
  cases h with
  | none => rfl
  | some h => exact h.argumentCount_eq

theorem timesRight_alike (h : Option.Rel AlikeContent right right') (value : Float) :
    timesRight whole value right = timesRight whole value right' := by
  cases h with
  | none => rfl
  | some h => simp only [timesRight, h.value none]

theorem checkArguments_alike (h : Option.Rel AlikeContent right right') (entry : Entry) :
    entry.checkArguments right = entry.checkArguments right' := by
  have total := argumentTotal_alike h
  unfold Entry.checkArguments
  rw [total]
  cases h with
  | none => rfl
  | some h => simp only [h.isList_eq, h.argumentCount_eq]

theorem Rule.evaluate_alike (rule : Rule) (hl : Option.Rel AlikeContent left left')
    (hr : Option.Rel AlikeContent right right') :
    rule.evaluate whole left right = rule.evaluate whole left' right' := by
  have l := operandValue_alike hl
  have r := operandValue_alike hr
  have values : argumentValues whole right = argumentValues whole right' := by
    simp only [argumentValues, argumentValue_alike hr, argumentTotal_alike hr]
  cases rule with
  | subtract =>
    simp only [Rule.evaluate, l, r]
    cases hl <;> rfl
  | _ =>
    simp only [Rule.evaluate, l, r, values, argumentValue_alike hr, argumentTotal_alike hr, timesRight_alike hr]

/-- A reference sees no more of its operands than their values. -/
theorem Alike.reference (entry : Entry) (hl : Option.Rel AlikeContent left left')
    (hr : Option.Rel AlikeContent right right') : Alike ⟨.reference entry, left, right⟩ ⟨.reference entry, left', right'⟩ where
  single := rfl
  single' := rfl
  value := by
    rw [whole_eq, whole_eq none ⟨.reference entry, left', right'⟩]
    simp only [evaluateNode, checkArguments_alike hr, entry.rule.evaluate_alike hl hr]

end

/-- What may stand without a right operand multiplies by it. -/
def Entry.TakesFactor (entry : Entry) : Prop :=
  (entry.kind = .suffix → entry.rule = .factorial) ∧
    (entry.kind = .nullary → entry.rule = .random ∨ ∃ value, entry.rule = .constant value)

theorem Entry.Callable.takesFactor (h : entry.Callable) : entry.TakesFactor := by
  unfold Entry.Callable at h
  unfold Entry.TakesFactor
  split at h <;> simp_all

theorem Entry.Genuine.takesFactor (h : entry.Genuine) : entry.TakesFactor := by
  cases h with
  | sign o kind => simp [Entry.TakesFactor, kind]
  | bang kind rule => simp [Entry.TakesFactor, kind, rule]
  | named callable => exact callable.takesFactor

/-- The operation of every phrase, if it may stand without a right operand, multiplies by it. -/
theorem Grammar.Phrase.takesFactor {c : Catalog} {extended : Bool} {next : Option TokenKind} {l : Level}
    {ts : List Token} (regular : c.Regular) (h : Phrase c extended next l ts e) :
    ∀ entry, e.operation = .reference entry → entry.TakesFactor := by
  intro entry operation
  exact ((h.genuine regular).root operation).takesFactor

theorem lift_ok {β : Type} (x : β) : (liftM (Except.ok x : Except EvalError β) : Evaluation β) = pure x := rfl

theorem throw_bind {β γ : Type} (cause : EvalError) (f : β → Evaluation γ) :
    ((throw cause : Evaluation β) >>= f) = throw cause := rfl

/-- A right operand where none has to be is a factor. -/
theorem whole_withRight (shaped : a.WellShaped) (single : a.isList = false)
    (genuine : ∀ entry, a.operation = .reference entry → entry.TakesFactor) (free : a.right = none)
    (single' : b.isList = false) :
    whole none (a.withRight b) = do return (← whole none a) * (← whole none b) := by
  obtain ⟨operation, left, right⟩ := a
  obtain rfl : right = none := free
  rw [whole_eq none (withRight _ b), whole_eq none ⟨operation, left, none⟩]
  have operands := shaped.operands
  cases operation with
  | literal value => simp [withRight, evaluateNode, timesRight]
  | reference entry =>
    obtain ⟨suffix, nullary⟩ := genuine entry rfl
    simp only [HasOperands] at operands
    cases kind : entry.kind <;> simp only [kind] at operands
    · simp at operands
    · simp at operands
    · simp at operands
    · simp only [withRight, evaluateNode, Entry.checkArguments, kind, lift_ok, suffix kind, Rule.evaluate, bind_assoc,
        pure_bind]
      congr 1
      funext n
      cases Number.factorial? n <;> simp [timesRight, throw_bind]
    · have admitted : entry.checkArguments (some b) = .ok () := by simp [Entry.checkArguments, kind, single']
      have empty : entry.checkArguments none = .ok () := by simp [Entry.checkArguments, kind]
      simp only [withRight, evaluateNode, admitted, empty, lift_ok, pure_bind]
      rcases nullary kind with rule | ⟨value, rule⟩ <;> simp [rule, Rule.evaluate, timesRight]
  | arguments items => cases single
  | bare => exact operands.elim
  | boundary => exact operands.elim

/-- Operands side by side are multiplied. -/
theorem whole_beside {c : Catalog} {star : Entry} (regular : c.Regular) (known : c.operator? "*" = some star)
    (wf : a.WellFormed) (genuine : ∀ entry, a.operation = .reference entry → entry.TakesFactor)
    (single : b.isList = false) :
    whole none (a.beside star b) = do return (← whole none a) * (← whole none b) := by
  unfold beside
  split
  · obtain ⟨kind, rule, -⟩ := regular.of_sign (o := .star) known
    rw [whole_eq]
    simp [evaluateNode, Entry.checkArguments, kind, lift_ok, rule, Operator.rule, Rule.evaluate, operandValue]
  · next free => exact whole_withRight wf.shaped wf.root genuine (by simpa using free) single

end Reckoner
