import Reckoner.Proofs.Catalog.Constants
import Reckoner.Proofs.Expression.Shape
import Reckoner.Proofs.Grammar.Phrase

/-!
# Numbers in the place of constants

`withNumbers` puts a number in the place of every reference to an added constant and
leaves the operands where they are. The lemmas say what becomes of the nodes that a
parser makes.
-/

namespace Reckoner.Expression

mutual

/-- The tree with the values of the constants in the place of their names. -/
def withNumbers (constants : List (String × Float)) : Expression → Expression
  | ⟨.reference entry, left, right⟩ =>
    ⟨match entry.number? constants with
      | some value => .literal value
      | none => .reference entry,
      withNumbersOption constants left, withNumbersOption constants right⟩
  | ⟨.arguments items, left, right⟩ =>
    ⟨.arguments (withNumbersList constants items), withNumbersOption constants left, withNumbersOption constants right⟩
  | ⟨operation, left, right⟩ => ⟨operation, withNumbersOption constants left, withNumbersOption constants right⟩

def withNumbersOption (constants : List (String × Float)) : Option Expression → Option Expression
  | none => none
  | some e => some (e.withNumbers constants)

def withNumbersList (constants : List (String × Float)) : List Expression → List Expression
  | [] => []
  | e :: rest => e.withNumbers constants :: withNumbersList constants rest

end

variable {constants : List (String × Float)} {e a b : Expression} {entry : Entry} {left right : Option Expression}
  {items : List Expression} {value : Float}

theorem withNumbersOption_eq (o : Option Expression) : withNumbersOption constants o = o.map (withNumbers constants) := by
  cases o <;> rfl

theorem withNumbersList_eq (es : List Expression) : withNumbersList constants es = es.map (withNumbers constants) := by
  induction es with
  | nil => rfl
  | cons e rest ih => rw [withNumbersList, ih, List.map_cons]

theorem left_withNumbers (e : Expression) : (e.withNumbers constants).left = e.left.map (withNumbers constants) := by
  obtain ⟨operation, left, right⟩ := e
  cases operation <;> simp only [withNumbers, withNumbersOption_eq]

theorem right_withNumbers (e : Expression) : (e.withNumbers constants).right = e.right.map (withNumbers constants) := by
  obtain ⟨operation, left, right⟩ := e
  cases operation <;> simp only [withNumbers, withNumbersOption_eq]

theorem items_withNumbers (e : Expression) :
    (e.withNumbers constants).operation.items = e.operation.items.map (withNumbers constants) := by
  obtain ⟨operation, left, right⟩ := e
  cases operation with
  | arguments items => exact withNumbersList_eq items
  | reference entry =>
    simp only [withNumbers]
    cases entry.number? constants <;> rfl
  | _ => rfl

/-- Every child is rewritten in its place. -/
theorem children_withNumbers (e : Expression) :
    (e.withNumbers constants).children = e.children.map (withNumbers constants) := by
  rw [children, children, left_withNumbers, right_withNumbers, items_withNumbers]
  cases e.left <;> cases e.right <;> simp

theorem withNumbers_reference (other : entry.number? constants = none) :
    withNumbers constants ⟨.reference entry, left, right⟩ =
      ⟨.reference entry, left.map (withNumbers constants), right.map (withNumbers constants)⟩ := by
  simp only [withNumbers, other, withNumbersOption_eq]

theorem withNumbers_constant (stands : entry.number? constants = some value) :
    withNumbers constants ⟨.reference entry, left, right⟩ =
      ⟨.literal value, left.map (withNumbers constants), right.map (withNumbers constants)⟩ := by
  simp only [withNumbers, stands, withNumbersOption_eq]

theorem withNumbers_arguments (items : List Expression) :
    (arguments items).withNumbers constants = arguments (items.map (withNumbers constants)) := by
  simp only [arguments, withNumbers, withNumbersOption, withNumbersList_eq]

theorem isList_withNumbers (e : Expression) : (e.withNumbers constants).isList = e.isList := by
  obtain ⟨operation, left, right⟩ := e
  cases operation with
  | reference entry =>
    simp only [withNumbers, isList]
    cases entry.number? constants <;> rfl
  | _ => rfl

theorem asArguments_withNumbers (e : Expression) :
    (e.withNumbers constants).asArguments = e.asArguments.map (withNumbers constants) := by
  obtain ⟨operation, left, right⟩ := e
  cases operation with
  | arguments items => exact withNumbersList_eq items
  | reference entry =>
    simp only [withNumbers, asArguments, List.map_cons, List.map_nil]
    cases entry.number? constants <;> rfl
  | _ => rfl

theorem argumentCount_eq (e : Expression) : e.argumentCount = e.asArguments.length := by
  obtain ⟨operation, left, right⟩ := e
  cases operation <;> rfl

theorem argumentCount_withNumbers (e : Expression) : (e.withNumbers constants).argumentCount = e.argumentCount := by
  rw [argumentCount_eq, argumentCount_eq, asArguments_withNumbers, List.length_map]

theorem withNumbers_withRight (a b : Expression) :
    (a.withRight b).withNumbers constants = (a.withNumbers constants).withRight (b.withNumbers constants) := by
  obtain ⟨operation, left, right⟩ := a
  cases operation <;> rfl

theorem withNumbers_beside {star : Entry} (other : star.number? constants = none) (a b : Expression) :
    (a.beside star b).withNumbers constants = (a.withNumbers constants).beside star (b.withNumbers constants) := by
  unfold beside
  rw [right_withNumbers, Option.isSome_map]
  split
  · exact withNumbers_reference other
  · exact withNumbers_withRight a b

theorem withNumbers_emptyCall (other : entry.number? constants = none) :
    (emptyCall entry).withNumbers constants = emptyCall entry := by
  unfold emptyCall
  split
  · exact withNumbers_reference other
  · rw [withNumbers_withRight, withNumbers_arguments, reference, withNumbers_reference other]
    rfl

/-- A reference without operands that is left was there before. -/
theorem eq_reference_of_withNumbers (same : e.withNumbers constants = .reference entry) : e = .reference entry := by
  obtain ⟨operation, left, right⟩ := e
  cases operation with
  | reference entry' =>
    cases stands : entry'.number? constants with
    | some value =>
      rw [withNumbers_constant stands] at same
      cases same
    | none =>
      rw [withNumbers_reference stands] at same
      simpa [reference] using same
  | _ => cases same

end Reckoner.Expression
