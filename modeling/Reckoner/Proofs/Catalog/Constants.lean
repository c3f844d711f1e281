import Mathlib.Data.List.Induction
import Reckoner.Catalog.Basic
import Reckoner.Token.Basic

/-!
# Added constants

What is found by a name once constants have been added: the last constant of that name,
or what was found before.
-/

namespace Reckoner

/-- The value of the constant called `name`; the last one of that name counts. -/
def constantValue? (constants : List (String × Float)) (name : String) : Option Float :=
  constants.reverse.lookup name

/-- The number for which a token stands that names a constant. -/
def Token.constant? (constants : List (String × Float)) (t : Token) : Option Float :=
  if t.kind = .name then constantValue? constants t.text else none

/-- The number for which a reference to one of the constants stands. -/
def Entry.number? (constants : List (String × Float)) (entry : Entry) : Option Float :=
  match entry.kind, entry.rule with
  | .nullary, .constant value => if (constantValue? constants entry.name).isSome then some value else none
  | _, _ => none

variable {constants : List (String × Float)} {entry : Entry} {name doc : String} {value : Float} {t : Token}

theorem constantValue?_concat (constants : List (String × Float)) (name key : String) (value : Float) :
    constantValue? (constants ++ [(key, value)]) name =
      if key = name then some value else constantValue? constants name := by
  rw [constantValue?, List.reverse_concat, List.lookup_cons]
  by_cases same : key = name
  · simp [same]
  · have other : (name == key) = false := by simpa using Ne.symm same
    simp [same, other, constantValue?]

/-- A constant hides the function and the constants of the same name before it. -/
theorem Catalog.lookup?_of_constants (c : Catalog) (constants : List (String × Float)) (name : String) :
    (c.withConstants constants).lookup? name =
      match constantValue? constants name with
      | some value => some (.constant name value "injected constant")
      | none => c.lookup? name := by
  induction constants using List.reverseRecOn with
  | nil => rfl
  | append_singleton constants added ih =>
    rw [constantValue?_concat]
    unfold withConstants at ih ⊢
    rw [List.foldl_append, List.foldl_cons, List.foldl_nil, lookup?_register, ih]
    by_cases same : added.1 = name <;> simp [same, Entry.constant, Entry.new]

theorem Entry.number?_constant (known : constantValue? constants name = some value) :
    (Entry.constant name value doc).number? constants = some value := by
  simp [number?, Entry.constant, Entry.new, known]

/-- Other names stand for no number. -/
theorem Entry.number?_of_name (free : constantValue? constants entry.name = none) : entry.number? constants = none := by
  unfold number?
  split <;> simp [free]

theorem Entry.number?_of_kind (other : entry.kind ≠ .nullary) : entry.number? constants = none := by
  unfold number?
  split
  · next kind _ => exact absurd kind other
  · rfl

/-- What stands for a number is a constant of that value. -/
theorem Entry.of_number? (stands : entry.number? constants = some value) :
    entry.kind = .nullary ∧ entry.rule = .constant value := by
  unfold number? at stands
  split at stands
  · next v kind rule =>
    split at stands
    · cases stands
      exact ⟨kind, rule⟩
    · cases stands
  · cases stands

theorem Token.constant?_of_kind (other : t.kind ≠ .name) : t.constant? constants = none := if_neg other

theorem Token.constant?_of_name (name : t.kind = .name) : t.constant? constants = constantValue? constants t.text :=
  if_pos name

end Reckoner
