import Reckoner.Catalog.Registration

/-!
# Registries

Parts of a program share a registry and write to it in place. `Tables` are the tables that
exist at a time, and a `Registry` is the place of its two tables among them. `create` lays out
new tables behind the others and `register` writes to one table, so a registry keeps its catalog
unless it is written to itself (`withConstants_spec`).
-/

namespace Reckoner

/-- The tables that exist. -/
structure Tables where
  functions : List { t : Table // ∀ e ∈ t.entries, e.symbol = none }
  operators : List { t : Table // ∀ e ∈ t.entries, e.symbol ≠ none }

/-- A registry, by the places of its tables. -/
structure Registry where
  functions : Nat
  operators : Nat
  deriving DecidableEq, Repr

/-- No tables. -/
def Tables.empty : Tables := ⟨[], []⟩

namespace Registry

/-- What a registry holds at a time. -/
def catalog? (r : Registry) (tables : Tables) : Option Catalog :=
  match tables.functions[r.functions]?, tables.operators[r.operators]? with
  | some functions, some operators => some ⟨functions.1, operators.1, functions.2, operators.2⟩
  | _, _ => none

/-- A new registry that holds what `c` does, in tables of its own. -/
def create (c : Catalog) (tables : Tables) : Registry × Tables :=
  (⟨tables.functions.length, tables.operators.length⟩,
    ⟨tables.functions ++ [⟨c.functions, c.unsigned⟩], tables.operators ++ [⟨c.operators, c.signed⟩]⟩)

/-- Files `e` in the tables of `r`. -/
def register (r : Registry) (e : Entry) (tables : Tables) : Tables :=
  if h : e.symbol = none then
    { tables with functions := tables.functions.modify r.functions fun t =>
        ⟨t.1.put e, fun _ hx => (mem_putEntry hx).elim (· ▸ h) (t.2 _)⟩ }
  else
    { tables with operators := tables.operators.modify r.operators fun t =>
        ⟨t.1.put e, fun _ hx => (mem_putEntry hx).elim (· ▸ h) (t.2 _)⟩ }

/-- Files the entry that a registration asks for. -/
def enroll (r : Registry) (g : Registration) (tables : Tables) : Except UnknownKind Tables :=
  g.entry.map fun e => r.register e tables

/-- A copy of a registry, in tables of its own. -/
def copy (r : Registry) (tables : Tables) : Option (Registry × Tables) :=
  (r.catalog? tables).map fun c => create c tables

/-- A copy of a registry to which named numbers are then added. -/
def withConstants (r : Registry) (constants : List (String × Float)) (tables : Tables) :
    Option (Registry × Tables) :=
  (r.copy tables).map fun (added, tables) =>
    (added, constants.foldl
      (fun tables (name, value) => added.register (.constant name value "injected constant") tables) tables)

variable {r s : Registry} {tables : Tables} {c d : Catalog} {e : Entry}

theorem catalog?_eq_some :
    r.catalog? tables = some c ↔
      tables.functions[r.functions]? = some ⟨c.functions, c.unsigned⟩ ∧
        tables.operators[r.operators]? = some ⟨c.operators, c.signed⟩ := by
  unfold catalog?
  constructor
  · intro held
    split at held
    · next functions operators =>
      cases held
      exact ⟨functions, operators⟩
    · cases held
  · intro ⟨functions, operators⟩
    rw [functions, operators]

/-- A registry with a catalog has its tables among those that exist. -/
theorem lt_of_catalog? (held : r.catalog? tables = some c) :
    r.functions < tables.functions.length ∧ r.operators < tables.operators.length := by
  obtain ⟨functions, operators⟩ := catalog?_eq_some.1 held
  exact ⟨(List.getElem?_eq_some_iff.1 functions).1, (List.getElem?_eq_some_iff.1 operators).1⟩

/-- A new registry has the catalog that it was made from. -/
theorem catalog?_create_new : (create c tables).1.catalog? (create c tables).2 = some c := by
  simp [create, catalog?]

/-- The catalogs of the others stay. -/
theorem catalog?_create_old (held : s.catalog? tables = some d) : s.catalog? (create c tables).2 = some d := by
  obtain ⟨functions, operators⟩ := lt_of_catalog? held
  rw [catalog?_eq_some] at held ⊢
  simp only [create]
  rw [List.getElem?_append_left functions, List.getElem?_append_left operators]
  exact held

/-- Writing to a registry registers the entry in its catalog. -/
theorem catalog?_register_self (held : r.catalog? tables = some c) :
    r.catalog? (r.register e tables) = some (c.register e) := by
  rw [catalog?_eq_some] at held ⊢
  obtain ⟨functions, operators⟩ := held
  by_cases h : e.symbol = none <;>
    simp [register, Catalog.register, h, functions, operators]

/-- A registry with other tables is not changed by it. -/
theorem catalog?_register_other (functions : s.functions ≠ r.functions) (operators : s.operators ≠ r.operators)
    (held : s.catalog? tables = some d) : s.catalog? (r.register e tables) = some d := by
  rw [catalog?_eq_some] at held ⊢
  by_cases h : e.symbol = none <;>
    simp [register, h, Ne.symm functions, Ne.symm operators, held]

/-- By induction on the constants: each of them is written to `r` only. -/
theorem foldl_register (constants : List (String × Float)) (held : r.catalog? tables = some c) :
    let written := constants.foldl
      (fun tables (name, value) => r.register (.constant name value "injected constant") tables) tables
    r.catalog? written = some (c.withConstants constants) ∧
      ∀ (s : Registry) (d : Catalog), s.functions ≠ r.functions → s.operators ≠ r.operators → s.catalog? tables = some d →
        s.catalog? written = some d := by
  induction constants generalizing tables c with
  | nil => exact ⟨held, fun _ _ _ _ other => other⟩
  | cons first rest ih =>
    obtain ⟨own, others⟩ := ih (catalog?_register_self (e := .constant first.1 first.2 "injected constant") held)
    refine ⟨own, ?_⟩
    intro s d functions operators other
    exact others s d functions operators (catalog?_register_other functions operators other)

/-- A registry with added constants is a new one; what there was before keeps its catalog. -/
theorem withConstants_spec (held : r.catalog? tables = some c) (constants : List (String × Float)) :
    ∃ added tables', r.withConstants constants tables = some (added, tables') ∧
      added.catalog? tables' = some (c.withConstants constants) ∧
        ∀ (s : Registry) (d : Catalog), s.catalog? tables = some d → s.catalog? tables' = some d := by
  have new : (create c tables).1.catalog? (create c tables).2 = some c := catalog?_create_new
  obtain ⟨own, others⟩ := foldl_register constants new
  refine ⟨_, _, by rw [withConstants, copy, held]; rfl, own, ?_⟩
  intro s d other
  obtain ⟨functions, operators⟩ := lt_of_catalog? other
  exact others s d (Nat.ne_of_lt functions) (Nat.ne_of_lt operators) (catalog?_create_old other)

end Registry
end Reckoner
