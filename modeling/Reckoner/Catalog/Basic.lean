import Reckoner.Catalog.Table
import Reckoner.Error

/-!
# The catalog of operations

A `Catalog` is a pair of tables: functions and constants found by name, and
operators found by symbol. Registering an entry touches one of them only, and
`listing` shows both in one order.
-/

namespace Reckoner

/-- The operations that an expression may use. -/
structure Catalog where
  functions : Table
  operators : Table
  /-- No function carries a symbol. -/
  unsigned : ∀ e ∈ functions.entries, e.symbol = none
  /-- Every operator carries one. -/
  signed : ∀ e ∈ operators.entries, e.symbol ≠ none

namespace Catalog

def empty : Catalog :=
  ⟨.empty, .empty, by simp [Table.empty], by simp [Table.empty]⟩

/-- Files `e` among the operators if it has a symbol, among the functions otherwise. -/
def register (c : Catalog) (e : Entry) : Catalog :=
  if h : e.symbol = none then
    { c with
      functions := c.functions.put e
      unsigned := fun _ hx => (mem_putEntry hx).elim (· ▸ h) (c.unsigned _) }
  else
    { c with
      operators := c.operators.put e
      signed := fun _ hx => (mem_putEntry hx).elim (· ▸ h) (c.signed _) }

def ofEntries (entries : List Entry) : Catalog :=
  entries.foldl register empty

/-- The function or constant called `name`. -/
def lookup? (c : Catalog) (name : String) : Option Entry :=
  c.functions.find? name

/-- The operator written `symbol`. -/
def operator? (c : Catalog) (symbol : String) : Option Entry :=
  c.operators.find? symbol

/-- The function or constant called `name`, which has to exist. -/
def function (c : Catalog) (name : String) : Except ParseError Entry :=
  match c.lookup? name with
  | some e => .ok e
  | none => .error (.unknownFunction name)

/-- The operator written `symbol`, which has to exist. -/
def operator (c : Catalog) (symbol : String) : Except ParseError Entry :=
  match c.operator? symbol with
  | some e => .ok e
  | none => .error (.unknownFunction symbol)

/-- The number of entries of both tables. -/
def size (c : Catalog) : Nat :=
  c.functions.size + c.operators.size

/-- Adds named numbers as constants; they hide functions of the same name. -/
def withConstants (c : Catalog) (constants : List (String × Float)) : Catalog :=
  constants.foldl (fun c (name, value) => c.register (.constant name value "injected constant")) c

/-- All entries by name, in code point order. Under one name the operators come
first, and entries of one table in the order of their registration. -/
def listing (c : Catalog) : List Entry :=
  (c.operators.entries ++ c.functions.entries).mergeSort fun a b => !decide (b.name < a.name)

theorem lookup?_register (c : Catalog) (e : Entry) (name : String) :
    (c.register e).lookup? name =
      if e.symbol = none ∧ e.name = name then some e else c.lookup? name := by
  by_cases h : e.symbol = none
  · simp [register, h, lookup?, Table.find?_put, Entry.key]
  · simp [register, h, lookup?]

theorem operator?_register (c : Catalog) (e : Entry) (symbol : String) :
    (c.register e).operator? symbol =
      if e.symbol = some symbol then some e else c.operator? symbol := by
  cases h : e.symbol with
  | none => simp [register, h, operator?]
  | some s => simp [register, h, operator?, Table.find?_put, Entry.key]

theorem listing_perm (c : Catalog) :
    c.listing.Perm (c.operators.entries ++ c.functions.entries) :=
  List.mergeSort_perm _ _

/-- A function found by name has that name and no symbol. -/
theorem of_lookup? {c : Catalog} {name : String} {e : Entry} (h : c.lookup? name = some e) :
    e.name = name ∧ e.symbol = none := by
  have unsigned := c.unsigned e (Table.mem_of_find? h)
  have key := Table.key_of_find? h
  simp only [Entry.key, unsigned, Option.getD_none] at key
  exact ⟨key, unsigned⟩

/-- An operator found by symbol has that symbol. -/
theorem of_operator? {c : Catalog} {symbol : String} {e : Entry}
    (h : c.operator? symbol = some e) : e.symbol = some symbol := by
  have signed := c.signed e (Table.mem_of_find? h)
  have key := Table.key_of_find? h
  cases s : e.symbol with
  | none => exact absurd s signed
  | some t =>
    simp only [Entry.key, s, Option.getD_some] at key
    rw [key]

end Catalog

/-- The names under which the last answer is available. -/
def answerNames : List String := ["Ans", "ans"]

/-- The constants that make a last answer available, if there is one. -/
def answerConstants (answer : Option Float) : List (String × Float) :=
  match answer with
  | none => []
  | some value => answerNames.map (·, value)

end Reckoner
