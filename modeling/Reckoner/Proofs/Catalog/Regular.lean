import Reckoner.Catalog.Standard
import Reckoner.Proofs.Catalog.Constants

/-!
# Catalogs that a calculator can read with

The standard catalog with any constants added: a constant may hide a function,
but no operator, and every name still stands for something that can be called.
The parser and the evaluator rely on nothing else about a catalog.
-/

namespace Reckoner

/-- What an operator between two operands computes. -/
def Operator.rule : Operator → Rule
  | .plus => .add
  | .minus => .subtract
  | .star => .multiply
  | .slash => .divide
  | .caret => .power

/-- The kind of an entry that is called by name agrees with what it computes. -/
def Entry.Callable (e : Entry) : Prop :=
  match e.kind, e.rule with
  | .nullary, .constant _ => True
  | .nullary, .random => True
  | .unary, .elementary _ => e.arity = ⟨1, some 1⟩
  | .variadic, .pairing _ => e.arity = ⟨2, some 2⟩
  | .variadic, .summary _ => True
  | .variadic, .count => True
  | _, _ => False

theorem Entry.Callable.kind {e : Entry} (h : e.Callable) :
    e.kind = .unary ∨ e.kind = .variadic ∨ e.kind = .nullary := by
  unfold Entry.Callable at h
  split at h <;> simp_all

namespace Catalog

/-- The six signs mean what they usually do, and whatever is found by name can be
called. -/
structure Regular (c : Catalog) : Prop where
  sign (o : Operator) : ∃ e, c.operator? o.symbol = some e ∧ e.kind = .binary ∧ e.rule = o.rule
  bang : ∃ e, c.operator? "!" = some e ∧ e.kind = .suffix ∧ e.rule = .factorial
  named {name : String} {e : Entry} : c.lookup? name = some e → e.Callable

section

variable {c : Catalog} {entry : Entry} {o : Operator}

theorem Regular.of_sign (regular : c.Regular) (known : c.operator? o.symbol = some entry) :
    entry.kind = .binary ∧ entry.rule = o.rule ∧ entry.symbol = some o.symbol := by
  obtain ⟨e, he, kind, rule⟩ := regular.sign o
  obtain rfl := Option.some.inj (he.symm.trans known)
  exact ⟨kind, rule, of_operator? known⟩

theorem Regular.of_bang (regular : c.Regular) (known : c.operator? "!" = some entry) :
    entry.kind = .suffix ∧ entry.rule = .factorial ∧ entry.symbol = some "!" := by
  obtain ⟨e, he, kind, rule⟩ := regular.bang
  obtain rfl := Option.some.inj (he.symm.trans known)
  exact ⟨kind, rule, of_operator? known⟩

end

theorem operator?_withConstants (c : Catalog) (constants : List (String × Float)) (symbol : String) :
    (c.withConstants constants).operator? symbol = c.operator? symbol := by
  unfold withConstants
  induction constants generalizing c with
  | nil => rfl
  | cons first rest ih =>
    rw [List.foldl_cons, ih, operator?_register]
    simp [Entry.constant, Entry.new]

theorem lookup?_withConstants {c : Catalog} {constants : List (String × Float)} {name : String}
    {e : Entry} (h : (c.withConstants constants).lookup? name = some e) :
    (∃ value, e = .constant name value "injected constant") ∨ c.lookup? name = some e := by
  rw [lookup?_of_constants] at h
  split at h
  · next value _ => exact .inl ⟨value, (Option.some.inj h).symm⟩
  · exact .inr h

theorem lookup?_ofEntries {entries : List Entry} {name : String} {e : Entry}
    (h : (ofEntries entries).lookup? name = some e) : e ∈ entries ∧ e.symbol = none := by
  suffices H : ∀ c : Catalog, (entries.foldl register c).lookup? name = some e →
      (e ∈ entries ∧ e.symbol = none) ∨ c.lookup? name = some e by
    rcases H empty h with h | h
    · exact h
    · simp [lookup?, empty] at h
  clear h
  induction entries with
  | nil => exact fun _ h => .inr h
  | cons first rest ih =>
    intro c h
    rcases ih _ h with h | h
    · exact .inl ⟨List.mem_cons_of_mem _ h.1, h.2⟩
    · rw [lookup?_register] at h
      split at h
      · next fresh =>
        cases h
        exact .inl ⟨List.mem_cons_self .., fresh.1⟩
      · exact .inr h

theorem callable_of_standard {name : String} {e : Entry} (h : standard.lookup? name = some e) :
    e.Callable := by
  obtain ⟨member, unsigned⟩ := lookup?_ofEntries h
  have all : ∀ e ∈ arithmeticEntries ++ elementaryEntries ++ aggregateEntries ++ constantEntries,
      e.symbol = none → e.Callable := by
    simp [arithmeticEntries, elementaryEntries, aggregateEntries, constantEntries, Entry.new,
      Entry.constant, Entry.Callable, Kind.arity]
  exact all e member unsigned

theorem operator?_ofEntries (entries : List Entry) (symbol : String) :
    (ofEntries entries).operator? symbol = entries.reverse.find? (·.symbol == some symbol) := by
  unfold ofEntries
  suffices H : ∀ c : Catalog, (entries.foldl register c).operator? symbol =
      (entries.reverse.find? (·.symbol == some symbol)).or (c.operator? symbol) by
    rw [H]
    simp [operator?, empty]
  induction entries with
  | nil => simp
  | cons first rest ih =>
    intro c
    rw [List.foldl_cons, ih, operator?_register, List.reverse_cons, List.find?_append]
    by_cases h : first.symbol = some symbol <;> simp [h]

theorem regular_standard : standard.Regular where
  sign o := by
    cases o <;> simp [standard, operator?_ofEntries, arithmeticEntries, elementaryEntries,
      aggregateEntries, constantEntries, Entry.new, Entry.constant, Operator.symbol, Operator.rule]
  bang := by
    simp [standard, operator?_ofEntries, arithmeticEntries, elementaryEntries, aggregateEntries,
      constantEntries, Entry.new, Entry.constant]
  named h := callable_of_standard h

theorem regular_withConstants (constants : List (String × Float)) :
    (standard.withConstants constants).Regular where
  sign o := by
    rw [operator?_withConstants]
    exact regular_standard.sign o
  bang := by
    rw [operator?_withConstants]
    exact regular_standard.bang
  named h := by
    rcases lookup?_withConstants h with ⟨value, rfl⟩ | h
    · trivial
    · exact regular_standard.named h

end Catalog
end Reckoner
