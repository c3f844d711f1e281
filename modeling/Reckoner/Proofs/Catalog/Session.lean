import Mathlib.Data.List.Forall2
import Reckoner.Catalog.Registry
import Reckoner.Proofs.Catalog.History

/-!
# Sessions with registries

A session begins with an empty registry. A call writes to one of the registries in place, or makes a new
one with constants added to what another one holds. The history of a registry is what has been written
to it, behind what the one it was made from held then. However the calls are mixed, every
registry shows its own history and nothing of the others.
-/

namespace Reckoner

/-- A call on the registry of the given number. -/
inductive RegistryCall where
  | register (which : Nat) (g : Registration)
  | withConstants (which : Nat) (constants : List (String × Float))

/-- The histories behind a call. A registration of an unknown kind is none. -/
def RegistryCall.record (histories : List (List Entry)) : RegistryCall → List (List Entry)
  | .register which g =>
    match g.entry with
    | .ok e => histories.modify which (· ++ [e])
    | .error _ => histories
  | .withConstants which constants =>
    match histories[which]? with
    | some history =>
      histories ++ [history ++ constants.map fun (name, value) => .constant name value "injected constant"]
    | none => histories

/-- The registries of a session, by their numbers, and the tables that exist. -/
structure Session where
  registries : List Registry
  tables : Tables

namespace Registry

variable {r added : Registry} {tables tables' : Tables} {constants : List (String × Float)}

/-- Two registries without a table in common. -/
def Apart (r s : Registry) : Prop := r.functions ≠ s.functions ∧ r.operators ≠ s.operators

theorem Apart.symm {s : Registry} (h : r.Apart s) : s.Apart r := ⟨h.1.symm, h.2.symm⟩

/-- The tables of a registry with added constants are new ones. -/
theorem withConstants_new (made : r.withConstants constants tables = some (added, tables')) :
    added.functions = tables.functions.length ∧ added.operators = tables.operators.length := by
  unfold withConstants copy at made
  cases held : r.catalog? tables with
  | none =>
    rw [held] at made
    cases made
  | some c =>
    rw [held] at made
    cases made
    exact ⟨rfl, rfl⟩

end Registry

namespace Session

/-- A session with one empty registry. -/
def start (tables : Tables) : Session :=
  ⟨[(Registry.create .empty tables).1], (Registry.create .empty tables).2⟩

/-- Performs a call. What is refused leaves everything as it is. -/
def perform (s : Session) : RegistryCall → Session
  | .register which g =>
    match s.registries[which]? with
    | some r =>
      match r.enroll g s.tables with
      | .ok tables => { s with tables }
      | .error _ => s
    | none => s
  | .withConstants which constants =>
    match s.registries[which]?.bind fun r => r.withConstants constants s.tables with
    | some (added, tables) => ⟨s.registries ++ [added], tables⟩
    | none => s

/-- Every registry holds what its history makes, in tables of its own. -/
structure Keeps (s : Session) (histories : List (List Entry)) : Prop where
  length : s.registries.length = histories.length
  held {i : Nat} {r : Registry} {history : List Entry} : s.registries[i]? = some r → histories[i]? = some history →
    r.catalog? s.tables = some (.ofEntries history)
  apart {i j : Nat} {r r' : Registry} : i ≠ j → s.registries[i]? = some r → s.registries[j]? = some r' → r.Apart r'

variable {s : Session} {histories : List (List Entry)}

/-- A registry has a history. -/
theorem Keeps.exists_history (keeps : s.Keeps histories) {i : Nat} {r : Registry} (here : s.registries[i]? = some r) :
    ∃ history, histories[i]? = some history := by
  have inside := (List.getElem?_eq_some_iff.1 here).1
  rw [keeps.length] at inside
  exact ⟨_, List.getElem?_eq_getElem inside⟩

/-- A list of one element has it at its first place alone. -/
theorem of_getElem?_singleton {α : Type} {a b : α} {i : Nat} (here : [a][i]? = some b) : i = 0 ∧ a = b := by
  simpa [List.getElem?_singleton] using here

theorem keeps_start (tables : Tables) : (start tables).Keeps [[]] where
  length := rfl
  held {i r history} here there := by
    obtain ⟨rfl, rfl⟩ := of_getElem?_singleton here
    obtain ⟨-, rfl⟩ := of_getElem?_singleton there
    exact Registry.catalog?_create_new
  apart {i j r r'} other here there := by
    obtain ⟨rfl, -⟩ := of_getElem?_singleton here
    obtain ⟨rfl, -⟩ := of_getElem?_singleton there
    exact absurd rfl other

/-- A registration is written to one registry, and to no other one's tables. -/
theorem Keeps.register (keeps : s.Keeps histories) {which : Nat} {r : Registry} (named : s.registries[which]? = some r)
    (e : Entry) : Keeps ⟨s.registries, r.register e s.tables⟩ (histories.modify which (· ++ [e])) where
  length := by rw [List.length_modify, keeps.length]
  held {i r' history} here there := by
    rw [List.getElem?_modify] at there
    obtain ⟨before, known, rfl⟩ := Option.map_eq_some_iff.1 there
    by_cases same : which = i
    · subst same
      obtain rfl := Option.some.inj (named.symm.trans here)
      rw [if_pos rfl, Catalog.ofEntries_concat]
      exact Registry.catalog?_register_self (keeps.held here known)
    · rw [if_neg same]
      obtain ⟨functions, operators⟩ := keeps.apart (Ne.symm same) here named
      exact Registry.catalog?_register_other functions operators (keeps.held here known)
  apart := keeps.apart

/-- A registry with added constants begins with a copy of the other's history. -/
theorem Keeps.withConstants (keeps : s.Keeps histories) {which : Nat} {r added : Registry} {history : List Entry}
    {constants : List (String × Float)} {tables : Tables} (named : s.registries[which]? = some r)
    (known : histories[which]? = some history) (made : r.withConstants constants s.tables = some (added, tables)) :
    Keeps ⟨s.registries ++ [added], tables⟩
      (histories ++ [history ++ constants.map fun (name, value) => .constant name value "injected constant"]) := by
  obtain ⟨_, _, made', own, others⟩ := Registry.withConstants_spec (keeps.held named known) constants
  cases made.symm.trans made'
  have fresh : ∀ (i : Nat) (r' : Registry), s.registries[i]? = some r' → r'.Apart added := by
    intro i r' here
    obtain ⟨history', known'⟩ := keeps.exists_history here
    obtain ⟨functions, operators⟩ := Registry.lt_of_catalog? (keeps.held here known')
    obtain ⟨new, new'⟩ := Registry.withConstants_new made
    exact ⟨new ▸ functions.ne, new' ▸ operators.ne⟩
  have cases (i : Nat) (r' : Registry) (here : (s.registries ++ [added])[i]? = some r') :
      s.registries[i]? = some r' ∨ i = histories.length ∧ added = r' := by
    rw [List.getElem?_append] at here
    split at here
    · exact .inl here
    · obtain ⟨last, rfl⟩ := of_getElem?_singleton here
      have := keeps.length
      exact .inr ⟨by omega, rfl⟩
  refine ⟨by simp [keeps.length], ?_, ?_⟩
  · intro i r' history' here there
    rcases cases i r' here with old | ⟨rfl, rfl⟩
    · have inside := (List.getElem?_eq_some_iff.1 old).1
      rw [List.getElem?_append_left (keeps.length ▸ inside)] at there
      exact others r' _ (keeps.held old there)
    · rw [List.getElem?_concat_length] at there
      cases there
      rw [← Catalog.ofEntries_withConstants]
      exact own
  · intro i j r' r'' other here there
    rcases cases i r' here with old | ⟨rfl, rfl⟩
    · rcases cases j r'' there with old' | ⟨rfl, rfl⟩
      · exact keeps.apart other old old'
      · exact fresh i r' old
    · rcases cases j r'' there with old' | ⟨rfl, rfl⟩
      · exact (fresh j r'' old').symm
      · exact absurd rfl other

theorem Keeps.perform (keeps : s.Keeps histories) (call : RegistryCall) :
    (s.perform call).Keeps (call.record histories) := by
  cases call with
  | register which g =>
    cases named : s.registries[which]? with
    | none =>
      have absent : histories.length ≤ which := keeps.length ▸ List.getElem?_eq_none_iff.1 named
      simp only [Session.perform, named, RegistryCall.record]
      cases g.entry with
      | error _ => exact keeps
      | ok e =>
        dsimp only
        rw [List.modify_eq_self absent]
        exact keeps
    | some r =>
      simp only [Session.perform, named, RegistryCall.record, Registry.enroll]
      cases g.entry with
      | error _ => exact keeps
      | ok e => exact keeps.register named e
  | withConstants which constants =>
    cases named : s.registries[which]? with
    | none =>
      have absent : histories.length ≤ which := keeps.length ▸ List.getElem?_eq_none_iff.1 named
      simp only [Session.perform, named, RegistryCall.record, List.getElem?_eq_none_iff.2 absent]
      exact keeps
    | some r =>
      obtain ⟨history, known⟩ := keeps.exists_history named
      obtain ⟨added, tables, made, -⟩ := Registry.withConstants_spec (keeps.held named known) constants
      simp only [Session.perform, named, RegistryCall.record, known, Option.bind_some, made]
      exact keeps.withConstants named known made

theorem Keeps.performAll (keeps : s.Keeps histories) (calls : List RegistryCall) :
    (calls.foldl Session.perform s).Keeps (calls.foldl RegistryCall.record histories) := by
  induction calls generalizing s histories with
  | nil => exact keeps
  | cons call rest ih => exact ih (keeps.perform call)

end Session

/-- Whatever calls are made in a session, whichever tables exist before, every registry shows its history: by a name the latest
entry without a symbol is found, by a symbol the latest one with that symbol, and no operator by its name; there
are as many entries as names and symbols, and the listing holds each of them once, ordered by name, with
operators before functions of the same name and operators of one name as their symbols came first. -/
theorem registries_show_histories (tables : Tables) (calls : List RegistryCall) :
    let s := calls.foldl Session.perform (.start tables)
    List.Forall₂ (fun r history => ∃ c, r.catalog? s.tables = some c ∧ c.Shows history) s.registries
      (calls.foldl RegistryCall.record [[]]) := by
  intro s
  have keeps : s.Keeps (calls.foldl RegistryCall.record [[]]) := (Session.keeps_start tables).performAll calls
  rw [List.forall₂_iff_get]
  refine ⟨keeps.length, fun i inside inside' => ⟨.ofEntries _, ?_, Catalog.shows_ofEntries _⟩⟩
  exact keeps.held (List.getElem?_eq_getElem inside) (List.getElem?_eq_getElem inside')

end Reckoner
