import Mathlib.Data.Finset.Card
import Mathlib.Data.List.Induction
import Reckoner.Proofs.Catalog.Regular

/-!
# Catalogs and their histories

The history of a catalog are the entries that have been registered in it, from the first to the
last. Nothing else about them counts: of each name and of each symbol the latest entry is found, and
the listing shows just these, where the order of the first registrations decides between operators of
one name.
-/

namespace Reckoner

/-- The names under which entries without a symbol have been registered. -/
def functionNames (history : List Entry) : List String :=
  (history.filter (·.symbol.isNone)).map Entry.name

/-- The symbols with which entries have been registered, in that order. -/
def operatorSymbols (history : List Entry) : List String :=
  history.filterMap Entry.symbol

/-- `a` is listed before `b`: by name, then operators before functions, then by the first registrations of their symbols. -/
def ListedBefore (history : List Entry) (a b : Entry) : Prop :=
  a.name < b.name ∨ a.name = b.name ∧
    match a.symbol, b.symbol with
    | some s, some t => (operatorSymbols history).idxOf s < (operatorSymbols history).idxOf t
    | some _, none => True
    | none, _ => False

/-- A catalog shows of its history the latest entry of every name and of every symbol, and lists these in order. -/
structure Catalog.Shows (c : Catalog) (history : List Entry) : Prop where
  lookup (name : String) : c.lookup? name = history.reverse.find? fun e => e.symbol.isNone && e.name == name
  operator (symbol : String) : c.operator? symbol = history.reverse.find? (·.symbol == some symbol)
  /-- No operator is found by a name. -/
  unsigned {name : String} {e : Entry} : c.lookup? name = some e → e.symbol = none
  size : c.size = (functionNames history).toFinset.card + (operatorSymbols history).toFinset.card
  listed (e : Entry) : e ∈ c.listing ↔ (∃ name, c.lookup? name = some e) ∨ ∃ symbol, c.operator? symbol = some e
  once : c.listing.Nodup
  ordered : c.listing.Pairwise (ListedBefore history)

section Sorting

variable {α : Type} {le : α → α → Bool} {R : α → α → Prop} {xs : List α}

theorem nodup_zipIdx (xs : List α) : xs.zipIdx.Nodup := by
  have places : (xs.zipIdx.map Prod.snd).Nodup := by
    rw [List.zipIdx_map_snd]
    exact List.nodup_range'
  exact places.of_map

/-- Sorting keeps what is not told apart in the order in which it was. -/
theorem pairwise_mergeSort_stable (trans : ∀ a b c, le a b = true → le b c = true → le a c = true)
    (total : ∀ a b, (le a b || le b a) = true) (ordered : xs.Pairwise R) :
    (xs.mergeSort le).Pairwise fun a b => le a b = true ∧ (le b a = true → R a b) := by
  rw [← List.mergeSort_zipIdx, List.pairwise_map]
  have perm : (xs.zipIdx.mergeSort (List.zipIdxLE le)).Perm xs.zipIdx := List.mergeSort_perm _ _
  have sorted := List.pairwise_mergeSort (List.zipIdxLE_trans trans) (List.zipIdxLE_total total) xs.zipIdx
  have distinct : (xs.zipIdx.mergeSort (List.zipIdxLE le)).Nodup := perm.nodup_iff.2 (nodup_zipIdx xs)
  refine (sorted.and distinct).imp_of_mem ?_
  rintro ⟨a, i⟩ ⟨b, j⟩ left right ⟨before, apart⟩
  have here : xs[i]? = some a := by simpa [List.mem_zipIdx_iff_getElem?] using perm.mem_iff.1 left
  have there : xs[j]? = some b := by simpa [List.mem_zipIdx_iff_getElem?] using perm.mem_iff.1 right
  simp only [List.zipIdxLE] at before
  split at before
  · next low =>
    refine ⟨low, fun back => ?_⟩
    rw [if_pos back, decide_eq_true_eq] at before
    have behind : i < j := by
      refine Nat.lt_of_le_of_ne before fun same => apart ?_
      subst same
      rw [Option.some.inj (here.symm.trans there)]
    obtain ⟨hi, rfl⟩ := List.getElem?_eq_some_iff.1 here
    obtain ⟨hj, rfl⟩ := List.getElem?_eq_some_iff.1 there
    exact List.pairwise_iff_getElem.1 ordered i j hi hj behind
  · cases before

end Sorting

namespace Table

variable {t : Table} {key : String} {e : Entry}

/-- An entry is found under its key. -/
theorem find?_eq_some_iff : t.find? key = some e ↔ e ∈ t.entries ∧ e.key = key := by
  constructor
  · intro found
    exact ⟨mem_of_find? found, key_of_find? found⟩
  · rintro ⟨member, rfl⟩
    have some : (t.find? e.key).isSome = true := by
      rw [find?, List.find?_isSome]
      exact ⟨e, member, beq_self_eq_true e.key⟩
    obtain ⟨d, found⟩ := Option.isSome_iff_exists.1 some
    rw [found, List.inj_on_of_nodup_map t.nodup (mem_of_find? found) member (key_of_find? found)]

theorem mem_keys_iff : key ∈ t.keys ↔ (t.find? key).isSome = true := by
  rw [keys, List.mem_map, Option.isSome_iff_exists]
  exact exists_congr fun e => find?_eq_some_iff.symm

/-- A table has as many entries as it has keys. -/
theorem size_eq_card {names : List String} (same : ∀ key, key ∈ t.keys ↔ key ∈ names) : t.size = names.toFinset.card := by
  have keys : names.toFinset = t.keys.toFinset := by
    ext key
    rw [List.mem_toFinset, List.mem_toFinset, same]
  have nodup : t.keys.Nodup := t.nodup
  rw [keys, List.toFinset_card_of_nodup nodup, Table.keys, List.length_map, size]

end Table

namespace Catalog

variable {c : Catalog} {history : List Entry} {e : Entry} {name symbol : String}

theorem ofEntries_concat (history : List Entry) (e : Entry) :
    ofEntries (history ++ [e]) = (ofEntries history).register e :=
  List.foldl_concat ..

theorem ofEntries_withConstants (history : List Entry) (constants : List (String × Float)) :
    (ofEntries history).withConstants constants =
      ofEntries (history ++ constants.map fun (name, value) => .constant name value "injected constant") := by
  rw [withConstants, ofEntries, ofEntries, List.foldl_append, List.foldl_map]

/-- The latest entry of a name is found, as far as it has no symbol. -/
theorem lookup?_ofEntries_eq (history : List Entry) (name : String) :
    (ofEntries history).lookup? name = history.reverse.find? fun e => e.symbol.isNone && e.name == name := by
  induction history using List.reverseRecOn with
  | nil => rfl
  | append_singleton history e ih =>
    rw [ofEntries_concat, lookup?_register, ih, List.reverse_concat, List.find?_cons]
    by_cases latest : e.symbol = none ∧ e.name = name
    · rw [if_pos latest]
      simp [latest.1, latest.2]
    · rw [if_neg latest]
      have other : (e.symbol.isNone && e.name == name) = false := by
        simpa [Bool.eq_false_iff] using latest
      rw [other]

theorem mem_functionNames :
    name ∈ functionNames history ↔ ((ofEntries history).lookup? name).isSome = true := by
  rw [lookup?_ofEntries_eq, List.find?_isSome]
  simp only [functionNames, List.mem_map, List.mem_filter, List.mem_reverse, Bool.and_eq_true, beq_iff_eq, and_assoc]

theorem mem_operatorSymbols :
    symbol ∈ operatorSymbols history ↔ ((ofEntries history).operator? symbol).isSome = true := by
  rw [operator?_ofEntries, List.find?_isSome]
  simp only [operatorSymbols, List.mem_filterMap, List.mem_reverse, beq_iff_eq]

theorem key_of_symbol (known : e.symbol = some symbol) : e.key = symbol := by
  rw [Entry.key, known, Option.getD_some]

/-- Operators keep the order in which their symbols have been registered first: a symbol that is registered again stays where
it is, and a new one has its first place at the end. -/
theorem keys_ordered (history : List Entry) :
    (ofEntries history).operators.keys.Pairwise fun s t =>
      (operatorSymbols history).idxOf s < (operatorSymbols history).idxOf t := by
  induction history using List.reverseRecOn with
  | nil => exact .nil
  | append_singleton history e ih =>
    have known : ∀ s ∈ (ofEntries history).operators.keys, s ∈ operatorSymbols history := fun s member =>
      mem_operatorSymbols.2 (Table.mem_keys_iff.1 member)
    have symbols : operatorSymbols (history ++ [e]) = operatorSymbols history ++ e.symbol.toList := by
      rw [operatorSymbols, List.filterMap_append]
      cases sign : e.symbol <;> simp [sign, operatorSymbols]
    have kept : (ofEntries history).operators.keys.Pairwise fun s t =>
        (operatorSymbols history ++ e.symbol.toList).idxOf s < (operatorSymbols history ++ e.symbol.toList).idxOf t := by
      refine ih.imp_of_mem fun {s t} left right before => ?_
      rw [List.idxOf_append_of_mem (known s left), List.idxOf_append_of_mem (known t right)]
      exact before
    rw [ofEntries_concat, symbols]
    cases sign : e.symbol with
    | none =>
      rw [sign] at kept
      simpa [register, sign] using kept
    | some symbol =>
      have put : ((ofEntries history).register e).operators.keys =
          if symbol ∈ (ofEntries history).operators.keys then (ofEntries history).operators.keys
          else (ofEntries history).operators.keys ++ [symbol] := by
        rw [← key_of_symbol sign, ← Table.keys_put]
        simp [register, sign]
      rw [sign] at kept
      rw [put]
      split
      · exact kept
      · next fresh =>
        refine List.pairwise_append.2 ⟨kept, List.pairwise_singleton _ _, fun s old t new => ?_⟩
        obtain rfl := List.mem_singleton.1 new
        have absent : t ∉ operatorSymbols history := fun member =>
          fresh (Table.mem_keys_iff.2 (mem_operatorSymbols.1 member))
        rw [Option.toList_some, List.idxOf_append_of_mem (known s old), List.idxOf_append_of_notMem absent]
        exact Nat.lt_add_right _ (List.idxOf_lt_length_of_mem (known s old))

/-- Under one name the entries lie in the order in which they are to be listed. -/
theorem entries_ordered (history : List Entry) :
    ((ofEntries history).operators.entries ++ (ofEntries history).functions.entries).Pairwise fun a b =>
      a.name = b.name → ListedBefore history a b := by
  have signed := (ofEntries history).signed
  have unsigned := (ofEntries history).unsigned
  refine List.pairwise_append.2 ⟨?_, ?_, ?_⟩
  · have keys := keys_ordered history
    rw [Table.keys, List.pairwise_map] at keys
    refine keys.imp_of_mem fun {a b} left right before same => .inr ⟨same, ?_⟩
    obtain ⟨s, first⟩ := Option.ne_none_iff_exists'.1 (signed a left)
    obtain ⟨t, second⟩ := Option.ne_none_iff_exists'.1 (signed b right)
    rw [key_of_symbol first, key_of_symbol second] at before
    rw [first, second]
    exact before
  · -- Two functions of one name have one key.
    have keys : ((ofEntries history).functions.entries.map Entry.key).Pairwise (· ≠ ·) := (ofEntries history).functions.nodup
    rw [List.pairwise_map] at keys
    refine keys.imp_of_mem fun {a b} left right apart same => absurd ?_ apart
    rw [Entry.key, Entry.key, unsigned a left, unsigned b right]
    exact same
  · intro a operator b function same
    refine .inr ⟨same, ?_⟩
    obtain ⟨s, sign⟩ := Option.ne_none_iff_exists'.1 (signed a operator)
    rw [sign, unsigned b function]
    trivial

theorem listing_ordered (history : List Entry) : (ofEntries history).listing.Pairwise (ListedBefore history) := by
  have trans : ∀ a b d : Entry, (!decide (b.name < a.name)) = true → (!decide (d.name < b.name)) = true →
      (!decide (d.name < a.name)) = true := by
    intro a b d first second
    simp only [Bool.not_eq_true', decide_eq_false_iff_not, String.not_lt] at first second ⊢
    exact String.le_trans first second
  have total : ∀ a b : Entry, (!decide (b.name < a.name) || !decide (a.name < b.name)) = true := by
    intro a b
    simp only [Bool.or_eq_true, Bool.not_eq_true', decide_eq_false_iff_not, String.not_lt]
    exact String.le_total _ _
  refine (pairwise_mergeSort_stable trans total (entries_ordered history)).imp ?_
  rintro a b ⟨low, tied⟩
  by_cases before : a.name < b.name
  · exact .inl before
  · simp only [Bool.not_eq_true', decide_eq_false_iff_not, String.not_lt] at low before tied
    exact tied before (String.le_antisymm low before)

/-- A listing has no entry twice, since none is listed before itself. -/
theorem nodup_listing (history : List Entry) : (ofEntries history).listing.Nodup := by
  refine (listing_ordered history).imp ?_
  rintro a _ before rfl
  rcases before with before | ⟨-, before⟩
  · exact String.lt_irrefl _ before
  · cases sign : a.symbol with
    | none => simp [sign] at before
    | some s => simp [sign] at before

theorem mem_listing (e : Entry) :
    e ∈ c.listing ↔ (∃ name, c.lookup? name = some e) ∨ ∃ symbol, c.operator? symbol = some e := by
  rw [c.listing_perm.mem_iff, List.mem_append, or_comm]
  refine or_congr ?_ ?_
  · exact ⟨fun member => ⟨e.key, Table.find?_eq_some_iff.2 ⟨member, rfl⟩⟩, fun ⟨_, found⟩ => Table.mem_of_find? found⟩
  · exact ⟨fun member => ⟨e.key, Table.find?_eq_some_iff.2 ⟨member, rfl⟩⟩, fun ⟨_, found⟩ => Table.mem_of_find? found⟩

theorem size_ofEntries (history : List Entry) :
    (ofEntries history).size = (functionNames history).toFinset.card + (operatorSymbols history).toFinset.card := by
  have functions : ∀ name, name ∈ (ofEntries history).functions.keys ↔ name ∈ functionNames history := fun name =>
    Table.mem_keys_iff.trans mem_functionNames.symm
  have operators : ∀ symbol, symbol ∈ (ofEntries history).operators.keys ↔ symbol ∈ operatorSymbols history := fun symbol =>
    Table.mem_keys_iff.trans mem_operatorSymbols.symm
  rw [Catalog.size, Table.size_eq_card functions, Table.size_eq_card operators]

theorem shows_ofEntries (history : List Entry) : (ofEntries history).Shows history where
  lookup := lookup?_ofEntries_eq history
  operator := operator?_ofEntries history
  unsigned found := (of_lookup? found).2
  size := size_ofEntries history
  listed := mem_listing
  once := nodup_listing history
  ordered := listing_ordered history

end Catalog

end Reckoner
