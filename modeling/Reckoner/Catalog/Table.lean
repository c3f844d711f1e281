import Reckoner.Catalog.Entry

/-!
# Tables of entries

A `Table` holds at most one entry per key, in the order in which the keys were
first put there. `put` replaces the entry of its key in place, so the latest
write is found and the order stays (`find?_put`, `keys_put`).
-/

namespace Reckoner

/-- `entries` with `e` in the place of the entry of its key, or at the end. -/
def putEntry (e : Entry) : List Entry → List Entry
  | [] => [e]
  | first :: rest => if first.key == e.key then e :: rest else first :: putEntry e rest

theorem mem_putEntry {e x : Entry} {entries : List Entry} (h : x ∈ putEntry e entries) :
    x = e ∨ x ∈ entries := by
  induction entries with
  | nil => simpa [putEntry] using h
  | cons first rest ih =>
    simp only [putEntry] at h
    split at h
    · rcases List.mem_cons.1 h with h | h
      · exact .inl h
      · exact .inr (List.mem_cons_of_mem _ h)
    · rcases List.mem_cons.1 h with h | h
      · exact .inr (h ▸ List.mem_cons_self ..)
      · exact (ih h).imp id (List.mem_cons_of_mem _)

/-- The keys stay as they were; a new one is appended. -/
theorem keys_putEntry (e : Entry) (entries : List Entry) :
    (putEntry e entries).map Entry.key =
      if e.key ∈ entries.map Entry.key then entries.map Entry.key
      else entries.map Entry.key ++ [e.key] := by
  induction entries with
  | nil => simp [putEntry]
  | cons first rest ih =>
    by_cases h : first.key = e.key
    · simp [putEntry, h]
    · have h' : e.key ≠ first.key := fun s => h s.symm
      simp only [putEntry, beq_iff_eq, h, if_false, List.map_cons, ih, List.mem_cons, h', false_or]
      split <;> simp

theorem nodup_putEntry {e : Entry} {entries : List Entry} (h : (entries.map Entry.key).Nodup) :
    ((putEntry e entries).map Entry.key).Nodup := by
  rw [keys_putEntry]
  split
  · exact h
  · next fresh =>
    refine List.nodup_append.2 ⟨h, by simp, ?_⟩
    intro a ha b hb same
    simp only [List.mem_singleton] at hb
    exact fresh (hb ▸ same ▸ ha)

/-- The last write of a key is what is found under it. -/
theorem find?_putEntry (e : Entry) (entries : List Entry) (key : String) :
    (putEntry e entries).find? (·.key == key) =
      if e.key = key then some e else entries.find? (·.key == key) := by
  induction entries with
  | nil =>
    by_cases h : e.key = key <;> simp [putEntry, h]
  | cons first rest ih =>
    by_cases same : first.key = e.key
    · by_cases h : e.key = key
      · simp [putEntry, same, h]
      · simp [putEntry, same, h]
    · by_cases h : e.key = key
      · have other : first.key ≠ key := fun s => same (s.trans h.symm)
        simp only [h, if_true] at ih
        simp [putEntry, other, ih, h]
      · simp only [h, if_false] at ih
        simp only [putEntry, beq_iff_eq, same, if_false, List.find?_cons, ih, h]

/-- Entries in the order of their first registration, one per key. -/
structure Table where
  entries : List Entry
  nodup : (entries.map Entry.key).Nodup

namespace Table

def empty : Table := ⟨[], by simp⟩

def put (t : Table) (e : Entry) : Table :=
  ⟨putEntry e t.entries, nodup_putEntry t.nodup⟩

def find? (t : Table) (key : String) : Option Entry :=
  t.entries.find? (·.key == key)

def size (t : Table) : Nat := t.entries.length

def keys (t : Table) : List String := t.entries.map Entry.key

@[simp] theorem find?_empty (key : String) : empty.find? key = none := rfl

theorem find?_put (t : Table) (e : Entry) (key : String) :
    (t.put e).find? key = if e.key = key then some e else t.find? key :=
  find?_putEntry e t.entries key

theorem keys_put (t : Table) (e : Entry) :
    (t.put e).keys = if e.key ∈ t.keys then t.keys else t.keys ++ [e.key] :=
  keys_putEntry e t.entries

theorem key_of_find? {t : Table} {key : String} {e : Entry} (h : t.find? key = some e) :
    e.key = key := by
  simpa using List.find?_some h

theorem mem_of_find? {t : Table} {key : String} {e : Entry} (h : t.find? key = some e) :
    e ∈ t.entries :=
  List.mem_of_find?_eq_some h

end Table

end Reckoner
