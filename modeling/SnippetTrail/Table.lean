/-!
# Tables

A table maps texts to values and lists its entries in increasing order of their keys. Main
statements: `find?_insert` says what an insertion changes, and `sorted` is part of the type.
-/

namespace SnippetTrail

def insertEntry (key : String) (value : α) : List (String × α) → List (String × α)
  | [] => [(key, value)]
  | (k, v) :: rest =>
    if key = k then (key, value) :: rest
    else if key < k then (key, value) :: (k, v) :: rest
    else (k, v) :: insertEntry key value rest

theorem mem_insertEntry {key : String} {value : α} {entries : List (String × α)} {e : String × α}
    (h : e ∈ insertEntry key value entries) : e = (key, value) ∨ e ∈ entries := by
  induction entries with
  | nil => simpa [insertEntry] using h
  | cons head rest ih =>
    obtain ⟨k, v⟩ := head
    unfold insertEntry at h
    split at h
    · simp only [List.mem_cons] at h ⊢; exact h.imp_right .inr
    · split at h
      · simpa using h
      · simp only [List.mem_cons] at h ⊢
        rcases h with h | h
        · exact .inr (.inl h)
        · exact (ih h).imp_right .inr

theorem sorted_insertEntry {key : String} {value : α} {entries : List (String × α)}
    (h : entries.Pairwise (·.1 < ·.1)) : (insertEntry key value entries).Pairwise (·.1 < ·.1) := by
  induction entries with
  | nil => simp [insertEntry]
  | cons head rest ih =>
    obtain ⟨k, v⟩ := head
    rw [List.pairwise_cons] at h
    unfold insertEntry
    split
    · rename_i he; subst he; exact List.pairwise_cons.2 ⟨h.1, h.2⟩
    · split
      · rename_i he hl
        refine List.pairwise_cons.2 ⟨fun e hm => ?_, List.pairwise_cons.2 h⟩
        rcases List.mem_cons.1 hm with rfl | hm
        · exact hl
        · exact String.lt_trans hl (h.1 e hm)
      · rename_i he hl
        refine List.pairwise_cons.2 ⟨fun e hm => ?_, ih h.2⟩
        rcases mem_insertEntry hm with rfl | hm
        · exact Std.lt_of_le_of_ne (String.not_lt.1 hl) (Ne.symm he)
        · exact h.1 e hm

def findEntry (key : String) : List (String × α) → Option α
  | [] => none
  | (k, v) :: rest => if key = k then some v else findEntry key rest

theorem findEntry_insertEntry (key : String) (value : α) (other : String)
    (entries : List (String × α)) :
    findEntry other (insertEntry key value entries) =
      if other = key then some value else findEntry other entries := by
  induction entries with
  | nil => simp [insertEntry, findEntry]
  | cons head rest ih =>
    obtain ⟨k, v⟩ := head
    unfold insertEntry
    split
    · rename_i he
      subst he
      by_cases ho : other = key <;> simp [findEntry, ho]
    · rename_i he
      split
      · simp [findEntry]
      · by_cases hk : other = k
        · subst hk; simp [findEntry, Ne.symm he]
        · simp [findEntry, hk, ih]

theorem findEntry_eq_some {key : String} {value : α} {entries : List (String × α)}
    (hs : entries.Pairwise (·.1 < ·.1)) :
    findEntry key entries = some value ↔ (key, value) ∈ entries := by
  induction entries with
  | nil => simp [findEntry]
  | cons head rest ih =>
    obtain ⟨k, v⟩ := head
    obtain ⟨hk, hr⟩ := List.pairwise_cons.mp hs
    by_cases he : key = k
    · subst he
      have hn : (key, value) ∉ rest := fun hm => String.lt_irrefl key (hk _ hm)
      simp [findEntry, hn, eq_comm]
    · simp [findEntry, he, ih hr]

structure Table (α : Type) where
  entries : List (String × α)
  sorted : entries.Pairwise (·.1 < ·.1)

namespace Table

def empty : Table α := ⟨[], List.Pairwise.nil⟩

instance : Inhabited (Table α) := ⟨empty⟩

def insert (table : Table α) (key : String) (value : α) : Table α :=
  ⟨insertEntry key value table.entries, sorted_insertEntry table.sorted⟩

def find? (table : Table α) (key : String) : Option α := findEntry key table.entries

def keys (table : Table α) : List String := table.entries.map (·.1)

def values (table : Table α) : List α := table.entries.map (·.2)

@[simp] theorem find?_empty (key : String) : (empty : Table α).find? key = none := rfl

theorem find?_insert (table : Table α) (key : String) (value : α) (other : String) :
    (table.insert key value).find? other = if other = key then some value else table.find? other :=
  findEntry_insertEntry key value other table.entries

theorem find?_eq_some {table : Table α} {key : String} {value : α} :
    table.find? key = some value ↔ (key, value) ∈ table.entries := findEntry_eq_some table.sorted

theorem keys_sorted (table : Table α) : table.keys.Pairwise (· < ·) :=
  List.pairwise_map.mpr table.sorted

theorem mem_values {table : Table α} {value : α} :
    value ∈ table.values ↔ ∃ key, table.find? key = some value := by
  simp [values, find?_eq_some]

theorem mem_keys {table : Table α} {key : String} :
    key ∈ table.keys ↔ ∃ value, table.find? key = some value := by
  simp [keys, find?_eq_some]

theorem mem_keys_insert {table : Table α} {key other : String} {value : α} :
    other ∈ (table.insert key value).keys ↔ other = key ∨ other ∈ table.keys := by
  simp only [mem_keys, find?_insert]
  split <;> simp_all

end Table

end SnippetTrail
