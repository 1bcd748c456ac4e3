import Mathlib.Data.List.Nodup
import SnippetTrail.Toml.Document

/-!
# Keys are distinct

A configuration file cannot say two things under one key: in the table that a file describes, and in
the tables below it, no key stands twice (`distinct_of_ofText?`). So it is no matter in which order the
entries of a table are read.
-/

namespace SnippetTrail.Toml

/-- The table that a value is; of an array of tables the last one, which alone may grow. -/
def Value.table? : Value → Option Table
  | .table child | .inline child | .tables _ child => some child
  | _ => none

inductive Table.Distinct : Table → Prop where
  | intro {kind : TableKind} {entries : List (String × Value)} (keys : (entries.map (·.1)).Nodup)
      (below : ∀ entry ∈ entries, ∀ child ∈ entry.2.table?, child.Distinct) :
      Distinct (.mk kind entries)

def Value.Distinct (value : Value) : Prop := ∀ child ∈ value.table?, child.Distinct

namespace Value

variable {child : Table}

theorem distinct_table (h : child.Distinct) : (table child).Distinct := by
  rintro _ ⟨⟩
  exact h

theorem distinct_inline (h : child.Distinct) : (inline child).Distinct := by
  rintro _ ⟨⟩
  exact h

theorem distinct_tables (earlier : List Table) (h : child.Distinct) :
    (tables earlier child).Distinct := by
  rintro _ ⟨⟩
  exact h

theorem distinct_of_none {value : Value} (h : value.table? = none) : value.Distinct := by
  rw [Distinct, h]
  rintro _ ⟨⟩

end Value

-- ---------------------------------------------------------------------------
-- Tables
-- ---------------------------------------------------------------------------

namespace Table

variable {table after : Table} {key : String} {value : Value} {byDots : Bool} {path : List String}

theorem Distinct.nodup (h : table.Distinct) : (table.entries.map (·.1)).Nodup := by
  cases h with
  | intro keys _ => exact keys

theorem Distinct.mem (h : table.Distinct) {entry : String × Value} (hm : entry ∈ table.entries) :
    entry.2.Distinct := by
  cases h with
  | intro _ below => exact below entry hm

theorem distinct_empty (kind : TableKind) : (mk kind []).Distinct := .intro List.nodup_nil (by simp)

theorem Distinct.withKind (h : table.Distinct) (kind : TableKind) :
    (mk kind table.entries).Distinct := .intro h.nodup fun _ hm => h.mem hm

theorem Distinct.find? (h : table.Distinct) (hf : table.find? key = some value) :
    value.Distinct := by
  obtain ⟨before, after, he, -⟩ := List.lookup_eq_some_iff.mp hf
  have hm : (key, value) ∈ table.entries := by simp [he]
  exact h.mem hm

theorem Distinct.set (h : table.Distinct) (hv : value.Distinct) : (table.set key value).Distinct := by
  unfold Table.set
  split
  · refine .intro ?_ fun entry hm => ?_
    · have hkeys : (table.entries.map fun entry =>
          if entry.1 == key then (key, value) else entry).map (·.1) = table.entries.map (·.1) := by
        rw [List.map_map]
        refine List.map_congr_left fun entry _ => ?_
        by_cases he : entry.1 = key <;> simp [he]
      rw [hkeys]
      exact h.nodup
    · obtain ⟨old, ho, rfl⟩ := List.mem_map.mp hm
      split
      · exact hv
      · exact h.mem ho
  · rename_i hnew
    have hfresh : key ∉ table.entries.map (·.1) := by simpa using hnew
    refine .intro ?_ fun entry hm => ?_
    · rw [List.map_append]
      refine List.nodup_append.mpr ⟨h.nodup, List.nodup_singleton _, ?_⟩
      rintro other ho _ (_ | ⟨_, ⟨⟩⟩) rfl
      exact hfresh ho
    · rcases List.mem_append.mp hm with hm | hm
      · exact h.mem hm
      · rw [List.mem_singleton.mp hm]
        exact hv

theorem Distinct.modify {change : Table → Option Table}
    (hc : ∀ table after, table.Distinct → change table = some after → after.Distinct)
    (h : table.Distinct) (hm : table.modify byDots change path = some after) : after.Distinct := by
  induction path generalizing table after with
  | nil => exact hc table after h hm
  | cons key path ih =>
    unfold Table.modify at hm
    cases hfound : table.find? key with
    | none =>
      rw [hfound] at hm
      obtain ⟨value, hvalue, hset⟩ := Option.bind_eq_some_iff.mp hm
      obtain ⟨child, hchild, rfl⟩ := Option.map_eq_some_iff.mp hvalue
      cases hset
      exact h.set (Value.distinct_table (ih (distinct_empty _) hchild))
    | some old =>
      rw [hfound] at hm
      cases old with
      | table child =>
        have hd : child.Distinct := h.find? hfound _ rfl
        dsimp only at hm
        split at hm
        · cases hm
        · obtain ⟨value, hvalue, hset⟩ := Option.bind_eq_some_iff.mp hm
          obtain ⟨grown, hgrown, rfl⟩ := Option.map_eq_some_iff.mp hvalue
          cases hset
          exact h.set (Value.distinct_table (ih hd hgrown))
      | tables earlier last =>
        have hd : last.Distinct := h.find? hfound _ rfl
        obtain ⟨value, hvalue, hset⟩ := Option.bind_eq_some_iff.mp hm
        obtain ⟨grown, hgrown, rfl⟩ := Option.map_eq_some_iff.mp hvalue
        cases hset
        exact h.set (Value.distinct_tables earlier (ih hd hgrown))
      | _ => cases hm

theorem Distinct.addValue {keys : List String} (h : table.Distinct) (hv : value.Distinct)
    (ha : table.addValue keys value = some after) : after.Distinct := by
  simp only [Table.addValue, Option.bind_eq_bind, Option.bind_eq_some_iff] at ha
  obtain ⟨name, -, ha⟩ := ha
  refine h.modify (fun holder grown hh hg => ?_) ha
  split at hg
  · cases hg
  · cases hg
    exact hh.set hv

theorem Distinct.addBelow {header keys : List String} (h : table.Distinct) (hv : value.Distinct)
    (ha : table.addBelow header keys value = some after) : after.Distinct :=
  h.modify (fun _ _ hh hg => hh.addValue hv hg) ha

theorem Distinct.declare {header : List String} (h : table.Distinct)
    (hd : table.declare header = some after) : after.Distinct := by
  simp only [Table.declare, Option.bind_eq_bind, Option.bind_eq_some_iff] at hd
  obtain ⟨name, -, hd⟩ := hd
  refine h.modify (fun parent grown hp hg => ?_) hd
  split at hg
  · cases hg
    exact hp.set (Value.distinct_table (distinct_empty _))
  · rename_i child hfound
    split at hg
    · cases hg
      have hchild : child.Distinct := hp.find? hfound _ rfl
      exact hp.set (Value.distinct_table (hchild.withKind _))
    · cases hg
  · cases hg

theorem Distinct.declareNext {header : List String} (h : table.Distinct)
    (hd : table.declareNext header = some after) : after.Distinct := by
  simp only [Table.declareNext, Option.bind_eq_bind, Option.bind_eq_some_iff] at hd
  obtain ⟨name, -, hd⟩ := hd
  refine h.modify (fun parent grown hp hg => ?_) hd
  split at hg
  · cases hg
    exact hp.set (Value.distinct_tables _ (distinct_empty _))
  · cases hg
    exact hp.set (Value.distinct_tables _ (distinct_empty _))
  · cases hg

end Table

-- ---------------------------------------------------------------------------
-- Files
-- ---------------------------------------------------------------------------

section
variable {depth fuel : Nat} {text rest : List Char} {value : Value}

theorem distinct_of_value?
    (hpairs : ∀ {depth text table after rest}, table.Distinct →
      pairs? depth fuel table text = some (after, rest) → after.Distinct)
    (h : value? depth (fuel + 1) text = some (value, rest)) : value.Distinct := by
  unfold value? at h
  split at h
  · cases h
  · obtain ⟨_, -, he⟩ := Option.map_eq_some_iff.mp h
    cases he
    exact Value.distinct_of_none rfl
  · obtain ⟨_, -, he⟩ := Option.map_eq_some_iff.mp h
    cases he
    exact Value.distinct_of_none rfl
  · split at h
    · obtain ⟨_, -, he⟩ := Option.map_eq_some_iff.mp h
      cases he
      exact Value.distinct_of_none rfl
    · cases h
  · split at h
    · split at h
      · cases h
        exact Value.distinct_inline (Table.distinct_empty _)
      · obtain ⟨_, hread, he⟩ := Option.map_eq_some_iff.mp h
        cases he
        exact Value.distinct_inline (hpairs (Table.distinct_empty _) hread)
    · cases h
  · cases h
    exact Value.distinct_of_none rfl
  · cases h
    exact Value.distinct_of_none rfl
  · split at h
    · cases h
      exact Value.distinct_of_none rfl
    · split at h
      · cases h
        exact Value.distinct_of_none rfl
      · obtain ⟨_, -, he⟩ := Option.map_eq_some_iff.mp h
        cases he
        exact Value.distinct_of_none rfl

theorem distinct_of_pairs? {table after : Table}
    (hvalue : ∀ {depth text value rest}, value? depth fuel text = some (value, rest) → value.Distinct)
    (hpairs : ∀ {depth text table after rest}, table.Distinct →
      pairs? depth fuel table text = some (after, rest) → after.Distinct)
    (ht : table.Distinct) (h : pairs? depth (fuel + 1) table text = some (after, rest)) :
    after.Distinct := by
  simp only [pairs?, Option.bind_eq_bind, Option.bind_eq_some_iff] at h
  obtain ⟨⟨key, behind⟩, -, h⟩ := h
  dsimp only at h
  split at h
  · simp only [Option.bind_eq_some_iff] at h
    obtain ⟨⟨value, behind⟩, hread, grown, hgrown, h⟩ := h
    have hd : grown.Distinct := ht.addValue (hvalue hread) hgrown
    split at h
    · exact hpairs hd h
    · cases h
      exact hd
    · cases h
  · cases h

end

theorem distinct_value_pairs (fuel : Nat) :
    (∀ {depth text value rest}, value? depth fuel text = some (value, rest) → value.Distinct) ∧
      ∀ {depth text table after rest}, table.Distinct →
        pairs? depth fuel table text = some (after, rest) → after.Distinct := by
  induction fuel with
  | zero => exact ⟨by simp [value?], by simp [pairs?]⟩
  | succ fuel ih => exact ⟨distinct_of_value? ih.2, distinct_of_pairs? ih.1 ih.2⟩

theorem distinct_of_lines? {fuel : Nat} {header : List String} {table after : Table}
    {text : List Char} (ht : table.Distinct) (h : lines? fuel header table text = some after) :
    after.Distinct := by
  induction fuel generalizing header table text with
  | zero => simp [lines?] at h
  | succ fuel ih =>
    unfold lines? at h
    split at h
    · cases h
      exact ht
    · simp only [Option.bind_eq_bind, Option.bind_eq_some_iff] at h
      obtain ⟨⟨path, behind⟩, -, h⟩ := h
      dsimp only at h
      split at h
      · simp only [Option.bind_eq_some_iff] at h
        obtain ⟨grown, hgrown, behind, -, h⟩ := h
        exact ih (ht.declareNext hgrown) h
      · cases h
    · simp only [Option.bind_eq_bind, Option.bind_eq_some_iff] at h
      obtain ⟨⟨path, behind⟩, -, h⟩ := h
      dsimp only at h
      split at h
      · simp only [Option.bind_eq_some_iff] at h
        obtain ⟨grown, hgrown, behind, -, h⟩ := h
        exact ih (ht.declare hgrown) h
      · cases h
    · simp only [Option.bind_eq_bind, Option.bind_eq_some_iff] at h
      obtain ⟨⟨key, behind⟩, -, h⟩ := h
      dsimp only at h
      split at h
      · simp only [Option.bind_eq_some_iff] at h
        obtain ⟨⟨value, behind⟩, hvalue, grown, hgrown, behind, -, h⟩ := h
        exact ih (ht.addBelow ((distinct_value_pairs _).1 hvalue) hgrown) h
      · cases h

/-- The table that a file describes has no key twice, and no table below it has. -/
theorem distinct_of_ofText? {text : String} {table : Table} (h : ofText? text = some table) :
    table.Distinct :=
  distinct_of_lines? (Table.distinct_empty _) h

end SnippetTrail.Toml
