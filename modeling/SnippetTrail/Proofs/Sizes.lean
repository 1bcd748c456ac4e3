import SnippetTrail.Proofs.Recorded

/-!
# Sizes of files

The size of a file is written down in the versions that are read from it and in the tombstones, and
nothing is decided by it. `sizeless` strikes the sizes out, and a step on readings without sizes makes
the trail without sizes (`sizeless_stepBy`). So walks over commits that differ in sizes only end in the
same snippets up to sizes (`walk_sizeless`, `map_sizeless_eq`).
-/

namespace SnippetTrail

-- ---------------------------------------------------------------------------
-- Striking sizes out
-- ---------------------------------------------------------------------------

def VersionFile.sizeless (file : VersionFile) : VersionFile := { file with size := 0 }

def Version.sizeless (version : Version) : Version :=
  { version with file := version.file.map VersionFile.sizeless }

def Snippet.sizeless (snippet : Snippet) : Snippet :=
  { snippet with versions := snippet.versions.map Version.sizeless }

def FileReading.sizeless (reading : FileReading) : FileReading :=
  { reading with file := reading.file.sizeless }

def Trail.sizeless (trail : Trail) : Trail :=
  ⟨trail.snippet?.map Snippet.sizeless, trail.paths⟩

theorem Version.equivalent_sizeless (a b : Version) :
    a.sizeless.equivalent b.sizeless = a.equivalent b := by
  simp only [equivalent, sizeless]
  cases a.file <;> cases b.file <;> rfl

namespace Snippet

variable {snippet : Snippet}

@[simp] theorem name_sizeless : snippet.sizeless.name = snippet.name := rfl

@[simp] theorem nextName_sizeless : snippet.sizeless.nextName = snippet.nextName := by
  simp [nextName, sizeless]

@[simp] theorem primary?_sizeless :
    snippet.sizeless.primary? = snippet.primary?.map Version.sizeless := by
  simp [primary?, sizeless]

@[simp] theorem sizeless_append (version : Version) :
    (snippet.append version).sizeless = snippet.sizeless.append version.sizeless := by
  simp [append, sizeless]

@[simp] theorem sizeless_tombstone (grave : VersionFile) :
    (Catalog.tombstone snippet grave).sizeless =
      Catalog.tombstone snippet.sizeless grave.sizeless := by
  simp [Catalog.tombstone, Version.sizeless]

@[simp] theorem sizeless_placed (file : VersionFile) (version : Version) :
    (Catalog.placed snippet file version).sizeless =
      Catalog.placed snippet.sizeless file.sizeless version := by
  simp [Catalog.placed, Version.sizeless]

end Snippet

-- ---------------------------------------------------------------------------
-- Readings without sizes
-- ---------------------------------------------------------------------------

section
variable (readings : List FileReading)

theorem produced_sizeless :
    Catalog.produced (readings.map FileReading.sizeless) = Catalog.produced readings := by
  rw [Catalog.produced, List.flatMap_map]
  rfl

theorem lostByChange_sizeless (home : Home) :
    Catalog.lostByChange (readings.map FileReading.sizeless) home =
      (Catalog.lostByChange readings home).map fun _ => 0 := by
  have hat : (readings.map FileReading.sizeless).filter (·.file.path == home.path) =
      (readings.filter (·.file.path == home.path)).map FileReading.sizeless := List.filter_map
  simp only [Catalog.lostByChange, hat]
  cases readings.filter (·.file.path == home.path) with
  | nil => rfl
  | cons first rest =>
    have hany : ((first :: rest).map FileReading.sizeless).any
          (fun reading => reading.versions.any (·.name == home.snippet)) =
        (first :: rest).any fun reading => reading.versions.any (·.name == home.snippet) :=
      List.any_map
    simp only [List.map_cons] at hany ⊢
    rw [hany]
    split <;> rfl

theorem lostByDeletion_sizeless (deleted : List String) (home : Home) :
    (Catalog.lostByDeletion deleted home).map (fun _ => 0) = Catalog.lostByDeletion deleted home := by
  unfold Catalog.lostByDeletion
  split <;> rfl

theorem sightings_sizeless (name : String) :
    Trail.sightings (readings.map FileReading.sizeless) name =
      (Trail.sightings readings name).map fun sighting => (sighting.1.sizeless, sighting.2) := by
  have hpairs : (readings.map FileReading.sizeless).flatMap
        (fun reading => reading.versions.map (reading, ·)) =
      (readings.flatMap fun reading => reading.versions.map (reading, ·)).map
        fun sighting => (sighting.1.sizeless, sighting.2) := by
    rw [List.flatMap_map, List.map_flatMap]
    congr 1
    funext reading
    rw [List.map_map]
    rfl
  rw [Trail.sightings, Trail.sightings, hpairs, List.filter_map]
  rfl

end

-- ---------------------------------------------------------------------------
-- Steps
-- ---------------------------------------------------------------------------

namespace Trail

variable {owner repository name : String} {commit other : Commit} {trail : Trail}

theorem sizeless_leave (record : CommitRecord) (spared : Bool) (path : String) (size : Nat) :
    (trail.leave record spared path size).sizeless = trail.sizeless.leave record spared path 0 := by
  obtain ⟨snippet?, paths⟩ := trail
  cases snippet? with
  | none => rfl
  | some snippet => cases spared <;> simp [leave, sizeless, VersionFile.sizeless]

theorem sizeless_leaveLost (record : CommitRecord) (spared : Bool) (lost : String → Option Nat) :
    (trail.leaveLost record spared lost).sizeless =
      trail.sizeless.leaveLost record spared fun path => (lost path).map fun _ => 0 := by
  refine (List.foldl_hom sizeless fun current path => ?_).symm
  cases hl : lost path <;> simp [leaveIfLost, hl, sizeless_leave]

theorem sizeless_sighted (sighting : FileReading × Version) :
    trail.sizeless.sighted (sighting.1.sizeless, sighting.2) =
      (trail.sighted sighting).sizeless := by
  obtain ⟨snippet?, paths⟩ := trail
  cases snippet? <;> rfl

theorem sizeless_see (sighting : FileReading × Version) :
    (trail.see sighting).sizeless = trail.sizeless.see (sighting.1.sizeless, sighting.2) := by
  have hoffered : trail.sizeless.offered (sighting.1.sizeless, sighting.2) =
      (trail.offered sighting).sizeless := by
    rw [offered, sizeless_sighted, offered, Snippet.sizeless_placed]
    rfl
  have hsame : ((trail.sighted sighting).sizeless.primary?.any
        fun primary => primary.equivalent (trail.offered sighting).sizeless) =
      (trail.sighted sighting).primary?.any (·.equivalent (trail.offered sighting)) := by
    rw [Snippet.primary?_sizeless]
    cases (trail.sighted sighting).primary? with
    | none => rfl
    | some primary => exact Version.equivalent_sizeless _ _
  rw [see, see, sizeless_sighted, hoffered, hsame]
  split
  · rfl
  · simp [sizeless, FileReading.sizeless, VersionFile.sizeless]

theorem sizeless_foldl_see (list : List (FileReading × Version)) :
    (list.foldl see trail).sizeless =
      (list.map fun sighting => (sighting.1.sizeless, sighting.2)).foldl see trail.sizeless := by
  rw [List.foldl_map]
  exact (List.foldl_hom sizeless fun _ sighting => (sizeless_see sighting).symm).symm

def stepBy (record : CommitRecord) (deleted : List String) (readings : List FileReading)
    (name : String) (trail : Trail) : Trail :=
  let spared := decide (name ∈ Catalog.produced readings)
  let left := trail.leaveLost record spared fun path => Catalog.lostByDeletion deleted ⟨path, name⟩
  let left := left.leaveLost record spared fun path => Catalog.lostByChange readings ⟨path, name⟩
  (sightings readings name).foldl see left

theorem step_eq_stepBy : trail.step owner repository name commit =
    trail.stepBy (CommitRecord.ofCommit owner repository commit) (Catalog.deletedPaths commit)
      (Catalog.readings owner repository commit) name := rfl

theorem sizeless_stepBy (record : CommitRecord) (deleted : List String) (readings : List FileReading) :
    (trail.stepBy record deleted readings name).sizeless =
      trail.sizeless.stepBy record deleted (readings.map FileReading.sizeless) name := by
  simp only [stepBy, sizeless_foldl_see, sizeless_leaveLost, produced_sizeless, sightings_sizeless,
    lostByChange_sizeless, lostByDeletion_sizeless]

end Trail

-- ---------------------------------------------------------------------------
-- Walks
-- ---------------------------------------------------------------------------

/-- The commits say the same but for the sizes of the files that are read. -/
structure Commit.SameButSizes (owner repository : String) (commit other : Commit) : Prop where
  record : CommitRecord.ofCommit owner repository other = CommitRecord.ofCommit owner repository commit
  deleted : Catalog.deletedPaths other = Catalog.deletedPaths commit
  readings : (Catalog.readings owner repository other).map FileReading.sizeless =
    (Catalog.readings owner repository commit).map FileReading.sizeless

section
variable {owner repository name : String} {commit other : Commit} {commits others : List Commit}
  {snippets found : List Snippet}

theorem Commit.SameButSizes.step {trail twin : Trail} (h : commit.SameButSizes owner repository other)
    (ht : twin.sizeless = trail.sizeless) :
    (twin.step owner repository name other).sizeless =
      (trail.step owner repository name commit).sizeless := by
  rw [Trail.step_eq_stepBy, Trail.step_eq_stepBy, Trail.sizeless_stepBy, Trail.sizeless_stepBy, ht,
    h.record, h.deleted, h.readings]

theorem walk_sizeless (change : Commit → Commit)
    (h : ∀ commit ∈ commits, commit.SameButSizes owner repository (change commit)) :
    (Trail.walk owner repository name (commits.map change)).sizeless =
      (Trail.walk owner repository name commits).sizeless := by
  rw [Trail.walk, Trail.walk, List.foldl_map]
  -- both walks go on from trails that are the same without sizes
  have general (trail twin : Trail) (ht : twin.sizeless = trail.sizeless) :
      (commits.foldl (fun twin commit => twin.step owner repository name (change commit)) twin).sizeless =
        (commits.foldl (Trail.step owner repository name) trail).sizeless := by
    induction commits generalizing trail twin with
    | nil => exact ht
    | cons commit rest ih =>
      obtain ⟨hc, hr⟩ := List.forall_mem_cons.mp h
      exact ih hr _ _ (hc.step ht)
  exact general _ _ rfl

theorem mem_map_sizeless (h : calculateSnippets owner repository commits = .ok snippets)
    {snippet : Snippet} :
    snippet ∈ snippets.map Snippet.sizeless ↔
      (Trail.walk owner repository snippet.name commits).sizeless.snippet? = some snippet := by
  rw [List.mem_map, Trail.sizeless, Option.map_eq_some_iff]
  constructor
  · rintro ⟨whole, hm, rfl⟩
    exact ⟨whole, (mem_calculateSnippets h).mp hm, rfl⟩
  · rintro ⟨whole, hk, rfl⟩
    exact ⟨whole, (mem_calculateSnippets h).mpr hk, rfl⟩

theorem map_sizeless_eq (h : calculateSnippets owner repository commits = .ok snippets)
    (ho : calculateSnippets owner repository others = .ok found)
    (hwalk : ∀ name, (Trail.walk owner repository name others).sizeless =
      (Trail.walk owner repository name commits).sizeless) :
    found.map Snippet.sizeless = snippets.map Snippet.sizeless := by
  have hordered {commits : List Commit} {snippets : List Snippet}
      (h : calculateSnippets owner repository commits = .ok snippets) :
      (snippets.map Snippet.sizeless).Pairwise fun a b => a.name < b.name :=
    List.pairwise_map.mpr (List.pairwise_map.mp (calculateSnippets_wellFormed h).1)
  refine eq_of_ordered (hordered ho) (hordered h) (fun _ => String.lt_irrefl _)
    (fun _ _ _ => String.lt_trans) fun snippet => ?_
  rw [mem_map_sizeless ho, mem_map_sizeless h, hwalk]

end

end SnippetTrail
