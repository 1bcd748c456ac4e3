import SnippetTrail.Proofs.Trail

/-!
# What a commit does to a trail

A step has two halves. In the first the snippet leaves the paths that the commit takes from it:
`depart_eq` says that each of them gets one tombstone unless the commit holds the snippet somewhere.
In the second the versions found are offered one by one: `see_cases` says what an offer does. Which
paths are lost and which versions are offered is told by the commit's files (`lostIn?_eq_none`,
`mem_sightings`).
-/

namespace SnippetTrail

-- ---------------------------------------------------------------------------
-- Tombstones
-- ---------------------------------------------------------------------------

@[simp] theorem Snippet.primary?_append (snippet : Snippet) (version : Version) :
    (snippet.append version).primary? = some version := by
  simp [Snippet.primary?, Snippet.append]

@[simp] theorem Snippet.isLive_append (snippet : Snippet) (version : Version) :
    (snippet.append version).isLive = !version.isTombstone := by
  simp [isLive]

@[simp] theorem isTombstone_tombstone (snippet : Snippet) (grave : VersionFile) :
    (Catalog.tombstone snippet grave).isTombstone = true := rfl

namespace Snippet

def bury (snippet : Snippet) (graves : List VersionFile) : Snippet :=
  graves.foldl (fun snippet grave => snippet.append (Catalog.tombstone snippet grave)) snippet

@[simp] theorem bury_nil (snippet : Snippet) : snippet.bury [] = snippet := rfl

@[simp] theorem bury_cons (snippet : Snippet) (grave : VersionFile) (rest : List VersionFile) :
    snippet.bury (grave :: rest) = (snippet.append (Catalog.tombstone snippet grave)).bury rest := rfl

theorem bury_append (snippet : Snippet) (graves more : List VersionFile) :
    snippet.bury (graves ++ more) = (snippet.bury graves).bury more := List.foldl_append

structure Grows (before after : Snippet) : Prop where
  name : after.name = before.name
  language : after.language = before.language
  versions : before.versions <+: after.versions

theorem Grows.refl (snippet : Snippet) : snippet.Grows snippet := ⟨rfl, rfl, List.prefix_refl _⟩

theorem Grows.trans {a b c : Snippet} (hab : a.Grows b) (hbc : b.Grows c) : a.Grows c :=
  ⟨hbc.name.trans hab.name, hbc.language.trans hab.language, hab.versions.trans hbc.versions⟩

theorem grows_append (snippet : Snippet) (version : Version) :
    snippet.Grows (snippet.append version) := ⟨rfl, rfl, List.prefix_append _ _⟩

theorem grows_bury (snippet : Snippet) (graves : List VersionFile) :
    snippet.Grows (snippet.bury graves) := by
  induction graves generalizing snippet with
  | nil => exact Grows.refl snippet
  | cons grave rest ih => exact (snippet.grows_append _).trans (ih _)

theorem bury_ne_nil {snippet : Snippet} (graves : List VersionFile) (hne : snippet.versions ≠ []) :
    (snippet.bury graves).versions ≠ [] := by
  intro he
  exact hne (List.prefix_nil.mp (he ▸ (snippet.grows_bury graves).versions))

theorem isLive_bury (snippet : Snippet) (graves : List VersionFile) :
    (snippet.bury graves).isLive = (graves.isEmpty && snippet.isLive) := by
  induction graves generalizing snippet with
  | nil => simp
  | cons grave rest ih => simp [ih]

end Snippet

-- ---------------------------------------------------------------------------
-- Leaving lost homes
-- ---------------------------------------------------------------------------

namespace Trail

variable {trail : Trail} {record : CommitRecord} {spared : Bool} {lost : String → Option Nat}

def graves (record : CommitRecord) (lost : String → Option Nat) (paths : List String) :
    List VersionFile :=
  paths.filterMap fun path => (lost path).map (⟨path, record, ·⟩)

theorem leaveIfLost_none {path : String} (hl : lost path = none) :
    leaveIfLost record spared lost trail path = trail := by
  simp [leaveIfLost, hl]

theorem leaveIfLost_some {snippet : Snippet} {kept rest : List String} {path : String} {size : Nat}
    (hl : lost path = some size) (hp : path ∉ kept) :
    leaveIfLost record spared lost ⟨some snippet, kept ++ path :: rest⟩ path =
      ⟨some (if spared then snippet else snippet.bury [⟨path, record, size⟩]), kept ++ rest⟩ := by
  have he : (kept ++ path :: rest).erase path = kept ++ rest := by
    rw [List.erase_append_right _ hp, List.erase_cons_head]
  simp [leaveIfLost, leave, hl, he]

/-- The paths looked at already and kept stand before those still to be looked at. -/
theorem foldl_leaveIfLost {snippet : Snippet} {kept paths : List String}
    (hn : (kept ++ paths).Nodup) :
    paths.foldl (leaveIfLost record spared lost) ⟨some snippet, kept ++ paths⟩ =
      ⟨some (if spared then snippet else snippet.bury (graves record lost paths)),
        kept ++ paths.filter fun path => (lost path).isNone⟩ := by
  induction paths generalizing snippet kept with
  | nil => simp [graves]
  | cons path rest ih =>
    rw [List.foldl_cons]
    cases hl : lost path with
    | none =>
      have h := @ih snippet (kept ++ [path]) (by simpa using hn)
      simp only [List.append_assoc, List.singleton_append] at h
      rw [leaveIfLost_none hl, h]
      simp [graves, hl]
    | some size =>
      have hp : path ∉ kept := fun hm => (List.nodup_append.mp hn).2.2 path hm path (by simp) rfl
      have hr : (kept ++ rest).Nodup :=
        hn.sublist (List.Sublist.append_left (List.sublist_cons_self _ _) _)
      rw [leaveIfLost_some hl hp, ih hr]
      cases spared <;> simp [graves, hl]

theorem leaveLost_eq (hn : trail.paths.Nodup) (hk : trail.snippet? = none → trail.paths = []) :
    trail.leaveLost record spared lost =
      ⟨trail.snippet?.map fun snippet =>
          if spared then snippet else snippet.bury (graves record lost trail.paths),
        trail.paths.filter fun path => (lost path).isNone⟩ := by
  obtain ⟨snippet?, paths⟩ := trail
  cases snippet? with
  | none =>
    cases hk rfl
    rfl
  | some snippet => exact @foldl_leaveIfLost _ _ _ snippet [] paths hn

-- ---------------------------------------------------------------------------
-- The paths that a commit takes a snippet from
-- ---------------------------------------------------------------------------

section
variable (owner repository name : String) (commit : Commit)

def lostIn? (path : String) : Option Nat :=
  (Catalog.lostByDeletion (Catalog.deletedPaths commit) ⟨path, name⟩).or
    (Catalog.lostByChange (Catalog.readings owner repository commit) ⟨path, name⟩)

/-- The places of the tombstones that a commit adds if it does not hold the snippet: the paths
deleted come before the paths changed. -/
def departures (paths : List String) : List VersionFile :=
  let record := CommitRecord.ofCommit owner repository commit
  let deleted := fun path => Catalog.lostByDeletion (Catalog.deletedPaths commit) ⟨path, name⟩
  let changed := fun path =>
    Catalog.lostByChange (Catalog.readings owner repository commit) ⟨path, name⟩
  graves record deleted paths ++
    graves record changed (paths.filter fun path => (deleted path).isNone)

end

variable {owner repository name : String} {commit : Commit}

theorem depart_eq (hn : trail.paths.Nodup) (hk : trail.snippet? = none → trail.paths = []) :
    trail.depart owner repository name commit =
      ⟨trail.snippet?.map fun snippet =>
          if name ∈ Catalog.produced (Catalog.readings owner repository commit) then snippet
          else snippet.bury (departures owner repository name commit trail.paths),
        trail.paths.filter fun path => (lostIn? owner repository name commit path).isNone⟩ := by
  simp only [depart]
  rw [leaveLost_eq hn hk, leaveLost_eq]
  case hn => exact hn.filter _
  case hk =>
    intro h
    simp only at h ⊢
    rw [hk (Option.map_eq_none_iff.mp h), List.filter_nil]
  simp only [Option.map_map, List.filter_filter, decide_eq_true_eq, Trail.mk.injEq]
  refine ⟨?_, ?_⟩
  · congr 1
    funext snippet
    simp only [Function.comp_apply]
    split
    · rfl
    · simp [departures, Snippet.bury_append]
  · congr 1
    funext path
    simp [lostIn?, Bool.and_comm]

theorem mem_graves {record : CommitRecord} {lost : String → Option Nat} {paths : List String}
    {grave : VersionFile} :
    grave ∈ graves record lost paths ↔
      grave.path ∈ paths ∧ grave.commit = record ∧ lost grave.path = some grave.size := by
  simp only [graves, List.mem_filterMap, Option.map_eq_some_iff]
  constructor
  · rintro ⟨path, hm, size, hl, rfl⟩; exact ⟨hm, rfl, hl⟩
  · rintro ⟨hm, rfl, hl⟩; exact ⟨_, hm, _, hl, rfl⟩

theorem mem_departures {paths : List String} {grave : VersionFile} :
    grave ∈ departures owner repository name commit paths ↔
      grave.path ∈ paths ∧ grave.commit = CommitRecord.ofCommit owner repository commit ∧
        lostIn? owner repository name commit grave.path = some grave.size := by
  simp only [departures, lostIn?, List.mem_append, mem_graves, List.mem_filter,
    Option.isNone_iff_eq_none]
  cases Catalog.lostByDeletion (Catalog.deletedPaths commit) ⟨grave.path, name⟩ <;> simp

theorem graves_nodup {record : CommitRecord} {lost : String → Option Nat} {paths : List String}
    (hn : paths.Nodup) : ((graves record lost paths).map (·.path)).Nodup := by
  have hs : ((graves record lost paths).map (·.path)).Sublist paths := by
    induction paths with
    | nil => exact List.Sublist.refl _
    | cons path rest ih =>
      have ih := ih (List.nodup_cons.mp hn).2
      cases hl : lost path with
      | none => simpa [graves, hl] using ih.cons path
      | some size => simpa [graves, hl] using ih.cons_cons path
  exact hn.sublist hs

theorem departures_nodup {paths : List String} (hn : paths.Nodup) :
    ((departures owner repository name commit paths).map (·.path)).Nodup := by
  simp only [departures, List.map_append]
  refine List.nodup_append.mpr ⟨graves_nodup hn, graves_nodup (hn.filter _), ?_⟩
  rintro path hd _ hc rfl
  obtain ⟨grave, hg, rfl⟩ := List.mem_map.mp hd
  obtain ⟨other, ho, hp⟩ := List.mem_map.mp hc
  have hs := (mem_graves.mp hg).2.2
  have hf := (List.mem_filter.mp (mem_graves.mp ho).1).2
  simp [hp, hs] at hf

end Trail

-- ---------------------------------------------------------------------------
-- The commit's files
-- ---------------------------------------------------------------------------

namespace Catalog

variable {owner repository : String} {commit : Commit}

theorem mem_deletedPaths {path : String} :
    path ∈ deletedPaths commit ↔
      ∃ file ∈ commit.files, file.path = path ∧ SourceFile.isScanned path = true ∧
        file.isDeleted = true := by
  simp only [deletedPaths, List.mem_map, List.mem_filter, Bool.and_eq_true]
  constructor
  · rintro ⟨file, ⟨hm, hs, hd⟩, rfl⟩; exact ⟨file, hm, rfl, hs, hd⟩
  · rintro ⟨file, hm, rfl, hs, hd⟩; exact ⟨file, ⟨hm, hs, hd⟩, rfl⟩

theorem lostByDeletion_eq_none {home : Home} :
    lostByDeletion (deletedPaths commit) home = none ↔
      ∀ file ∈ commit.files, file.path = home.path → SourceFile.isScanned home.path = true →
        file.isDeleted = false := by
  have hd : lostByDeletion (deletedPaths commit) home = none ↔ home.path ∉ deletedPaths commit := by
    simp [lostByDeletion]
  rw [hd, mem_deletedPaths]
  simp

theorem mem_readings_at {path : String} {result : FileReading} :
    result ∈ (readings owner repository commit).filter (·.file.path == path) ↔
      ∃ file ∈ commit.files, holdsRegions file = true ∧ file.path = path ∧
        result = reading owner repository commit file := by
  simp only [readings, List.mem_filter, List.mem_map, beq_iff_eq]
  constructor
  · rintro ⟨⟨file, ⟨hm, hf⟩, rfl⟩, rfl⟩; exact ⟨file, hm, hf, rfl, rfl⟩
  · rintro ⟨file, hm, hf, rfl, rfl⟩; exact ⟨⟨file, ⟨hm, hf⟩, rfl⟩, rfl⟩

theorem lostByChange_eq_none {home : Home} :
    lostByChange (readings owner repository commit) home = none ↔
      ∀ file ∈ commit.files, file.path = home.path → holdsRegions file = true →
        ∃ other ∈ commit.files, other.path = home.path ∧
          other.Yields owner repository home.snippet := by
  have hr := @mem_readings_at owner repository commit home.path
  unfold lostByChange
  split
  · rename_i he
    simp only [true_iff]
    intro file hm hp hf
    have hmem := hr.mpr ⟨file, hm, hf, hp, rfl⟩
    simp [he] at hmem
  · rename_i first rest he
    rw [he] at hr
    obtain ⟨file, hm, hf, hp, -⟩ := hr.mp (List.mem_cons_self ..)
    split
    · rename_i hany
      simp only [List.any_eq_true, beq_iff_eq] at hany
      obtain ⟨result, hres, version, hv, hn⟩ := hany
      obtain ⟨other, hom, -, hop, rfl⟩ := hr.mp hres
      simp only [true_iff]
      exact fun _ _ _ _ => ⟨other, hom, hop, version, hv, hn⟩
    · rename_i hany
      simp only [reduceCtorEq, false_iff]
      intro h
      obtain ⟨other, hom, hop, version, hv, hn⟩ := h file hm hp hf
      refine hany (List.any_eq_true.mpr ⟨_, hr.mpr ⟨other, hom, (mem_found.mp hv).1, hop, rfl⟩, ?_⟩)
      exact List.any_eq_true.mpr ⟨version, hv, by simp [hn]⟩

end Catalog

namespace Trail

variable {trail : Trail} {owner repository name : String} {commit : Commit}

/-- A path keeps the snippet unless the commit lists it, deleted or without the snippet. -/
theorem lostIn?_eq_none {path : String} :
    lostIn? owner repository name commit path = none ↔
      ∀ file ∈ commit.files, file.path = path → SourceFile.isScanned path = true →
        file.isDeleted = false ∧
          ∃ other ∈ commit.files, other.path = path ∧ other.Yields owner repository name := by
  rw [lostIn?, Option.or_eq_none_iff, Catalog.lostByDeletion_eq_none, Catalog.lostByChange_eq_none]
  constructor
  · rintro ⟨hd, hc⟩ file hm rfl hs
    have hl := hd file hm rfl hs
    exact ⟨hl, hc file hm rfl (by simp [Catalog.holdsRegions, hs, hl])⟩
  · intro h
    refine ⟨fun file hm hp hs => (h file hm hp hs).1, fun file hm hp hf => ?_⟩
    have hs : SourceFile.isScanned file.path = true := (Bool.and_eq_true_iff.mp hf).1
    rw [hp] at hs
    exact (h file hm hp hs).2

theorem mem_sightings {sighting : FileReading × Version} :
    sighting ∈ sightings (Catalog.readings owner repository commit) name ↔
      ∃ file ∈ commit.files, sighting.1 = Catalog.reading owner repository commit file ∧
        sighting.2 ∈ Catalog.found owner repository file ∧ sighting.2.name = name := by
  simp only [sightings, Catalog.readings, List.mem_filter, List.mem_flatMap, List.mem_map, beq_iff_eq]
  constructor
  · rintro ⟨⟨_, ⟨file, ⟨hm, -⟩, rfl⟩, version, hv, rfl⟩, hn⟩
    exact ⟨file, hm, rfl, hv, hn⟩
  · obtain ⟨result, version⟩ := sighting
    rintro ⟨file, hm, rfl, hv, hn⟩
    exact ⟨⟨_, ⟨file, ⟨hm, (Catalog.mem_found.mp hv).1⟩, rfl⟩, version, hv, rfl⟩, hn⟩

end Trail

-- ---------------------------------------------------------------------------
-- Offering what was found
-- ---------------------------------------------------------------------------

def Version.Records (version : Version) (path : String) (found : Version) : Prop :=
  version.file.map (·.path) = some path ∧ version.lines = found.lines ∧
    version.content = found.content

instance (version : Version) (path : String) (found : Version) :
    Decidable (version.Records path found) := inferInstanceAs (Decidable (_ ∧ _))

theorem Version.equivalent_placed {version found : Version} {snippet : Snippet}
    {file : VersionFile} :
    version.equivalent (Catalog.placed snippet file found) = true ↔
      version.Records file.path found := by
  unfold Version.equivalent Version.Records Catalog.placed
  cases version.file with
  | none => simp
  | some f =>
    simp only [Bool.and_eq_true, beq_iff_eq, Option.map_some, Option.some.injEq]
    exact ⟨fun h => ⟨h.2.1, h.2.2, h.1⟩, fun h => ⟨h.2.2, h.1, h.2.1⟩⟩

namespace Trail

variable {trail : Trail} {sighting : FileReading × Version}

/-- Either the primary says already what was found and nothing changes, or a version that says it
is appended and its path becomes a home. -/
theorem see_cases (trail : Trail) (sighting : FileReading × Version) :
    (∃ snippet primary, trail.snippet? = some snippet ∧ snippet.primary? = some primary ∧
      primary.Records sighting.1.file.path sighting.2 ∧ trail.see sighting = trail) ∨
    ((∀ primary, (trail.sighted sighting).primary? = some primary →
        primary.equivalent (trail.offered sighting) = false) ∧
      trail.see sighting = ⟨some ((trail.sighted sighting).append (trail.offered sighting)),
        insertPath sighting.1.file.path trail.paths⟩) := by
  unfold see
  split
  · rename_i he
    refine .inl ?_
    obtain ⟨primary, hp, he⟩ := (Option.any_eq_true _ _).mp he
    cases hs : trail.snippet? with
    | none => simp [sighted, hs, Snippet.new, Snippet.primary?] at hp
    | some snippet =>
      rw [sighted, hs, Option.getD_some] at hp
      exact ⟨snippet, primary, rfl, hp, Version.equivalent_placed.mp he, rfl⟩
  · rename_i he
    refine .inr ⟨fun primary hp => ?_, rfl⟩
    simpa [hp] using he

theorem offered_records : (trail.offered sighting).Records sighting.1.file.path sighting.2 :=
  ⟨rfl, rfl, rfl⟩

theorem see_primary : ∃ snippet primary, (trail.see sighting).snippet? = some snippet ∧
    snippet.primary? = some primary ∧ primary.Records sighting.1.file.path sighting.2 := by
  rcases see_cases trail sighting with ⟨snippet, primary, hs, hp, hr, he⟩ | ⟨-, he⟩
  · exact ⟨snippet, primary, by rw [he, hs], hp, hr⟩
  · exact ⟨_, _, by rw [he], Snippet.primary?_append _ _, offered_records⟩

end Trail

end SnippetTrail
