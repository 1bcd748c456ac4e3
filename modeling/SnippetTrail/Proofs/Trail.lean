import SnippetTrail.Proofs.Extraction

/-!
# The trail of one snippet

A commit acts on each snippet of a catalog by itself. `Trail` is what a catalog holds about one
name, `Trail.step` is what a commit makes of it, and `trail_apply` says that applying a commit to a
catalog takes this step on every trail. Histories are therefore studied on `Trail.walk`, the steps
of all commits in turn; `trail_run` and `mem_toList` read results off the trails.
-/

namespace SnippetTrail

structure Trail where
  snippet? : Option Snippet
  /-- The paths of its homes, in increasing order. -/
  paths : List String

def insertPath (path : String) : List String → List String
  | [] => [path]
  | p :: rest =>
    if path = p then p :: rest
    else if path < p then path :: p :: rest
    else p :: insertPath path rest

namespace Trail

def empty : Trail := ⟨none, []⟩

def leave (trail : Trail) (record : CommitRecord) (spared : Bool) (path : String) (size : Nat) :
    Trail :=
  match trail.snippet? with
  | none => trail
  | some snippet =>
    ⟨some (if spared then snippet
        else snippet.append (Catalog.tombstone snippet ⟨path, record, size⟩)),
      trail.paths.erase path⟩

def leaveIfLost (record : CommitRecord) (spared : Bool) (lost : String → Option Nat) (trail : Trail)
    (path : String) : Trail :=
  match lost path with
  | none => trail
  | some size => trail.leave record spared path size

def leaveLost (trail : Trail) (record : CommitRecord) (spared : Bool)
    (lost : String → Option Nat) : Trail :=
  trail.paths.foldl (leaveIfLost record spared lost) trail

def sighted (trail : Trail) (sighting : FileReading × Version) : Snippet :=
  trail.snippet?.getD (Snippet.new sighting.2.name sighting.1.language)

def offered (trail : Trail) (sighting : FileReading × Version) : Version :=
  Catalog.placed (trail.sighted sighting) sighting.1.file sighting.2

/-- The version offered is appended unless it is equivalent to the primary. -/
def see (trail : Trail) (sighting : FileReading × Version) : Trail :=
  if (trail.sighted sighting).primary?.any (·.equivalent (trail.offered sighting)) then trail
  else ⟨some ((trail.sighted sighting).append (trail.offered sighting)),
    insertPath sighting.1.file.path trail.paths⟩

def sightings (readings : List FileReading) (name : String) : List (FileReading × Version) :=
  (readings.flatMap fun reading => reading.versions.map (reading, ·)).filter (·.2.name == name)

section
variable (owner repository name : String)

def depart (trail : Trail) (commit : Commit) : Trail :=
  let record := CommitRecord.ofCommit owner repository commit
  let readings := Catalog.readings owner repository commit
  let spared := decide (name ∈ Catalog.produced readings)
  let trail := trail.leaveLost record spared fun path =>
    Catalog.lostByDeletion (Catalog.deletedPaths commit) ⟨path, name⟩
  trail.leaveLost record spared fun path => Catalog.lostByChange readings ⟨path, name⟩

def step (trail : Trail) (commit : Commit) : Trail :=
  (sightings (Catalog.readings owner repository commit) name).foldl see
    (depart owner repository name trail commit)

def walk (commits : List Commit) : Trail := commits.foldl (step owner repository name) empty

end

end Trail

def pathsOf (name : String) (homes : List Home) : List String :=
  homes.filterMap fun home => if home.snippet = name then some home.path else none

def Catalog.trail (catalog : Catalog) (name : String) : Trail :=
  ⟨catalog.snippets.find? name, pathsOf name catalog.homes⟩

-- ---------------------------------------------------------------------------
-- The order of homes
-- ---------------------------------------------------------------------------

def Home.Before (a b : Home) : Prop := a.path < b.path ∨ (a.path = b.path ∧ a.snippet < b.snippet)

theorem Home.Before.trans {a b c : Home} (hab : a.Before b) (hbc : b.Before c) : a.Before c := by
  rcases hab with hab | ⟨hab, hab'⟩
  · rcases hbc with hbc | ⟨hbc, -⟩
    · exact .inl (String.lt_trans hab hbc)
    · exact .inl (hbc ▸ hab)
  · rcases hbc with hbc | ⟨hbc, hbc'⟩
    · exact .inl (hab ▸ hbc)
    · exact .inr ⟨hab.trans hbc, String.lt_trans hab' hbc'⟩

theorem lt_of_not_lt {a b : String} (hn : a ≠ b) (h : ¬a < b) : b < a :=
  Std.lt_of_le_of_ne (String.not_lt.mp h) (Ne.symm hn)

theorem Home.before_of_not_before {a b : Home} (hn : a ≠ b) (h : ¬a.Before b) : b.Before a := by
  simp only [Home.Before, not_or, not_and] at h
  by_cases hp : a.path = b.path
  · refine .inr ⟨hp.symm, lt_of_not_lt (fun hs => hn ?_) (h.2 hp)⟩
    cases a
    cases b
    simp_all
  · exact .inl (lt_of_not_lt hp h.1)

theorem Home.Before.path_lt {a b : Home} (h : a.Before b) (hn : a.snippet = b.snippet) :
    a.path < b.path := by
  rcases h with hp | ⟨-, hs⟩
  · exact hp
  · exact absurd (hn ▸ hs) (String.lt_irrefl _)

theorem mem_insertHome {home h : Home} {homes : List Home} :
    h ∈ insertHome home homes ↔ h = home ∨ h ∈ homes := by
  induction homes with
  | nil => simp [insertHome]
  | cons first rest ih =>
    unfold insertHome
    split
    · rename_i he; simp [he]
    · split
      · simp
      · simp only [List.mem_cons, ih, or_left_comm]

theorem insertHome_sorted {home : Home} {homes : List Home} (hs : homes.Pairwise Home.Before) :
    (insertHome home homes).Pairwise Home.Before := by
  induction homes with
  | nil => simp [insertHome]
  | cons first rest ih =>
    obtain ⟨hf, hr⟩ := List.pairwise_cons.mp hs
    unfold insertHome
    split
    · exact hs
    · rename_i hn
      split
      · rename_i hb
        refine List.pairwise_cons.mpr ⟨fun h hm => ?_, hs⟩
        rcases List.mem_cons.mp hm with rfl | hm
        · exact hb
        · exact Home.Before.trans hb (hf h hm)
      · rename_i hb
        refine List.pairwise_cons.mpr ⟨fun h hm => ?_, ih hr⟩
        rcases mem_insertHome.mp hm with rfl | hm
        · exact Home.before_of_not_before hn hb
        · exact hf h hm

-- ---------------------------------------------------------------------------
-- The homes of one name
-- ---------------------------------------------------------------------------

@[simp] theorem pathsOf_nil (name : String) : pathsOf name [] = [] := rfl

@[simp] theorem pathsOf_cons (name : String) (home : Home) (rest : List Home) :
    pathsOf name (home :: rest) =
      if home.snippet = name then home.path :: pathsOf name rest else pathsOf name rest := by
  by_cases hn : home.snippet = name <;> simp [pathsOf, hn]

theorem mem_pathsOf {name path : String} {homes : List Home} :
    path ∈ pathsOf name homes ↔ ⟨path, name⟩ ∈ homes := by
  simp only [pathsOf, List.mem_filterMap, Option.ite_none_right_eq_some, Option.some.injEq]
  constructor
  · rintro ⟨home, hm, rfl, rfl⟩; exact hm
  · intro hm; exact ⟨_, hm, rfl, rfl⟩

theorem pathsOf_erase {name : String} {home : Home} {homes : List Home} :
    pathsOf name (homes.erase home) =
      if home.snippet = name then (pathsOf name homes).erase home.path else pathsOf name homes := by
  induction homes with
  | nil => simp
  | cons first rest ih =>
    by_cases he : first = home
    · subst he
      by_cases hn : first.snippet = name <;> simp [hn]
    · rw [List.erase_cons_tail (by simpa using he), pathsOf_cons, pathsOf_cons, ih]
      by_cases hn : first.snippet = name
      · simp only [hn, ↓reduceIte]
        split
        · rename_i hh
          -- homes of one snippet differ in their paths
          have hp : first.path ≠ home.path := by
            intro hp
            apply he
            cases first
            cases home
            simp_all
          rw [List.erase_cons_tail (by simpa using hp)]
        · rfl
      · simp [hn]

theorem insertPath_of_lt {path : String} {paths : List String} (h : ∀ p ∈ paths, path < p) :
    insertPath path paths = path :: paths := by
  cases paths with
  | nil => rfl
  | cons p rest =>
    have hp := h p (by simp)
    have hn : path ≠ p := fun he => String.lt_irrefl p (he ▸ hp)
    simp [insertPath, hn, hp]

theorem mem_insertPath {path p : String} {paths : List String} :
    p ∈ insertPath path paths ↔ p = path ∨ p ∈ paths := by
  induction paths with
  | nil => simp [insertPath]
  | cons q rest ih =>
    unfold insertPath
    split
    · rename_i he; simp [he]
    · split
      · simp
      · simp only [List.mem_cons, ih, or_left_comm]

theorem pathsOf_insertHome {name : String} {home : Home} {homes : List Home}
    (hs : homes.Pairwise Home.Before) :
    pathsOf name (insertHome home homes) =
      if home.snippet = name then insertPath home.path (pathsOf name homes)
      else pathsOf name homes := by
  induction homes with
  | nil => by_cases hn : home.snippet = name <;> simp [insertHome, insertPath, hn]
  | cons first rest ih =>
    obtain ⟨hf, hr⟩ := List.pairwise_cons.mp hs
    unfold insertHome
    split
    · rename_i he
      subst he
      by_cases hn : home.snippet = name <;> simp [insertPath, hn]
    · rename_i he
      split
      · rename_i hb
        by_cases hn : home.snippet = name
        · rw [pathsOf_cons, if_pos hn, if_pos hn]
          refine (insertPath_of_lt fun p hp => ?_).symm
          -- all homes of the name behind the new one have greater paths
          have ha : home.Before ⟨p, name⟩ := by
            rcases List.mem_cons.mp (mem_pathsOf.mp hp) with rfl | hm
            · exact hb
            · exact Home.Before.trans hb (hf _ hm)
          exact ha.path_lt hn
        · rw [pathsOf_cons, if_neg hn, if_neg hn]
      · rename_i hb
        rw [pathsOf_cons, pathsOf_cons, ih hr]
        by_cases hn : home.snippet = name
        · by_cases hfn : first.snippet = name
          · have hlt : first.path < home.path :=
              (Home.before_of_not_before he hb).path_lt (hfn.trans hn.symm)
            have hne : home.path ≠ first.path := fun hp => String.lt_irrefl _ (hp ▸ hlt)
            have hnl : ¬home.path < first.path := fun hl =>
              String.lt_irrefl _ (String.lt_trans hl hlt)
            simp [hn, hfn, insertPath, hne, hnl]
          · simp [hn, hfn]
        · simp [hn]

-- ---------------------------------------------------------------------------
-- A step of the catalog is a step of each trail
-- ---------------------------------------------------------------------------

namespace Catalog

variable {owner repository name : String} {catalog : Catalog}

/-- The catalog is one of the repository, and its homes are in the order that `insertHome` keeps. -/
structure Tidy (owner repository : String) (catalog : Catalog) : Prop where
  owner : catalog.owner = owner
  repository : catalog.repository = repository
  ordered : catalog.homes.Pairwise Home.Before

theorem trail_leave {record : CommitRecord} {names : List String} {home : Home} {size : Nat} :
    (catalog.leave record names home size).trail name =
      if home.snippet = name then
        (catalog.trail name).leave record (decide (name ∈ names)) home.path size
      else catalog.trail name := by
  unfold Catalog.leave
  by_cases hn : home.snippet = name
  · subst hn
    cases hs : catalog.snippets.find? home.snippet with
    | none => simp [trail, Trail.leave, hs]
    | some snippet =>
      by_cases hp : home.snippet ∈ names <;>
        simp [trail, Trail.leave, hs, hp, pathsOf_erase, Table.find?_insert]
  · cases hs : catalog.snippets.find? home.snippet with
    | none => simp [hn]
    | some snippet =>
      by_cases hp : home.snippet ∈ names <;>
        simp [trail, hn, hp, pathsOf_erase, Table.find?_insert, Ne.symm hn]

theorem Tidy.leave {record : CommitRecord} {names : List String} {home : Home} {size : Nat}
    (ht : Tidy owner repository catalog) :
    Tidy owner repository (catalog.leave record names home size) := by
  unfold Catalog.leave
  split
  · exact ht
  · exact ⟨ht.owner, ht.repository, ht.ordered.sublist List.erase_sublist⟩

theorem trail_leaveLost {record : CommitRecord} {names : List String} {lost : Home → Option Nat} :
    (catalog.leaveLost record names lost).trail name =
      (catalog.trail name).leaveLost record (decide (name ∈ names)) fun path =>
        lost ⟨path, name⟩ := by
  unfold Catalog.leaveLost Trail.leaveLost
  -- the homes still to be looked at are those of the catalog before any was left
  have general (homes : List Home) (current : Catalog) :
      (homes.foldl (fun catalog home =>
        match lost home with
        | none => catalog
        | some size => catalog.leave record names home size) current).trail name =
      (pathsOf name homes).foldl
        (Trail.leaveIfLost record (decide (name ∈ names)) fun path => lost ⟨path, name⟩)
        (current.trail name) := by
    induction homes generalizing current with
    | nil => rfl
    | cons home rest ih =>
      rw [List.foldl_cons, ih, pathsOf_cons]
      by_cases hn : home.snippet = name
      · subst hn
        cases hl : lost home <;> simp [hl, trail_leave, Trail.leaveIfLost]
      · cases hl : lost home <;> simp [trail_leave, hn]
  exact general _ _

theorem Tidy.leaveLost (ht : Tidy owner repository catalog) (record : CommitRecord)
    (names : List String) (lost : Home → Option Nat) :
    Tidy owner repository (catalog.leaveLost record names lost) := by
  refine List.foldlRecOn _ _ ht fun current hc home _ => ?_
  split
  · exact hc
  · exact hc.leave

theorem trail_record {reading : FileReading} {version : Version}
    (ho : catalog.homes.Pairwise Home.Before) :
    (record reading catalog version).trail name =
      if version.name = name then (catalog.trail name).see (reading, version)
      else catalog.trail name := by
  by_cases hn : version.name = name
  · subst hn
    rw [if_pos rfl]
    -- the trail of the name holds the snippet that the catalog looks up
    have hs : (catalog.trail version.name).sighted (reading, version) =
        (catalog.snippets.find? version.name).getD (Snippet.new version.name reading.language) := rfl
    simp only [record, Trail.see, Trail.offered, hs]
    split
    · rfl
    · simp [trail, pathsOf_insertHome ho, Table.find?_insert]
  · rw [if_neg hn]
    simp only [record]
    split
    · rfl
    · simp [trail, pathsOf_insertHome ho, Table.find?_insert, hn, Ne.symm hn]

theorem Tidy.record (ht : Tidy owner repository catalog) (reading : FileReading)
    (version : Version) : Tidy owner repository (record reading catalog version) := by
  simp only [Catalog.record]
  split
  · exact ht
  · exact ⟨ht.owner, ht.repository, insertHome_sorted ht.ordered⟩

theorem trail_recordReadings (name : String) (readings : List FileReading)
    (ht : Tidy owner repository catalog) :
    (readings.foldl recordReading catalog).trail name =
        (Trail.sightings readings name).foldl Trail.see (catalog.trail name) ∧
      Tidy owner repository (readings.foldl recordReading catalog) := by
  have hflat : readings.foldl recordReading catalog =
      (readings.flatMap fun reading => reading.versions.map (reading, ·)).foldl
        (fun catalog sighting => record sighting.1 catalog sighting.2) catalog := by
    rw [List.foldl_flatMap]
    simp only [List.foldl_map]
    rfl
  rw [hflat, Trail.sightings]
  clear hflat
  generalize readings.flatMap (fun reading => reading.versions.map (reading, ·)) = pairs
  induction pairs generalizing catalog with
  | nil => exact ⟨rfl, ht⟩
  | cons sighting rest ih =>
    obtain ⟨htrail, htidy⟩ := ih (ht.record sighting.1 sighting.2)
    refine ⟨?_, htidy⟩
    rw [List.foldl_cons, htrail, trail_record ht.ordered, List.filter_cons]
    by_cases hn : sighting.2.name = name <;> simp [hn]

theorem trail_apply (name : String) {next : Catalog} {commit : Commit}
    (ht : Tidy owner repository catalog)
    (h : catalog.apply commit = .ok next) :
    next.trail name = (catalog.trail name).step owner repository name commit ∧
      Tidy owner repository next := by
  simp only [apply, bind_eq_ok, pure_eq_ok] at h
  obtain ⟨results, hr, rfl⟩ := h
  cases readFiles_ok hr
  obtain ⟨rfl, rfl, ho⟩ := ht
  have ht : Tidy catalog.owner catalog.repository catalog := ⟨rfl, rfl, ho⟩
  let record := CommitRecord.ofCommit catalog.owner catalog.repository commit
  let readings := readings catalog.owner catalog.repository commit
  have hdeleted := ht.leaveLost record (produced readings) (lostByDeletion (deletedPaths commit))
  have hleft := hdeleted.leaveLost record (produced readings) (lostByChange readings)
  obtain ⟨htrail, htidy⟩ := trail_recordReadings name readings hleft
  refine ⟨htrail.trans ?_, htidy⟩
  rw [trail_leaveLost, trail_leaveLost]
  rfl

-- ---------------------------------------------------------------------------
-- Runs
-- ---------------------------------------------------------------------------

theorem trail_foldlM {final : Catalog} {commits : List Commit} (ht : Tidy owner repository catalog)
    (h : commits.foldlM Catalog.apply catalog = .ok final) :
    final.trail name = commits.foldl (Trail.step owner repository name) (catalog.trail name) ∧
      Tidy owner repository final := by
  induction commits generalizing catalog with
  | nil => cases pure_eq_ok.mp h; exact ⟨rfl, ht⟩
  | cons commit rest ih =>
    simp only [List.foldlM_cons, bind_eq_ok] at h
    obtain ⟨next, hn, hr⟩ := h
    obtain ⟨htrail, htidy⟩ := trail_apply name ht hn
    rw [List.foldl_cons, ← htrail]
    exact ih htidy hr

/-- After a run from the empty catalog every trail is the walk of the commits. -/
theorem trail_run {final : Catalog} {commits : List Commit}
    (h : commits.foldlM Catalog.apply (new owner repository) = .ok final) :
    final.trail name = Trail.walk owner repository name commits :=
  (trail_foldlM ⟨rfl, rfl, List.Pairwise.nil⟩ h).1

theorem mem_toList {snippet : Snippet} :
    snippet ∈ catalog.toList ↔
      (∃ name, (catalog.trail name).snippet? = some snippet) ∧ snippet.versions ≠ [] := by
  simp [toList, trail, Table.mem_values]

end Catalog

theorem calculateSnippets_ok {owner repository : String} {commits : List Commit}
    {snippets : List Snippet} :
    calculateSnippets owner repository commits = .ok snippets ↔
      ∃ catalog, commits.foldlM Catalog.apply (Catalog.new owner repository) = .ok catalog ∧
        catalog.toList = snippets := by
  simp only [calculateSnippets, bind_eq_ok, pure_eq_ok]

theorem calculateSnippets_earlier {owner repository : String} {earlier later : List Commit}
    {snippets : List Snippet}
    (h : calculateSnippets owner repository (earlier ++ later) = .ok snippets) :
    ∃ before, calculateSnippets owner repository earlier = .ok before := by
  obtain ⟨catalog, hc, -⟩ := calculateSnippets_ok.mp h
  rw [List.foldlM_append, bind_eq_ok] at hc
  obtain ⟨middle, hm, -⟩ := hc
  exact ⟨_, calculateSnippets_ok.mpr ⟨middle, hm, rfl⟩⟩

theorem walk_append (owner repository name : String) (earlier later : List Commit) :
    Trail.walk owner repository name (earlier ++ later) =
      later.foldl (Trail.step owner repository name) (Trail.walk owner repository name earlier) :=
  List.foldl_append

end SnippetTrail
