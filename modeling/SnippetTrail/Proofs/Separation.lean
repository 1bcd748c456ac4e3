import SnippetTrail.Proofs.Recorded

/-!
# Snippets do not act on each other

A step of a trail asks two things of a commit: which files hold the snippet, and what it lists at
the snippet's homes. Both are told by the files at paths that hold the snippet at some time, so the
files at other paths can be left out of a step (`Sound.step_restrict`) and of a whole walk
(`walk_restrict`), whatever other snippets they hold.
-/

namespace SnippetTrail

def Commit.restrict (keep : String → Bool) (commit : Commit) : Commit :=
  { commit with files := commit.files.filter (keep ·.path) }

def YieldedAt (owner repository : String) (commits : List Commit) (path name : String) : Prop :=
  ∃ commit ∈ commits, ∃ file ∈ commit.files, file.path = path ∧ file.Yields owner repository name

instance (owner repository : String) (commits : List Commit) (path name : String) :
    Decidable (YieldedAt owner repository commits path name) :=
  inferInstanceAs (Decidable (∃ commit ∈ _, ∃ file ∈ _, _))

/-- The commits with only the files at paths that hold the snippet in some commit. -/
def commitsAbout (owner repository : String) (commits : List Commit) (name : String) : List Commit :=
  commits.map (Commit.restrict fun path => YieldedAt owner repository commits path name)

theorem Commit.Readable.restrict {commit : Commit} (hr : commit.Readable) (keep : String → Bool) :
    (commit.restrict keep).Readable :=
  fun file hm => hr file (List.mem_filter.mp hm).1

-- ---------------------------------------------------------------------------
-- The files of a restricted commit
-- ---------------------------------------------------------------------------

namespace Catalog

variable {owner repository : String} {commit : Commit} {keep : String → Bool}

theorem lostByDeletion_restrict {home : Home} (hk : keep home.path = true) :
    lostByDeletion (deletedPaths (commit.restrict keep)) home =
      lostByDeletion (deletedPaths commit) home := by
  have hd : home.path ∈ deletedPaths (commit.restrict keep) ↔ home.path ∈ deletedPaths commit := by
    simp only [mem_deletedPaths, Commit.restrict, List.mem_filter]
    constructor
    · rintro ⟨file, ⟨hm, -⟩, h⟩; exact ⟨file, hm, h⟩
    · rintro ⟨file, hm, hp, h⟩; exact ⟨file, ⟨hm, hp ▸ hk⟩, hp, h⟩
  simp only [lostByDeletion, hd]

theorem readings_at_restrict {path : String} (hk : keep path = true) :
    (readings owner repository (commit.restrict keep)).filter (·.file.path == path) =
      (readings owner repository commit).filter (·.file.path == path) := by
  simp only [readings, Commit.restrict, List.filter_map, List.filter_filter]
  -- leaving out files does not change what a commit says about one that is kept
  change (commit.files.filter _).map (reading owner repository commit) = _
  congr 1
  refine List.filter_congr fun file _ => ?_
  cases hp : file.path == path with
  | false => simp [reading, hp]
  | true => simp [reading, beq_iff_eq.mp hp, hk]

theorem lostByChange_restrict {home : Home} (hk : keep home.path = true) :
    lostByChange (readings owner repository (commit.restrict keep)) home =
      lostByChange (readings owner repository commit) home := by
  simp only [lostByChange, readings_at_restrict hk]

end Catalog

-- ---------------------------------------------------------------------------
-- Steps
-- ---------------------------------------------------------------------------

namespace Trail

variable {owner repository name path : String} {commit : Commit} {commits : List Commit}
  {trail : Trail} {keep : String → Bool}

theorem yields_restrict
    (hy : ∀ file ∈ commit.files, file.Yields owner repository name → keep file.path = true) :
    (commit.restrict keep).Yields owner repository name ↔ commit.Yields owner repository name := by
  simp only [Commit.Yields, Commit.restrict, List.mem_filter]
  constructor
  · rintro ⟨file, ⟨hm, -⟩, hf⟩; exact ⟨file, hm, hf⟩
  · rintro ⟨file, hm, hf⟩; exact ⟨file, ⟨hm, hy file hm hf⟩, hf⟩

theorem sightings_restrict
    (hy : ∀ file ∈ commit.files, file.Yields owner repository name → keep file.path = true) :
    sightings (Catalog.readings owner repository (commit.restrict keep)) name =
      sightings (Catalog.readings owner repository commit) name := by
  have hfiles : (commit.restrict keep).files.filter (·.Yields owner repository name) =
      commit.files.filter (·.Yields owner repository name) := by
    rw [Commit.restrict, List.filter_filter]
    refine List.filter_congr fun file hm => ?_
    by_cases hf : file.Yields owner repository name
    · simp [hf, hy file hm hf]
    · simp [hf]
  rw [sightings_eq, sightings_eq, hfiles]
  rfl

theorem lostIn?_restrict (hk : keep path = true) :
    lostIn? owner repository name (commit.restrict keep) path =
      lostIn? owner repository name commit path := by
  rw [lostIn?, lostIn?, Catalog.lostByDeletion_restrict hk, Catalog.lostByChange_restrict hk]

theorem graves_congr {record : CommitRecord} {lost other : String → Option Nat}
    {paths : List String} (h : ∀ path ∈ paths, lost path = other path) :
    graves record lost paths = graves record other paths :=
  List.filterMap_congr fun path hp => by rw [h path hp]

theorem departures_restrict {paths : List String} (hk : ∀ path ∈ paths, keep path = true) :
    departures owner repository name (commit.restrict keep) paths =
      departures owner repository name commit paths := by
  have hd : ∀ path ∈ paths,
      Catalog.lostByDeletion (Catalog.deletedPaths (commit.restrict keep)) ⟨path, name⟩ =
        Catalog.lostByDeletion (Catalog.deletedPaths commit) ⟨path, name⟩ :=
    fun path hp => Catalog.lostByDeletion_restrict (hk path hp)
  have hc : ∀ path ∈ paths,
      Catalog.lostByChange (Catalog.readings owner repository (commit.restrict keep)) ⟨path, name⟩ =
        Catalog.lostByChange (Catalog.readings owner repository commit) ⟨path, name⟩ :=
    fun path hp => Catalog.lostByChange_restrict (hk path hp)
  simp only [departures]
  rw [graves_congr hd, List.filter_congr fun path hp => by rw [hd path hp],
    graves_congr fun path hp => hc path (List.mem_filter.mp hp).1]
  rfl

/-- A step does not see files at paths that neither hold the snippet nor are its homes. -/
theorem Sound.step_restrict (hs : trail.Sound name) (hk : ∀ path ∈ trail.paths, keep path = true)
    (hy : ∀ file ∈ commit.files, file.Yields owner repository name → keep file.path = true) :
    trail.step owner repository name (commit.restrict keep) =
      trail.step owner repository name commit := by
  have hdepart : trail.depart owner repository name (commit.restrict keep) =
      trail.depart owner repository name commit := by
    simp only [depart_eq hs.nodup hs.known, Catalog.mem_produced, yields_restrict hy,
      departures_restrict hk]
    rw [List.filter_congr fun path hp => by rw [lostIn?_restrict (hk path hp)]]
  rw [Trail.step, Trail.step, sightings_restrict hy, hdepart]

theorem mem_foldl_see_paths {list : List (FileReading × Version)}
    (h : path ∈ (list.foldl see trail).paths) :
    path ∈ trail.paths ∨ ∃ sighting ∈ list, sighting.1.file.path = path := by
  induction list generalizing trail with
  | nil => exact .inl h
  | cons sighting rest ih =>
    rcases ih h with hp | ⟨other, hm, rfl⟩
    · rcases see_cases trail sighting with ⟨_, _, -, -, -, he⟩ | ⟨-, he⟩
      · exact .inl (he ▸ hp)
      · rw [he] at hp
        exact (mem_insertPath.mp hp).symm.imp_right fun hp => ⟨sighting, by simp, hp.symm⟩
    · exact .inr ⟨other, List.mem_cons_of_mem _ hm, rfl⟩

theorem Sound.mem_step_paths (hs : trail.Sound name)
    (h : path ∈ (trail.step owner repository name commit).paths) :
    path ∈ trail.paths ∨
      ∃ file ∈ commit.files, file.path = path ∧ file.Yields owner repository name := by
  rcases mem_foldl_see_paths h with hp | ⟨sighting, hm, rfl⟩
  · rw [depart_eq hs.nodup hs.known] at hp
    exact .inl (List.mem_filter.mp hp).1
  · obtain ⟨file, hfile, hr, hf, hn⟩ := mem_sightings.mp hm
    exact .inr ⟨file, hfile, by rw [hr]; rfl, sighting.2, hf, hn⟩

-- ---------------------------------------------------------------------------
-- Walks
-- ---------------------------------------------------------------------------

theorem Sound.foldl_step_restrict (hs : trail.Sound name)
    (hk : ∀ path ∈ trail.paths, keep path = true)
    (hy : ∀ commit ∈ commits, ∀ file ∈ commit.files, file.Yields owner repository name →
      keep file.path = true) :
    (commits.map (Commit.restrict keep)).foldl (Trail.step owner repository name) trail =
      commits.foldl (Trail.step owner repository name) trail := by
  induction commits generalizing trail with
  | nil => rfl
  | cons commit rest ih =>
    obtain ⟨hc, hr⟩ := List.forall_mem_cons.mp hy
    rw [List.map_cons, List.foldl_cons, List.foldl_cons, hs.step_restrict hk hc]
    refine ih hs.step (fun path hp => ?_) hr
    rcases hs.mem_step_paths hp with hp | ⟨file, hm, rfl, hf⟩
    · exact hk path hp
    · exact hc file hm hf

theorem walk_restrict (owner repository name : String) (commits : List Commit) :
    walk owner repository name (commitsAbout owner repository commits name) =
      walk owner repository name commits := by
  refine Sound.empty.foldl_step_restrict (by simp [Trail.empty]) fun commit hc file hm hf => ?_
  exact decide_eq_true ⟨commit, hc, file, hm, rfl, hf⟩

end Trail

-- ---------------------------------------------------------------------------
-- The result of a walk
-- ---------------------------------------------------------------------------

section
variable {owner repository : String} {commits : List Commit} {snippets : List Snippet}

/-- Without the files at paths that hold a snippet in no commit a walk still succeeds, and it finds
the snippet with the same language and the same versions, if it is there at all. -/
theorem calculateSnippets_separate
    (h : calculateSnippets owner repository commits = .ok snippets) (name : String) :
    ∃ alone,
      calculateSnippets owner repository (commitsAbout owner repository commits name) = .ok alone ∧
        ∀ snippet : Snippet, snippet.name = name → (snippet ∈ alone ↔ snippet ∈ snippets) := by
  have hreadable := calculateSnippets_isOk.mp ⟨snippets, h⟩
  have hok : ∃ alone,
      calculateSnippets owner repository (commitsAbout owner repository commits name) = .ok alone := by
    refine calculateSnippets_isOk.mpr fun commit hm => ?_
    obtain ⟨whole, hw, rfl⟩ := List.mem_map.mp hm
    exact (hreadable whole hw).restrict _
  obtain ⟨alone, ha⟩ := hok
  refine ⟨alone, ha, fun snippet hn => ?_⟩
  subst hn
  rw [mem_calculateSnippets ha, mem_calculateSnippets h, Trail.walk_restrict]

end

namespace Sample

def busy : List Commit :=
  [commit [.ofText "a.py" (text "demo" "x"), .ofText "d.py" (text "aux" "y")],
    commit [.deleted "d.py", .ofText "b.py" (text "demo" "x"), .ofText "e.py" (text "aux" "z")],
    commit [.ofText "e.py" "", .deleted "c.py", .deleted "b.py"]]

end Sample

theorem calculateSnippets_separate_busy :
    ∃ snippets, calculateSnippets "o" "r" Sample.busy = .ok snippets ∧
      (∃ snippet ∈ snippets, snippet.name = Sample.demo) ∧
      (commitsAbout "o" "r" Sample.busy Sample.demo).map (fun commit => commit.files.map (·.path)) =
        [["a.py"], ["b.py"], ["b.py"]] ∧
      ∃ alone, calculateSnippets "o" "r" (commitsAbout "o" "r" Sample.busy Sample.demo) = .ok alone ∧
        ∀ snippet : Snippet, snippet.name = Sample.demo → (snippet ∈ alone ↔ snippet ∈ snippets) := by
  obtain ⟨snippets, h, hany⟩ : ∃ snippets, calculateSnippets "o" "r" Sample.busy = .ok snippets ∧
      (snippets.any fun snippet => snippet.name == Sample.demo) = true :=
    ok_of_any (by decide +kernel)
  obtain ⟨snippet, hm, hn⟩ := List.any_eq_true.mp hany
  exact ⟨snippets, h, ⟨snippet, hm, beq_iff_eq.mp hn⟩, by decide +kernel,
    calculateSnippets_separate h Sample.demo⟩

end SnippetTrail
