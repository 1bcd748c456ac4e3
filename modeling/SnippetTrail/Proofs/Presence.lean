import Mathlib.Data.List.Induction
import SnippetTrail.Proofs.Recorded

/-!
# Where a snippet is

`Holds` says where a region is after some commits by the last entries of paths alone, without a
catalog. Where no commit lists a path with two contents, the homes of a snippet are exactly these
paths and a live primary is what the last entry for its path holds (`walk_current`).
-/

namespace SnippetTrail

-- ---------------------------------------------------------------------------
-- The last entry for a path
-- ---------------------------------------------------------------------------

/-- All entries of the commit for one path are the same, as when one tree is read. -/
def Commit.Uniform (commit : Commit) : Prop :=
  ∀ file ∈ commit.files, ∀ other ∈ commit.files, file.path = other.path → file = other

instance (commit : Commit) : Decidable commit.Uniform :=
  inferInstanceAs (Decidable (∀ file ∈ _, ∀ other ∈ _, _ → _))

def lastFile? (commits : List Commit) (path : String) : Option File :=
  ((commits.flatMap (·.files)).filter (·.path == path)).getLast?

section
variable {commits earlier later : List Commit} {commit : Commit} {path : String} {file : File}

theorem lastFile?_append :
    lastFile? (earlier ++ later) path = (lastFile? later path).or (lastFile? earlier path) := by
  simp [lastFile?, List.getLast?_append]

theorem mem_lastFile? (h : lastFile? commits path = some file) :
    file.path = path ∧ ∃ commit ∈ commits, file ∈ commit.files := by
  obtain ⟨hm, hp⟩ := List.mem_filter.mp (List.mem_of_getLast? h)
  exact ⟨by simpa using hp, List.mem_flatMap.mp hm⟩

theorem lastFile?_untouched (h : ∀ file ∈ commit.files, file.path ≠ path) :
    lastFile? (earlier ++ [commit]) path = lastFile? earlier path := by
  have hnone : lastFile? [commit] path = none := by
    simpa [lastFile?] using h
  rw [lastFile?_append, hnone, Option.none_or]

theorem Commit.Uniform.lastFile? (hu : commit.Uniform) (hm : file ∈ commit.files) :
    lastFile? (earlier ++ [commit]) file.path = some file := by
  rw [lastFile?_append]
  cases hl : SnippetTrail.lastFile? [commit] file.path with
  | none =>
    have hnone : ∀ other ∈ commit.files, other.path ≠ file.path := by
      simpa [SnippetTrail.lastFile?] using hl
    exact absurd rfl (hnone file hm)
  | some other =>
    obtain ⟨hp, hother⟩ := mem_lastFile? hl
    simp only [List.mem_singleton, exists_eq_left] at hother
    rw [hu other hother file hm hp, Option.some_or]

end

-- ---------------------------------------------------------------------------
-- Holding a snippet
-- ---------------------------------------------------------------------------

/-- After the commits the file at the path holds the snippet. -/
def Holds (owner repository : String) (commits : List Commit) (path name : String) : Prop :=
  ∃ file ∈ lastFile? commits path, file.Yields owner repository name

section
variable {owner repository name path : String} {earlier : List Commit} {commit : Commit}

theorem Holds.isScanned (h : Holds owner repository earlier path name) :
    SourceFile.isScanned path = true := by
  obtain ⟨file, hl, hy⟩ := h
  rw [← (mem_lastFile? hl).1]
  exact (Bool.and_eq_true_iff.mp hy.holdsRegions).1

theorem holds_append (hu : commit.Uniform) :
    Holds owner repository (earlier ++ [commit]) path name ↔
      (∃ file ∈ commit.files, file.path = path ∧ file.Yields owner repository name) ∨
        Holds owner repository earlier path name ∧ ∀ file ∈ commit.files, file.path ≠ path := by
  by_cases ht : ∃ file ∈ commit.files, file.path = path
  · obtain ⟨file, hm, rfl⟩ := ht
    simp only [Holds, hu.lastFile? hm, Option.mem_def, Option.some.injEq, exists_eq_left']
    constructor
    · intro hy
      exact .inl ⟨file, hm, rfl, hy⟩
    · rintro (⟨other, ho, hp, hy⟩ | ⟨-, hn⟩)
      · exact hu other ho file hm hp ▸ hy
      · exact absurd rfl (hn file hm)
  · have hn : ∀ file ∈ commit.files, file.path ≠ path := fun file hm hp => ht ⟨file, hm, hp⟩
    rw [Holds, lastFile?_untouched hn]
    constructor
    · intro h
      exact .inr ⟨h, hn⟩
    · rintro (⟨file, hm, hp, -⟩ | ⟨h, -⟩)
      · exact absurd hp (hn file hm)
      · exact h

end

namespace Trail

variable {owner repository name path : String} {earlier : List Commit} {commit : Commit}
  {trail : Trail} {list : List (FileReading × Version)}

theorem lostIn?_uniform (hu : commit.Uniform) (hs : SourceFile.isScanned path = true) :
    lostIn? owner repository name commit path = none ↔
      (∃ file ∈ commit.files, file.path = path ∧ file.Yields owner repository name) ∨
        ∀ file ∈ commit.files, file.path ≠ path := by
  rw [lostIn?_eq_none]
  constructor
  · intro h
    by_cases ht : ∃ file ∈ commit.files, file.path = path
    · obtain ⟨file, hm, hp⟩ := ht
      exact .inl (h file hm hp hs).2
    · exact .inr fun file hm hp => ht ⟨file, hm, hp⟩
  · rintro (⟨other, ho, rfl, hy⟩ | hn) file hm hp -
    · obtain rfl := hu file hm other ho hp
      have hd := (Bool.and_eq_true_iff.mp hy.holdsRegions).2
      exact ⟨by simpa using hd, file, hm, rfl, hy⟩
    · exact absurd hp (hn file hm)

-- ---------------------------------------------------------------------------
-- The homes after a step
-- ---------------------------------------------------------------------------

/-- The skip of a version that the primary says already does not touch the homes. It adds no home
that is missing if the path of a live primary is one. -/
theorem mem_foldl_see (hl : ∀ sighting ∈ list, sighting.2.lines ≠ [])
    (hh : ∀ snippet primary, trail.snippet? = some snippet → snippet.primary? = some primary →
      primary.isTombstone = false → ∀ sighting ∈ list,
        primary.file.map (·.path) = some sighting.1.file.path → sighting.1.file.path ∈ trail.paths) :
    path ∈ (list.foldl see trail).paths ↔
      path ∈ trail.paths ∨ ∃ sighting ∈ list, sighting.1.file.path = path := by
  induction list generalizing trail with
  | nil => simp
  | cons sighting rest ih =>
    obtain ⟨hs, hr⟩ := List.forall_mem_cons.mp hl
    rw [List.foldl_cons]
    rcases see_cases trail sighting with ⟨snippet, primary, hk, hp, hrec, he⟩ | ⟨-, he⟩
    · have hhome : sighting.1.file.path ∈ trail.paths :=
        hh snippet primary hk hp (hrec.not_tombstone hs) sighting (by simp) hrec.1
      rw [he, ih hr fun s p hk hp ht other ho => hh s p hk hp ht other (by simp [ho])]
      simp only [List.mem_cons, exists_eq_or_imp]
      constructor
      · rintro (h | h)
        · exact .inl h
        · exact .inr (.inr h)
      · rintro (h | rfl | h)
        · exact .inl h
        · exact .inl hhome
        · exact .inr h
    · rw [ih hr, he]
      · simp only [mem_insertPath, List.mem_cons, exists_eq_or_imp, eq_comm (a := path), or_assoc,
          or_left_comm]
      · intro snippet primary hk hp _ other _ hf
        rw [he] at hk ⊢
        cases hk
        rw [Snippet.primary?_append] at hp
        cases hp
        exact mem_insertPath.mpr (.inl (Option.some.inj hf).symm)

theorem exists_sighting_at :
    (∃ sighting ∈ sightings (Catalog.readings owner repository commit) name,
        sighting.1.file.path = path) ↔
      ∃ file ∈ commit.files, file.path = path ∧ file.Yields owner repository name := by
  simp only [mem_sightings]
  constructor
  · rintro ⟨sighting, ⟨file, hm, hr, hf, hn⟩, hp⟩
    rw [hr] at hp
    exact ⟨file, hm, hp, sighting.2, hf, hn⟩
  · rintro ⟨file, hm, hp, found, hf, hn⟩
    exact ⟨(Catalog.reading owner repository commit file, found), ⟨file, hm, rfl, hf, hn⟩, hp⟩

theorem departures_eq_nil {paths : List String} :
    departures owner repository name commit paths = [] ↔
      ∀ path ∈ paths, lostIn? owner repository name commit path = none := by
  rw [List.eq_nil_iff_forall_not_mem]
  constructor
  · intro h path hp
    by_contra hl
    obtain ⟨size, hsize⟩ := Option.ne_none_iff_exists'.mp hl
    exact h ⟨path, CommitRecord.ofCommit owner repository commit, size⟩
      (mem_departures.mpr ⟨hp, rfl, hsize⟩)
  · intro h grave hg
    obtain ⟨hp, -, hl⟩ := mem_departures.mp hg
    simp [h grave.path hp] at hl

-- ---------------------------------------------------------------------------
-- Trails that are current
-- ---------------------------------------------------------------------------

structure Current (owner repository name : String) (commits : List Commit) (trail : Trail) :
    Prop where
  homes : ∀ path, path ∈ trail.paths ↔ Holds owner repository commits path name
  primary : ∀ snippet primary, trail.snippet? = some snippet → snippet.primary? = some primary →
    primary.isTombstone = false →
      ∃ path file found, lastFile? commits path = some file ∧
        found ∈ Catalog.found owner repository file ∧ found.name = name ∧ primary.Records path found

theorem Current.empty : Trail.empty.Current owner repository name [] :=
  ⟨by simp [Trail.empty, Holds, lastFile?], by simp [Trail.empty]⟩

theorem Current.home (hc : trail.Current owner repository name earlier) {snippet : Snippet}
    {primary : Version} (hk : trail.snippet? = some snippet) (hp : snippet.primary? = some primary)
    (ht : primary.isTombstone = false) (hf : primary.file.map (·.path) = some path) :
    path ∈ trail.paths := by
  obtain ⟨p, file, found, hl, hm, hn, hr⟩ := hc.primary snippet primary hk hp ht
  cases hf.symm.trans hr.1
  exact (hc.homes path).mpr ⟨file, hl, found, hm, hn⟩

theorem Current.mem_step (hc : trail.Current owner repository name earlier) (hs : trail.Sound name)
    (hu : commit.Uniform) :
    path ∈ (trail.step owner repository name commit).paths ↔
      (∃ file ∈ commit.files, file.path = path ∧ file.Yields owner repository name) ∨
        path ∈ trail.paths ∧ ∀ file ∈ commit.files, file.path ≠ path := by
  have hd (p : String) : p ∈ (trail.depart owner repository name commit).paths ↔
      p ∈ trail.paths ∧ lostIn? owner repository name commit p = none := by
    simp [depart_eq hs.nodup hs.known]
  rw [Trail.step, mem_foldl_see, exists_sighting_at, hd]
  case hl => exact fun sighting hm => (sighting_real hm).1
  case hh =>
    intro snippet primary hk hp ht sighting hm hf
    obtain ⟨file, hfile, hfp, hy⟩ := exists_sighting_at.mp ⟨sighting, hm, rfl⟩
    rw [hs.depart_yields ⟨file, hfile, hy⟩] at hk
    have hhome := hc.home hk hp ht hf
    have hscanned := ((hc.homes _).mp hhome).isScanned
    exact (hd _).mpr ⟨hhome, (lostIn?_uniform hu hscanned).mpr (.inl ⟨file, hfile, hfp, hy⟩)⟩
  constructor
  · rintro (⟨hp, hl⟩ | hy)
    · have hscanned := ((hc.homes _).mp hp).isScanned
      exact ((lostIn?_uniform hu hscanned).mp hl).imp_right fun hn => ⟨hp, hn⟩
    · exact .inl hy
  · rintro (hy | ⟨hp, hn⟩)
    · exact .inr hy
    · have hscanned := ((hc.homes _).mp hp).isScanned
      exact .inl ⟨hp, (lostIn?_uniform hu hscanned).mpr (.inr hn)⟩

theorem Current.step (hc : trail.Current owner repository name earlier) (hs : trail.Sound name)
    (hu : commit.Uniform) :
    (trail.step owner repository name commit).Current owner repository name
      (earlier ++ [commit]) := by
  refine ⟨fun path => ?_, fun snippet primary hk hp ht => ?_⟩
  · rw [hc.mem_step hs hu, holds_append hu, hc.homes]
  by_cases hy : commit.Yields owner repository name
  · obtain ⟨recorded, hrec, hsnippet⟩ := hs.step_yields hy
    cases hrec.symm.trans hk
    obtain rfl : snippet.name = name := (hs.step.snippet snippet hk).1
    obtain ⟨file, found, version, hlast, hf, hn, hv, hr⟩ := hsnippet.primary
    cases hv.symm.trans hp
    have hm : file ∈ commit.files := (List.mem_filter.mp (List.mem_of_getLast? hlast)).1
    exact ⟨file.path, file, found, hu.lastFile? hm, hf, hn, hr⟩
  · rw [hs.step_absent hy] at hk
    obtain ⟨before, hb, rfl⟩ := Option.map_eq_some_iff.mp hk
    -- a live primary was buried nowhere, so it is still where it was
    have hlive :
        (before.bury (departures owner repository name commit trail.paths)).isLive = true := by
      simp [Snippet.isLive, hp, ht]
    rw [Snippet.isLive_bury, Bool.and_eq_true_iff, List.isEmpty_iff] at hlive
    rw [hlive.1, Snippet.bury_nil] at hp
    obtain ⟨path, file, found, hl, hf, hn, hr⟩ := hc.primary before primary hb hp ht
    have hhome : path ∈ trail.paths := (hc.homes path).mpr ⟨file, hl, found, hf, hn⟩
    have hkept := departures_eq_nil.mp hlive.1 path hhome
    have hscanned := ((hc.homes path).mp hhome).isScanned
    rcases (lostIn?_uniform hu hscanned).mp hkept with ⟨other, ho, -, hyields⟩ | hn'
    · exact absurd ⟨other, ho, hyields⟩ hy
    · exact ⟨path, file, found, (lastFile?_untouched hn').trans hl, hf, hn, hr⟩

theorem walk_current {commits : List Commit} (hu : ∀ commit ∈ commits, commit.Uniform) :
    (walk owner repository name commits).Current owner repository name commits := by
  induction commits using List.reverseRecOn with
  | nil => exact Current.empty
  | append_singleton earlier commit ih =>
    rw [walk_append]
    have hc := ih fun c hm => hu c (by simp [hm])
    exact hc.step (walk_sound earlier) (hu commit (by simp))

end Trail

-- ---------------------------------------------------------------------------
-- Live snippets
-- ---------------------------------------------------------------------------

section
variable {owner repository : String} {commits : List Commit} {snippets : List Snippet}

/-- A live primary is what the last entry for its path holds: the file is there, and the region in
it has the content and the lines of the primary. -/
theorem calculateSnippets_current (hu : ∀ commit ∈ commits, commit.Uniform)
    (h : calculateSnippets owner repository commits = .ok snippets) {snippet : Snippet}
    (hm : snippet ∈ snippets) {primary : Version} (hp : snippet.primary? = some primary)
    (ht : primary.isTombstone = false) :
    ∃ path file found, primary.file.map (·.path) = some path ∧
      lastFile? commits path = some file ∧ file.isDeleted = false ∧
      found ∈ Catalog.found owner repository file ∧ found.name = snippet.name ∧
      primary.content = found.content ∧ primary.lines = found.lines := by
  have hk := (mem_calculateSnippets h).mp hm
  obtain ⟨path, file, found, hl, hf, hn, hr⟩ :=
    (Trail.walk_current hu).primary snippet primary hk hp ht
  have hd := (Bool.and_eq_true_iff.mp (Catalog.mem_found.mp hf).1).2
  exact ⟨path, file, found, hr.1, hl, by simpa using hd, hf, hn, hr.2.2, hr.2.1⟩

end

theorem calculateSnippets_current_move :
    (∀ commit ∈ Sample.moved, commit.Uniform) ∧
      ∃ snippets, calculateSnippets "o" "r" Sample.moved = .ok snippets ∧
        ∃ snippet ∈ snippets, ∃ primary, snippet.primary? = some primary ∧
          primary.isTombstone = false ∧
          ∃ path file found, primary.file.map (·.path) = some path ∧
            lastFile? Sample.moved path = some file ∧ file.isDeleted = false ∧
            found ∈ Catalog.found "o" "r" file ∧ found.name = snippet.name ∧
            primary.content = found.content ∧ primary.lines = found.lines := by
  have hu : ∀ commit ∈ Sample.moved, commit.Uniform := by decide +kernel
  obtain ⟨snippets, h, hlive⟩ : ∃ snippets, calculateSnippets "o" "r" Sample.moved = .ok snippets ∧
      (snippets.any fun snippet => snippet.primary?.any fun primary => !primary.isTombstone) = true :=
    ok_of_any (by decide +kernel)
  obtain ⟨snippet, hm, hl⟩ := List.any_eq_true.mp hlive
  obtain ⟨primary, hp, ht⟩ := (Option.any_eq_true _ _).mp hl
  have ht : primary.isTombstone = false := by simpa using ht
  exact ⟨hu, snippets, h, snippet, hm, primary, hp, ht, calculateSnippets_current hu h hm hp ht⟩

end SnippetTrail
