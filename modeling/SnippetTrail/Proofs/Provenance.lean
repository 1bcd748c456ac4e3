import Mathlib.Data.List.Find
import Mathlib.Data.List.Induction
import SnippetTrail.Proofs.Homes

/-!
# Where versions come from

A version is of one of two kinds. It is `ReadFrom` a commit if it says what a file of the commit
holds, and it `Marks` a commit if it is a tombstone where the commit took the snippet away. What a
step adds is of one kind throughout (`step_added`, `step_absent_added`), and a home always has an
earlier version that was read there (`walk_housed`). So the versions of every history can be dated
by the commits that justify them (`walk_justified`).
-/

namespace SnippetTrail

-- ---------------------------------------------------------------------------
-- The two kinds of versions
-- ---------------------------------------------------------------------------

section
variable (owner repository : String) (commit : Commit) (name : String)

def Version.ReadFrom (version : Version) : Prop :=
  ∃ file ∈ commit.files, Catalog.holdsRegions file = true ∧
    version.file = some ⟨file.path, CommitRecord.ofCommit owner repository commit, file.size⟩ ∧
    ∃ found ∈ Catalog.found owner repository file, found.name = name ∧
      version.content = found.content ∧ version.lines = found.lines ∧ version.notes = found.notes

/-- The commit lists the path as deleted, or lists it without the snippet. A deleted path has no
size, another one has that of the first entry without the snippet. -/
def Commit.Lacks (path : String) (size : Nat) : Prop :=
  (∃ file ∈ commit.files, file.path = path ∧ file.isDeleted = true ∧ size = 0) ∨
    ∃ file, commit.files.find? (fun file => file.path == path && !file.isDeleted &&
        !decide (file.Yields owner repository name)) = some file ∧ size = file.size

/-- The version is a tombstone where the commit, which does not hold the snippet, took it away. -/
structure Version.Marks (version : Version) : Prop where
  blank : version.content = "" ∧ version.lines = [] ∧ version.notes = Notes.empty
  absent : ¬commit.Yields owner repository name
  lost : ∃ path size,
    version.file = some ⟨path, CommitRecord.ofCommit owner repository commit, size⟩ ∧
      commit.Lacks owner repository name path size

end

section
variable {owner repository name : String} {commit : Commit} {version : Version}

theorem Version.ReadFrom.not_tombstone (h : version.ReadFrom owner repository commit name) :
    version.isTombstone = false := by
  obtain ⟨file, -, -, -, found, hf, -, -, hl, -⟩ := h
  rw [Bool.eq_false_iff]
  intro ht
  exact (Catalog.found_real hf).1 (hl ▸ (isTombstone_iff.mp ht).2)

theorem Version.Marks.isTombstone (h : version.Marks owner repository commit name) :
    version.isTombstone = true :=
  isTombstone_iff.mpr ⟨h.blank.1, h.blank.2.1⟩

end

-- ---------------------------------------------------------------------------
-- What a commit takes away
-- ---------------------------------------------------------------------------

namespace Catalog

variable {owner repository : String} {commit : Commit} {home : Home} {size : Nat}

theorem lostByDeletion_eq_some (h : lostByDeletion (deletedPaths commit) home = some size) :
    ∃ file ∈ commit.files, file.path = home.path ∧ file.isDeleted = true ∧ size = 0 := by
  unfold lostByDeletion at h
  split at h
  · rename_i hd
    obtain ⟨file, hm, hp, -, hdel⟩ := mem_deletedPaths.mp hd
    exact ⟨file, hm, hp, hdel, (Option.some.inj h).symm⟩
  · cases h

theorem head?_readings_at {path : String} :
    ((readings owner repository commit).filter (·.file.path == path)).head? =
      (commit.files.find? fun file => file.path == path && holdsRegions file).map
        (reading owner repository commit) := by
  rw [List.head?_filter, readings, List.find?_map, List.find?_filter]
  congr 2
  funext file
  rw [Bool.eq_iff_iff]
  simp [reading, and_comm]

theorem lostByChange_eq_some
    (h : lostByChange (readings owner repository commit) home = some size) :
    ∃ file, commit.files.find? (fun file => file.path == home.path && holdsRegions file) =
        some file ∧ size = file.size := by
  have hhead := @head?_readings_at owner repository commit home.path
  unfold lostByChange at h
  split at h
  · cases h
  · rename_i first rest hreadings
    rw [hreadings, List.head?_cons] at hhead
    obtain ⟨file, hf, rfl⟩ := Option.map_eq_some_iff.mp hhead.symm
    split at h
    · cases h
    · exact ⟨file, hf, (Option.some.inj h).symm⟩

end Catalog

namespace Trail

variable {owner repository name path : String} {commit : Commit} {trail : Trail} {size : Nat}

theorem lostIn?_eq_some (hy : ¬commit.Yields owner repository name)
    (h : lostIn? owner repository name commit path = some size) :
    commit.Lacks owner repository name path size := by
  rcases Option.or_eq_some_iff.mp h with hd | ⟨-, hc⟩
  · exact .inl (Catalog.lostByDeletion_eq_some hd)
  · obtain ⟨first, hf, rfl⟩ := Catalog.lostByChange_eq_some hc
    refine .inr ⟨first, ?_, rfl⟩
    -- the path is scanned, since its entry can hold regions, and no entry has the snippet
    have hscanned : SourceFile.isScanned path = true := by
      have hfirst : (first.path == path && Catalog.holdsRegions first) = true := by
        simpa using List.find?_some hf
      obtain ⟨hp, hr⟩ := Bool.and_eq_true_iff.mp hfirst
      rw [← beq_iff_eq.mp hp]
      exact (Bool.and_eq_true_iff.mp hr).1
    rw [← hf]
    refine List.find?_congr fun file hm => ?_
    have hfile : ¬file.Yields owner repository name := fun hyields => hy ⟨file, hm, hyields⟩
    cases hp : file.path == path with
    | false => rfl
    | true => simp [Catalog.holdsRegions, beq_iff_eq.mp hp, hscanned, hfile]

end Trail

-- ---------------------------------------------------------------------------
-- What a step adds
-- ---------------------------------------------------------------------------

theorem Snippet.bury_added (snippet : Snippet) (graves : List VersionFile) :
    ∃ added, (snippet.bury graves).versions = snippet.versions ++ added ∧
      ∀ version ∈ added, ∃ grave ∈ graves, ∃ current, version = Catalog.tombstone current grave := by
  induction graves generalizing snippet with
  | nil => exact ⟨[], by simp⟩
  | cons grave rest ih =>
    obtain ⟨added, ha, hgraves⟩ := ih (snippet.append (Catalog.tombstone snippet grave))
    refine ⟨Catalog.tombstone snippet grave :: added, ?_, ?_⟩
    · rw [bury_cons, ha]
      simp [Snippet.append]
    · rintro version (_ | ⟨_, hm⟩)
      · exact ⟨grave, by simp, snippet, rfl⟩
      · obtain ⟨other, ho, current, he⟩ := hgraves version hm
        exact ⟨other, List.mem_cons_of_mem _ ho, current, he⟩

namespace Trail

variable {owner repository name path : String} {commit : Commit} {trail : Trail}

theorem offered_readFrom {sighting : FileReading × Version}
    (hm : sighting ∈ sightings (Catalog.readings owner repository commit) name) :
    (trail.offered sighting).ReadFrom owner repository commit name := by
  obtain ⟨file, hfile, hr, hf, hn⟩ := mem_sightings.mp hm
  refine ⟨file, hfile, (Catalog.mem_found.mp hf).1, ?_, sighting.2, hf, hn, rfl, rfl, rfl⟩
  rw [offered, hr]
  rfl

theorem Sound.step_absent_added (hs : trail.Sound name) (hy : ¬commit.Yields owner repository name) :
    ∃ added, (trail.step owner repository name commit).versions = trail.versions ++ added ∧
      ∀ version ∈ added, version.Marks owner repository commit name ∧
        ∃ path ∈ trail.paths, version.file.map (·.path) = some path := by
  have hstep := hs.step_absent hy
  cases hk : trail.snippet? with
  | none => exact ⟨[], by simp [versions, hstep, hk], by simp⟩
  | some snippet =>
    obtain ⟨added, ha, hgraves⟩ :=
      snippet.bury_added (departures owner repository name commit trail.paths)
    refine ⟨added, by simp [versions, hstep, hk, ha], fun version hm => ?_⟩
    obtain ⟨grave, hg, current, rfl⟩ := hgraves version hm
    obtain ⟨hp, hc, hl⟩ := mem_departures.mp hg
    refine ⟨⟨⟨rfl, rfl, rfl⟩, hy, grave.path, grave.size, ?_, lostIn?_eq_some hy hl⟩, grave.path, hp, rfl⟩
    rw [← hc]
    rfl

-- ---------------------------------------------------------------------------
-- Homes have versions
-- ---------------------------------------------------------------------------

def Housed (trail : Trail) : Prop :=
  ∀ path ∈ trail.paths, ∃ version ∈ trail.versions, version.isTombstone = false ∧
    version.file.map (·.path) = some path

theorem walk_housed (commits : List Commit) : (walk owner repository name commits).Housed := by
  intro path hp
  obtain ⟨snippet, hk, earlier, version, later, hs, hlive, hf, -⟩ := walk_settled commits path hp
  exact ⟨version, by simp [versions_eq hk, hs], hlive, hf⟩

end Trail

-- ---------------------------------------------------------------------------
-- Dated histories
-- ---------------------------------------------------------------------------

structure Dated where
  version : Version
  position : Nat

section
variable (owner repository : String) (commits : List Commit) (name : String)

def Dated.IsRead (entry : Dated) : Prop :=
  ∃ commit, commits[entry.position]? = some commit ∧
    entry.version.ReadFrom owner repository commit name

/-- The version marks its commit, at a path that an earlier version was read from. -/
def Dated.IsMark (earlier : List Dated) (entry : Dated) : Prop :=
  (∃ commit, commits[entry.position]? = some commit ∧
    entry.version.Marks owner repository commit name) ∧
    ∃ home ∈ earlier, home.IsRead owner repository commits name ∧
      home.version.file.map (·.path) = entry.version.file.map (·.path)

/-- The dates do not decrease, and the commit at its date justifies each version. -/
structure Justified (dated : List Dated) : Prop where
  ordered : (dated.map (·.position)).Pairwise (· ≤ ·)
  sourced : ∀ (i : Nat) (entry : Dated), dated[i]? = some entry →
    entry.IsRead owner repository commits name ∨
      entry.IsMark owner repository commits name (dated.take i)

end

section
variable {owner repository name : String} {commits : List Commit} {commit : Commit}
  {dated earlier : List Dated} {entry : Dated}

theorem getElem?_append_of_some {items later : List α} {i : Nat} {a : α} (h : items[i]? = some a) :
    (items ++ later)[i]? = some a := by
  rw [List.getElem?_append_left (List.getElem?_eq_some_iff.mp h).1, h]

theorem Dated.IsRead.append (h : entry.IsRead owner repository commits name) (later : List Commit) :
    entry.IsRead owner repository (commits ++ later) name := by
  obtain ⟨commit, hc, hr⟩ := h
  exact ⟨commit, getElem?_append_of_some hc, hr⟩

theorem Dated.IsMark.append (h : entry.IsMark owner repository commits name earlier)
    (later : List Commit) : entry.IsMark owner repository (commits ++ later) name earlier := by
  obtain ⟨⟨commit, hc, hm⟩, home, hhome, hr, hp⟩ := h
  exact ⟨⟨commit, getElem?_append_of_some hc, hm⟩, home, hhome, hr.append later, hp⟩

theorem Dated.IsMark.isTombstone (h : entry.IsMark owner repository commits name earlier) :
    entry.version.isTombstone = true := by
  obtain ⟨⟨_, -, hm⟩, -⟩ := h
  exact hm.isTombstone

theorem Dated.IsRead.not_tombstone (h : entry.IsRead owner repository commits name) :
    entry.version.isTombstone = false := by
  obtain ⟨_, -, hr⟩ := h
  exact hr.not_tombstone

theorem Justified.isRead_iff (hj : Justified owner repository commits name dated)
    (hm : entry ∈ dated) :
    entry.IsRead owner repository commits name ↔ entry.version.isTombstone = false := by
  refine ⟨Dated.IsRead.not_tombstone, fun hlive => ?_⟩
  obtain ⟨i, hi⟩ := List.mem_iff_getElem?.mp hm
  rcases hj.sourced i entry hi with hr | hmark
  · exact hr
  · simp [hmark.isTombstone] at hlive

theorem Justified.position_lt (hj : Justified owner repository commits name dated)
    (hm : entry ∈ dated) : entry.position < commits.length := by
  obtain ⟨i, hi⟩ := List.mem_iff_getElem?.mp hm
  rcases hj.sourced i entry hi with ⟨_, hc, -⟩ | ⟨⟨_, hc, -⟩, -⟩ <;>
    exact (List.getElem?_eq_some_iff.mp hc).1

theorem Justified.append (hj : Justified owner repository commits name dated) {added : List Version}
    (ha : ∀ version ∈ added, version.ReadFrom owner repository commit name ∨
      version.Marks owner repository commit name ∧ ∃ home ∈ dated,
        home.version.isTombstone = false ∧
          home.version.file.map (·.path) = version.file.map (·.path)) :
    Justified owner repository (commits ++ [commit]) name
      (dated ++ added.map (⟨·, commits.length⟩)) := by
  have hlast : (commits ++ [commit])[commits.length]? = some commit := by simp
  refine ⟨?_, fun i entry hi => ?_⟩
  · rw [List.map_append, List.pairwise_append]
    refine ⟨hj.ordered, by simp [List.pairwise_map, List.pairwise_of_forall], ?_⟩
    intro early he late hl
    obtain ⟨entry, hm, rfl⟩ := List.mem_map.mp he
    have hlate : late = commits.length := by simp_all
    exact hlate ▸ (hj.position_lt hm).le
  rw [List.getElem?_append] at hi
  split at hi
  · rename_i hlt
    rw [List.take_append_of_le_length hlt.le]
    exact (hj.sourced i entry hi).imp (·.append [commit]) (·.append [commit])
  · rename_i hge
    obtain ⟨version, hv, rfl⟩ := List.mem_map.mp (List.mem_of_getElem? hi)
    refine (ha version hv).imp (⟨commit, hlast, ·⟩) ?_
    rintro ⟨hmark, home, hm, hlive, hp⟩
    refine ⟨⟨commit, hlast, hmark⟩, home, ?_, ((hj.isRead_iff hm).mpr hlive).append [commit], hp⟩
    -- all versions from before the commit are earlier
    rw [List.take_append, List.take_of_length_le (Nat.le_of_not_lt hge)]
    exact List.mem_append_left _ hm

theorem Trail.walk_justified (commits : List Commit) :
    ∃ dated : List Dated,
      dated.map (·.version) = (walk owner repository name commits).versions ∧
        Justified owner repository commits name dated := by
  induction commits using List.reverseRecOn with
  | nil => exact ⟨[], rfl, by simp, by simp⟩
  | append_singleton earlier commit ih =>
    obtain ⟨dated, hd, hj⟩ := ih
    have hs := @walk_sound owner repository name earlier
    have hadded : ∃ added, (walk owner repository name (earlier ++ [commit])).versions =
        (walk owner repository name earlier).versions ++ added ∧
        ∀ version ∈ added, version.ReadFrom owner repository commit name ∨
          version.Marks owner repository commit name ∧ ∃ home ∈ dated,
            home.version.isTombstone = false ∧
              home.version.file.map (·.path) = version.file.map (·.path) := by
      rw [walk_append]
      by_cases hy : commit.Yields owner repository name
      · obtain ⟨added, ha, hoffered⟩ := hs.step_added hy
        refine ⟨added, ha, fun version hm => .inl ?_⟩
        obtain ⟨sighting, hsighting, current, rfl⟩ := hoffered version hm
        exact offered_readFrom hsighting
      · obtain ⟨added, ha, hmarks⟩ := hs.step_absent_added hy
        refine ⟨added, ha, fun version hm => .inr ?_⟩
        obtain ⟨hmark, path, hp, hpath⟩ := hmarks version hm
        obtain ⟨home, hhome, hlive, hf⟩ := walk_housed earlier path hp
        obtain ⟨entry, he, rfl⟩ := List.mem_map.mp (hd ▸ hhome)
        exact ⟨hmark, entry, he, hlive, hf.trans hpath.symm⟩
    obtain ⟨added, ha, hkinds⟩ := hadded
    exact ⟨_, by simp [ha, hd, Function.comp_def], hj.append hkinds⟩

end

-- ---------------------------------------------------------------------------
-- The result of a walk
-- ---------------------------------------------------------------------------

section
variable {owner repository : String} {commits : List Commit} {snippets : List Snippet}

theorem commit_mem_of_calculateSnippets (h : calculateSnippets owner repository commits = .ok snippets)
    {snippet : Snippet} (hs : snippet ∈ snippets) {version : Version}
    (hv : version ∈ snippet.versions) {file : VersionFile} (hf : file ∈ version.file) :
    file.commit ∈ commits.map (CommitRecord.ofCommit owner repository) := by
  have hwalk := Trail.versions_eq ((mem_calculateSnippets h).mp hs)
  obtain ⟨dated, hd, hj⟩ := @Trail.walk_justified owner repository snippet.name commits
  obtain ⟨entry, hentry, rfl⟩ := List.mem_map.mp (hd.trans hwalk ▸ hv)
  obtain ⟨i, hi⟩ := List.mem_iff_getElem?.mp hentry
  rcases hj.sourced i entry hi with ⟨commit, hc, _, -, -, hfile, -⟩ |
    ⟨⟨commit, hc, hmarks⟩, -⟩
  · cases hfile.symm.trans hf
    exact List.mem_map_of_mem (List.mem_of_getElem? hc)
  · obtain ⟨_, _, hfile, -⟩ := hmarks.lost
    cases hfile.symm.trans hf
    exact List.mem_map_of_mem (List.mem_of_getElem? hc)

/-- The versions of every snippet can be dated by commits in their order, so that each is what a
file of its commit holds, or else a tombstone where its commit, which does not hold the snippet,
took it from a path that an earlier version was read from. The latter are the tombstones. -/
theorem calculateSnippets_justified
    (h : calculateSnippets owner repository commits = .ok snippets) {snippet : Snippet}
    (hm : snippet ∈ snippets) :
    ∃ dated : List Dated, dated.map (·.version) = snippet.versions ∧
      (dated.map (·.position)).Pairwise (· ≤ ·) ∧
      ∀ (i : Nat) (entry : Dated), dated[i]? = some entry →
        (entry.IsRead owner repository commits snippet.name ∨
          entry.IsMark owner repository commits snippet.name (dated.take i)) ∧
        (entry.IsMark owner repository commits snippet.name (dated.take i) ↔
          entry.version.isTombstone = true) := by
  have hk := (mem_calculateSnippets h).mp hm
  obtain ⟨dated, hd, hj⟩ := @Trail.walk_justified owner repository snippet.name commits
  refine ⟨dated, hd.trans (Trail.versions_eq hk), hj.ordered, fun i entry hi => ?_⟩
  have hkind := hj.sourced i entry hi
  refine ⟨hkind, Dated.IsMark.isTombstone, fun ht => hkind.resolve_left fun hr => ?_⟩
  simp [hr.not_tombstone] at ht

end

theorem calculateSnippets_justified_rewritten :
    ∃ snippets, calculateSnippets "o" "r" Sample.rewritten = .ok snippets ∧
      ∃ snippet ∈ snippets,
        snippet.versions.map (·.isTombstone) = [false, false, true, false] ∧
        ∃ dated : List Dated, dated.map (·.version) = snippet.versions ∧
          (dated.map (·.position)).Pairwise (· ≤ ·) ∧
          ∀ (i : Nat) (entry : Dated), dated[i]? = some entry →
            (entry.IsRead "o" "r" Sample.rewritten snippet.name ∨
              entry.IsMark "o" "r" Sample.rewritten snippet.name (dated.take i)) ∧
            (entry.IsMark "o" "r" Sample.rewritten snippet.name (dated.take i) ↔
              entry.version.isTombstone = true) := by
  obtain ⟨snippets, h, hany⟩ : ∃ snippets, calculateSnippets "o" "r" Sample.rewritten = .ok snippets ∧
      (snippets.any fun snippet =>
        snippet.versions.map (·.isTombstone) == [false, false, true, false]) = true :=
    ok_of_any (by decide +kernel)
  obtain ⟨snippet, hm, ht⟩ := List.any_eq_true.mp hany
  exact ⟨snippets, h, snippet, hm, beq_iff_eq.mp ht, calculateSnippets_justified h hm⟩

end SnippetTrail
