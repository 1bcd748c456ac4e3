import SnippetTrail.Proofs.Presence

/-!
# Homes are exact

The homes of a catalog say which files hold which snippets, and nothing else (`Catalog.homes_exact`).
That they are right where an offered version is skipped rests on the primary, which `Trail.Current`
ties to the files together with the homes. A snippet with a home has a version from there that no
tombstone there has followed (`Snippet.LivesAt`), so it is in the catalog, and no pass of a commit
comes to a home without its snippet (`Catalog.Misses`).
-/

namespace SnippetTrail

-- ---------------------------------------------------------------------------
-- Living at a path
-- ---------------------------------------------------------------------------

/-- A version was read from the path, and no tombstone there is newer. -/
def Snippet.LivesAt (snippet : Snippet) (path : String) : Prop :=
  ∃ earlier version later, snippet.versions = earlier ++ version :: later ∧
    version.isTombstone = false ∧ version.file.map (·.path) = some path ∧
    ∀ newer ∈ later, newer.isTombstone = true → newer.file.map (·.path) ≠ some path

namespace Snippet

variable {snippet : Snippet} {version : Version} {path : String}

theorem livesAt_append (snippet : Snippet) (hlive : version.isTombstone = false)
    (hf : version.file.map (·.path) = some path) : (snippet.append version).LivesAt path :=
  ⟨snippet.versions, version, [], rfl, hlive, hf, by simp⟩

theorem LivesAt.append (h : snippet.LivesAt path)
    (hv : version.isTombstone = true → version.file.map (·.path) ≠ some path) :
    (snippet.append version).LivesAt path := by
  obtain ⟨earlier, home, later, hs, hlive, hf, hlater⟩ := h
  refine ⟨earlier, home, later ++ [version], by simp [Snippet.append, hs], hlive, hf, ?_⟩
  intro newer hm
  rcases List.mem_append.mp hm with hm | hm
  · exact hlater newer hm
  · rw [List.mem_singleton.mp hm]
    exact hv

theorem LivesAt.bury {graves : List VersionFile} (h : snippet.LivesAt path)
    (hg : ∀ grave ∈ graves, grave.path ≠ path) : (snippet.bury graves).LivesAt path := by
  induction graves generalizing snippet with
  | nil => exact h
  | cons grave rest ih =>
    obtain ⟨hgrave, hrest⟩ := List.forall_mem_cons.mp hg
    refine ih (h.append fun _ hf => hgrave ?_) hrest
    exact Option.some.inj hf

end Snippet

-- ---------------------------------------------------------------------------
-- Settled trails
-- ---------------------------------------------------------------------------

namespace Trail

variable {owner repository name : String} {commit : Commit} {trail : Trail}

def Settled (trail : Trail) : Prop :=
  ∀ path ∈ trail.paths, ∃ snippet, trail.snippet? = some snippet ∧ snippet.LivesAt path

theorem Settled.depart (h : trail.Settled) (hs : trail.Sound name) :
    (trail.depart owner repository name commit).Settled := by
  rw [depart_eq hs.nodup hs.known]
  intro path hp
  obtain ⟨hp, hkept⟩ := List.mem_filter.mp hp
  obtain ⟨snippet, hk, hlives⟩ := h path hp
  refine ⟨_, by rw [hk, Option.map_some], ?_⟩
  split
  · exact hlives
  · refine hlives.bury fun grave hg he => ?_
    -- a path with a grave was lost
    have hlost := (mem_departures.mp hg).2.2
    rw [he] at hlost
    simp [hlost] at hkept

theorem Settled.see {sighting : FileReading × Version} (h : trail.Settled)
    (hl : sighting.2.lines ≠ []) : (trail.see sighting).Settled := by
  have hlive : (trail.offered sighting).isTombstone = false := offered_records.not_tombstone hl
  rcases see_cases trail sighting with ⟨_, _, -, -, -, he⟩ | ⟨-, he⟩
  · rw [he]
    exact h
  rw [he]
  intro path hp
  refine ⟨_, rfl, ?_⟩
  rcases mem_insertPath.mp hp with rfl | hp
  · exact Snippet.livesAt_append _ hlive rfl
  · obtain ⟨snippet, hk, hlives⟩ := h path hp
    rw [sighted, hk, Option.getD_some]
    exact hlives.append fun ht => by simp [hlive] at ht

theorem Settled.step (h : trail.Settled) (hs : trail.Sound name) :
    (trail.step owner repository name commit).Settled := by
  refine List.foldlRecOn _ _ (h.depart hs) fun current hc sighting hm => ?_
  exact hc.see (sighting_real hm).1

theorem walk_settled (commits : List Commit) : (walk owner repository name commits).Settled := by
  induction commits using List.reverseRecOn with
  | nil => simp [Settled, walk, Trail.empty]
  | append_singleton earlier commit ih =>
    rw [walk_append]
    exact ih.step (walk_sound earlier)

end Trail

-- ---------------------------------------------------------------------------
-- Homes without a snippet
-- ---------------------------------------------------------------------------

namespace Catalog

variable {catalog : Catalog} {record : CommitRecord} {produced : List String}
  {lost : Home → Option Nat} {home other : Home} {name : String}

def leaveIfLost (record : CommitRecord) (produced : List String) (lost : Home → Option Nat)
    (catalog : Catalog) (home : Home) : Catalog :=
  match lost home with
  | none => catalog
  | some size => catalog.leave record produced home size

theorem leaveLost_eq_foldl :
    catalog.leaveLost record produced lost =
      catalog.homes.foldl (leaveIfLost record produced lost) catalog := rfl

/-- The pass comes to a home that is lost, and its snippet is not in the catalog by then. -/
def Misses (catalog : Catalog) (record : CommitRecord) (produced : List String)
    (lost : Home → Option Nat) : Prop :=
  ∃ before home after, catalog.homes = before ++ home :: after ∧ lost home ≠ none ∧
    (before.foldl (leaveIfLost record produced lost) catalog).snippets.find? home.snippet = none

def Knows (catalog : Catalog) (name : String) : Prop :=
  ∃ snippet, catalog.snippets.find? name = some snippet

def Complete (catalog : Catalog) : Prop := ∀ home ∈ catalog.homes, catalog.Knows home.snippet

theorem leaveIfLost_homes (h : home ∈ (leaveIfLost record produced lost catalog other).homes) :
    home ∈ catalog.homes := by
  unfold leaveIfLost leave at h
  split at h
  · exact h
  · split at h
    · exact h
    · exact List.mem_of_mem_erase h

theorem Knows.leaveIfLost (h : catalog.Knows name) :
    (leaveIfLost record produced lost catalog home).Knows name := by
  unfold Catalog.leaveIfLost leave
  split
  · exact h
  · split
    · exact h
    · unfold Knows
      dsimp only
      split
      · exact h
      · rw [Table.find?_insert]
        split
        · exact ⟨_, rfl⟩
        · exact h

theorem Complete.leaveLost (h : catalog.Complete) :
    (catalog.leaveLost record produced lost).Complete := by
  rw [leaveLost_eq_foldl]
  refine List.foldlRecOn _ _ h fun current hc other _ home hm => ?_
  exact (hc home (leaveIfLost_homes hm)).leaveIfLost

theorem Complete.not_misses (h : catalog.Complete) : ¬catalog.Misses record produced lost := by
  rintro ⟨before, home, after, hsplit, -, hmissing⟩
  have hm : home ∈ catalog.homes := by simp [hsplit]
  have hthere : (before.foldl (leaveIfLost record produced lost) catalog).Knows home.snippet :=
    List.foldlRecOn (motive := (Knows · home.snippet)) _ _ (h home hm)
      fun current hc other _ => hc.leaveIfLost
  obtain ⟨snippet, hk⟩ := hthere
  cases hmissing.symm.trans hk

end Catalog

-- ---------------------------------------------------------------------------
-- The homes of a catalog
-- ---------------------------------------------------------------------------

section
variable {owner repository : String} {commits : List Commit} {catalog : Catalog}

/-- Apply commits to a new catalog, each of which has one entry for a path or the same ones. Then a
path is a home of a snippet exactly if the last entry for it is a file that holds the snippet. The
snippet is in the catalog then, with a version from the path that is newer than any tombstone there,
and neither of the passes in which snippets leave, whatever the next commit is, comes to a home whose
snippet is missing. -/
theorem Catalog.homes_exact (hu : ∀ commit ∈ commits, commit.Uniform)
    (h : commits.foldlM Catalog.apply (Catalog.new owner repository) = .ok catalog) :
    (∀ path name, ⟨path, name⟩ ∈ catalog.homes ↔ Holds owner repository commits path name) ∧
    (∀ home ∈ catalog.homes, ∃ snippet, catalog.snippets.find? home.snippet = some snippet ∧
      snippet.LivesAt home.path) ∧
    ∀ next : Commit,
      let record := CommitRecord.ofCommit owner repository next
      let readings := readings owner repository next
      let deleted := lostByDeletion (deletedPaths next)
      ¬catalog.Misses record (produced readings) deleted ∧
        ¬(catalog.leaveLost record (produced readings) deleted).Misses record (produced readings)
          (lostByChange readings) := by
  have hlives : ∀ home ∈ catalog.homes, ∃ snippet,
      catalog.snippets.find? home.snippet = some snippet ∧ snippet.LivesAt home.path := by
    intro home hm
    have hp : home.path ∈ (catalog.trail home.snippet).paths := mem_pathsOf.mpr hm
    rw [trail_run h] at hp
    obtain ⟨snippet, hk, hlives⟩ := Trail.walk_settled commits home.path hp
    rw [← trail_run h] at hk
    exact ⟨snippet, hk, hlives⟩
  have hcomplete : catalog.Complete := by
    intro home hm
    obtain ⟨snippet, hk, -⟩ := hlives home hm
    exact ⟨snippet, hk⟩
  refine ⟨fun path name => ?_, hlives, fun next => ⟨hcomplete.not_misses, ?_⟩⟩
  · rw [← mem_pathsOf, ← (Trail.walk_current hu).homes, ← trail_run h]
    rfl
  · exact hcomplete.leaveLost.not_misses

end

namespace Sample

def restored : List Commit :=
  [write, commit [.ofText "a.py" (text "demo" "x"), .ofText "a.py" (text "demo" "x")],
    commit [.deleted "a.py"], write]

end Sample

theorem Catalog.homes_exact_restored :
    (∀ commit ∈ Sample.restored, commit.Uniform) ∧
      ∃ catalog, Sample.restored.foldlM Catalog.apply (Catalog.new "o" "r") = .ok catalog ∧
        catalog.homes = [⟨"a.py", Sample.demo⟩] ∧
        Holds "o" "r" Sample.restored "a.py" Sample.demo ∧
        ∃ snippet, catalog.snippets.find? Sample.demo = some snippet ∧
          snippet.versions.map (·.isTombstone) = [false, true, false] ∧ snippet.LivesAt "a.py" := by
  have hu : ∀ commit ∈ Sample.restored, commit.Uniform := by decide +kernel
  obtain ⟨catalog, h, hcatalog⟩ : ∃ catalog,
      Sample.restored.foldlM Catalog.apply (Catalog.new "o" "r") = .ok catalog ∧
        (catalog.homes == [⟨"a.py", Sample.demo⟩] &&
          (catalog.snippets.find? Sample.demo).map (·.versions.map (·.isTombstone)) ==
            some [false, true, false]) = true :=
    ok_of_any (by decide +kernel)
  obtain ⟨hhomes, hversions⟩ := Bool.and_eq_true_iff.mp hcatalog
  obtain ⟨hexact, hlives, -⟩ := Catalog.homes_exact hu h
  have hm : ⟨"a.py", Sample.demo⟩ ∈ catalog.homes := by simp [beq_iff_eq.mp hhomes]
  obtain ⟨snippet, hk, hsnippet⟩ := hlives _ hm
  rw [hk] at hversions
  exact ⟨hu, catalog, h, beq_iff_eq.mp hhomes, (hexact _ _).mp hm, snippet, hk,
    by simpa using hversions, hsnippet⟩

end SnippetTrail
