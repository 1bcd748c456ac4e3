import SnippetTrail.Proofs.FileOrder
import SnippetTrail.Proofs.Presence

/-!
# Commits applied twice

After a step no home of a trail is lost to the commit any more, and the primary says what the one file
with the snippet says (`apply_reflects`). So a second step of the same commit changes nothing
(`step_step`). As a catalog is known by its trails (`ext_trail`), it is the same catalog after both
(`apply_replayed`).
-/

namespace SnippetTrail

-- ---------------------------------------------------------------------------
-- Catalogs are known by their trails
-- ---------------------------------------------------------------------------

theorem Table.ext_find? {table other : Table α} (h : ∀ key, table.find? key = other.find? key) :
    table = other := by
  obtain ⟨entries, hs⟩ := table
  obtain ⟨others, ho⟩ := other
  have hsame : entries = others := by
    refine eq_of_ordered hs ho (fun _ => String.lt_irrefl _) (fun _ _ _ => String.lt_trans) ?_
    rintro ⟨key, value⟩
    rw [← findEntry_eq_some hs, ← findEntry_eq_some ho]
    exact Eq.congr_left (h key)
  subst hsame
  rfl

namespace Catalog

variable {owner repository : String} {catalog other : Catalog}

theorem ext_trail (ht : Tidy owner repository catalog) (ho : Tidy owner repository other)
    (h : ∀ name, catalog.trail name = other.trail name) : catalog = other := by
  have hsnippets : catalog.snippets = other.snippets :=
    Table.ext_find? fun name => congrArg Trail.snippet? (h name)
  have hhomes : catalog.homes = other.homes := by
    have hirrefl (home : Home) : ¬home.Before home := by
      simp [Home.Before]
    refine eq_of_ordered ht.ordered ho.ordered hirrefl (fun _ _ _ => Home.Before.trans) ?_
    rintro ⟨path, name⟩
    have hpaths : pathsOf name catalog.homes = pathsOf name other.homes :=
      congrArg Trail.paths (h name)
    rw [← mem_pathsOf, ← mem_pathsOf, hpaths]
  have howner := ht.owner.trans ho.owner.symm
  have hrepository := ht.repository.trans ho.repository.symm
  cases catalog
  cases other
  simp only [Catalog.mk.injEq]
  exact ⟨howner, hrepository, hsnippets, hhomes⟩

end Catalog

-- ---------------------------------------------------------------------------
-- Steps that change nothing
-- ---------------------------------------------------------------------------

namespace Trail

variable {owner repository name path : String} {commit : Commit} {trail : Trail}
  {list : List (FileReading × Version)}

theorem Sound.depart_eq_self (hs : trail.Sound name)
    (hkept : ∀ path ∈ trail.paths, lostIn? owner repository name commit path = none) :
    trail.depart owner repository name commit = trail := by
  have hpaths : trail.paths.filter (fun path => (lostIn? owner repository name commit path).isNone) =
      trail.paths :=
    List.filter_eq_self.mpr fun path hp => by simp [hkept path hp]
  rw [depart_eq hs.nodup hs.known, departures_eq_nil.mpr hkept, hpaths]
  simp

theorem foldl_see_eq_self {snippet : Snippet} {primary : Version}
    (hk : trail.snippet? = some snippet) (hp : snippet.primary? = some primary)
    (hr : ∀ sighting ∈ list, primary.Records sighting.1.file.path sighting.2) :
    list.foldl see trail = trail := by
  induction list with
  | nil => rfl
  | cons sighting rest ih =>
    obtain ⟨hsighting, hrest⟩ := List.forall_mem_cons.mp hr
    have hsee : trail.see sighting = trail := by
      rcases see_cases trail sighting with ⟨_, _, -, -, -, he⟩ | ⟨hchanged, -⟩
      · exact he
      · have hprimary : (trail.sighted sighting).primary? = some primary := by
          rw [sighted, hk, Option.getD_some, hp]
        have hequivalent : primary.equivalent (trail.offered sighting) = true :=
          Version.equivalent_placed.mpr hsighting
        rw [hchanged primary hprimary] at hequivalent
        cases hequivalent
    rw [List.foldl_cons, hsee, ih hrest]

theorem Sound.lostIn?_step (hs : trail.Sound name) (hu : commit.Unambiguous owner repository)
    (hp : path ∈ (trail.step owner repository name commit).paths) :
    lostIn? owner repository name commit path = none := by
  rcases mem_foldl_see_paths hp with hp | ⟨sighting, hm, rfl⟩
  · rw [depart_eq hs.nodup hs.known] at hp
    simpa using (List.mem_filter.mp hp).2
  · obtain ⟨file, hfile, hread, hfound, hname⟩ := mem_sightings.mp hm
    have hy : file.Yields owner repository name := ⟨_, hfound, hname⟩
    have hd : file.isDeleted = false := by
      simpa using (Bool.and_eq_true_iff.mp hy.holdsRegions).2
    rw [hread]
    refine lostIn?_eq_none.mpr fun other ho hpath _ => ?_
    obtain rfl : other = file := List.inj_on_of_nodup_map hu.paths ho hfile hpath
    exact ⟨hd, other, hfile, rfl, hy⟩

theorem Sound.step_records (hs : trail.Sound name) (hu : commit.Unambiguous owner repository)
    (hy : commit.Yields owner repository name) :
    ∃ snippet primary, (trail.step owner repository name commit).snippet? = some snippet ∧
      snippet.primary? = some primary ∧
      ∀ sighting ∈ sightings (Catalog.readings owner repository commit) name,
        primary.Records sighting.1.file.path sighting.2 := by
  obtain ⟨snippet, hk, hrecorded⟩ := hs.step_yields hy
  obtain ⟨file, found, primary, hlast, hfound, hn, hp, hr⟩ := hrecorded.primary
  obtain rfl : snippet.name = name := (hs.step.snippet snippet hk).1
  have hfile : file ∈ commit.files := (List.mem_filter.mp (List.mem_of_getLast? hlast)).1
  refine ⟨snippet, primary, hk, hp, fun sighting hm => ?_⟩
  obtain ⟨other, ho, hread, hother, hname⟩ := mem_sightings.mp hm
  -- the last file with the snippet is the only one, and has one version of it
  obtain rfl : other = file :=
    hu.snippets snippet.name other ho file hfile ⟨_, hother, hname⟩ ⟨found, hfound, hn⟩
  obtain rfl : sighting.2 = found := Catalog.found_unique hother hfound (hname.trans hn.symm)
  rw [hread]
  exact hr

theorem Sound.step_step (hs : trail.Sound name) (hu : commit.Unambiguous owner repository) :
    (trail.step owner repository name commit).step owner repository name commit =
      trail.step owner repository name commit := by
  have hdepart : (trail.step owner repository name commit).depart owner repository name commit =
      trail.step owner repository name commit :=
    hs.step.depart_eq_self fun path hp => hs.lostIn?_step hu hp
  by_cases hy : commit.Yields owner repository name
  · obtain ⟨snippet, primary, hk, hp, hr⟩ := hs.step_records hu hy
    have hsee := foldl_see_eq_self hk hp hr
    rw [Trail.step, hdepart, hsee]
  · rw [step_eq_depart hy, hdepart]

end Trail

-- ---------------------------------------------------------------------------
-- Applying a commit twice
-- ---------------------------------------------------------------------------

section
variable {owner repository : String} {commits : List Commit} {commit : Commit} {catalog next : Catalog}

/-- The catalog says what the files of the commit hold, and has no home in a file that does not hold
the snippet. -/
structure Catalog.Reflects (owner repository : String) (commit : Commit) (catalog : Catalog) :
    Prop where
  recorded : ∀ file ∈ commit.files, ∀ found ∈ Catalog.found owner repository file,
    ∃ snippet primary, catalog.snippets.find? found.name = some snippet ∧
      snippet.primary? = some primary ∧ primary.Records file.path found
  housed : ∀ home ∈ catalog.homes, ∀ file ∈ commit.files, file.path = home.path →
    SourceFile.isScanned file.path = true → file.Yields owner repository home.snippet

theorem Catalog.apply_reflects (ht : Tidy owner repository catalog)
    (hs : ∀ name, (catalog.trail name).Sound name) (hu : commit.Unambiguous owner repository)
    (hn : catalog.apply commit = .ok next) : next.Reflects owner repository commit where
  recorded file hfile found hfound := by
    have hy : commit.Yields owner repository found.name := ⟨file, hfile, found, hfound, rfl⟩
    obtain ⟨snippet, primary, hk, hp, hr⟩ := (hs found.name).step_records hu hy
    have hsighting : (Catalog.reading owner repository commit file, found) ∈
        Trail.sightings (Catalog.readings owner repository commit) found.name :=
      Trail.mem_sightings.mpr ⟨file, hfile, rfl, hfound, rfl⟩
    rw [← (trail_apply found.name ht hn).1] at hk
    exact ⟨snippet, primary, hk, hp, hr _ hsighting⟩
  housed home hm file hfile hpath hscanned := by
    have hp : home.path ∈ (next.trail home.snippet).paths := mem_pathsOf.mpr hm
    rw [(trail_apply home.snippet ht hn).1] at hp
    have hkept := Trail.lostIn?_eq_none.mp ((hs home.snippet).lostIn?_step hu hp)
    obtain ⟨-, other, ho, hother, hy⟩ := hkept file hfile hpath (hpath ▸ hscanned)
    obtain rfl : other = file := List.inj_on_of_nodup_map hu.paths ho hfile (hother.trans hpath.symm)
    exact hy

/-- After any history, a commit that was applied can be applied again, and it changes nothing: no
snippet gets a tombstone or a version, and no home comes or goes. The commit must list no path twice and
have no snippet in two files. -/
theorem Catalog.apply_replayed
    (h : commits.foldlM Catalog.apply (Catalog.new owner repository) = .ok catalog)
    (hu : commit.Unambiguous owner repository) (hn : catalog.apply commit = .ok next) :
    next.Reflects owner repository commit ∧ next.apply commit = .ok next := by
  have hcatalog : Tidy owner repository catalog :=
    (@trail_foldlM owner repository "" _ _ _ ⟨rfl, rfl, List.Pairwise.nil⟩ h).2
  have hs (name : String) : (catalog.trail name).Sound name := trail_run h ▸ Trail.walk_sound commits
  obtain ⟨again, hagain⟩ := (@apply_isOk next commit).mpr (apply_isOk.mp ⟨next, hn⟩)
  have hsame : again = next := by
    have hnext : Tidy owner repository next := (trail_apply "" hcatalog hn).2
    refine ext_trail (trail_apply "" hnext hagain).2 hnext fun name => ?_
    rw [(trail_apply name hnext hagain).1, (trail_apply name hcatalog hn).1, (hs name).step_step hu]
  rw [hagain, hsame]
  exact ⟨apply_reflects hcatalog hs hu hn, rfl⟩

end

namespace Sample

def cleared : Commit :=
  commit [.deleted "b.py", .ofText "c.py" "x\n", .ofText "e.py" (text "aux" "z")]

end Sample

theorem Catalog.apply_replayed_cleared :
    ∃ catalog next, Sample.moved.foldlM Catalog.apply (Catalog.new "o" "r") = .ok catalog ∧
      Sample.cleared.Unambiguous "o" "r" ∧ catalog.apply Sample.cleared = .ok next ∧
      catalog.toList.map (·.versions.map (·.isTombstone)) = [[false, false, false]] ∧
      next.toList.map (·.versions.map (·.isTombstone)) =
        [[false], [false, false, false, true, true]] ∧
      next.Reflects "o" "r" Sample.cleared ∧ next.apply Sample.cleared = .ok next := by
  obtain ⟨catalog, h, hbefore⟩ : ∃ catalog,
      Sample.moved.foldlM Catalog.apply (Catalog.new "o" "r") = .ok catalog ∧
        (catalog.toList.map (·.versions.map (·.isTombstone)) == [[false, false, false]]) = true :=
    ok_of_any (by decide +kernel)
  obtain ⟨next, hn, hafter⟩ : ∃ next, (Sample.moved.foldlM Catalog.apply (Catalog.new "o" "r") >>=
        fun catalog => catalog.apply Sample.cleared) = .ok next ∧
        (next.toList.map (·.versions.map (·.isTombstone)) ==
          [[false], [false, false, false, true, true]]) = true :=
    ok_of_any (by decide +kernel)
  rw [h] at hn
  have hu : Sample.cleared.Unambiguous "o" "r" := by decide +kernel
  exact ⟨catalog, next, h, hu, hn, beq_iff_eq.mp hbefore, beq_iff_eq.mp hafter,
    apply_replayed h hu hn⟩

end SnippetTrail
