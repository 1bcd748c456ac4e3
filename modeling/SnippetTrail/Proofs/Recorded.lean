import SnippetTrail.Proofs.Growth

/-!
# What a commit holds is recorded

A history only grows (`walk_extends`). A commit that holds a snippet in some file adds no tombstone
to its history, records every such file, and leaves what the last of them holds as the primary
(`step_yields`). This is so after any history, whichever homes the snippet leaves in that commit.
-/

namespace SnippetTrail

namespace Trail

variable {owner repository name : String} {commit : Commit} {trail : Trail}
  {sighting : FileReading × Version} {list : List (FileReading × Version)}

def versions (trail : Trail) : List Version := (trail.snippet?.map (·.versions)).getD []

theorem versions_eq {snippet : Snippet} (hk : trail.snippet? = some snippet) :
    trail.versions = snippet.versions := by
  rw [versions, hk]
  rfl

theorem sighted_versions (trail : Trail) (sighting : FileReading × Version) :
    (trail.sighted sighting).versions = trail.versions := by
  cases hs : trail.snippet? <;> simp [sighted, versions, hs, Snippet.new]

-- ---------------------------------------------------------------------------
-- Histories grow
-- ---------------------------------------------------------------------------

theorem see_versions (trail : Trail) (sighting : FileReading × Version) :
    (trail.see sighting).versions = trail.versions ∨
      (trail.see sighting).versions = trail.versions ++ [trail.offered sighting] := by
  rcases see_cases trail sighting with ⟨_, _, -, -, -, he⟩ | ⟨-, he⟩
  · exact .inl (by rw [he])
  · refine .inr ?_
    rw [he, ← sighted_versions trail sighting]
    rfl

theorem foldl_see_added (list : List (FileReading × Version)) (trail : Trail) :
    ∃ added, (list.foldl see trail).versions = trail.versions ++ added ∧
      ∀ version ∈ added, ∃ sighting ∈ list, ∃ current : Trail,
        version = current.offered sighting := by
  induction list generalizing trail with
  | nil => exact ⟨[], by simp⟩
  | cons sighting rest ih =>
    obtain ⟨added, ha, hoffered⟩ := ih (trail.see sighting)
    have hrest : ∀ version ∈ added, ∃ other ∈ sighting :: rest, ∃ current : Trail,
        version = current.offered other := by
      intro version hv
      obtain ⟨other, hm, current, he⟩ := hoffered version hv
      exact ⟨other, List.mem_cons_of_mem _ hm, current, he⟩
    rw [List.foldl_cons, ha]
    rcases see_versions trail sighting with he | he
    · exact ⟨added, by rw [he], hrest⟩
    · refine ⟨trail.offered sighting :: added, by rw [he]; simp, ?_⟩
      rintro version (_ | ⟨_, hm⟩)
      · exact ⟨sighting, by simp, trail, rfl⟩
      · exact hrest version hm

theorem Grows.versions {later : Trail} (h : trail.Grows later) :
    trail.versions <+: later.versions := by
  cases hk : trail.snippet? with
  | none => simp [Trail.versions, hk]
  | some snippet =>
    obtain ⟨grown, hg, hgrows⟩ := h snippet hk
    rw [versions_eq hk, versions_eq hg]
    exact hgrows.versions

theorem walk_extends (owner repository name : String) (earlier later : List Commit) :
    (walk owner repository name earlier).versions <+:
      (walk owner repository name (earlier ++ later)).versions :=
  (walk_grows owner repository name earlier later).versions

-- ---------------------------------------------------------------------------
-- The files that hold the snippet
-- ---------------------------------------------------------------------------

theorem sightings_eq :
    sightings (Catalog.readings owner repository commit) name =
      (commit.files.filter (·.Yields owner repository name)).flatMap fun file =>
        ((Catalog.found owner repository file).filter (·.name == name)).map
          (Catalog.reading owner repository commit file, ·) := by
  unfold sightings Catalog.readings
  induction commit.files with
  | nil => rfl
  | cons file rest ih =>
    have hnone (hy : ¬file.Yields owner repository name) :
        (Catalog.found owner repository file).filter (·.name == name) = [] :=
      List.filter_eq_nil_iff.mpr fun version hv hn => hy ⟨version, hv, by simpa using hn⟩
    by_cases hf : Catalog.holdsRegions file = true
    · rw [List.filter_cons_of_pos hf, List.map_cons, List.flatMap_cons, List.filter_append, ih,
        List.filter_map]
      by_cases hy : file.Yields owner repository name
      · rw [List.filter_cons_of_pos (by simpa using hy), List.flatMap_cons]
        rfl
      · rw [List.filter_cons_of_neg (by simpa using hy)]
        exact congrArg (fun own : List Version => own.map _ ++ _) (hnone hy)
    · rw [List.filter_cons_of_neg hf, ih,
        List.filter_cons_of_neg (by simpa using fun hy : File.Yields .. => hf hy.holdsRegions)]

theorem exists_filter_eq_append (p : α → Bool) {items : List α} {a : α} (hm : a ∈ items)
    (ha : p a = true) :
    ∃ init last, items.filter p = init ++ [last] ∧ last ∈ items ∧ p last = true := by
  have hne : items.filter p ≠ [] := List.ne_nil_of_mem (List.mem_filter.mpr ⟨hm, ha⟩)
  obtain ⟨hl, hp⟩ := List.mem_filter.mp (List.getLast_mem hne)
  exact ⟨_, _, (List.dropLast_concat_getLast hne).symm, hl, hp⟩

theorem exists_last_sighting (hy : commit.Yields owner repository name) :
    ∃ file found, [(Catalog.reading owner repository commit file, found)] <:+
        sightings (Catalog.readings owner repository commit) name ∧
      (commit.files.filter (·.Yields owner repository name)).getLast? = some file ∧
      found ∈ Catalog.found owner repository file ∧ found.name = name := by
  obtain ⟨other, hm, ho⟩ := hy
  obtain ⟨files, file, hfiles, -, hf⟩ := exists_filter_eq_append
    (fun file => decide (File.Yields owner repository file name)) hm (decide_eq_true ho)
  obtain ⟨version, hv, hn⟩ := of_decide_eq_true hf
  obtain ⟨own, found, hown, hfound, hname⟩ :=
    exists_filter_eq_append (·.name == name) hv (beq_iff_eq.mpr hn)
  refine ⟨file, found, ?_, by rw [hfiles, List.getLast?_concat], hfound, beq_iff_eq.mp hname⟩
  rw [sightings_eq, hfiles, List.flatMap_append, List.flatMap_singleton, hown, List.map_append,
    ← List.append_assoc]
  exact List.suffix_append _ _

end Trail

-- ---------------------------------------------------------------------------
-- Commits that hold the snippet
-- ---------------------------------------------------------------------------

/-- The snippet after a commit that holds it, with the versions it had before. -/
structure Snippet.Recorded (owner repository : String) (commit : Commit) (before : List Version)
    (snippet : Snippet) : Prop where
  /-- The commit adds no tombstone. -/
  added : ∃ added, snippet.versions = before ++ added ∧
    ∀ version ∈ added, version.isTombstone = false
  live : snippet.isLive = true
  primary : ∃ file found primary,
    (commit.files.filter (·.Yields owner repository snippet.name)).getLast? = some file ∧
      found ∈ Catalog.found owner repository file ∧ found.name = snippet.name ∧
      snippet.primary? = some primary ∧ primary.Records file.path found
  /-- Every file is in the history. -/
  files : ∀ file ∈ commit.files, ∀ found ∈ Catalog.found owner repository file,
    found.name = snippet.name → ∃ version ∈ snippet.versions, version.Records file.path found

namespace Trail

variable {owner repository name : String} {commit : Commit} {trail : Trail}
  {list : List (FileReading × Version)}

theorem Sound.depart_yields (hs : trail.Sound name) (hy : commit.Yields owner repository name) :
    (trail.depart owner repository name commit).snippet? = trail.snippet? := by
  simp [depart_eq hs.nodup hs.known, Catalog.mem_produced.mpr hy]

theorem foldl_see_recorded {sighting : FileReading × Version} (hm : sighting ∈ list) :
    ∃ version ∈ (list.foldl see trail).versions,
      version.Records sighting.1.file.path sighting.2 := by
  obtain ⟨before, after, rfl⟩ := List.append_of_mem hm
  obtain ⟨snippet, primary, hs, hp, hr⟩ := @see_primary (before.foldl see trail) sighting
  have hlater : ((before.foldl see trail).see sighting).versions <+:
      ((before ++ sighting :: after).foldl see trail).versions := by
    rw [List.foldl_append, List.foldl_cons]
    exact foldl_see_grows.versions
  have hprimary : primary ∈ ((before.foldl see trail).see sighting).versions :=
    versions_eq hs ▸ List.mem_of_getLast? hp
  exact ⟨primary, hlater.subset hprimary, hr⟩

theorem foldl_see_last {sighting : FileReading × Version} (hl : [sighting] <:+ list) :
    ∃ snippet primary, (list.foldl see trail).snippet? = some snippet ∧
      snippet.primary? = some primary ∧ primary.Records sighting.1.file.path sighting.2 := by
  obtain ⟨before, rfl⟩ := hl
  rw [List.foldl_append]
  exact see_primary

theorem Sound.step_added (hs : trail.Sound name) (hy : commit.Yields owner repository name) :
    ∃ added, (trail.step owner repository name commit).versions = trail.versions ++ added ∧
      ∀ version ∈ added, ∃ sighting ∈ sightings (Catalog.readings owner repository commit) name,
        ∃ current : Trail, version = current.offered sighting := by
  obtain ⟨added, ha, hoffered⟩ := foldl_see_added
    (sightings (Catalog.readings owner repository commit) name)
    (trail.depart owner repository name commit)
  refine ⟨added, ?_, hoffered⟩
  rw [Trail.step, ha, versions, hs.depart_yields hy, versions]

theorem Sound.step_yields (hs : trail.Sound name) (hy : commit.Yields owner repository name) :
    ∃ snippet, (trail.step owner repository name commit).snippet? = some snippet ∧
      snippet.Recorded owner repository commit trail.versions := by
  obtain ⟨file, found, hlast, hfile, hfound, hn⟩ := exists_last_sighting hy
  obtain ⟨snippet, primary, hk, hp, hr⟩ :=
    @foldl_see_last (trail.depart owner repository name commit) _ _ hlast
  have hv : (trail.step owner repository name commit).versions = snippet.versions := versions_eq hk
  have hname : snippet.name = name := (hs.step.snippet snippet hk).1
  subst hname
  refine ⟨snippet, hk, ?_, ?_, ⟨file, found, primary, hfile, hfound, hn, hp, hr⟩, ?_⟩
  · obtain ⟨added, ha, hoffered⟩ := hs.step_added hy
    refine ⟨added, hv.symm.trans ha, fun version hm => ?_⟩
    obtain ⟨sighting, hsighting, current, rfl⟩ := hoffered version hm
    exact offered_records.not_tombstone (sighting_real hsighting).1
  · simp [Snippet.isLive, hp, hr.not_tombstone (Catalog.found_real hfound).1]
  · intro other hm version hversion hname
    have hs : (Catalog.reading owner repository commit other, version) ∈
        sightings (Catalog.readings owner repository commit) snippet.name :=
      mem_sightings.mpr ⟨other, hm, rfl, hversion, hname⟩
    rw [← hv]
    exact foldl_see_recorded hs

theorem step_eq_depart (hy : ¬commit.Yields owner repository name) :
    trail.step owner repository name commit = trail.depart owner repository name commit := by
  have hnone : sightings (Catalog.readings owner repository commit) name = [] := by
    refine List.eq_nil_iff_forall_not_mem.mpr fun sighting hm => hy ?_
    obtain ⟨file, hfile, -, hf, hn⟩ := mem_sightings.mp hm
    exact ⟨file, hfile, sighting.2, hf, hn⟩
  rw [Trail.step, hnone, List.foldl_nil]

/-- A commit that does not hold the snippet adds a tombstone for each home that it takes it from. -/
theorem Sound.step_absent (hs : trail.Sound name) (hy : ¬commit.Yields owner repository name) :
    (trail.step owner repository name commit).snippet? =
      trail.snippet?.map (·.bury (departures owner repository name commit trail.paths)) := by
  rw [step_eq_depart hy, depart_eq hs.nodup hs.known]
  simp [mt Catalog.mem_produced.mp hy]

end Trail

-- ---------------------------------------------------------------------------
-- The result of a walk
-- ---------------------------------------------------------------------------

def versionsOf (name : String) (snippets : List Snippet) : List Version :=
  ((snippets.find? (·.name == name)).map (·.versions)).getD []

section
variable {owner repository name : String} {commits : List Commit} {snippets : List Snippet}

theorem find?_calculateSnippets (h : calculateSnippets owner repository commits = .ok snippets) :
    snippets.find? (·.name == name) = (Trail.walk owner repository name commits).snippet? := by
  cases hf : snippets.find? (·.name == name) with
  | some snippet =>
    obtain rfl : snippet.name = name := by simpa using List.find?_some hf
    exact ((mem_calculateSnippets h).mp (List.mem_of_find?_eq_some hf)).symm
  | none =>
    cases hw : (Trail.walk owner repository name commits).snippet? with
    | none => rfl
    | some snippet =>
      obtain rfl : snippet.name = name := ((Trail.walk_sound commits).snippet snippet hw).1
      have hm : snippet ∈ snippets := (mem_calculateSnippets h).mpr hw
      simpa using List.find?_eq_none.mp hf snippet hm

theorem versionsOf_calculateSnippets
    (h : calculateSnippets owner repository commits = .ok snippets) :
    versionsOf name snippets = (Trail.walk owner repository name commits).versions := by
  rw [versionsOf, find?_calculateSnippets h]
  rfl

/-- A commit that holds a snippet in some file records it: no tombstone is added, the snippet is
live right after, its primary is what the last such file holds, and its history has every such file
from then on. -/
theorem calculateSnippets_recorded {earlier later : List Commit} {commit : Commit}
    (h : calculateSnippets owner repository (earlier ++ commit :: later) = .ok snippets)
    (hy : commit.Yields owner repository name) :
    ∃ before after, calculateSnippets owner repository earlier = .ok before ∧
      calculateSnippets owner repository (earlier ++ [commit]) = .ok after ∧
      ∃ snippet ∈ after, snippet.name = name ∧
        snippet.Recorded owner repository commit (versionsOf name before) ∧
        ∃ final ∈ snippets, final.name = name ∧ snippet.versions <+: final.versions := by
  have hsplit : earlier ++ commit :: later = earlier ++ [commit] ++ later := by simp
  obtain ⟨before, hb⟩ := calculateSnippets_earlier h
  obtain ⟨after, ha⟩ := calculateSnippets_earlier (hsplit ▸ h)
  obtain ⟨snippet, hk, hr⟩ := (@Trail.walk_sound owner repository name earlier).step_yields hy
  rw [← versionsOf_calculateSnippets hb] at hr
  have hwalk : (Trail.walk owner repository name (earlier ++ [commit])).snippet? = some snippet := by
    rw [walk_append]
    exact hk
  obtain ⟨hname, hne, -⟩ := (Trail.walk_sound _).snippet snippet hwalk
  have hgrown := Trail.walk_extends owner repository name (earlier ++ [commit]) later
  rw [← hsplit, Trail.versions_eq hwalk] at hgrown
  cases hf : (Trail.walk owner repository name (earlier ++ commit :: later)).snippet? with
  | none =>
    rw [Trail.versions, hf] at hgrown
    exact absurd (List.prefix_nil.mp hgrown) hne
  | some final =>
    rw [Trail.versions_eq hf] at hgrown
    have hfinal : final.name = name := ((Trail.walk_sound _).snippet final hf).1
    refine ⟨before, after, hb, ha, snippet, ?_, hname, hr, final, ?_, hfinal, hgrown⟩
    · exact (mem_calculateSnippets ha).mpr (hname ▸ hwalk)
    · exact (mem_calculateSnippets h).mpr (hfinal ▸ hf)

end

namespace Sample

def demo : String := snippetName "o" "r" "demo" "PYTHON"

def write : Commit := commit [.ofText "a.py" (text "demo" "x")]

def move : Commit :=
  commit [.deleted "a.py", .ofText "b.py" (text "demo" "x"), .ofText "c.py" (text "demo" "y")]

def moved : List Commit := [write, move, commit [.deleted "d.py"]]

end Sample

theorem calculateSnippets_recorded_move :
    ∃ snippets, calculateSnippets "o" "r" ([Sample.write] ++ Sample.move ::
        [Sample.commit [.deleted "d.py"]]) = .ok snippets ∧
      Sample.move.Yields "o" "r" Sample.demo ∧
      ∃ before after, calculateSnippets "o" "r" [Sample.write] = .ok before ∧
        calculateSnippets "o" "r" ([Sample.write] ++ [Sample.move]) = .ok after ∧
        ∃ snippet ∈ after, snippet.name = Sample.demo ∧
          snippet.Recorded "o" "r" Sample.move (versionsOf Sample.demo before) ∧
          ∃ final ∈ snippets, final.name = Sample.demo ∧ snippet.versions <+: final.versions := by
  obtain ⟨snippets, h, -⟩ : ∃ snippets, calculateSnippets "o" "r" Sample.moved = .ok snippets ∧
      (!snippets.isEmpty) = true :=
    ok_of_any (by decide +kernel)
  have hy : Sample.move.Yields "o" "r" Sample.demo := by decide +kernel
  exact ⟨snippets, h, hy, calculateSnippets_recorded h hy⟩

end SnippetTrail
