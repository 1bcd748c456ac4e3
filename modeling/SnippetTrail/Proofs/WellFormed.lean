import Mathlib.Data.List.Chain
import SnippetTrail.Proofs.Step

/-!
# Histories are well formed

`Trail.Sound` is what every walk keeps: the history of the snippet is well formed, and no path at
which it is dead is one of its homes. The second part is why a tombstone is never followed by its
like, although nothing compares a tombstone with the primary before it is appended.
-/

namespace SnippetTrail

-- ---------------------------------------------------------------------------
-- Versions and tombstones
-- ---------------------------------------------------------------------------

def Snippet.DeadAt (snippet : Snippet) (path : String) : Prop :=
  ∃ primary, snippet.primary? = some primary ∧ primary.isTombstone = true ∧
    primary.file.map (·.path) = some path

theorem isTombstone_iff {version : Version} :
    version.isTombstone = true ↔ version.content = "" ∧ version.lines = [] := by
  simp [Version.isTombstone]

theorem equivalent_tombstone {version : Version} {snippet : Snippet} {grave : VersionFile} :
    version.equivalent (Catalog.tombstone snippet grave) = true ↔
      version.isTombstone = true ∧ version.file.map (·.path) = some grave.path := by
  rw [isTombstone_iff]
  unfold Version.equivalent Catalog.tombstone
  cases version.file with
  | none => simp
  | some f =>
    simp only [Bool.and_eq_true, beq_iff_eq, Option.map_some, Option.some.injEq]
    exact ⟨fun h => ⟨⟨h.1, h.2.2⟩, h.2.1⟩, fun h => ⟨h.1.1, h.2, h.1.2⟩⟩

theorem deadAt_append_tombstone {snippet : Snippet} {grave : VersionFile} {path : String} :
    (snippet.append (Catalog.tombstone snippet grave)).DeadAt path ↔ path = grave.path := by
  constructor
  · rintro ⟨primary, hp, -, hf⟩
    rw [Snippet.primary?_append] at hp
    cases hp
    exact (Option.some.inj hf).symm
  · rintro rfl
    exact ⟨_, Snippet.primary?_append _ _, rfl, rfl⟩

namespace Trail

variable {trail : Trail} {sighting : FileReading × Version}

theorem sighting_real {owner repository name : String} {commit : Commit}
    (h : sighting ∈ sightings (Catalog.readings owner repository commit) name) :
    sighting.2.lines ≠ [] ∧ sighting.2.content ≠ "" := by
  obtain ⟨file, -, -, hf, -⟩ := mem_sightings.mp h
  exact Catalog.found_real hf

end Trail

theorem Version.Records.not_tombstone {version found : Version} {path : String}
    (h : version.Records path found) (hl : found.lines ≠ []) : version.isTombstone = false := by
  rw [Bool.eq_false_iff]
  intro ht
  exact hl (h.2.1 ▸ (isTombstone_iff.mp ht).2)

-- ---------------------------------------------------------------------------
-- Well-formed histories
-- ---------------------------------------------------------------------------

structure Snippet.WellFormed (snippet : Snippet) : Prop where
  /-- Each version has a file, and its place in its name. -/
  placed : ∀ (i : Nat) (version : Version), snippet.versions[i]? = some version →
    version.name = snippet.name ++ "/" ++ toString i ∧ version.file.isSome = true
  born : ∀ version, snippet.versions.head? = some version → version.isTombstone = false
  /-- Each version differs from the one before it. -/
  changing : snippet.versions.IsChain fun earlier later => earlier.equivalent later = false

namespace Snippet.WellFormed

theorem new (name language : String) : (Snippet.new name language).WellFormed :=
  ⟨by simp [Snippet.new], by simp [Snippet.new], List.isChain_nil⟩

theorem append {snippet : Snippet} {version : Version} (hw : snippet.WellFormed)
    (hn : version.name = snippet.nextName) (hf : version.file.isSome = true)
    (hb : snippet.versions = [] → version.isTombstone = false)
    (hc : ∀ primary, snippet.primary? = some primary → primary.equivalent version = false) :
    (snippet.append version).WellFormed where
  placed i v hv := by
    simp only [Snippet.append, List.getElem?_append] at hv
    split at hv
    · exact hw.placed i v hv
    · rename_i hi
      obtain ⟨hj, rfl⟩ := List.getElem?_eq_some_iff.mp hv
      simp only [List.length_singleton, Nat.lt_one_iff] at hj
      have he : i = snippet.versions.length := by omega
      subst he
      simp only [List.getElem_singleton]
      exact ⟨hn, hf⟩
  born v hv := by
    cases hs : snippet.versions with
    | nil =>
      simp only [Snippet.append, hs, List.nil_append, List.head?_cons, Option.some.injEq] at hv
      exact hv ▸ hb hs
    | cons first rest => exact hw.born v (by simpa [Snippet.append, hs] using hv)
  changing := by
    refine List.isChain_append.mpr ⟨hw.changing, List.isChain_singleton _, ?_⟩
    intro primary hp later hl
    simp only [List.head?_cons, Option.mem_some_iff] at hl
    exact hl ▸ hc primary hp

/-- A tombstone can follow wherever the snippet is not dead already. -/
theorem append_tombstone {snippet : Snippet} {grave : VersionFile} (hw : snippet.WellFormed)
    (hne : snippet.versions ≠ []) (hd : ¬snippet.DeadAt grave.path) :
    (snippet.append (Catalog.tombstone snippet grave)).WellFormed := by
  refine hw.append rfl rfl (fun he => absurd he hne) fun primary hp => ?_
  rw [Bool.eq_false_iff]
  intro he
  obtain ⟨ht, hf⟩ := equivalent_tombstone.mp he
  exact hd ⟨primary, hp, ht, hf⟩

theorem bury {snippet : Snippet} {graves : List VersionFile} (hw : snippet.WellFormed)
    (hne : snippet.versions ≠ []) (hn : (graves.map (·.path)).Nodup)
    (hd : ∀ grave ∈ graves, ¬snippet.DeadAt grave.path) :
    (snippet.bury graves).WellFormed := by
  induction graves generalizing snippet with
  | nil => exact hw
  | cons grave rest ih =>
    obtain ⟨hg, hr⟩ := List.nodup_cons.mp hn
    refine ih (hw.append_tombstone hne (hd grave (by simp))) (by simp [Snippet.append]) hr ?_
    intro other ho hdead
    exact hg (List.mem_map.mpr ⟨other, ho, deadAt_append_tombstone.mp hdead⟩)

end Snippet.WellFormed

theorem Snippet.deadAt_bury {snippet : Snippet} {graves : List VersionFile} {path : String}
    (h : (snippet.bury graves).DeadAt path) :
    snippet.DeadAt path ∨ ∃ grave ∈ graves, grave.path = path := by
  induction graves generalizing snippet with
  | nil => exact .inl h
  | cons grave rest ih =>
    rcases ih h with hd | ⟨other, hm, hp⟩
    · exact .inr ⟨grave, by simp, (deadAt_append_tombstone.mp hd).symm⟩
    · exact .inr ⟨other, by simp [hm], hp⟩

-- ---------------------------------------------------------------------------
-- What every walk keeps
-- ---------------------------------------------------------------------------

namespace Trail

variable {owner repository name : String} {commit : Commit} {trail : Trail}

structure Sound (name : String) (trail : Trail) : Prop where
  ordered : trail.paths.Pairwise (· < ·)
  known : trail.snippet? = none → trail.paths = []
  snippet : ∀ snippet, trail.snippet? = some snippet →
    snippet.name = name ∧ snippet.versions ≠ [] ∧ snippet.WellFormed
  /-- The snippet is not dead at any of its homes. -/
  alive : ∀ snippet path, trail.snippet? = some snippet → path ∈ trail.paths → ¬snippet.DeadAt path

theorem Sound.nodup (hs : trail.Sound name) : trail.paths.Nodup :=
  hs.ordered.imp fun {a b} (h : a < b) (he : a = b) => String.lt_irrefl b (he ▸ h)

theorem Sound.empty : Trail.empty.Sound name :=
  ⟨List.Pairwise.nil, fun _ => rfl, by simp [Trail.empty], by simp [Trail.empty]⟩

theorem Sound.depart (hs : trail.Sound name) :
    (trail.depart owner repository name commit).Sound name := by
  rw [depart_eq hs.nodup hs.known]
  have hmem (grave : VersionFile)
      (hg : grave ∈ departures owner repository name commit trail.paths) :
      grave.path ∈ trail.paths := (mem_departures.mp hg).1
  refine ⟨hs.ordered.filter _, fun hn => ?_, fun snippet he => ?_, fun snippet path he hp => ?_⟩
  · rw [hs.known (Option.map_eq_none_iff.mp hn), List.filter_nil]
  · obtain ⟨before, hb, rfl⟩ := Option.map_eq_some_iff.mp he
    obtain ⟨hname, hne, hw⟩ := hs.snippet before hb
    split
    · exact ⟨hname, hne, hw⟩
    · refine ⟨(before.grows_bury _).name.trans hname, Snippet.bury_ne_nil _ hne, ?_⟩
      exact hw.bury hne (departures_nodup hs.nodup) fun grave hg => hs.alive before _ hb (hmem grave hg)
  · obtain ⟨before, hb, rfl⟩ := Option.map_eq_some_iff.mp he
    obtain ⟨hp, hkept⟩ := List.mem_filter.mp hp
    split
    · exact hs.alive before path hb hp
    · intro hdead
      rcases Snippet.deadAt_bury hdead with hd | ⟨grave, hg, rfl⟩
      · exact hs.alive before path hb hp hd
      · simp [(mem_departures.mp hg).2.2] at hkept

theorem insertPath_sorted {path : String} {paths : List String} (h : paths.Pairwise (· < ·)) :
    (insertPath path paths).Pairwise (· < ·) := by
  induction paths with
  | nil => simp [insertPath]
  | cons p rest ih =>
    obtain ⟨hp, hr⟩ := List.pairwise_cons.mp h
    unfold insertPath
    split
    · exact h
    · rename_i hn
      split
      · rename_i hl
        refine List.pairwise_cons.mpr ⟨fun q hq => ?_, h⟩
        rcases List.mem_cons.mp hq with rfl | hq
        · exact hl
        · exact String.lt_trans hl (hp q hq)
      · rename_i hl
        refine List.pairwise_cons.mpr ⟨fun q hq => ?_, ih hr⟩
        rcases mem_insertPath.mp hq with rfl | hq
        · exact lt_of_not_lt hn hl
        · exact hp q hq

theorem Sound.see {sighting : FileReading × Version} (hs : trail.Sound name)
    (hn : sighting.2.name = name) (hl : sighting.2.lines ≠ []) :
    (trail.see sighting).Sound name := by
  rcases see_cases trail sighting with ⟨_, _, -, -, -, he⟩ | ⟨hc, he⟩
  · rw [he]
    exact hs
  rw [he]
  have hlive : (trail.offered sighting).isTombstone = false := offered_records.not_tombstone hl
  have hsighted : (trail.sighted sighting).name = name ∧ (trail.sighted sighting).WellFormed := by
    unfold sighted
    cases hk : trail.snippet? with
    | none => exact ⟨hn, Snippet.WellFormed.new _ _⟩
    | some snippet => exact ⟨(hs.snippet snippet hk).1, (hs.snippet snippet hk).2.2⟩
  refine ⟨insertPath_sorted hs.ordered, by simp, fun snippet hk => ?_, fun snippet path hk _ hd => ?_⟩
  · cases hk
    exact ⟨hsighted.1, by simp [Snippet.append], hsighted.2.append rfl rfl (fun _ => hlive) hc⟩
  · cases hk
    obtain ⟨primary, hp, ht, -⟩ := hd
    rw [Snippet.primary?_append] at hp
    cases hp
    simp [hlive] at ht

theorem Sound.step (hs : trail.Sound name) :
    (trail.step owner repository name commit).Sound name := by
  refine List.foldlRecOn _ _ hs.depart fun current hc sighting hm => ?_
  obtain ⟨file, -, -, -, hn⟩ := mem_sightings.mp hm
  exact hc.see hn (sighting_real hm).1

theorem walk_sound (commits : List Commit) : (walk owner repository name commits).Sound name :=
  List.foldlRecOn _ _ Sound.empty fun _ hc _ _ => hc.step

end Trail

-- ---------------------------------------------------------------------------
-- The result of a walk
-- ---------------------------------------------------------------------------

section
variable {owner repository : String} {commits : List Commit} {snippets : List Snippet}

theorem mem_calculateSnippets (h : calculateSnippets owner repository commits = .ok snippets)
    {snippet : Snippet} :
    snippet ∈ snippets ↔
      (Trail.walk owner repository snippet.name commits).snippet? = some snippet := by
  obtain ⟨catalog, hc, rfl⟩ := calculateSnippets_ok.mp h
  rw [Catalog.mem_toList]
  constructor
  · rintro ⟨⟨name, hs⟩, -⟩
    rw [Catalog.trail_run hc] at hs
    obtain ⟨rfl, -, -⟩ := (Trail.walk_sound commits).snippet snippet hs
    exact hs
  · intro hs
    refine ⟨⟨snippet.name, ?_⟩, ((Trail.walk_sound commits).snippet snippet hs).2.1⟩
    rw [Catalog.trail_run hc]
    exact hs

/-- Every history that a walk returns is well formed: the names increase, no history is empty or
starts with a tombstone, the versions are numbered and carry files, and none is equivalent to the
one before it. -/
theorem calculateSnippets_wellFormed
    (h : calculateSnippets owner repository commits = .ok snippets) :
    (snippets.map (·.name)).Pairwise (· < ·) ∧
      ∀ snippet ∈ snippets, snippet.versions ≠ [] ∧ snippet.WellFormed := by
  refine ⟨?_, fun snippet hm => ?_⟩
  · obtain ⟨catalog, hc, rfl⟩ := calculateSnippets_ok.mp h
    -- the table's keys increase, and each snippet stands under its name
    have hkey : ∀ entry ∈ catalog.snippets.entries, entry.2.name = entry.1 := by
      rintro ⟨name, snippet⟩ hm
      have hs : (catalog.trail name).snippet? = some snippet := Table.find?_eq_some.mpr hm
      rw [Catalog.trail_run hc] at hs
      exact ((Trail.walk_sound commits).snippet snippet hs).1
    have hnames : catalog.snippets.values.map (·.name) = catalog.snippets.keys := by
      simp only [Table.values, Table.keys, List.map_map]
      exact List.map_congr_left hkey
    have hsub : (catalog.toList.map (·.name)).Sublist (catalog.snippets.values.map (·.name)) :=
      List.filter_sublist.map _
    exact (hnames ▸ catalog.snippets.keys_sorted).sublist hsub
  · exact ((Trail.walk_sound commits).snippet snippet ((mem_calculateSnippets h).mp hm)).2

end

namespace Sample

def text (tag body : String) : String :=
  "# [START " ++ tag ++ "]\n" ++ body ++ "\n# [END " ++ tag ++ "]\n"

def commit (files : List File) : Commit := ⟨.zero, default, default, "", files⟩

def rewritten : List Commit :=
  [commit [.ofText "a.py" (text "demo" "x")], commit [.ofText "a.py" (text "demo" "y")],
    commit [.deleted "a.py"],
    commit [.ofText "a.py" (text "demo" "y"), .ofText "b.py" (text "aux" "z")]]

end Sample

theorem calculateSnippets_wellFormed_rewritten :
    ∃ snippets, calculateSnippets "o" "r" Sample.rewritten = .ok snippets ∧
      snippets.map (fun snippet => snippet.versions.map (·.isTombstone)) =
        [[false], [false, false, true, false]] ∧
      (snippets.map (·.name)).Pairwise (· < ·) ∧
      ∀ snippet ∈ snippets, snippet.versions ≠ [] ∧ snippet.WellFormed := by
  obtain ⟨snippets, h, hp⟩ : ∃ snippets, calculateSnippets "o" "r" Sample.rewritten = .ok snippets ∧
      (snippets.map (fun snippet => snippet.versions.map (·.isTombstone)) ==
        [[false], [false, false, true, false]]) = true :=
    ok_of_any (by decide +kernel)
  exact ⟨snippets, h, by simpa using hp, calculateSnippets_wellFormed h⟩

end SnippetTrail
