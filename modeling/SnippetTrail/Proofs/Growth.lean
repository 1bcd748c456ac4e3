import SnippetTrail.Proofs.WellFormed

/-!
# Walks that fail, and histories that grow

Whether a commit can be applied is told by the metadata of its files, whatever the catalog
(`apply_isOk`), so a walk fails exactly if some file's metadata is malformed. A step keeps the
snippet of a trail and only adds to its history (`Sound.step_grows`), so what a walk over the first
commits returns goes on in what the whole walk returns (`walk_grows`).
-/

namespace SnippetTrail

-- ---------------------------------------------------------------------------
-- Failures
-- ---------------------------------------------------------------------------

/-- No file that can hold regions has malformed metadata. -/
def Commit.Readable (commit : Commit) : Prop :=
  ∀ file ∈ commit.files, Catalog.holdsRegions file = true →
    ∃ metadata, SampleMetadata.ofSource SampleMetadata.ofYaml? file.contents = .ok metadata

namespace Catalog

theorem readFile_isOk {owner repository : String} {record : CommitRecord} {file : File} :
    (∃ result, readFile owner repository record file = .ok result) ↔
      ∃ metadata, SampleMetadata.ofSource SampleMetadata.ofYaml? file.contents = .ok metadata := by
  simp only [readFile, bind_eq_ok, pure_eq_ok, extract_ok]
  constructor
  · rintro ⟨_, _, ⟨metadata, hm, -⟩, -⟩; exact ⟨metadata, hm⟩
  · rintro ⟨metadata, hm⟩; exact ⟨_, _, ⟨metadata, hm, rfl⟩, rfl⟩

theorem apply_isOk {catalog : Catalog} {commit : Commit} :
    (∃ next, catalog.apply commit = .ok next) ↔ commit.Readable := by
  have hread : (∃ next, catalog.apply commit = .ok next) ↔
      ∃ results, readFiles catalog.owner catalog.repository commit = .ok results := by
    simp only [apply, bind_eq_ok, pure_eq_ok]
    constructor
    · rintro ⟨_, results, hr, -⟩; exact ⟨results, hr⟩
    · rintro ⟨results, hr⟩; exact ⟨_, results, hr, rfl⟩
  rw [hread, readFiles, mapM_isOk]
  simp only [readFile_isOk, List.mem_filter, and_imp, Commit.Readable]

theorem foldlM_isOk {catalog : Catalog} {commits : List Commit} :
    (∃ final, commits.foldlM Catalog.apply catalog = .ok final) ↔
      ∀ commit ∈ commits, commit.Readable := by
  induction commits generalizing catalog with
  | nil => simp [pure_eq_ok]
  | cons commit rest ih =>
    simp only [List.foldlM_cons, bind_eq_ok, List.forall_mem_cons]
    constructor
    · rintro ⟨final, next, hn, hr⟩; exact ⟨apply_isOk.mp ⟨next, hn⟩, ih.mp ⟨final, hr⟩⟩
    · rintro ⟨hc, hr⟩
      obtain ⟨next, hn⟩ := (@apply_isOk catalog commit).mpr hc
      obtain ⟨final, hf⟩ := (@ih next).mpr hr
      exact ⟨final, next, hn, hf⟩

end Catalog

theorem calculateSnippets_isOk {owner repository : String} {commits : List Commit} :
    (∃ snippets, calculateSnippets owner repository commits = .ok snippets) ↔
      ∀ commit ∈ commits, commit.Readable := by
  rw [← @Catalog.foldlM_isOk (Catalog.new owner repository)]
  simp only [calculateSnippets_ok]
  constructor
  · rintro ⟨_, final, hf, -⟩; exact ⟨final, hf⟩
  · rintro ⟨final, hf⟩; exact ⟨_, final, hf, rfl⟩

-- ---------------------------------------------------------------------------
-- Trails that grow
-- ---------------------------------------------------------------------------

namespace Trail

variable {owner repository name : String} {commit : Commit} {trail : Trail}
  {sighting : FileReading × Version} {list : List (FileReading × Version)}

def Grows (trail later : Trail) : Prop :=
  ∀ snippet, trail.snippet? = some snippet →
    ∃ grown, later.snippet? = some grown ∧ snippet.Grows grown

theorem Grows.refl (trail : Trail) : trail.Grows trail :=
  fun snippet hk => ⟨snippet, hk, Snippet.Grows.refl snippet⟩

theorem Grows.trans {a b c : Trail} (hab : a.Grows b) (hbc : b.Grows c) : a.Grows c := by
  intro snippet hk
  obtain ⟨grown, hg, hgrows⟩ := hab snippet hk
  obtain ⟨last, hl, hlast⟩ := hbc grown hg
  exact ⟨last, hl, hgrows.trans hlast⟩

theorem see_grows (trail : Trail) (sighting : FileReading × Version) :
    trail.Grows (trail.see sighting) := by
  rcases see_cases trail sighting with ⟨_, _, -, -, -, he⟩ | ⟨-, he⟩
  · rw [he]
    exact Grows.refl trail
  · intro snippet hk
    have hs : trail.sighted sighting = snippet := by rw [sighted, hk, Option.getD_some]
    exact ⟨_, by rw [he, hs], snippet.grows_append _⟩

theorem foldl_see_grows : trail.Grows (list.foldl see trail) := by
  induction list generalizing trail with
  | nil => exact Grows.refl trail
  | cons sighting rest ih => exact (see_grows trail sighting).trans ih

theorem Sound.depart_grows (hs : trail.Sound name) :
    trail.Grows (trail.depart owner repository name commit) := by
  intro snippet hk
  rw [depart_eq hs.nodup hs.known, hk]
  refine ⟨_, rfl, ?_⟩
  split
  · exact Snippet.Grows.refl snippet
  · exact snippet.grows_bury _

theorem Sound.step_grows (hs : trail.Sound name) :
    trail.Grows (trail.step owner repository name commit) :=
  hs.depart_grows.trans foldl_see_grows

theorem walk_grows (owner repository name : String) (earlier later : List Commit) :
    (walk owner repository name earlier).Grows
      (walk owner repository name (earlier ++ later)) := by
  induction later generalizing earlier with
  | nil =>
    rw [List.append_nil]
    exact Grows.refl _
  | cons commit rest ih =>
    have hstep : (walk owner repository name earlier).Grows
        (walk owner repository name (earlier ++ [commit])) := by
      rw [walk_append]
      exact (walk_sound earlier).step_grows
    have hrest := ih (earlier ++ [commit])
    rw [List.append_assoc] at hrest
    exact hstep.trans hrest

end Trail

-- ---------------------------------------------------------------------------
-- Results that grow
-- ---------------------------------------------------------------------------

section
variable {owner repository : String} {commits : List Commit}

/-- A walk fails exactly if some file that can hold regions has malformed metadata, with or without
a region. A walk that succeeds has succeeded for the first commits, and every snippet found by then
is in the result, its history with more versions at the end. -/
theorem calculateSnippets_grows :
    ((∃ fault, calculateSnippets owner repository commits = .error fault) ↔
      ∃ commit ∈ commits, ∃ file ∈ commit.files, Catalog.holdsRegions file = true ∧
        ∃ fault, SampleMetadata.ofSource SampleMetadata.ofYaml? file.contents = .error fault) ∧
    ∀ snippets, calculateSnippets owner repository commits = .ok snippets → ∀ count,
      ∃ before, calculateSnippets owner repository (commits.take count) = .ok before ∧
        ∀ snippet ∈ before, ∃ grown ∈ snippets, snippet.Grows grown := by
  refine ⟨?_, fun snippets h count => ?_⟩
  · simp only [exists_error_iff, calculateSnippets_isOk, Commit.Readable, not_forall, exists_prop]
  · rw [← List.take_append_drop count commits] at h
    obtain ⟨before, hb⟩ := calculateSnippets_earlier h
    refine ⟨before, hb, fun snippet hm => ?_⟩
    have hk := (mem_calculateSnippets hb).mp hm
    obtain ⟨grown, hg, hgrows⟩ := Trail.walk_grows _ _ _ _ (commits.drop count) snippet hk
    exact ⟨grown, (mem_calculateSnippets h).mpr (hgrows.name ▸ hg), hgrows⟩

end

namespace Sample

def malformed : File := .ofText "c.py" "# sample-metadata:\n#   title: [open\n"

end Sample

theorem calculateSnippets_grows_rewritten :
    (∃ fault, calculateSnippets "o" "r" (Sample.rewritten ++ [Sample.commit [Sample.malformed]]) =
        .error fault) ∧
      ∃ snippets, calculateSnippets "o" "r" Sample.rewritten = .ok snippets ∧
        ∃ before, calculateSnippets "o" "r" (Sample.rewritten.take 2) = .ok before ∧
          ∀ snippet ∈ before, ∃ grown ∈ snippets, snippet.Grows grown := by
  constructor
  · have hbad : ∃ fault, SampleMetadata.ofSource SampleMetadata.ofYaml? Sample.malformed.contents =
        .error fault := error_of_isNone (by decide +kernel)
    exact calculateSnippets_grows.1.mpr ⟨Sample.commit [Sample.malformed], by simp,
      Sample.malformed, by simp [Sample.commit], by decide +kernel, hbad⟩
  · obtain ⟨snippets, h, -⟩ : ∃ snippets, calculateSnippets "o" "r" Sample.rewritten = .ok snippets ∧
        (!snippets.isEmpty) = true :=
      ok_of_any (by decide +kernel)
    exact ⟨snippets, h, calculateSnippets_grows.2 snippets h 2⟩

end SnippetTrail
