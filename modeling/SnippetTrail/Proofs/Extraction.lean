import Mathlib.Data.List.Sort
import SnippetTrail.Proofs.Outcome
import SnippetTrail.Snippet.Catalog

/-!
# What extraction finds

`found` is what a commit's entry for a file contributes. A version found has line ranges and text
(`found_real`), so it is never taken for a tombstone, and a file has at most one version of a name
(`found_unique`). `readFiles_ok` replaces reading with failures by `readings`, which has none.
-/

namespace SnippetTrail

-- ---------------------------------------------------------------------------
-- Ordered lists
-- ---------------------------------------------------------------------------

theorem eq_of_ordered {before : α → α → Prop} {items others : List α} (hi : items.Pairwise before)
    (ho : others.Pairwise before) (hirrefl : ∀ a, ¬before a a)
    (htrans : ∀ a b c, before a b → before b c → before a c) (hmem : ∀ a, a ∈ items ↔ a ∈ others) :
    items = others := by
  have : Std.Irrefl before := ⟨hirrefl⟩
  have : Std.Antisymm before := ⟨fun a b hab hba => absurd (htrans a b a hab hba) (hirrefl a)⟩
  exact hi.eq_of_mem_iff ho hmem

-- ---------------------------------------------------------------------------
-- Regions
-- ---------------------------------------------------------------------------

namespace Region

theorem closedFrom_opens {tag : List Char} {number : Nat} {opened : Option Opened}
    {lines : List (List Char)}
    (ho : ∀ o, opened = some o → ∃ line ∈ o.earlier, opens tag line = true) :
    ∀ region ∈ closedFrom tag number opened lines,
      ∃ line ∈ region.lines, opens tag line = true := by
  induction lines generalizing number opened with
  | nil => simp [closedFrom]
  | cons line rest ih =>
    unfold closedFrom
    split
    · rename_i hl
      exact ih fun o he => ⟨line, by cases he; simp, hl⟩
    · split
      · exact ih (by simp)
      · rename_i first earlier
        obtain ⟨start, hm, hs⟩ := ho _ rfl
        split
        · intro region hr
          rcases List.mem_cons.mp hr with rfl | hr
          · exact ⟨start, by simp [hm], hs⟩
          · exact ih (by simp) region hr
        · exact ih fun o he => ⟨start, by cases he; simp [hm], hs⟩

theorem bracket_mem {tag line : List Char} (h : opens tag line = true) : '[' ∈ line := by
  have hi : startMark tag <:+: line := Text.occursIn_iff.mp (Bool.and_eq_true_iff.mp h).1
  have hs : '[' ∈ "[START ".toList := by decide
  exact hi.subset (List.mem_append_left _ (List.mem_append_left _ hs))

theorem text_ne_empty {regions : List Region} {region : Region} {line : List Char}
    (hr : region ∈ regions) (hl : line ∈ region.lines) (hb : '[' ∈ line) : text regions ≠ "" := by
  have hm : '[' ∈ regions.flatMap fun region => Text.unlines region.lines :=
    List.mem_flatMap.mpr ⟨region, hr, List.mem_flatMap.mpr ⟨line, hl, by simp [hb]⟩⟩
  intro he
  have ht : '[' ∈ (text regions).toList := by
    simpa [text] using Text.mem_trim hm (by decide)
  simp [he] at ht

end Region

-- ---------------------------------------------------------------------------
-- Versions of one file
-- ---------------------------------------------------------------------------

theorem extractTag?_some {metadata : Option SampleMetadata} {lines : List (List Char)}
    {tag name : String} {version : Version}
    (h : extractTag? metadata lines tag name = some version) :
    version.name = name ∧ version.lines ≠ [] ∧ version.content ≠ "" := by
  unfold extractTag? at h
  split at h
  · simp at h
  · rename_i regions hne
    cases h
    refine ⟨rfl, by simpa using hne, ?_⟩
    obtain ⟨region, hr⟩ := List.exists_mem_of_ne_nil _ hne
    obtain ⟨line, hl, ho⟩ := Region.closedFrom_opens (by simp) region hr
    exact Region.text_ne_empty hr hl (Region.bracket_mem ho)

theorem extract_ok {content : String} (nameFor : String → String)
    {tagged : List (String × Version)} :
    extract content nameFor = .ok tagged ↔
      ∃ metadata, SampleMetadata.ofSource SampleMetadata.ofYaml? content = .ok metadata ∧
        tagged = (Region.distinctTags content).filterMap fun tag =>
          (extractTag? metadata (Text.splitLines content.toList) tag (nameFor tag)).map (tag, ·) := by
  simp only [extract, bind_eq_ok, pure_eq_ok, @eq_comm _ tagged]

theorem mem_extract {content tag : String} {nameFor : String → String} {version : Version}
    {entries : List (String × Version)} (h : extract content nameFor = .ok entries) :
    (tag, version) ∈ entries ↔ tag ∈ Region.distinctTags content ∧
      ∃ metadata, SampleMetadata.ofSource SampleMetadata.ofYaml? content = .ok metadata ∧
        extractTag? metadata (Text.splitLines content.toList) tag (nameFor tag) = some version := by
  obtain ⟨metadata, hm, rfl⟩ := (extract_ok nameFor).mp h
  simp [hm]

theorem snippetName_injective {owner repository tag other language : String}
    (h : snippetName owner repository tag language = snippetName owner repository other language) :
    tag = other := by
  simpa only [snippetName, String.append_left_inj, String.append_right_inj] using h

namespace Catalog

variable {owner repository : String} {file : File}

/-- The versions found in a commit's entry for a file: none where the file is not scanned, is
deleted or cannot be read. -/
def found (owner repository : String) (file : File) : List Version :=
  if holdsRegions file then
    match extract file.contents fun tag =>
        snippetName owner repository tag (languageName file) with
    | .ok tagged => tagged.map (·.2)
    | .error _ => []
  else []

theorem mem_found {version : Version} :
    version ∈ found owner repository file ↔ holdsRegions file = true ∧
      ∃ metadata, SampleMetadata.ofSource SampleMetadata.ofYaml? file.contents = .ok metadata ∧
        ∃ tag ∈ Region.distinctTags file.contents,
          extractTag? metadata (Text.splitLines file.contents.toList) tag
            (snippetName owner repository tag (languageName file)) = some version := by
  unfold found
  by_cases hf : holdsRegions file = true
  · simp only [hf, ↓reduceIte, true_and]
    cases he : extract file.contents fun tag =>
        snippetName owner repository tag (languageName file) with
    | error e =>
      simp only [List.not_mem_nil, false_iff]
      rintro ⟨metadata, hm, -⟩
      have ho := (extract_ok fun tag =>
        snippetName owner repository tag (languageName file)).mpr ⟨metadata, hm, rfl⟩
      rw [he] at ho
      cases ho
    | ok tagged =>
      obtain ⟨metadata, hm, rfl⟩ := (extract_ok _).mp he
      simp [hm]
  · simp [hf]

theorem found_real {version : Version} (h : version ∈ found owner repository file) :
    version.lines ≠ [] ∧ version.content ≠ "" := by
  obtain ⟨-, _, -, _, -, hv⟩ := mem_found.mp h
  exact (extractTag?_some hv).2

/-- A file has at most one version of a name, since its tags differ and its language is one. -/
theorem found_unique {version other : Version} (h : version ∈ found owner repository file)
    (ho : other ∈ found owner repository file) (hn : version.name = other.name) :
    version = other := by
  obtain ⟨-, metadata, hm, tag, -, hv⟩ := mem_found.mp h
  obtain ⟨-, metadata', hm', tag', -, ho⟩ := mem_found.mp ho
  rw [hm] at hm'
  cases hm'
  rw [(extractTag?_some hv).1, (extractTag?_some ho).1] at hn
  cases snippetName_injective hn
  exact Option.some.inj (hv.symm.trans ho)

-- ---------------------------------------------------------------------------
-- Reading a commit
-- ---------------------------------------------------------------------------

def reading (owner repository : String) (commit : Commit) (file : File) : FileReading :=
  ⟨⟨file.path, CommitRecord.ofCommit owner repository commit, file.size⟩, languageName file,
    found owner repository file⟩

def readings (owner repository : String) (commit : Commit) : List FileReading :=
  (commit.files.filter holdsRegions).map (reading owner repository commit)

theorem readFile_ok {commit : Commit} {result : FileReading} (hf : holdsRegions file = true)
    (h : readFile owner repository (CommitRecord.ofCommit owner repository commit) file = .ok result) :
    result = reading owner repository commit file := by
  simp only [readFile, bind_eq_ok, pure_eq_ok] at h
  obtain ⟨tagged, ht, rfl⟩ := h
  simp [reading, found, hf, ht]

theorem readFiles_ok {commit : Commit} {results : List FileReading}
    (h : readFiles owner repository commit = .ok results) :
    results = readings owner repository commit :=
  mapM_ok (fun _ hm _ hr => readFile_ok (List.mem_filter.mp hm).2 hr) h

end Catalog

-- ---------------------------------------------------------------------------
-- What files and commits yield
-- ---------------------------------------------------------------------------

def File.Yields (owner repository : String) (file : File) (name : String) : Prop :=
  ∃ version ∈ Catalog.found owner repository file, version.name = name

instance (owner repository : String) (file : File) (name : String) :
    Decidable (file.Yields owner repository name) :=
  inferInstanceAs (Decidable (∃ version ∈ _, _))

def Commit.Yields (owner repository : String) (commit : Commit) (name : String) : Prop :=
  ∃ file ∈ commit.files, file.Yields owner repository name

instance (owner repository : String) (commit : Commit) (name : String) :
    Decidable (commit.Yields owner repository name) :=
  inferInstanceAs (Decidable (∃ file ∈ _, _))

theorem File.Yields.holdsRegions {owner repository name : String} {file : File}
    (h : file.Yields owner repository name) : Catalog.holdsRegions file = true := by
  obtain ⟨version, hv, -⟩ := h
  exact (Catalog.mem_found.mp hv).1

theorem Catalog.mem_produced {owner repository name : String} {commit : Commit} :
    name ∈ produced (readings owner repository commit) ↔ commit.Yields owner repository name := by
  simp only [produced, readings, List.mem_flatMap, List.mem_map, List.mem_filter]
  constructor
  · rintro ⟨_, ⟨file, ⟨hm, -⟩, rfl⟩, version, hv, rfl⟩
    exact ⟨file, hm, version, hv, rfl⟩
  · rintro ⟨file, hm, version, hv, rfl⟩
    exact ⟨_, ⟨file, ⟨hm, (mem_found.mp hv).1⟩, rfl⟩, version, hv, rfl⟩

end SnippetTrail
