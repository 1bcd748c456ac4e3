import SnippetTrail.Proofs.Growth
import SnippetTrail.Proofs.Sizes
import SnippetTrail.Proofs.Tags

/-!
# Line endings

Whatever is read from a file is read from its lines: a mark without line endings stands in a text
exactly if it stands in one of its lines (`infix_iff_line`). Files with the same lines therefore read
alike (`SameLines.reading`), and carriage returns before the newlines change nothing but sizes
(`calculateSnippets_withReturns`).
-/

namespace SnippetTrail

-- ---------------------------------------------------------------------------
-- Lines of a text
-- ---------------------------------------------------------------------------

namespace Text

variable {mark text other first : List Char} {others : List (List Char)}

def IsInline (mark : List Char) : Prop := '\n' ∉ mark ∧ '\r' ∉ mark

instance (mark : List Char) : Decidable (IsInline mark) := inferInstanceAs (Decidable (_ ∧ _))

theorem IsInline.tail {c : Char} (h : IsInline (c :: mark)) : IsInline mark :=
  ⟨fun hm => h.1 (List.mem_cons_of_mem c hm), fun hm => h.2 (List.mem_cons_of_mem c hm)⟩

theorem IsInline.eq_nil {c : Char} (h : IsInline mark) (hc : c = '\n' ∨ c = '\r')
    (hp : mark <+: c :: text) : mark = [] := by
  cases mark with
  | nil => rfl
  | cons d mark =>
    obtain ⟨rfl, -⟩ := List.cons_prefix_cons.mp hp
    rcases hc with rfl | rfl
    · exact absurd List.mem_cons_self h.1
    · exact absurd List.mem_cons_self h.2

/-- A character that ends no line is added to the first one, whatever ends the lines behind it. -/
theorem splitLines_cons_congr {c : Char} (hn : c ≠ '\n') (hr : c ≠ '\r')
    (h : splitLines other = splitLines text) : splitLines (c :: other) = splitLines (c :: text) := by
  simp [splitLines, hr, h]

theorem splitLines_eq_nil : splitLines text = [] ↔ text = [] := by
  constructor
  · intro h
    by_contra hne
    exact splitLines_ne_nil hne h
  · rintro rfl
    rfl

theorem prefix_first_line (hi : IsInline mark) (hp : mark <+: text)
    (hs : splitLines text = first :: others) : mark <+: first := by
  fun_induction splitLines text generalizing mark first others with
  | case1 => cases hs
  | case2 rest =>
    rw [hi.eq_nil (.inl rfl) hp]
    exact List.nil_prefix
  | case3 rest =>
    rw [hi.eq_nil (.inr rfl) hp]
    exact List.nil_prefix
  | case4 c rest _ _ hl =>
    cases hs
    rw [splitLines_eq_nil.mp hl] at hp
    exact hp
  | case5 c rest _ _ line lines hl ih =>
    cases hs
    cases mark with
    | nil => exact List.nil_prefix
    | cons d mark =>
      obtain ⟨rfl, hrest⟩ := List.cons_prefix_cons.mp hp
      exact List.cons_prefix_cons.mpr ⟨rfl, ih hi.tail hrest hl⟩

theorem infix_iff_line (hi : IsInline mark) (hne : mark ≠ []) :
    mark <:+: text ↔ ∃ line ∈ splitLines text, mark <:+: line := by
  constructor
  · intro hm
    fun_induction splitLines text with
    | case1 => exact absurd (List.infix_nil.mp hm) hne
    | case2 rest ih =>
      rcases List.infix_cons_iff.mp hm with hp | hm
      · exact absurd (hi.eq_nil (.inl rfl) hp) hne
      · obtain ⟨line, hl, hmark⟩ := ih hm
        exact ⟨line, List.mem_cons_of_mem _ hl, hmark⟩
    | case3 rest ih =>
      rcases List.infix_cons_iff.mp hm with hp | hm
      · exact absurd (hi.eq_nil (.inr rfl) hp) hne
      · rcases List.infix_cons_iff.mp hm with hp | hm
        · exact absurd (hi.eq_nil (.inl rfl) hp) hne
        · obtain ⟨line, hl, hmark⟩ := ih hm
          exact ⟨line, List.mem_cons_of_mem _ hl, hmark⟩
    | case4 c rest _ _ hl =>
      rw [splitLines_eq_nil.mp hl] at hm
      exact ⟨[c], List.mem_singleton_self _, hm⟩
    | case5 c rest hn hr line lines hl ih =>
      -- the mark begins the first line, or it stands somewhere behind its first character
      rcases List.infix_cons_iff.mp hm with hp | hm
      · have hs : splitLines (c :: rest) = (c :: line) :: lines := by
          rw [splitLines, hl]
          · exact hn
          · exact hr
        exact ⟨_, List.mem_cons_self, (prefix_first_line hi hp hs).isInfix⟩
      · obtain ⟨found, hfound, hmark⟩ := ih hm
        rw [hl] at hfound
        rcases List.mem_cons.mp hfound with rfl | hfound
        · exact ⟨_, List.mem_cons_self, hmark.trans (List.suffix_cons c _).isInfix⟩
        · exact ⟨found, List.mem_cons_of_mem _ hfound, hmark⟩
  · rintro ⟨line, hl, hm⟩
    exact hm.trans (infix_of_mem_splitLines hl)

def withReturns (text : List Char) : List Char :=
  text.flatMap fun c => if c = '\n' then ['\r', '\n'] else [c]

theorem splitLines_withReturns (h : '\r' ∉ text) : splitLines (withReturns text) = splitLines text := by
  induction text with
  | nil => rfl
  | cons c text ih =>
    obtain ⟨hc, ht⟩ := not_or.mp (mt List.mem_cons.mpr h)
    have ih := ih ht
    by_cases hn : c = '\n'
    · subst hn
      have hhead : withReturns ('\n' :: text) = '\r' :: '\n' :: withReturns text := rfl
      rw [hhead, splitLines, splitLines, ih]
    · have hhead : withReturns (c :: text) = c :: withReturns text := by
        simp [withReturns, hn]
      rw [hhead, splitLines_cons_congr hn (Ne.symm hc) ih]

theorem withReturns_eq_nil : withReturns text = [] ↔ text = [] := by
  cases text with
  | nil => simp [withReturns]
  | cons c text =>
    simp only [withReturns, List.flatMap_cons, List.append_eq_nil_iff, reduceCtorEq, iff_false, not_and]
    split <;> simp

end Text

-- ---------------------------------------------------------------------------
-- What is read from the lines
-- ---------------------------------------------------------------------------

namespace Language

variable {content other : List Char}

theorem occursIn_congr (h : Text.splitLines other = Text.splitLines content) {mark : List Char}
    (hi : Text.IsInline mark) (hne : mark ≠ []) :
    Text.occursIn mark other = Text.occursIn mark content := by
  rw [Bool.eq_iff_iff, Text.occursIn_iff, Text.occursIn_iff, Text.infix_iff_line hi hne,
    Text.infix_iff_line hi hne, h]

theorem ofSharedExtension_congr (h : Text.splitLines other = Text.splitLines content) :
    ofSharedExtension other = ofSharedExtension content := by
  have hmarks : ∀ mark ∈ objectiveCMarks, Text.IsInline mark.toList ∧ mark.toList ≠ [] := by
    decide +kernel
  have hany : (objectiveCMarks.any fun mark => Text.occursIn mark.toList other) =
      objectiveCMarks.any fun mark => Text.occursIn mark.toList content := by
    rw [Bool.eq_iff_iff, List.any_eq_true, List.any_eq_true]
    refine exists_congr fun mark => and_congr_right fun hm => ?_
    obtain ⟨hi, hne⟩ := hmarks mark hm
    rw [occursIn_congr h hi hne]
  rw [ofSharedExtension, ofSharedExtension, hany, h]

theorem detect?_congr {text another : String} (path : String)
    (h : Text.splitLines another.toList = Text.splitLines text.toList) :
    detect? path another = detect? path text := by
  have hfirst : ofFirstLine? another.toList = ofFirstLine? text.toList := by
    simp only [ofFirstLine?, interpreter?, h]
  simp only [detect?, ofSharedExtension_congr h, hfirst]

end Language

namespace Region

variable {tag : List Char} {text other : String}

theorem not_mem_startMark {c : Char} (htag : c ∉ tag) (hopen : c ∉ "[START ".toList)
    (hclose : c ≠ ']') : c ∉ startMark tag := by
  have hmark : startMark tag = "[START ".toList ++ (tag ++ [']']) := List.append_assoc _ _ _
  rw [hmark, List.mem_append, List.mem_append, List.mem_singleton]
  rintro (hm | hm | hm)
  · exact hopen hm
  · exact htag hm
  · exact hclose hm

theorem isInline_startMark (hchars : ∀ c ∈ tag, isTagChar c = true) : Text.IsInline (startMark tag) := by
  have htag (c : Char) (hc : isTagChar c = false) : c ∉ tag := by
    intro hm
    rw [hchars c hm] at hc
    cases hc
  exact ⟨not_mem_startMark (htag _ (by decide)) (by decide) (by decide),
    not_mem_startMark (htag _ (by decide)) (by decide) (by decide)⟩

theorem distinctTags_congr (h : Text.splitLines other.toList = Text.splitLines text.toList) :
    distinctTags other = distinctTags text := by
  refine eq_of_ordered (distinctTags_sorted other) (distinctTags_sorted text)
    (fun _ => String.lt_irrefl _) (fun _ _ _ => String.lt_trans) fun tag => ?_
  rw [mem_distinctTags, mem_distinctTags]
  refine and_congr_right fun htag => ?_
  have hi : Text.IsInline (startMark tag.toList) := isInline_startMark htag.2
  have hne : startMark tag.toList ≠ [] := by
    obtain ⟨mark, hmark, -⟩ := startMark_cons htag.2
    rw [hmark]
    exact List.cons_ne_nil _ _
  rw [Text.infix_iff_line hi hne, Text.infix_iff_line hi hne, h]

end Region

theorem extract_congr {text other : String} (nameFor : String → String)
    (h : Text.splitLines other.toList = Text.splitLines text.toList) :
    extract other nameFor = extract text nameFor := by
  simp only [extract, SampleMetadata.ofSource, Region.distinctTags_congr h, h]

-- ---------------------------------------------------------------------------
-- Files with the same lines
-- ---------------------------------------------------------------------------

/-- An entry for the same path with the same lines, which deletes the file exactly if the other does. -/
structure File.SameLines (file other : File) : Prop where
  path : other.path = file.path
  deleted : other.isDeleted = file.isDeleted
  lines : Text.splitLines other.contents.toList = Text.splitLines file.contents.toList

section
variable {owner repository : String} {commit : Commit} {file other : File}

theorem File.SameLines.holdsRegions (h : file.SameLines other) :
    Catalog.holdsRegions other = Catalog.holdsRegions file := by
  rw [Catalog.holdsRegions, Catalog.holdsRegions, h.path, h.deleted]

theorem File.SameLines.languageName (h : file.SameLines other) :
    Catalog.languageName other = Catalog.languageName file := by
  rw [Catalog.languageName, Catalog.languageName, h.path, Language.detect?_congr _ h.lines]

theorem File.SameLines.reading (h : file.SameLines other) {changed : Commit}
    (hr : CommitRecord.ofCommit owner repository changed = CommitRecord.ofCommit owner repository commit) :
    (Catalog.reading owner repository changed other).sizeless =
      (Catalog.reading owner repository commit file).sizeless := by
  simp only [Catalog.reading, Catalog.found, FileReading.sizeless, VersionFile.sizeless, h.path, hr,
    h.holdsRegions, h.languageName, extract_congr _ h.lines]

theorem File.SameLines.readable (h : file.SameLines other) :
    SampleMetadata.ofSource SampleMetadata.ofYaml? other.contents =
      SampleMetadata.ofSource SampleMetadata.ofYaml? file.contents := by
  simp only [SampleMetadata.ofSource, h.lines]

end

def Commit.mapFiles (change : File → File) (commit : Commit) : Commit :=
  { commit with files := commit.files.map change }

theorem filter_map_of_congr {p : α → Bool} {change : α → α} {items : List α}
    (h : ∀ a ∈ items, p (change a) = p a) :
    (items.map change).filter p = (items.filter p).map change := by
  rw [List.filter_map]
  exact congrArg (List.map change) (List.filter_congr h)

namespace Commit

variable {owner repository : String} {change : File → File} {commit : Commit}

theorem sameButSizes_mapFiles (h : ∀ file ∈ commit.files, file.SameLines (change file)) :
    commit.SameButSizes owner repository (commit.mapFiles change) where
  record := rfl
  deleted := by
    rw [Catalog.deletedPaths, mapFiles, filter_map_of_congr, List.map_map, Catalog.deletedPaths]
    · exact List.map_congr_left fun file hm => (h file (List.mem_filter.mp hm).1).path
    · intro file hm
      rw [(h file hm).path, (h file hm).deleted]
  readings := by
    rw [Catalog.readings, mapFiles, filter_map_of_congr, List.map_map, List.map_map, Catalog.readings,
      List.map_map]
    · exact List.map_congr_left fun file hm => (h file (List.mem_filter.mp hm).1).reading rfl
    · intro file hm
      exact (h file hm).holdsRegions

theorem readable_mapFiles (h : ∀ file ∈ commit.files, file.SameLines (change file)) :
    (commit.mapFiles change).Readable ↔ commit.Readable := by
  simp only [Readable, mapFiles, List.forall_mem_map]
  refine forall₂_congr fun file hm => ?_
  rw [(h file hm).holdsRegions, (h file hm).readable]

end Commit

section
variable {owner repository : String} {change : File → File} {commits : List Commit}

/-- Only the lines of the files matter to a walk: it fails or succeeds as before, and finds the same
snippets with the same versions, up to the sizes of the files. -/
theorem calculateSnippets_mapFiles
    (h : ∀ commit ∈ commits, ∀ file ∈ commit.files, file.SameLines (change file)) :
    (calculateSnippets owner repository (commits.map (Commit.mapFiles change))).map
        (List.map Snippet.sizeless) =
      (calculateSnippets owner repository commits).map (List.map Snippet.sizeless) := by
  have hok : (∃ found,
        calculateSnippets owner repository (commits.map (Commit.mapFiles change)) = .ok found) ↔
      ∃ snippets, calculateSnippets owner repository commits = .ok snippets := by
    rw [calculateSnippets_isOk, calculateSnippets_isOk, List.forall_mem_map]
    exact forall₂_congr fun commit hc => Commit.readable_mapFiles (h commit hc)
  cases hs : calculateSnippets owner repository commits with
  | error fault =>
    obtain ⟨other, ho⟩ := exists_error_iff.mpr (mt hok.mp (exists_error_iff.mp ⟨fault, hs⟩))
    -- there is one fault only
    cases fault
    cases other
    rw [ho]
  | ok snippets =>
    obtain ⟨found, ho⟩ := hok.mpr ⟨snippets, hs⟩
    have hwalk (name : String) : (Trail.walk owner repository name
          (commits.map (Commit.mapFiles change))).sizeless =
        (Trail.walk owner repository name commits).sizeless :=
      walk_sizeless _ fun commit hc => Commit.sameButSizes_mapFiles (h commit hc)
    rw [ho]
    exact congrArg Except.ok (map_sizeless_eq hs ho hwalk)

end

-- ---------------------------------------------------------------------------
-- Carriage returns
-- ---------------------------------------------------------------------------

def File.withReturns (file : File) : File :=
  ⟨file.path, file.size + file.contents.toList.count '\n',
    String.ofList (Text.withReturns file.contents.toList)⟩

def Commit.withReturns (commit : Commit) : Commit := commit.mapFiles File.withReturns

section
variable {owner repository : String} {commits : List Commit}

theorem File.sameLines_withReturns {file : File} (h : '\r' ∉ file.contents.toList) :
    file.SameLines file.withReturns where
  path := rfl
  deleted := by
    have hempty : file.withReturns.contents = "" ↔ file.contents = "" := by
      rw [← String.toList_eq_nil_iff, withReturns, String.toList_ofList, Text.withReturns_eq_nil,
        String.toList_eq_nil_iff]
    by_cases hc : file.contents = ""
    · have hsize : file.withReturns.size = file.size := by
        rw [withReturns, hc]
        rfl
      rw [isDeleted, isDeleted, hsize, hempty.mpr hc, hc]
    · have hkept : file.isDeleted = false := by simp [isDeleted, hc]
      have hkept' : file.withReturns.isDeleted = false := by
        simp [isDeleted, mt hempty.mp hc]
      rw [hkept, hkept']
  lines := by
    rw [withReturns, String.toList_ofList, Text.splitLines_withReturns h]

/-- Carriage returns before the newlines of files that have none change the sizes of the files and
nothing else: the walk fails or succeeds as before, and finds the same snippets with the same versions. -/
theorem calculateSnippets_withReturns
    (h : ∀ commit ∈ commits, ∀ file ∈ commit.files, '\r' ∉ file.contents.toList) :
    (calculateSnippets owner repository (commits.map Commit.withReturns)).map
        (List.map Snippet.sizeless) =
      (calculateSnippets owner repository commits).map (List.map Snippet.sizeless) := by
  refine calculateSnippets_mapFiles fun commit hc file hf => ?_
  exact File.sameLines_withReturns (h commit hc file hf)

end

namespace Sample

def noted : List Commit :=
  [commit [.ofText "a.py" ("# sample-metadata:\n#   title: Aux\n\n" ++ text "aux" "y"),
      .ofText "run.m" ("% run\n" ++ text "demo" "x")],
    commit [.ofText "run.m" "% run\n"]]

end Sample

theorem calculateSnippets_withReturns_noted :
    (∀ commit ∈ Sample.noted, ∀ file ∈ commit.files, '\r' ∉ file.contents.toList) ∧
      (∃ snippets, calculateSnippets "o" "r" Sample.noted = .ok snippets ∧
        snippets.map (fun snippet => (snippet.language, snippet.versions.map (·.notes.title))) =
          [("PYTHON", ["Aux"]), ("MATLAB", ["", ""])]) ∧
      Sample.noted.map Commit.withReturns ≠ Sample.noted ∧
      (calculateSnippets "o" "r" (Sample.noted.map Commit.withReturns)).map
          (List.map Snippet.sizeless) =
        (calculateSnippets "o" "r" Sample.noted).map (List.map Snippet.sizeless) := by
  have h : ∀ commit ∈ Sample.noted, ∀ file ∈ commit.files, '\r' ∉ file.contents.toList := by
    decide +kernel
  obtain ⟨snippets, hs, hnotes⟩ : ∃ snippets, calculateSnippets "o" "r" Sample.noted = .ok snippets ∧
      (snippets.map (fun snippet => (snippet.language, snippet.versions.map (·.notes.title))) ==
        [("PYTHON", ["Aux"]), ("MATLAB", ["", ""])]) = true :=
    ok_of_any (by decide +kernel)
  exact ⟨h, ⟨snippets, hs, beq_iff_eq.mp hnotes⟩, by decide +kernel, calculateSnippets_withReturns h⟩

end SnippetTrail
