import SnippetTrail.Proofs.Matching
import SnippetTrail.Snippet.Catalog

/-!
# The language of a scanned file

Whether a file is scanned is told by the ending of its whole path, and its language by the extension of
its file name. The two agree unless the file name is nothing but an ending, which has no extension, or
the name of a build file is written with a Kelvin sign (`fixedByPath_iff`). Such a file has the
language that its first line names, or none.
-/

namespace SnippetTrail

-- ---------------------------------------------------------------------------
-- The last piece of a text
-- ---------------------------------------------------------------------------

namespace Text

variable {separator : Char} {text before last : List Char}

theorem splitAt_eq_singleton (h : separator ∉ last) : splitAt separator last = [last] := by
  induction last with
  | nil => rfl
  | cons c last ih =>
    obtain ⟨hc, hl⟩ := not_or.mp (mt List.mem_cons.mpr h)
    simp [splitAt, Ne.symm hc, ih hl]

theorem splitAt_append_last (before : List Char) (h : separator ∉ last) :
    splitAt separator (before ++ separator :: last) = splitAt separator before ++ [last] := by
  induction before with
  | nil => simp [splitAt, splitAt_eq_singleton h]
  | cons c before ih =>
    rw [List.cons_append, splitAt, splitAt, ih]
    split
    · rfl
    · cases hs : splitAt separator before with
      | nil => exact absurd hs (splitAt_ne_nil separator before)
      | cons piece pieces => rfl

theorem splitLast?_append (before : List Char) (h : separator ∉ last) :
    splitLast? separator (before ++ separator :: last) = some (before, last) := by
  have hreverse : (before ++ separator :: last).reverse =
      last.reverse ++ separator :: before.reverse := by
    simp
  rw [splitLast?, hreverse, splitOnce?_append (by simpa using h)]
  simp

theorem splitLast?_eq_none (h : separator ∉ text) : splitLast? separator text = none := by
  cases hs : splitLast? separator text with
  | none => rfl
  | some pieces =>
    obtain ⟨⟨after, before⟩, ho, -⟩ := Option.map_eq_some_iff.mp hs
    obtain ⟨hreverse, -⟩ := of_splitOnce? ho
    have hm : separator ∈ text.reverse := by
      rw [hreverse]
      exact List.mem_append_right _ List.mem_cons_self
    exact absurd (List.mem_reverse.mp hm) h

def HasLast (separator : Char) (text last : List Char) : Prop :=
  separator ∉ last ∧ (text = last ∨ ∃ before, text = before ++ separator :: last)

theorem exists_hasLast (separator : Char) (text : List Char) : ∃ last, HasLast separator text last := by
  by_cases hm : separator ∈ text
  · obtain ⟨last, before, hreverse, hlast⟩ := List.eq_append_cons_of_mem (List.mem_reverse.mpr hm)
    refine ⟨last.reverse, by simpa using hlast, .inr ⟨before.reverse, ?_⟩⟩
    rw [← List.reverse_reverse text, hreverse]
    simp
  · exact ⟨text, hm, .inl rfl⟩

theorem HasLast.append (h : HasLast separator stem last) (he : separator ∉ ending) :
    HasLast separator (stem ++ ending) (last ++ ending) := by
  obtain ⟨hlast, rfl | ⟨before, rfl⟩⟩ := h
  · exact ⟨by simp [hlast, he], .inl rfl⟩
  · exact ⟨by simp [hlast, he], .inr ⟨before, by simp⟩⟩

end Text

-- ---------------------------------------------------------------------------
-- File names
-- ---------------------------------------------------------------------------

namespace Path

variable {path : String} {name : List Char}

theorem fileName?_of_hasLast (h : Text.HasLast '/' path.toList name) (hne : name ≠ [])
    (hdot : name ≠ ['.']) (hup : name ≠ "..".toList) :
    fileName? path = some (String.ofList name) := by
  have hlast : ∃ pieces, Text.splitAt '/' path.toList = pieces ++ [name] := by
    obtain ⟨hname, hpath | ⟨folder, hpath⟩⟩ := h
    · exact ⟨[], by rw [hpath, Text.splitAt_eq_singleton hname, List.nil_append]⟩
    · exact ⟨_, by rw [hpath, Text.splitAt_append_last folder hname]⟩
  obtain ⟨pieces, hpieces⟩ := hlast
  have hkept : ([name].filter fun piece => !piece.isEmpty && piece != ['.']) = [name] := by
    simp [hne, hdot]
  have hnot : (name != ['.', '.']) = true := bne_iff_ne.mpr hup
  rw [fileName?, fileNameOn?, hpieces, List.filter_append, hkept, List.getLast?_concat,
    Option.filter_some, if_pos hnot, Option.map_some]

end Path

-- ---------------------------------------------------------------------------
-- Paths of scanned files
-- ---------------------------------------------------------------------------

namespace SourceFile

variable {path extension : String} {base : List Char}

theorem extension_chars : ∀ extension ∈ extensions,
    extension.toList ≠ [] ∧ '/' ∉ extension.toList ∧ '.' ∉ extension.toList := by
  decide +kernel

def IsBuildFile (path : String) : Prop := path.toList.map foldCase = "dockerfile".toList

instance (path : String) : Decidable (IsBuildFile path) := inferInstanceAs (Decidable (_ = _))

theorem IsBuildFile.not_mem (h : IsBuildFile path) {c : Char} (hc : foldCase c ∉ "dockerfile".toList) :
    c ∉ path.toList := by
  intro hm
  exact hc (h ▸ List.mem_map_of_mem hm)

/-- The file name is an ending with something before it, or nothing if it stands in a folder. -/
theorem isScanned_cases (h : isScanned path = true) :
    IsBuildFile path ∨ ∃ extension ∈ extensions, ∃ base,
      Text.HasLast '/' path.toList (base ++ '.' :: extension.toList) ∧
        (base = [] → '/' :: '.' :: extension.toList <:+ path.toList) := by
  rcases Bool.or_eq_true_iff.mp h with hbuild | hending
  · exact .inl (beq_iff_eq.mp hbuild)
  · obtain ⟨extension, he, hhas⟩ := List.any_eq_true.mp hending
    obtain ⟨-, hslash, -⟩ := extension_chars extension he
    unfold hasExtension at hhas
    split at hhas
    · rename_i stem hstem
      have hpath := Text.stripEnd?_eq_some.mp hstem
      obtain ⟨base, hbase⟩ := Text.exists_hasLast '/' stem
      have hlast : Text.HasLast '/' (stem ++ '.' :: extension.toList) (base ++ '.' :: extension.toList) :=
        hbase.append (by simp [hslash])
      refine .inr ⟨extension, he, base, hpath ▸ hlast, ?_⟩
      rintro rfl
      obtain ⟨-, rfl | ⟨folder, rfl⟩⟩ := hbase
      · simp at hhas
      · exact ⟨folder, by simp [hpath]⟩
    · cases hhas

end SourceFile

-- ---------------------------------------------------------------------------
-- Languages of scanned files
-- ---------------------------------------------------------------------------

namespace Language

open SourceFile (IsBuildFile)

variable {path extension content : String} {base : List Char}

theorem ofExtension?_extensions : ∀ extension ∈ SourceFile.extensions,
    String.ofList (extension.toList.map lowerAscii) = extension ∧
      (extension = "m" ∨ (ofExtension? extension).any (clean · != "") = true) := by
  decide +kernel

theorem isDockerfile_iff {name : List Char} (h : name.map SourceFile.foldCase = "dockerfile".toList) :
    isDockerfile name = true ↔ '\u212A' ∉ name := by
  have hcase (c : Char) (hc : c ≠ '\u212A') : SourceFile.foldCase c =
      if Text.isAsciiUpper c then Char.ofNat (c.toNat + 32) else c := by
    simp [SourceFile.foldCase, Text.isAsciiUpper, hc]
  rw [isDockerfile, beq_iff_eq]
  constructor
  · intro hname hm
    have hkelvin : '\u212A' ∈ "dockerfile".toList := hname ▸ List.mem_map.mpr ⟨_, hm, by decide⟩
    exact absurd hkelvin (by decide)
  · intro hm
    rw [← h]
    exact List.map_congr_left fun c hc => (hcase c fun he => hm (he ▸ hc)).symm

theorem detect?_buildFile (h : IsBuildFile path) (content : String) :
    detect? path content =
      if '\u212A' ∈ path.toList then ofFirstLine? content.toList else some "Dockerfile" := by
  have hslash : '/' ∉ path.toList := h.not_mem (by decide)
  have hdot : '.' ∉ path.toList := h.not_mem (by decide)
  have hname : Path.fileName? path = some path := by
    have hne (text : List Char) (ht : '.' ∈ text) : path.toList ≠ text := fun he => hdot (he ▸ ht)
    have hempty : path.toList ≠ [] := by
      intro he
      rw [IsBuildFile, he] at h
      cases h
    rw [Path.fileName?_of_hasLast ⟨hslash, .inl rfl⟩ hempty (hne _ (by decide)) (hne _ (by decide)),
      String.ofList_toList]
  have hextension : Path.extension? path = none := by
    simp [Path.extension?, hname, Text.splitLast?_eq_none hdot]
  simp only [detect?, hname, hextension, Option.any_some, isDockerfile_iff h]
  by_cases hkelvin : '\u212A' ∈ path.toList <;> simp [hkelvin]

theorem detect?_ending (he : extension ∈ SourceFile.extensions)
    (hlast : Text.HasLast '/' path.toList (base ++ '.' :: extension.toList)) (content : String) :
    detect? path content =
      if base = [] then ofFirstLine? content.toList
      else if extension = "m" then some (ofSharedExtension content.toList)
      else ofExtension? extension := by
  obtain ⟨hne, -, hdot⟩ := SourceFile.extension_chars extension he
  obtain ⟨hlower, hlanguage⟩ := ofExtension?_extensions extension he
  have hname : Path.fileName? path = some (String.ofList (base ++ '.' :: extension.toList)) := by
    -- the name goes on behind its last dot
    have hmore (text : List Char) (ht : text.getLast? = some '.') :
        base ++ '.' :: extension.toList ≠ text := by
      rintro rfl
      rw [List.getLast?_append, List.getLast?_cons, Option.some_or] at ht
      cases hl : extension.toList.getLast? with
      | none => exact hne (List.getLast?_eq_none_iff.mp hl)
      | some c =>
        rw [hl, Option.getD_some] at ht
        cases ht
        exact hdot (List.mem_of_getLast? hl)
    exact Path.fileName?_of_hasLast hlast (by simp) (hmore _ rfl) (hmore _ rfl)
  have hdocker : isDockerfile (base ++ '.' :: extension.toList) = false := by
    rw [isDockerfile, beq_eq_false_iff_ne]
    intro hname
    have hmem : '.' ∈ "dockerfile".toList := hname ▸ List.mem_map.mpr ⟨'.', by simp, by decide⟩
    exact absurd hmem (by decide)
  have hextension : Path.extension? path = if base = [] then none else some extension := by
    simp [Path.extension?, hname, Text.splitLast?_append base hdot]
  simp only [detect?, hname, hextension, Option.any_some, String.toList_ofList, hdocker]
  by_cases hbase : base = []
  · simp [hbase]
  · simp only [hbase, ↓reduceIte, hlower, Bool.false_eq_true, beq_iff_eq]
    split
    · rfl
    · rename_i hm
      obtain ⟨language, hl, -⟩ := (Option.any_eq_true _ _).mp (hlanguage.resolve_left hm)
      rw [hl]

-- ---------------------------------------------------------------------------
-- Languages that the path fixes
-- ---------------------------------------------------------------------------

/-- The file has a language whatever it contains, and the same one unless its ending is shared. -/
structure FixedByPath (path : String) : Prop where
  detected : ∀ content, ∃ language, detect? path content = some language
  named : ∀ file : File, file.path = path → Catalog.languageName file ≠ ""
  stable : ¬".m".toList <:+ path.toList → ∀ content other, detect? path content = detect? path other

/-- The file name is an ending and no more, or the name of a build file with a Kelvin sign. -/
def Nameless (path : String) : Prop :=
  (∃ extension ∈ SourceFile.extensions, '/' :: '.' :: extension.toList <:+ path.toList) ∨
    (IsBuildFile path ∧ '\u212A' ∈ path.toList)

instance (path : String) : Decidable (Nameless path) := inferInstanceAs (Decidable (_ ∨ _))

theorem nameless_buildFile (h : IsBuildFile path) : Nameless path ↔ '\u212A' ∈ path.toList := by
  constructor
  · rintro (⟨extension, -, hsuffix⟩ | ⟨-, hkelvin⟩)
    · have hslash : '/' ∉ path.toList := h.not_mem (by decide)
      exact absurd (hsuffix.subset List.mem_cons_self) hslash
    · exact hkelvin
  · intro hkelvin
    exact .inr ⟨h, hkelvin⟩

theorem nameless_ending (hlast : Text.HasLast '/' path.toList (base ++ '.' :: extension.toList))
    (he : extension ∈ SourceFile.extensions)
    (hfolder : base = [] → '/' :: '.' :: extension.toList <:+ path.toList) :
    Nameless path ↔ base = [] := by
  constructor
  · rintro (⟨other, ho, folder, hpath⟩ | ⟨hbuild, -⟩)
    · obtain ⟨hne, hslash, hdot⟩ := SourceFile.extension_chars other ho
      obtain ⟨hname, hown | ⟨before, hown⟩⟩ := hlast
      · have hm : '/' ∈ path.toList := hpath ▸ List.mem_append_right _ List.mem_cons_self
        exact absurd (hown ▸ hm) hname
      · -- both are what stands behind the last slash
        have hsplit := Text.splitLast?_append before hname
        rw [← hown, ← hpath, Text.splitLast?_append folder (by simp [hslash])] at hsplit
        obtain ⟨-, hsame⟩ := Prod.mk.inj (Option.some.inj hsplit)
        cases base with
        | nil => rfl
        | cons c base =>
          obtain ⟨-, hrest⟩ := List.cons.inj hsame
          exact absurd (hrest ▸ List.mem_append_right _ List.mem_cons_self) hdot
    · have hdot : '.' ∉ path.toList := hbuild.not_mem (by decide)
      obtain ⟨-, hpath | ⟨before, hpath⟩⟩ := hlast
      · exact absurd (by simp [hpath]) hdot
      · exact absurd (by simp [hpath]) hdot
  · intro hbase
    exact .inl ⟨extension, he, hfolder hbase⟩

theorem FixedByPath.of_language {language : String} (hclean : clean language ≠ "")
    (h : ∀ content, detect? path content = some language) : FixedByPath path where
  detected content := ⟨language, h content⟩
  named file hf := by rw [Catalog.languageName, hf, h, Option.getD_some]; exact hclean
  stable _ content other := by rw [h, h]

theorem FixedByPath.of_shared (hm : ".m".toList <:+ path.toList)
    (h : ∀ content, detect? path content = some (ofSharedExtension content.toList)) :
    FixedByPath path where
  detected content := ⟨_, h content⟩
  named file hf := by
    rw [Catalog.languageName, hf, h, Option.getD_some, ofSharedExtension]
    split
    · decide +kernel
    · split <;> decide +kernel
  stable hn := absurd hm hn

theorem not_fixedByPath (h : ∀ content, detect? path content = ofFirstLine? content.toList) :
    ¬FixedByPath path := by
  intro hfixed
  obtain ⟨language, hl⟩ := hfixed.detected ""
  rw [h] at hl
  cases hl

theorem fixedByPath_buildFile (h : IsBuildFile path) :
    (Nameless path ∧ ∀ content, detect? path content = ofFirstLine? content.toList) ∨
      (¬Nameless path ∧ FixedByPath path) := by
  have hdetect := detect?_buildFile h
  rw [nameless_buildFile h]
  by_cases hkelvin : '\u212A' ∈ path.toList
  · simp only [hkelvin, ↓reduceIte] at hdetect
    exact .inl ⟨hkelvin, hdetect⟩
  · simp only [hkelvin, ↓reduceIte] at hdetect
    exact .inr ⟨hkelvin, FixedByPath.of_language (by decide +kernel) hdetect⟩

theorem fixedByPath_ending (hlast : Text.HasLast '/' path.toList (base ++ '.' :: extension.toList))
    (he : extension ∈ SourceFile.extensions)
    (hfolder : base = [] → '/' :: '.' :: extension.toList <:+ path.toList) :
    (Nameless path ∧ ∀ content, detect? path content = ofFirstLine? content.toList) ∨
      (¬Nameless path ∧ FixedByPath path) := by
  have hdetect := detect?_ending he hlast
  rw [nameless_ending hlast he hfolder]
  by_cases hbase : base = []
  · simp only [hbase, ↓reduceIte] at hdetect
    exact .inl ⟨hbase, hdetect⟩
  · simp only [hbase, ↓reduceIte] at hdetect
    refine .inr ⟨hbase, ?_⟩
    by_cases hm : extension = "m"
    · simp only [hm, ↓reduceIte] at hdetect
      have hsuffix : ".m".toList <:+ path.toList := by
        rw [hm] at hlast
        obtain ⟨-, hpath | ⟨before, hpath⟩⟩ := hlast
        · exact ⟨base, hpath.symm⟩
        · exact ⟨before ++ '/' :: base, by rw [hpath]; simp⟩
      exact FixedByPath.of_shared hsuffix hdetect
    · simp only [hm, ↓reduceIte] at hdetect
      obtain ⟨-, hlanguage⟩ := ofExtension?_extensions extension he
      obtain ⟨language, hl, hclean⟩ := (Option.any_eq_true _ _).mp (hlanguage.resolve_left hm)
      exact FixedByPath.of_language (bne_iff_ne.mp hclean) fun content => (hdetect content).trans hl

/-- The path of a scanned file fixes its language, unless its file name is an ending and no more or the
name of a build file with a Kelvin sign. The language of such a file is the one that its first line
names, so it has none if it is empty. -/
theorem fixedByPath_iff (hs : SourceFile.isScanned path = true) :
    (FixedByPath path ↔ ¬Nameless path) ∧
      (Nameless path → ∀ content, detect? path content = ofFirstLine? content.toList) := by
  have hcases : (Nameless path ∧ ∀ content, detect? path content = ofFirstLine? content.toList) ∨
      (¬Nameless path ∧ FixedByPath path) := by
    rcases SourceFile.isScanned_cases hs with hbuild | ⟨extension, he, base, hlast, hfolder⟩
    · exact fixedByPath_buildFile hbuild
    · exact fixedByPath_ending hlast he hfolder
  rcases hcases with ⟨hnameless, hdetect⟩ | ⟨hnamed, hfixed⟩
  · exact ⟨iff_of_false (not_fixedByPath hdetect) (not_not_intro hnameless), fun _ => hdetect⟩
  · exact ⟨iff_of_true hfixed hnamed, fun hnameless => absurd hnameless hnamed⟩

theorem fixedByPath_iff_hidden :
    SourceFile.isScanned "views/home.jade" = true ∧ SourceFile.isScanned "tools/.py" = true ∧
      FixedByPath "views/home.jade" ∧
      (Nameless "tools/.py" → ∀ content,
        detect? "tools/.py" content = ofFirstLine? content.toList) ∧
      Nameless "tools/.py" := by
  have hjade : SourceFile.isScanned "views/home.jade" = true := by decide +kernel
  have hhidden : SourceFile.isScanned "tools/.py" = true := by decide +kernel
  exact ⟨hjade, hhidden, (fixedByPath_iff hjade).1.mpr (by decide +kernel), (fixedByPath_iff hhidden).2,
    by decide +kernel⟩

/-- A scanned file below a folder whose name is an ending has no language while it is empty. -/
theorem not_forall_fixedByPath :
    ¬∀ path : String, SourceFile.isScanned path = true → FixedByPath path := by
  intro hclaim
  obtain ⟨language, hl⟩ := (hclaim "a/.py" (by decide +kernel)).detected ""
  have hnone : detect? "a/.py" "" = none := by decide +kernel
  rw [hnone] at hl
  cases hl

end Language

end SnippetTrail
