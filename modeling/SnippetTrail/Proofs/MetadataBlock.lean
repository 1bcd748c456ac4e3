import SnippetTrail.Proofs.LineEndings

/-!
# A metadata block is read by itself

A file with a block is its text up to the header, the lines of the block behind their comment marks,
and the text that ends the block (`BlockSource`). What is read from it is what the reader of documents
makes of the bare lines, whatever surrounds them and whichever mark they have (`ofSource_block`).
-/

namespace SnippetTrail

-- ---------------------------------------------------------------------------
-- Lines of a text with known parts
-- ---------------------------------------------------------------------------

namespace Text

variable {line text more : List Char} {lines : List (List Char)}

theorem splitLines_line (h : IsInline line) :
    splitLines (line ++ '\n' :: more) = line :: splitLines more := by
  induction line with
  | nil => rfl
  | cons c line ih =>
    have hn : c ≠ '\n' := fun hc => h.1 (hc ▸ List.mem_cons_self)
    have hr : c ≠ '\r' := fun hc => h.2 (hc ▸ List.mem_cons_self)
    simp [splitLines, hr, ih h.tail]

theorem splitLines_unlines (h : ∀ line ∈ lines, IsInline line) :
    splitLines (unlines lines ++ more) = lines ++ splitLines more := by
  induction lines with
  | nil => rfl
  | cons line lines ih =>
    obtain ⟨hline, hlines⟩ := List.forall_mem_cons.mp h
    rw [unlines_cons, List.append_assoc, List.cons_append, splitLines_line hline, ih hlines,
      List.cons_append]

theorem ended_of_cons {c : Char} (h : ∀ last ∈ (c :: text).getLast?, last = '\n') :
    ∀ last ∈ text.getLast?, last = '\n' := by
  cases text with
  | nil => simp
  | cons d text => rwa [List.getLast?_cons_cons] at h

theorem splitLines_append (h : ∀ last ∈ text.getLast?, last = '\n') :
    splitLines (text ++ more) = splitLines text ++ splitLines more := by
  fun_induction splitLines text with
  | case1 => rfl
  | case2 rest ih => rw [List.cons_append, splitLines, ih (ended_of_cons h), List.cons_append]
  | case3 rest ih =>
    rw [List.cons_append, List.cons_append, splitLines, ih (ended_of_cons (ended_of_cons h)),
      List.cons_append]
  | case4 c rest hn _ hl =>
    -- nothing is left behind the character, which is no newline
    rw [splitLines_eq_nil.mp hl] at h
    exact absurd (h c rfl) hn
  | case5 c rest hn hr line lines hl ih =>
    obtain ⟨d, rest, rfl⟩ : ∃ d others, rest = d :: others :=
      List.exists_cons_of_ne_nil fun he => by simp [he, splitLines] at hl
    have hsplit : splitLines (d :: (rest ++ more)) = line :: (lines ++ splitLines more) := by
      rw [← List.cons_append, ih (ended_of_cons h), hl, List.cons_append]
    rw [List.cons_append, List.cons_append, splitLines, hsplit, List.cons_append]
    · exact hn
    · rintro others rfl he
      obtain ⟨rfl, -⟩ := List.cons.inj he
      exact hr rest rfl rfl

end Text

-- ---------------------------------------------------------------------------
-- The block among the lines
-- ---------------------------------------------------------------------------

namespace SampleMetadata

variable {line mark : List Char} {lines others : List (List Char)}

def IsHeader (line : List Char) : Prop :=
  line = "# sample-metadata:".toList ∨ line = "// sample-metadata:".toList

instance : DecidablePred IsHeader := fun _ => inferInstanceAs (Decidable (_ ∨ _))

theorem headerMark?_eq_none : headerMark? line = none ↔ ¬IsHeader line := by
  rw [headerMark?, IsHeader]
  by_cases hs : line = "# sample-metadata:".toList
  · rw [if_pos hs]
    simp [hs]
  · by_cases hd : line = "// sample-metadata:".toList
    · rw [if_neg hs, if_pos hd]
      simp [hd]
    · rw [if_neg hs, if_neg hd]
      exact iff_of_true rfl (not_or.mpr ⟨hs, hd⟩)

theorem block?_eq_none : block? lines = none ↔ ∀ line ∈ lines, ¬IsHeader line := by
  induction lines with
  | nil => simp [block?]
  | cons line lines ih =>
    rw [block?, List.forall_mem_cons, ← headerMark?_eq_none]
    cases headerMark? line with
    | none => simp [ih]
    | some mark => simp

theorem block?_append (h : ∀ line ∈ lines, ¬IsHeader line) :
    block? (lines ++ others) = block? others := by
  induction lines with
  | nil => rfl
  | cons line lines ih =>
    obtain ⟨hline, hlines⟩ := List.forall_mem_cons.mp h
    rw [List.cons_append, block?, headerMark?_eq_none.mpr hline]
    exact ih hlines

theorem block?_of_headerMark? (hm : headerMark? (mark ++ line) = some mark)
    (ho : ∀ other ∈ others.head?, ¬mark <+: other) :
    block? ((line :: lines).map (mark ++ ·) ++ others) = some (Text.unlines (line :: lines)) := by
  have hmarked : ∀ other ∈ (line :: lines).map (mark ++ ·), mark.isPrefixOf other = true := by
    simp
  have hend : others.takeWhile mark.isPrefixOf = [] := by
    cases others with
    | nil => rfl
    | cons other others => exact List.takeWhile_cons_of_neg (by simpa using ho other rfl)
  have hblock : ((line :: lines).map (mark ++ ·) ++ others).takeWhile mark.isPrefixOf =
      (line :: lines).map (mark ++ ·) := by
    rw [List.takeWhile_append_of_pos hmarked, hend, List.append_nil]
  have hbare : (lines.map (mark ++ ·)).map (fun line => line.drop mark.length) = lines := by
    simp [Function.comp_def]
  rw [List.map_cons, List.cons_append] at hblock ⊢
  simp only [block?, hm, hblock, List.map_cons, hbare, List.drop_left]

-- ---------------------------------------------------------------------------
-- The block in its file
-- ---------------------------------------------------------------------------

/-- What the reader of documents makes of a text: no metadata at all for a text that is no document,
and empty ones for the document that stands for nothing. -/
def decoded (read : String → Option (Option SampleMetadata)) (document : String) :
    Except ExtractionError (Option SampleMetadata) :=
  match read document with
  | none => .error .malformedMetadata
  | some none => .ok (some empty)
  | some (some metadata) => .ok (some metadata)

end SampleMetadata

open SampleMetadata

/-- A file with a block: no line of the text before it is a header, and the text after it ends it.
The lines of the block may say anything, and may have marks or headers of their own. -/
structure BlockSource where
  before : String
  mark : String
  body : List String
  after : String
  mark_eq : mark = "#" ∨ mark = "//"
  ended : before = "" ∨ ∃ lines, before = lines ++ "\n"
  before_lines : ∀ line ∈ Text.splitLines before.toList, ¬IsHeader line
  body_lines : ∀ line ∈ body, Text.IsInline line.toList
  after_line : ∀ line ∈ (Text.splitLines after.toList).head?, line = [] ∨ ¬mark.toList <+: line

namespace BlockSource

variable (source : BlockSource)

def lines : List String := " sample-metadata:" :: source.body

def document : String := String.join (source.lines.map (· ++ "\n"))

def text : String :=
  source.before ++ String.join (source.lines.map (source.mark ++ · ++ "\n")) ++ source.after

theorem headerMark?_mark :
    headerMark? (source.mark.toList ++ " sample-metadata:".toList) = some source.mark.toList := by
  rcases source.mark_eq with hm | hm
  · rw [hm]
    rfl
  · rw [hm]
    rfl

theorem isInline_marked {line : List Char}
    (hm : line ∈ (source.lines.map String.toList).map (source.mark.toList ++ ·)) :
    Text.IsInline line := by
  have hmark : Text.IsInline source.mark.toList := by
    rcases source.mark_eq with hm | hm <;> rw [hm] <;> decide
  have hlines : ∀ line ∈ source.lines, Text.IsInline line.toList :=
    List.forall_mem_cons.mpr ⟨by decide, source.body_lines⟩
  obtain ⟨bare, hbare, rfl⟩ := List.mem_map.mp hm
  obtain ⟨line, hl, rfl⟩ := List.mem_map.mp hbare
  simp [Text.IsInline, hmark.1, hmark.2, (hlines line hl).1, (hlines line hl).2]

theorem toList_document : source.document.toList = Text.unlines (source.lines.map String.toList) := by
  simp [document, Text.unlines, List.flatMap_map]

theorem splitLines_text : Text.splitLines source.text.toList =
    Text.splitLines source.before.toList ++
      ((source.lines.map String.toList).map (source.mark.toList ++ ·) ++
        Text.splitLines source.after.toList) := by
  have htext : source.text.toList = source.before.toList ++
      (Text.unlines ((source.lines.map String.toList).map (source.mark.toList ++ ·)) ++
        source.after.toList) := by
    simp [text, Text.unlines, List.flatMap_map]
  have hended : ∀ last ∈ source.before.toList.getLast?, last = '\n' := by
    rcases source.ended with hb | ⟨lines, hb⟩ <;> simp [hb]
  rw [htext, Text.splitLines_append hended,
    Text.splitLines_unlines fun line hm => source.isInline_marked hm]

theorem block?_text : block? (Text.splitLines source.text.toList) = some source.document.toList := by
  have hafter : ∀ line ∈ (Text.splitLines source.after.toList).head?, ¬source.mark.toList <+: line := by
    intro line hl
    rcases source.after_line line hl with rfl | hline
    · rcases source.mark_eq with hm | hm <;> simp [hm]
    · exact hline
  rw [source.splitLines_text, block?_append source.before_lines, source.toList_document, lines]
  exact block?_of_headerMark? source.headerMark?_mark hafter

end BlockSource

/-- The metadata of a file with a block are what the reader of documents makes of the bare lines of the
block. Files without a header, and only they, have none. -/
theorem SampleMetadata.ofSource_block (read : String → Option (Option SampleMetadata)) :
    (∀ source : BlockSource, ofSource read source.text = decoded read source.document) ∧
      ∀ content, ofSource read content = .ok none ↔
        ∀ line ∈ Text.splitLines content.toList, ¬IsHeader line := by
  refine ⟨fun source => ?_, fun content => ?_⟩
  · simp only [ofSource, source.block?_text, String.ofList_toList, decoded]
    rcases read source.document with _ | _ | metadata <;> rfl
  · rw [← block?_eq_none, ofSource]
    cases block? (Text.splitLines content.toList) with
    | none => simp
    | some text => cases hr : read (String.ofList text) <;> simp [hr]

namespace Sample

def nested : BlockSource where
  before := "run\r\n# sample-metadata: no\n"
  mark := "//"
  body := ["   title: A // B", "// # sample-metadata:", ""]
  after := "# sample-metadata:\n"
  mark_eq := .inr rfl
  ended := .inr ⟨"run\r\n# sample-metadata: no", rfl⟩
  before_lines := by decide +kernel
  body_lines := by decide
  after_line := by decide +kernel

def titled (document : String) : Option (Option SampleMetadata) :=
  some (some ⟨{ Notes.empty with title := document }, []⟩)

end Sample

theorem SampleMetadata.ofSource_block_nested :
    Sample.nested.text = "run\r\n# sample-metadata: no\n// sample-metadata:\n//   title: A // B\n" ++
        "//// # sample-metadata:\n//\n# sample-metadata:\n" ∧
      (ofSource Sample.titled Sample.nested.text).map (·.map (·.notes.title)) =
        .ok (some " sample-metadata:\n   title: A // B\n// # sample-metadata:\n\n") ∧
      ofSource Sample.titled "# title: A\n" = .ok none := by
  refine ⟨by decide +kernel, ?_, ((ofSource_block Sample.titled).2 _).mpr (by decide +kernel)⟩
  rw [(ofSource_block Sample.titled).1]
  have hdocument : Sample.nested.document =
      " sample-metadata:\n   title: A // B\n// # sample-metadata:\n\n" := by decide +kernel
  rw [hdocument]
  rfl

end SnippetTrail
