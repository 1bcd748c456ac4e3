import Mathlib.Data.List.Basic
import SnippetTrail.Proofs.Extraction
import SnippetTrail.Proofs.Tags

/-!
# The regions of a text

A line starts a tag if it has the start mark and no `:start-after:`, and it ends the tag if it has the
end mark and no `:end-before:`. A region spans from a start to the next end, and no start may come
between them, nor be the end (`Spans`). What the scanner keeps is always the region that is open behind
the lines read so far (`Tracks.step`), so that it closes these regions and no others (`mem_closed`).
`extract_regions` says what that makes of a text.
-/

namespace SnippetTrail

namespace Region

-- ---------------------------------------------------------------------------
-- Starts, ends and what lies between
-- ---------------------------------------------------------------------------

section
variable (tag : List Char) (lines : List (List Char))

/-- The line that has a number, when the first one has the number one. -/
def LineAt (number : Nat) (line : List Char) : Prop := 0 < number ∧ lines[number - 1]? = some line

/-- A line has a mark, and not the word that makes it one that only refers to a region. -/
def Delimits (mark word : List Char) (lines : List (List Char)) (number : Nat) : Prop :=
  ∃ line, LineAt lines number line ∧ mark <:+: line ∧ ¬word <:+: line

def Starts (number : Nat) : Prop :=
  Delimits (startMark tag) ":start-after:".toList lines number

def Ends (number : Nat) : Prop :=
  Delimits (endMark tag) ":end-before:".toList lines number

/-- From one line to another there is a region of the tag. -/
structure Spans (first last : Nat) : Prop where
  lt : first < last
  starts : Starts tag lines first
  ends : Ends tag lines last
  no_start : ∀ n, first < n → n ≤ last → ¬Starts tag lines n
  no_end : ∀ n, first < n → n < last → ¬Ends tag lines n

/-- Behind a line, what started at `first` has neither ended nor started anew. -/
structure OpenAfter (number first : Nat) : Prop where
  le : first ≤ number
  starts : Starts tag lines first
  idle : ∀ n, first < n → n ≤ number → ¬Starts tag lines n ∧ ¬Ends tag lines n

def excerpt (first last : Nat) : List (List Char) := (lines.take last).drop (first - 1)

end

section
variable {tag line : List Char} {lines rest : List (List Char)} {k first last : Nat}

theorem LineAt.eq {other : List Char} (h : LineAt lines k line) (ho : LineAt lines k other) :
    line = other := Option.some.inj (h.2.symm.trans ho.2)

theorem lineAt_succ : LineAt lines (k + 1) line ↔ lines[k]? = some line := by simp [LineAt]

theorem delimits_iff {mark word : List Char} (h : LineAt lines k line) :
    Delimits mark word lines k ↔ (Text.occursIn mark line && !Text.occursIn word line) = true := by
  rw [Bool.and_eq_true_iff, Bool.not_eq_true', ← Bool.not_eq_true, Text.occursIn_iff,
    Text.occursIn_iff]
  constructor
  · rintro ⟨other, ho, hmark⟩
    exact h.eq ho ▸ hmark
  · exact fun hmark => ⟨line, h, hmark⟩

theorem starts_iff (h : LineAt lines k line) : Starts tag lines k ↔ opens tag line = true :=
  delimits_iff h

theorem ends_iff (h : LineAt lines k line) : Ends tag lines k ↔ closes tag line = true :=
  delimits_iff h

theorem Delimits.pos {mark word : List Char} (h : Delimits mark word lines k) : 0 < k := by
  obtain ⟨_, hline, -⟩ := h
  exact hline.1

theorem Starts.pos (h : Starts tag lines k) : 0 < k := Delimits.pos h

theorem Ends.pos (h : Ends tag lines k) : 0 < k := Delimits.pos h

theorem openAfter_zero : ¬OpenAfter tag lines 0 first :=
  fun h => absurd h.starts.pos (Nat.not_lt.mpr h.le)

theorem openAfter_of_starts (h : Starts tag lines (k + 1)) :
    OpenAfter tag lines (k + 1) first ↔ first = k + 1 := by
  constructor
  · intro ho
    by_contra hne
    have hlt : first < k + 1 := Nat.lt_of_le_of_ne ho.le hne
    exact (ho.idle (k + 1) hlt (Nat.le_refl _)).1 h
  · rintro rfl
    exact ⟨Nat.le_refl _, h, fun n hlt hle => by omega⟩

theorem openAfter_of_not_starts (h : ¬Starts tag lines (k + 1)) :
    OpenAfter tag lines (k + 1) first ↔ OpenAfter tag lines k first ∧ ¬Ends tag lines (k + 1) := by
  constructor
  · intro ho
    have hne : first ≠ k + 1 := by rintro rfl; exact h ho.starts
    have hlt : first < k + 1 := Nat.lt_of_le_of_ne ho.le hne
    refine ⟨⟨by omega, ho.starts, fun n hn hle => ho.idle n hn (by omega)⟩, ?_⟩
    exact (ho.idle (k + 1) hlt (Nat.le_refl _)).2
  · rintro ⟨ho, hend⟩
    refine ⟨Nat.le_succ_of_le ho.le, ho.starts, fun n hn hle => ?_⟩
    rcases Nat.le_succ_iff.mp hle with hle | rfl
    · exact ho.idle n hn hle
    · exact ⟨h, hend⟩

theorem spans_succ : Spans tag lines first (k + 1) ↔
    OpenAfter tag lines k first ∧ ¬Starts tag lines (k + 1) ∧ Ends tag lines (k + 1) := by
  constructor
  · intro h
    refine ⟨⟨Nat.le_of_lt_succ h.lt, h.starts, fun n hn hle => ?_⟩, ?_, h.ends⟩
    · exact ⟨h.no_start n hn (by omega), h.no_end n hn (by omega)⟩
    · exact h.no_start (k + 1) h.lt (Nat.le_refl _)
  · rintro ⟨ho, hstart, hend⟩
    refine ⟨Nat.lt_succ_of_le ho.le, ho.starts, hend, fun n hn hle => ?_, fun n hn hlt => ?_⟩
    · rcases Nat.le_succ_iff.mp hle with hle | rfl
      · exact (ho.idle n hn hle).1
      · exact hstart
    · exact (ho.idle n hn (Nat.le_of_lt_succ hlt)).2

theorem Spans.exists_openAfter (h : Spans tag lines first last) :
    ∃ k, last = k + 1 ∧ OpenAfter tag lines k first := by
  obtain ⟨k, rfl⟩ : ∃ k, last = k + 1 := Nat.exists_eq_add_one.mpr h.ends.pos
  exact ⟨k, rfl, (spans_succ.mp h).1⟩

theorem Spans.lt_of_lt {later latest : Nat} (h : Spans tag lines first last)
    (hl : Spans tag lines later latest) (hlt : last < latest) : last < later := by
  by_contra hle
  rcases Nat.lt_trichotomy first later with hf | rfl | hf
  · exact h.no_start later hf (by omega) hl.starts
  · exact hl.no_end last h.lt hlt h.ends
  · have hle : first ≤ latest := by have := h.lt; omega
    exact hl.no_start first hf hle h.starts

theorem excerpt_self (h : lines[k]? = some line) : excerpt lines (k + 1) (k + 1) = [line] := by
  obtain ⟨hlt, rfl⟩ := List.getElem?_eq_some_iff.mp h
  have hlen : (lines.take k).length = k := List.length_take_of_le (Nat.le_of_lt hlt)
  rw [excerpt, List.take_add_one, h, Nat.add_sub_cancel, List.drop_append_of_le_length (by omega),
    List.drop_of_length_le (by omega)]
  rfl

theorem excerpt_succ (h : lines[k]? = some line) (hle : first ≤ k) :
    excerpt lines first (k + 1) = excerpt lines first k ++ [line] := by
  obtain ⟨hlt, rfl⟩ := List.getElem?_eq_some_iff.mp h
  have hlen : (lines.take k).length = k := List.length_take_of_le (Nat.le_of_lt hlt)
  rw [excerpt, List.take_add_one, h, List.drop_append_of_le_length (by omega)]
  rfl

-- ---------------------------------------------------------------------------
-- The scanner
-- ---------------------------------------------------------------------------

def after (tag : List Char) (number : Nat) (opened : Option Opened) (line : List Char) :
    Option Opened :=
  if opens tag line then some ⟨number, [line]⟩
  else if closes tag line then none
  else opened.map fun o => ⟨o.first, line :: o.earlier⟩

def closing? (tag : List Char) (number : Nat) (opened : Option Opened) (line : List Char) :
    Option Region :=
  if opens tag line then none
  else if closes tag line then
    opened.map fun o => ⟨o.first, number, (line :: o.earlier).reverse⟩
  else none

theorem closedFrom_cons (number : Nat) (opened : Option Opened) :
    closedFrom tag number opened (line :: rest) =
      (closing? tag number opened line).toList ++
        closedFrom tag (number + 1) (after tag number opened line) rest := by
  by_cases hopens : opens tag line = true
  · cases opened <;> simp [closedFrom, closing?, after, hopens]
  · cases opened with
    | none => simp [closedFrom, closing?, after, hopens]
    | some o =>
      by_cases hcloses : closes tag line = true <;>
        simp [closedFrom, closing?, after, hopens, hcloses]

/-- The scanner has the region that is open behind the lines read, and its lines. -/
structure Tracks (tag : List Char) (lines : List (List Char)) (number : Nat)
    (opened : Option Opened) : Prop where
  first : ∀ first, OpenAfter tag lines number first ↔ opened.map (·.first) = some first
  earlier : ∀ o, opened = some o → o.earlier.reverse = excerpt lines o.first number

variable {opened : Option Opened} {region : Region}

theorem tracks_zero : Tracks tag lines 0 none := by
  refine ⟨fun first => ?_, fun o ho => ?_⟩
  · simpa using openAfter_zero
  · cases ho

theorem Tracks.reverse_cons (ht : Tracks tag lines k opened) (hline : lines[k]? = some line)
    {o : Opened} (ho : opened = some o) :
    (line :: o.earlier).reverse = excerpt lines o.first (k + 1) := by
  have hopen : OpenAfter tag lines k o.first := (ht.first _).mpr (by rw [ho]; rfl)
  rw [excerpt_succ hline hopen.le, ← ht.earlier o ho, List.reverse_cons]

theorem Tracks.step (ht : Tracks tag lines k opened) (hline : lines[k]? = some line) :
    Tracks tag lines (k + 1) (after tag (k + 1) opened line) := by
  have hstarts : Starts tag lines (k + 1) ↔ opens tag line = true :=
    starts_iff (lineAt_succ.mpr hline)
  have hends : Ends tag lines (k + 1) ↔ closes tag line = true := ends_iff (lineAt_succ.mpr hline)
  rw [after]
  split
  · rename_i hopens
    refine ⟨fun first => ?_, fun o ho => ?_⟩
    · rw [openAfter_of_starts (hstarts.mpr hopens), eq_comm]
      simp
    · cases ho
      exact (excerpt_self hline).symm
  · rename_i hopens
    have hnot : ¬Starts tag lines (k + 1) := mt hstarts.mp hopens
    split
    · rename_i hcloses
      refine ⟨fun first => ?_, fun o ho => by cases ho⟩
      rw [openAfter_of_not_starts hnot, hends]
      simp [hcloses]
    · rename_i hcloses
      refine ⟨fun first => ?_, fun o ho => ?_⟩
      · rw [openAfter_of_not_starts hnot, hends, ht.first, Option.map_map]
        exact and_iff_left hcloses
      · obtain ⟨before, hb, rfl⟩ := Option.map_eq_some_iff.mp ho
        exact ht.reverse_cons hline hb

theorem Tracks.spans_iff (ht : Tracks tag lines k opened) (hline : lines[k]? = some line) :
    Spans tag lines first (k + 1) ↔
      opened.map (·.first) = some first ∧ ¬opens tag line = true ∧ closes tag line = true := by
  rw [spans_succ, ht.first, starts_iff (lineAt_succ.mpr hline), ends_iff (lineAt_succ.mpr hline)]

theorem Tracks.closing_iff (ht : Tracks tag lines k opened) (hline : lines[k]? = some line) :
    closing? tag (k + 1) opened line = some region ↔
      region.last = k + 1 ∧ Spans tag lines region.first region.last ∧
        region.lines = excerpt lines region.first region.last := by
  rw [closing?]
  split
  · rename_i hopens
    refine ⟨by simp, ?_⟩
    rintro ⟨hlast, hs, -⟩
    exact absurd hopens ((ht.spans_iff hline).mp (hlast ▸ hs)).2.1
  · rename_i hopens
    split
    · rename_i hcloses
      constructor
      · intro h
        obtain ⟨o, ho, rfl⟩ := Option.map_eq_some_iff.mp h
        have hs : Spans tag lines o.first (k + 1) :=
          (ht.spans_iff hline).mpr ⟨by rw [ho]; rfl, hopens, hcloses⟩
        exact ⟨rfl, hs, ht.reverse_cons hline ho⟩
      · obtain ⟨first, last, found⟩ := region
        rintro ⟨rfl, hs, hfound⟩
        obtain ⟨o, ho, rfl⟩ := Option.map_eq_some_iff.mp ((ht.spans_iff hline).mp hs).1
        rw [ho, Option.map_some, ht.reverse_cons hline ho, ← hfound]
    · rename_i hcloses
      refine ⟨by simp, ?_⟩
      rintro ⟨hlast, hs, -⟩
      exact absurd ((ht.spans_iff hline).mp (hlast ▸ hs)).2.2 hcloses

theorem Ends.le_length (h : Ends tag lines k) : k ≤ lines.length := by
  obtain ⟨line, ⟨hpos, hline⟩, -⟩ := h
  obtain ⟨hlt, -⟩ := List.getElem?_eq_some_iff.mp hline
  omega

theorem of_drop_eq_cons (h : lines.drop k = line :: rest) :
    lines[k]? = some line ∧ lines.drop (k + 1) = rest := by
  constructor
  · rw [← List.head?_drop, h, List.head?_cons]
  · rw [← List.tail_drop, h, List.tail_cons]

/-- Of the lines that are left, the scanner closes the regions that end in them. -/
theorem mem_closedFrom (ht : Tracks tag lines k opened) (hrest : lines.drop k = rest) :
    region ∈ closedFrom tag (k + 1) opened rest ↔
      k < region.last ∧ Spans tag lines region.first region.last ∧
        region.lines = excerpt lines region.first region.last := by
  induction rest generalizing k opened with
  | nil =>
    have hle : lines.length ≤ k := List.drop_eq_nil_iff.mp hrest
    simp only [closedFrom, List.not_mem_nil, false_iff]
    rintro ⟨hlt, hs, -⟩
    have := hs.ends.le_length
    omega
  | cons line rest ih =>
    obtain ⟨hline, hdrop⟩ := of_drop_eq_cons hrest
    rw [closedFrom_cons, List.mem_append, Option.mem_toList, ht.closing_iff hline,
      ih (ht.step hline) hdrop, ← or_and_right]
    refine and_congr_left fun _ => ?_
    omega

theorem closedFrom_ordered (ht : Tracks tag lines k opened) (hrest : lines.drop k = rest) :
    (closedFrom tag (k + 1) opened rest).Pairwise (·.last < ·.first) := by
  induction rest generalizing k opened with
  | nil => exact List.Pairwise.nil
  | cons line rest ih =>
    obtain ⟨hline, hdrop⟩ := of_drop_eq_cons hrest
    rw [closedFrom_cons]
    refine List.pairwise_append.mpr ⟨?_, ih (ht.step hline) hdrop, fun earlier he later hl => ?_⟩
    · cases closing? tag (k + 1) opened line <;> simp
    · obtain ⟨hlast, hspans, -⟩ := (ht.closing_iff hline).mp (Option.mem_toList.mp he)
      obtain ⟨hlt, hlater, -⟩ := (mem_closedFrom (ht.step hline) hdrop).mp hl
      exact hspans.lt_of_lt hlater (by omega)

theorem mem_closed : region ∈ closed tag lines ↔ Spans tag lines region.first region.last ∧
    region.lines = excerpt lines region.first region.last := by
  rw [closed, mem_closedFrom tracks_zero List.drop_zero]
  refine and_iff_right_of_imp fun ⟨hs, _⟩ => ?_
  exact Nat.zero_lt_of_lt hs.lt

theorem closed_ordered : (closed tag lines).Pairwise (·.last < ·.first) :=
  closedFrom_ordered tracks_zero List.drop_zero

end

-- ---------------------------------------------------------------------------
-- What a version has of its regions
-- ---------------------------------------------------------------------------

def rangeText (first last : Nat) : String := "L" ++ toString first ++ "-L" ++ toString last

theorem range_eq (region : Region) : region.range = rangeText region.first region.last := by
  refine String.toList_injective ?_
  simp [range, rangeText, Text.decimal, Nat.toString_eq_repr, Nat.repr]

theorem rangeText_injective {first last other latest : Nat}
    (h : rangeText first last = rangeText other latest) : first = other ∧ last = latest := by
  -- the first number ends at the only dash
  have hsplit (first last : Nat) : Text.splitOnce? '-' (rangeText first last).toList =
      some ('L' :: (toString first).toList, 'L' :: (toString last).toList) := by
    have hno : '-' ∉ 'L' :: (toString first).toList := by
      refine mt List.mem_cons.mp (not_or.mpr ⟨by decide, fun hm => ?_⟩)
      exact absurd (Text.isDigit_of_mem_toString hm) (by decide)
    rw [← Text.splitOnce?_append hno]
    simp [rangeText]
  have he := (hsplit first last).symm.trans (h ▸ hsplit other latest)
  simp only [Option.some.injEq, Prod.mk.injEq, List.cons.injEq, true_and, String.toList_inj] at he
  exact ⟨Text.toString_nat_injective he.1, Text.toString_nat_injective he.2⟩

def spans (tag : List Char) (lines : List (List Char)) : List (Nat × Nat) :=
  (closed tag lines).map fun region => (region.first, region.last)

section
variable {tag : List Char} {lines : List (List Char)} {first last : Nat}

theorem mem_spans : (first, last) ∈ spans tag lines ↔ Spans tag lines first last := by
  rw [spans, List.mem_map]
  constructor
  · rintro ⟨region, hr, he⟩
    cases he
    exact (mem_closed.mp hr).1
  · exact fun hs => ⟨⟨first, last, excerpt lines first last⟩, mem_closed.mpr ⟨hs, rfl⟩, rfl⟩

theorem spans_ordered : (spans tag lines).Pairwise (·.2 < ·.1) :=
  List.pairwise_map.mpr closed_ordered

theorem map_range_closed :
    (closed tag lines).map range = (spans tag lines).map fun span => rangeText span.1 span.2 := by
  rw [spans, List.map_map]
  exact List.map_congr_left fun region _ => region.range_eq

theorem text_closed : text (closed tag lines) = String.ofList (Text.trim
    ((spans tag lines).flatMap fun span => Text.unlines (excerpt lines span.1 span.2))) := by
  rw [text, spans, List.flatMap_map]
  congr 2
  refine List.flatMap_congr fun region hr => ?_
  rw [(mem_closed.mp hr).2]

end

end Region

section
variable {content tag name : String} {nameFor : String → String} {lines : List (List Char)}
  {metadata : Option SampleMetadata} {version : Version} {entries : List (String × Version)}

/-- A version holds the regions of a tag in their order: their ranges, and all their lines with a newline
after each, without the blanks at both ends. -/
def Version.Gathers (version : Version) (tag : String) (lines : List (List Char)) : Prop :=
  ∃ spans : List (Nat × Nat), spans.Pairwise (·.2 < ·.1) ∧
    (∀ first last, (first, last) ∈ spans ↔ Region.Spans tag.toList lines first last) ∧
    version.lines = spans.map (fun span => Region.rangeText span.1 span.2) ∧
    version.content = String.ofList (Text.trim (spans.flatMap fun span =>
      Text.unlines (Region.excerpt lines span.1 span.2)))

theorem extractTag?_eq_some :
    extractTag? metadata lines tag name = some version ↔ Region.closed tag.toList lines ≠ [] ∧
      version = ⟨name, none, (Region.closed tag.toList lines).map Region.range,
        Region.text (Region.closed tag.toList lines),
        (metadata.map (·.notesFor tag)).getD Notes.empty⟩ := by
  unfold extractTag?
  cases hc : Region.closed tag.toList lines with
  | nil => simp
  | cons region regions => simp [eq_comm]

theorem extractTag?_gathers (h : extractTag? metadata lines tag name = some version) :
    version.Gathers tag lines := by
  obtain ⟨-, rfl⟩ := extractTag?_eq_some.mp h
  exact ⟨Region.spans tag.toList lines, Region.spans_ordered, fun _ _ => Region.mem_spans,
    Region.map_range_closed, Region.text_closed⟩

theorem exists_extractTag?_iff : (∃ version, extractTag? metadata lines tag name = some version) ↔
    ∃ first last, Region.Spans tag.toList lines first last := by
  simp only [extractTag?_eq_some, exists_and_left, exists_eq, and_true]
  constructor
  · intro hne
    obtain ⟨region, hr⟩ := List.exists_mem_of_ne_nil _ hne
    exact ⟨region.first, region.last, (Region.mem_closed.mp hr).1⟩
  · rintro ⟨first, last, hs⟩
    have hr : ⟨first, last, Region.excerpt lines first last⟩ ∈ Region.closed tag.toList lines :=
      Region.mem_closed.mpr ⟨hs, rfl⟩
    exact List.ne_nil_of_mem hr

theorem Region.Starts.infix {tag text : List Char} {number : Nat}
    (h : Region.Starts tag (Text.splitLines text) number) : Region.startMark tag <:+: text := by
  obtain ⟨line, hline, hmark, -⟩ := h
  exact hmark.trans (Text.infix_of_mem_splitLines (List.mem_of_getElem? hline.2))

theorem exists_mem_extract_iff (h : extract content nameFor = .ok entries) :
    (∃ version, (tag, version) ∈ entries) ↔ IsTag tag ∧
      ∃ first last, Region.Spans tag.toList (Text.splitLines content.toList) first last := by
  obtain ⟨metadata, hm, -⟩ := (extract_ok nameFor).mp h
  simp only [mem_extract h, hm, Except.ok.injEq, exists_eq_left', exists_and_left,
    exists_extractTag?_iff, Region.mem_distinctTags]
  constructor
  · rintro ⟨⟨ht, -⟩, hs⟩
    exact ⟨ht, hs⟩
  · rintro ⟨ht, first, last, hs⟩
    exact ⟨⟨ht, hs.starts.infix⟩, first, last, hs⟩

theorem gathers_of_mem_extract (h : extract content nameFor = .ok entries)
    (hm : (tag, version) ∈ entries) : version.Gathers tag (Text.splitLines content.toList) := by
  obtain ⟨-, _, -, hv⟩ := (mem_extract h).mp hm
  exact extractTag?_gathers hv

theorem extract_sorted (h : extract content nameFor = .ok entries) :
    (entries.map (·.1)).Pairwise (· < ·) := by
  obtain ⟨metadata, -, rfl⟩ := (extract_ok nameFor).mp h
  refine List.pairwise_map.mpr ((Region.distinctTags_sorted content).filterMap _ ?_)
  intro tag other hlt first hf second hs
  obtain ⟨_, -, rfl⟩ := Option.map_eq_some_iff.mp hf
  obtain ⟨_, -, rfl⟩ := Option.map_eq_some_iff.mp hs
  exact hlt

/-- A text whose metadata can be read has one entry for each tag that has a region, and that entry holds
all regions of the tag. -/
theorem extract_regions (nameFor : String → String)
    (h : SampleMetadata.ofSource SampleMetadata.ofYaml? content = .ok metadata) :
    ∃ entries, extract content nameFor = .ok entries ∧
      (entries.map (·.1)).Pairwise (· < ·) ∧
      ∀ tag, ((∃ version, (tag, version) ∈ entries) ↔ IsTag tag ∧
          ∃ first last, Region.Spans tag.toList (Text.splitLines content.toList) first last) ∧
        ∀ version, (tag, version) ∈ entries →
          version.Gathers tag (Text.splitLines content.toList) := by
  obtain ⟨entries, he⟩ : ∃ entries, extract content nameFor = .ok entries :=
    ⟨_, (extract_ok nameFor).mpr ⟨metadata, h, rfl⟩⟩
  refine ⟨entries, he, extract_sorted he, fun tag => ⟨exists_mem_extract_iff he, ?_⟩⟩
  exact fun version hm => gathers_of_mem_extract he hm

end

namespace Sample

def restarted : String :=
  "# sample-metadata:\n#   title: Upload\n\n" ++
  "# [START demo]\nold\n# [START demo] [END demo]\nnew\n# [START aux]\n" ++
  "#   :end-before: [END demo]\n# [END demo]\n# [END aux]\n" ++
  "# [START demo]\nx\n# [END demo]\n# [START demo]\n"

end Sample

theorem extract_regions_restarted :
    ∃ metadata, SampleMetadata.ofSource SampleMetadata.ofYaml? Sample.restarted = .ok metadata ∧
      metadata.isSome = true ∧
      ∃ entries, extract Sample.restarted id = .ok entries ∧
        entries.map (fun entry => (entry.1, entry.2.lines)) =
          [("aux", ["L8-L11"]), ("demo", ["L6-L10", "L12-L14"])] ∧
        (entries.map (·.1)).Pairwise (· < ·) ∧
        ∀ tag, ((∃ version, (tag, version) ∈ entries) ↔ IsTag tag ∧ ∃ first last,
            Region.Spans tag.toList (Text.splitLines Sample.restarted.toList) first last) ∧
          ∀ version, (tag, version) ∈ entries →
            version.Gathers tag (Text.splitLines Sample.restarted.toList) := by
  obtain ⟨metadata, hm, hsome⟩ :
      ∃ metadata, SampleMetadata.ofSource SampleMetadata.ofYaml? Sample.restarted = .ok metadata ∧
        metadata.isSome = true :=
    ok_of_any (by decide +kernel)
  obtain ⟨entries, he, hlines⟩ : ∃ entries, extract Sample.restarted id = .ok entries ∧
      (entries.map (fun entry => (entry.1, entry.2.lines)) ==
        [("aux", ["L8-L11"]), ("demo", ["L6-L10", "L12-L14"])]) = true :=
    ok_of_any (by decide +kernel)
  obtain ⟨found, hf, hrest⟩ := extract_regions id hm
  cases he.symm.trans hf
  exact ⟨metadata, hm, hsome, entries, he, beq_iff_eq.mp hlines, hrest⟩

end SnippetTrail
