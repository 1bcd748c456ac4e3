import Mathlib.Data.List.DropRight
import Mathlib.Data.List.Forall2
import SnippetTrail.Proofs.MetadataBlock
import SnippetTrail.Proofs.Regions

/-!
# Extracting an extracted text

The lines of a region are a start, idle lines and an end (`IsBlock`). Where nothing is open, the scanner
closes such lines as one region, whatever follows (`IsBlock.closedFrom`), and so it finds regions again
whose lines are put one behind another. Trimming their text changes only the first line and the last one,
and takes no mark from them (`alike_trimStart`, `alike_trimEnd`). What is extracted from an extracted text
is therefore the text itself (`extractTag?_content`).
-/

namespace SnippetTrail

-- ---------------------------------------------------------------------------
-- Blanks at the ends of lines
-- ---------------------------------------------------------------------------

namespace Text

variable {mark text line start last rest : List Char} {inner : List (List Char)}

theorem infix_trimStart (hm : trimStart mark = mark) : mark <:+: trimStart text ↔ mark <:+: text := by
  constructor
  · exact fun h => h.trans (List.dropWhile_suffix isBlank).isInfix
  · intro h
    induction text with
    | nil => exact h
    | cons c text ih =>
      by_cases hc : isBlank c = true
      · rw [trimStart, List.dropWhile_cons_of_pos hc]
        rcases List.infix_cons_iff.mp h with hp | hi
        · -- what begins here, and with no blank, is empty
          cases mark with
          | nil => exact List.nil_infix
          | cons d mark =>
            obtain ⟨rfl, -⟩ := List.cons_prefix_cons.mp hp
            rw [trimStart, List.dropWhile_cons_of_pos hc] at hm
            have hlen := (List.dropWhile_suffix isBlank (l := mark)).length_le
            rw [hm, List.length_cons] at hlen
            omega
        · exact ih hi
      · rwa [trimStart, List.dropWhile_cons_of_neg hc]

theorem trimEnd_eq_reverse : trimEnd text = (trimStart text.reverse).reverse := rfl

theorem infix_trimEnd (hm : trimEnd mark = mark) : mark <:+: trimEnd text ↔ mark <:+: text := by
  have hr : trimStart mark.reverse = mark.reverse := by
    rw [← List.reverse_inj, ← trimEnd_eq_reverse, hm, List.reverse_reverse]
  rw [← List.reverse_infix, trimEnd_eq_reverse, List.reverse_reverse, infix_trimStart hr,
    List.reverse_infix]

def IsBare (mark : List Char) : Prop := trimStart mark = mark ∧ trimEnd mark = mark

theorem IsBare.occursIn_trimStart (h : IsBare mark) :
    occursIn mark (trimStart text) = occursIn mark text := by
  rw [Bool.eq_iff_iff, occursIn_iff, occursIn_iff, infix_trimStart h.1]

theorem IsBare.occursIn_trimEnd (h : IsBare mark) :
    occursIn mark (trimEnd text) = occursIn mark text := by
  rw [Bool.eq_iff_iff, occursIn_iff, occursIn_iff, infix_trimEnd h.2]

theorem isBare_bracketed (inside : List Char) : IsBare ('[' :: inside ++ [']']) :=
  ⟨rfl, List.rdropWhile_concat_neg isBlank ('[' :: inside) ']' (by decide)⟩

theorem trimStart_append (h : trimStart line ≠ []) :
    trimStart (line ++ rest) = trimStart line ++ rest := by
  have hne : ¬(line.dropWhile isBlank).isEmpty = true := mt List.isEmpty_iff.mp h
  rw [trimStart, List.dropWhile_append, if_neg hne, trimStart]

theorem trimEnd_append (h : trimEnd line ≠ []) : trimEnd (rest ++ line) = rest ++ trimEnd line := by
  have hr : trimStart line.reverse ≠ [] := fun he => h (by rw [trimEnd_eq_reverse, he]; rfl)
  rw [trimEnd_eq_reverse, List.reverse_append, trimStart_append hr, List.reverse_append,
    List.reverse_reverse, ← trimEnd_eq_reverse]

theorem trimEnd_newline : trimEnd (line ++ ['\n']) = trimEnd line :=
  List.rdropWhile_concat_pos isBlank line '\n' (by decide)

/-- Where neither the first nor the last line is blank, trimming takes the blanks before the one and behind
the other. -/
theorem trim_unlines (hs : trimStart start ≠ []) (hl : trimEnd last ≠ []) :
    trim (unlines (start :: inner ++ [last])) =
      unlines (trimStart start :: inner) ++ trimEnd last := by
  have hlast : trimEnd (last ++ ['\n']) ≠ [] := by rwa [trimEnd_newline]
  rw [trim, List.cons_append, unlines_cons, trimStart_append hs, unlines_append, unlines_cons,
    unlines_cons, unlines_nil, ← List.cons_append, ← List.append_assoc, trimEnd_append hlast,
    trimEnd_newline]

theorem IsInline.subset (h : IsInline line) (hs : rest ⊆ line) : IsInline rest :=
  ⟨fun hm => h.1 (hs hm), fun hm => h.2 (hs hm)⟩

theorem splitLines_single (hi : IsInline line) (hne : line ≠ []) : splitLines line = [line] := by
  induction line with
  | nil => exact absurd rfl hne
  | cons c line ih =>
    have hn : c ≠ '\n' := fun hc => hi.1 (hc ▸ List.mem_cons_self)
    have hr : c ≠ '\r' := fun hc => hi.2 (hc ▸ List.mem_cons_self)
    cases line with
    | nil => simp [splitLines]
    | cons d line => simp [splitLines, hr, ih hi.tail (List.cons_ne_nil _ _)]

theorem newline_not_mem_splitLines (h : line ∈ splitLines text) : '\n' ∉ line := by
  fun_induction splitLines text generalizing line with
  | case1 => cases h
  | case2 rest ih =>
    rcases List.mem_cons.mp h with rfl | h
    · exact List.not_mem_nil
    · exact ih h
  | case3 rest ih =>
    rcases List.mem_cons.mp h with rfl | h
    · exact List.not_mem_nil
    · exact ih h
  | case4 c rest hn =>
    cases List.mem_singleton.mp h
    exact mt List.mem_singleton.mp (Ne.symm hn)
  | case5 c rest hn _ first others hs ih =>
    rw [hs] at ih
    rcases List.mem_cons.mp h with rfl | h
    · exact mt List.mem_cons.mp (not_or.mpr ⟨Ne.symm hn, ih List.mem_cons_self⟩)
    · exact ih (List.mem_cons_of_mem _ h)

theorem isInline_of_mem_splitLines (hr : '\r' ∉ text) (h : line ∈ splitLines text) :
    IsInline line :=
  ⟨newline_not_mem_splitLines h, fun hm => hr ((infix_of_mem_splitLines h).subset hm)⟩

theorem splitLines_trim (hi : ∀ line ∈ start :: inner ++ [last], IsInline line)
    (hs : trimStart start ≠ []) (hl : trimEnd last ≠ []) :
    splitLines (trim (unlines (start :: inner ++ [last]))) =
      trimStart start :: inner ++ [trimEnd last] := by
  obtain ⟨hfront, hlast⟩ := List.forall_mem_append.mp hi
  obtain ⟨hstart, hinner⟩ := List.forall_mem_cons.mp hfront
  have htrimmed : ∀ line ∈ trimStart start :: inner, IsInline line :=
    List.forall_mem_cons.mpr ⟨hstart.subset (List.dropWhile_suffix isBlank).subset, hinner⟩
  have hend : IsInline (trimEnd last) :=
    (hlast last List.mem_cons_self).subset (List.rdropWhile_prefix isBlank last).subset
  rw [trim_unlines hs hl, splitLines_unlines htrimmed, splitLines_single hend hl]

theorem trim_unlines_trimmed (hs : trimStart start ≠ []) (hl : trimEnd last ≠ []) :
    trim (unlines (trimStart start :: inner ++ [trimEnd last])) =
      trim (unlines (start :: inner ++ [last])) := by
  have hstart : trimStart (trimStart start) = trimStart start := List.dropWhile_idempotent isBlank _
  have hlast : trimEnd (trimEnd last) = trimEnd last := List.rdropWhile_idempotent isBlank _
  have hs' : trimStart (trimStart start) ≠ [] := by rwa [hstart]
  have hl' : trimEnd (trimEnd last) ≠ [] := by rwa [hlast]
  rw [trim_unlines hs' hl', trim_unlines hs hl, hstart, hlast]

end Text

-- ---------------------------------------------------------------------------
-- Lists that agree place by place
-- ---------------------------------------------------------------------------

theorem forall_mem_of_forall₂ {R : α → β → Prop} {P : α → Prop} {Q : β → Prop} {items : List α}
    {others : List β} (h : List.Forall₂ R items others) (hp : ∀ a ∈ items, P a)
    (hstep : ∀ a b, R a b → P a → Q b) : ∀ b ∈ others, Q b := by
  induction h with
  | nil => simp
  | cons hab _ ih =>
    obtain ⟨ha, hrest⟩ := List.forall_mem_cons.mp hp
    exact List.forall_mem_cons.mpr ⟨hstep _ _ hab ha, ih hrest⟩

theorem exists_append_of_forall₂ {R : α → β → Prop} {first rest : List α} {others : List β}
    (h : List.Forall₂ R (first ++ rest) others) :
    ∃ front back, others = front ++ back ∧ List.Forall₂ R first front ∧ List.Forall₂ R rest back := by
  refine ⟨others.take first.length, others.drop first.length, (List.take_append_drop _ _).symm, ?_, ?_⟩
  · simpa using List.forall₂_take first.length h
  · simpa using List.forall₂_drop first.length h

theorem exists_flatten_of_forall₂ {R : α → β → Prop} {blocks : List (List α)} {others : List β}
    (h : List.Forall₂ R blocks.flatten others) :
    ∃ parts, others = parts.flatten ∧ List.Forall₂ (List.Forall₂ R) blocks parts := by
  induction blocks generalizing others with
  | nil => exact ⟨[], List.forall₂_nil_left_iff.mp h, .nil⟩
  | cons block blocks ih =>
    obtain ⟨front, back, rfl, hfront, hback⟩ := exists_append_of_forall₂ h
    obtain ⟨parts, rfl, hparts⟩ := ih hback
    exact ⟨front :: parts, rfl, .cons hfront hparts⟩

namespace Region

section
variable {tag line other : List Char} {inner rest block lines others : List (List Char)}
  {blocks parts : List (List (List Char))} {number first k : Nat} {region : Region}
  {regions : List Region}

-- ---------------------------------------------------------------------------
-- The lines of one region
-- ---------------------------------------------------------------------------

def Idle (tag line : List Char) : Prop := opens tag line = false ∧ closes tag line = false

/-- The lines of one region: a start, idle lines and an end. -/
inductive IsBlock (tag : List Char) : List (List Char) → Prop
  | mk {start last : List Char} {inner : List (List Char)} : opens tag start = true →
      (∀ line ∈ inner, Idle tag line) → opens tag last = false → closes tag last = true →
      IsBlock tag (start :: inner ++ [last])

theorem OpenAfter.excerpt (h : OpenAfter tag lines k first) (hk : k ≤ lines.length) :
    ∃ start inner, excerpt lines first k = start :: inner ∧ opens tag start = true ∧
      (∀ line ∈ inner, Idle tag line) ∧ first + inner.length = k := by
  induction k, h.le using Nat.le_induction with
  | base =>
    obtain ⟨start, hline, -⟩ := h.starts
    have hopens : opens tag start = true := (starts_iff hline).mp h.starts
    obtain ⟨n, rfl⟩ : ∃ n, first = n + 1 := Nat.exists_eq_add_one.mpr h.starts.pos
    exact ⟨start, [], excerpt_self (lineAt_succ.mp hline), hopens, by simp, rfl⟩
  | succ k hle ih =>
    obtain ⟨hstart, hend⟩ := h.idle (k + 1) (Nat.lt_succ_of_le hle) (Nat.le_refl _)
    obtain ⟨hopen, -⟩ := (openAfter_of_not_starts hstart).mp h
    obtain ⟨start, inner, he, hopens, hinner, hlen⟩ := ih hopen (Nat.le_of_lt hk)
    obtain ⟨line, hline⟩ : ∃ line, lines[k]? = some line := ⟨_, List.getElem?_eq_getElem hk⟩
    have hat : LineAt lines (k + 1) line := lineAt_succ.mpr hline
    have hidle : Idle tag line :=
      ⟨eq_false_of_ne_true (mt (starts_iff hat).mpr hstart),
        eq_false_of_ne_true (mt (ends_iff hat).mpr hend)⟩
    refine ⟨start, inner ++ [line], ?_, hopens, ?_, ?_⟩
    · rw [excerpt_succ hline hle, he, List.cons_append]
    · exact List.forall_mem_append.mpr ⟨hinner, List.forall_mem_singleton.mpr hidle⟩
    · rw [List.length_append, List.length_singleton, ← Nat.add_assoc, hlen]

structure IsWhole (tag : List Char) (region : Region) : Prop where
  block : IsBlock tag region.lines
  count : region.first + region.lines.length = region.last + 1

theorem isWhole_of_mem_closed (h : region ∈ closed tag lines) : region.IsWhole tag := by
  obtain ⟨hs, hlines⟩ := mem_closed.mp h
  obtain ⟨k, hlast, hopen⟩ := hs.exists_openAfter
  rw [hlast] at hs
  obtain ⟨last, hat, -⟩ := hs.ends
  have hline : lines[k]? = some last := lineAt_succ.mp hat
  have hcloses : closes tag last = true := (ends_iff hat).mp hs.ends
  have hopens : opens tag last = false :=
    eq_false_of_ne_true (mt (starts_iff hat).mpr (hs.no_start (k + 1) hs.lt (Nat.le_refl _)))
  obtain ⟨start, inner, he, hstart, hinner, hlen⟩ := hopen.excerpt (Nat.le_of_lt hs.ends.le_length)
  have hexcerpt : region.lines = start :: inner ++ [last] := by
    rw [hlines, hlast, excerpt_succ hline hopen.le, he]
  refine ⟨hexcerpt ▸ .mk hstart hinner hopens hcloses, ?_⟩
  rw [hexcerpt, hlast, ← hlen]
  simp [Nat.add_assoc]

theorem subset_of_mem_closed (h : region ∈ closed tag lines) : region.lines ⊆ lines := by
  rw [(mem_closed.mp h).2]
  exact fun line hm => List.mem_of_mem_take (List.mem_of_mem_drop hm)

theorem IsBlock.length_pos (h : IsBlock tag block) : 0 < block.length := by
  cases h
  simp

theorem exists_ends_of_blocks (h : ∀ block ∈ blocks, IsBlock tag block) (hne : blocks ≠ []) :
    ∃ start inner last, blocks.flatten = start :: inner ++ [last] ∧ opens tag start = true ∧
      closes tag last = true := by
  induction blocks with
  | nil => exact absurd rfl hne
  | cons block blocks ih =>
    obtain ⟨hblock, hblocks⟩ := List.forall_mem_cons.mp h
    cases hblock with
    | @mk start last inner hstart _ _ hlast =>
      by_cases hb : blocks = []
      · subst hb
        exact ⟨start, inner, last, by simp, hstart, hlast⟩
      · obtain ⟨next, more, final, he, -, hfinal⟩ := ih hblocks hb
        exact ⟨start, inner ++ last :: next :: more, final, by simp [he], hstart, hfinal⟩

-- ---------------------------------------------------------------------------
-- Scanning the lines of regions
-- ---------------------------------------------------------------------------

theorem closedFrom_inner {earlier : List (List Char)} (h : ∀ line ∈ inner, Idle tag line) :
    closedFrom tag number (some ⟨first, earlier⟩) (inner ++ rest) =
      closedFrom tag (number + inner.length) (some ⟨first, inner.reverse ++ earlier⟩) rest := by
  induction inner generalizing number earlier with
  | nil => rfl
  | cons line inner ih =>
    obtain ⟨⟨hopens, hcloses⟩, hinner⟩ := List.forall_mem_cons.mp h
    rw [List.cons_append, closedFrom]
    simp only [hopens, hcloses, Bool.false_eq_true, ↓reduceIte]
    rw [ih hinner, List.reverse_cons, List.append_assoc, List.length_cons, Nat.add_right_comm]
    rfl

/-- Where nothing is open, the lines of a region are closed as one, whatever follows. -/
theorem IsBlock.closedFrom (h : IsBlock tag block) :
    closedFrom tag number none (block ++ rest) =
      ⟨number, number + block.length - 1, block⟩ ::
        closedFrom tag (number + block.length) none rest := by
  cases h with
  | @mk start last inner hstart hinner hopens hcloses =>
    have hlen : (start :: inner ++ [last]).length = inner.length + 2 := by simp
    have hlines : (last :: (inner.reverse ++ [start])).reverse = start :: inner ++ [last] := by simp
    rw [hlen, List.append_assoc, List.cons_append, Region.closedFrom, if_pos hstart,
      closedFrom_inner hinner, List.singleton_append, Region.closedFrom]
    simp only [hopens, hcloses, Bool.false_eq_true, ↓reduceIte, hlines]
    rw [Nat.add_right_comm number 1, Nat.add_assoc number, Nat.add_assoc number]
    rfl

def stacked : Nat → List (List (List Char)) → List Region
  | _, [] => []
  | number, block :: rest =>
    ⟨number, number + block.length - 1, block⟩ :: stacked (number + block.length) rest

theorem closedFrom_flatten (h : ∀ block ∈ blocks, IsBlock tag block) :
    closedFrom tag number none blocks.flatten = stacked number blocks := by
  induction blocks generalizing number with
  | nil => rfl
  | cons block blocks ih =>
    obtain ⟨hblock, hblocks⟩ := List.forall_mem_cons.mp h
    rw [List.flatten_cons, hblock.closedFrom, ih hblocks, stacked]

theorem map_lines_stacked : (stacked number blocks).map (·.lines) = blocks := by
  induction blocks generalizing number with
  | nil => rfl
  | cons block blocks ih => rw [stacked, List.map_cons, ih]

-- ---------------------------------------------------------------------------
-- Lines with the same marks
-- ---------------------------------------------------------------------------

def Alike (tag line other : List Char) : Prop :=
  opens tag other = opens tag line ∧ closes tag other = closes tag line

theorem Alike.idle (h : Alike tag line other) (hi : Idle tag line) : Idle tag other :=
  ⟨h.1.trans hi.1, h.2.trans hi.2⟩

theorem isBare_startMark : Text.IsBare (startMark tag) := Text.isBare_bracketed ("START ".toList ++ tag)

theorem isBare_endMark : Text.IsBare (endMark tag) := Text.isBare_bracketed ("END ".toList ++ tag)

theorem isBare_startWord : Text.IsBare ":start-after:".toList := ⟨by decide, by decide⟩

theorem isBare_endWord : Text.IsBare ":end-before:".toList := ⟨by decide, by decide⟩

theorem alike_trimStart : Alike tag line (Text.trimStart line) := by
  constructor
  · rw [opens, opens, isBare_startMark.occursIn_trimStart, isBare_startWord.occursIn_trimStart]
  · rw [closes, closes, isBare_endMark.occursIn_trimStart, isBare_endWord.occursIn_trimStart]

theorem alike_trimEnd : Alike tag line (Text.trimEnd line) := by
  constructor
  · rw [opens, opens, isBare_startMark.occursIn_trimEnd, isBare_startWord.occursIn_trimEnd]
  · rw [closes, closes, isBare_endMark.occursIn_trimEnd, isBare_endWord.occursIn_trimEnd]

theorem IsBlock.alike (hb : IsBlock tag block) (h : List.Forall₂ (Alike tag) block others) :
    IsBlock tag others := by
  cases hb with
  | @mk start last inner hstart hinner hopens hcloses =>
    obtain ⟨front, back, rfl, hfront, hback⟩ := exists_append_of_forall₂ h
    cases hfront with
    | @cons _ first _ middle hs hmiddle =>
      cases hback with
      | @cons _ final _ _ hl hnil =>
        cases hnil
        have hidle : ∀ line ∈ middle, Idle tag line :=
          forall_mem_of_forall₂ hmiddle hinner fun _ _ => Alike.idle
        have hfirst : opens tag first = true := hs.1.trans hstart
        have hfinal : opens tag final = false := hl.1.trans hopens
        have hend : closes tag final = true := hl.2.trans hcloses
        exact .mk hfirst hidle hfinal hend

theorem opens_nil : opens tag [] = false := rfl

theorem closes_nil : closes tag [] = false := rfl

theorem trimStart_ne_nil (h : opens tag line = true) : Text.trimStart line ≠ [] := by
  intro he
  have hopens : opens tag (Text.trimStart line) = true := alike_trimStart.1.trans h
  rw [he, opens_nil] at hopens
  cases hopens

theorem trimEnd_ne_nil (h : closes tag line = true) : Text.trimEnd line ≠ [] := by
  intro he
  have hcloses : closes tag (Text.trimEnd line) = true := alike_trimEnd.2.trans h
  rw [he, closes_nil] at hcloses
  cases hcloses

theorem toList_text (regions : List Region) :
    (text regions).toList = Text.trim (Text.unlines (regions.map (·.lines)).flatten) := by
  rw [text, String.toList_ofList, Text.unlines, ← List.flatMap_def, List.flatMap_assoc]
  rfl

/-- The lines of an extracted text fall into parts, one for each region, with the marks of its lines, and
putting them one behind another gives the text again. -/
theorem exists_parts {content : List Char} (hr : '\r' ∉ content)
    (hregions : closed tag (Text.splitLines content) = regions) (hne : regions ≠ []) :
    ∃ parts, Text.splitLines (text regions).toList = parts.flatten ∧
      List.Forall₂ (List.Forall₂ (Alike tag)) (regions.map (·.lines)) parts ∧
      Text.trim (Text.unlines parts.flatten) = (text regions).toList := by
  have hblocks : ∀ block ∈ regions.map (·.lines), IsBlock tag block := by
    refine List.forall_mem_map.mpr fun region hm => ?_
    exact (isWhole_of_mem_closed (hregions ▸ hm)).block
  have hinline : ∀ line ∈ (regions.map (·.lines)).flatten, Text.IsInline line := by
    intro line hm
    obtain ⟨block, hblock, hline⟩ := List.mem_flatten.mp hm
    obtain ⟨region, hregion, rfl⟩ := List.mem_map.mp hblock
    exact Text.isInline_of_mem_splitLines hr (subset_of_mem_closed (hregions ▸ hregion) hline)
  obtain ⟨start, inner, last, hflat, hopens, hcloses⟩ :=
    exists_ends_of_blocks hblocks (mt List.map_eq_nil_iff.mp hne)
  have hs := trimStart_ne_nil hopens
  have hl := trimEnd_ne_nil hcloses
  -- trimming the text changes the ends of these lines, and a region has two lines at least
  have halike : List.Forall₂ (Alike tag) (regions.map (·.lines)).flatten
      (Text.trimStart start :: inner ++ [Text.trimEnd last]) := by
    rw [hflat]
    have hinner : List.Forall₂ (Alike tag) inner inner :=
      List.forall₂_same.mpr fun _ _ => ⟨rfl, rfl⟩
    exact List.rel_append (.cons alike_trimStart hinner) (.cons alike_trimEnd .nil)
  obtain ⟨parts, hparts, hall⟩ := exists_flatten_of_forall₂ halike
  rw [hflat] at hinline
  refine ⟨parts, ?_, hall, ?_⟩
  · rw [toList_text, hflat, Text.splitLines_trim hinline hs hl, hparts]
  · rw [toList_text, hflat, ← hparts, Text.trim_unlines_trimmed hs hl]

-- ---------------------------------------------------------------------------
-- Regions put together
-- ---------------------------------------------------------------------------

/-- The same regions, each with as many lines as before, one directly behind another from the first line
on. -/
structure PutTogether (spans others : List (Nat × Nat)) : Prop where
  lengths : List.Forall₂ (fun span other => span.1 + other.2 = other.1 + span.2) spans others
  first : ∀ other ∈ others.head?, other.1 = 1
  next : others.IsChain fun other following => following.1 = other.2 + 1

theorem head?_stacked : ∀ region ∈ (stacked number parts).head?, region.first = number := by
  cases parts with
  | nil => simp [stacked]
  | cons part parts => simp [stacked]

theorem lengths_stacked
    (h : List.Forall₂ (fun region part => 0 < part.length ∧
      region.first + part.length = region.last + 1) regions parts) :
    List.Forall₂ (fun region other => region.first + other.last = other.first + region.last) regions
      (stacked number parts) := by
  induction h generalizing number with
  | nil => exact .nil
  | cons hpart _ ih =>
    obtain ⟨hpos, hlen⟩ := hpart
    refine .cons ?_ ih
    simp only
    omega

theorem isChain_stacked (h : ∀ part ∈ parts, 0 < part.length) :
    (stacked number parts).IsChain fun region next => next.first = region.last + 1 := by
  induction parts generalizing number with
  | nil => exact .nil
  | cons part parts ih =>
    obtain ⟨hpart, hparts⟩ := List.forall_mem_cons.mp h
    refine List.isChain_cons.mpr ⟨fun next hnext => ?_, ih hparts⟩
    rw [head?_stacked next hnext]
    simp only
    omega

/-- In an extracted text stand the regions that it was made of, put together, and nothing else. -/
theorem closed_text {content : List Char} (hr : '\r' ∉ content)
    (hregions : closed tag (Text.splitLines content) = regions) (hne : regions ≠ []) :
    closed tag (Text.splitLines (text regions).toList) ≠ [] ∧
      text (closed tag (Text.splitLines (text regions).toList)) = text regions ∧
      PutTogether (spans tag (Text.splitLines content))
        (spans tag (Text.splitLines (text regions).toList)) := by
  obtain ⟨parts, hlines, halike, htext⟩ := exists_parts hr hregions hne
  have hwhole (region : Region) (hm : region ∈ regions) : region.IsWhole tag :=
    isWhole_of_mem_closed (hregions ▸ hm)
  have hboth := (List.forall₂_and_left _ _).mpr ⟨hwhole, List.forall₂_map_left_iff.mp halike⟩
  have hparts : ∀ part ∈ parts, IsBlock tag part :=
    forall_mem_of_forall₂ hboth (fun _ _ => trivial) fun _ _ h _ => h.1.block.alike h.2
  have hlengths : List.Forall₂ (fun region part => 0 < part.length ∧
      region.first + part.length = region.last + 1) regions parts := by
    refine hboth.imp fun region part ⟨hw, ha⟩ => ⟨(hw.block.alike ha).length_pos, ?_⟩
    rw [← ha.length_eq, hw.count]
  have hclosed : closed tag (Text.splitLines (text regions).toList) = stacked 1 parts := by
    rw [hlines, closed, closedFrom_flatten hparts]
  have hlist : List.Forall₂ (fun region other => region.first + other.last = other.first + region.last)
      regions (stacked 1 parts) := lengths_stacked hlengths
  refine ⟨?_, ?_, ?_, ?_, ?_⟩
  · intro he
    rw [← hclosed, he] at hlist
    exact hne (List.forall₂_nil_right_iff.mp hlist)
  · rw [hclosed, ← String.toList_inj, toList_text, map_lines_stacked, htext]
  · rw [spans, spans, hclosed, hregions, List.forall₂_map_left_iff, List.forall₂_map_right_iff]
    exact hlist
  · intro other ho
    rw [spans, hclosed, List.head?_map] at ho
    obtain ⟨region, hregion, rfl⟩ := Option.map_eq_some_iff.mp ho
    exact head?_stacked region hregion
  · rw [spans, hclosed, List.isChain_map]
    exact isChain_stacked fun part hm => (hparts part hm).length_pos

end

end Region

section
open Region

variable {content tag name : String} {metadata : Option SampleMetadata} {version : Version}
  {lines : List (List Char)}

def Version.PutsTogether (again version : Version) : Prop :=
  ∃ spans others, version.lines = spans.map (fun span => rangeText span.1 span.2) ∧
    again.lines = others.map (fun span => rangeText span.1 span.2) ∧ PutTogether spans others

theorem extractTag?_lines (h : extractTag? metadata lines tag name = some version) :
    version.lines = (spans tag.toList lines).map fun span => rangeText span.1 span.2 := by
  obtain ⟨-, rfl⟩ := extractTag?_eq_some.mp h
  exact map_range_closed

theorem extractTag?_text (h : extractTag? metadata lines tag name = some version) :
    version.content = text (closed tag.toList lines) := by
  obtain ⟨-, rfl⟩ := extractTag?_eq_some.mp h
  rfl

/-- What is extracted for a tag from a text without carriage returns is extracted from itself again, with
the same regions put together. -/
theorem extractTag?_content (hr : '\r' ∉ content.toList)
    (h : extractTag? metadata (Text.splitLines content.toList) tag name = some version)
    (other : Option SampleMetadata) (another : String) :
    ∃ again, extractTag? other (Text.splitLines version.content.toList) tag another = some again ∧
      again.content = version.content ∧ again.PutsTogether version := by
  obtain ⟨hagain, htext, hspans⟩ := closed_text hr rfl (extractTag?_eq_some.mp h).1
  rw [← extractTag?_text h] at hagain htext hspans
  obtain ⟨again, ha⟩ : ∃ again,
      extractTag? other (Text.splitLines version.content.toList) tag another = some again :=
    ⟨_, extractTag?_eq_some.mpr ⟨hagain, rfl⟩⟩
  refine ⟨again, ha, ?_, _, _, extractTag?_lines h, extractTag?_lines ha, hspans⟩
  rw [extractTag?_text ha, htext]

end

namespace Sample

/-- Two regions with blanks around their marks, the first begun anew and the second with a line that
only looks like an end, before one that does not end. -/
def indented : String :=
  "import x\n  # [START demo]\nold\n\t# [START demo] \n x \n\n# [END demo]\n\n" ++
  "// [START demo] [END demo]\n#   :end-before: [END demo]\ny\n // [END demo]\u2003\t\n\n" ++
  "# [START demo]\nz\n"

end Sample

theorem extractTag?_content_indented :
    '\r' ∉ Sample.indented.toList ∧
      ∃ version, extractTag? none (Text.splitLines Sample.indented.toList) "demo" "first" =
          some version ∧
        version.lines = ["L4-L7", "L9-L12"] ∧
        ∃ again, extractTag? none (Text.splitLines version.content.toList) "demo" "second" =
            some again ∧
          again.lines = ["L1-L4", "L5-L8"] ∧
          again.content = version.content ∧ again.PutsTogether version := by
  have hr : '\r' ∉ Sample.indented.toList := by decide +kernel
  obtain ⟨version, h, hfound⟩ : ∃ version,
      extractTag? none (Text.splitLines Sample.indented.toList) "demo" "first" = some version ∧
        (version.lines == ["L4-L7", "L9-L12"] &&
          (extractTag? none (Text.splitLines version.content.toList) "demo" "second").any
            (·.lines == ["L1-L4", "L5-L8"])) = true :=
    (Option.any_eq_true _ _).mp (by decide +kernel)
  obtain ⟨again, ha, hcontent, hputs⟩ := extractTag?_content hr h none "second"
  rw [ha, Option.any_some, Bool.and_eq_true_iff] at hfound
  exact ⟨hr, version, h, beq_iff_eq.mp hfound.1, again, ha, beq_iff_eq.mp hfound.2, hcontent, hputs⟩

end SnippetTrail
