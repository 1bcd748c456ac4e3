import Mathlib.Data.List.TakeDrop
import Mathlib.Data.List.TakeWhile
import SnippetTrail.Text.Lines
import SnippetTrail.Text.Scan
import SnippetTrail.Text.Search

/-!
# Matching lines

What the matchers read from a text that is made of known pieces. Lines are `splitAt_unlines` apart
again if they have no newline of their own, and a matcher whose matches start with a mark passes over
all lines without the mark (`findAll_unlines`).
-/

namespace SnippetTrail.Text

variable {mark line rest : List Char} {lines : List (List Char)}

-- ---------------------------------------------------------------------------
-- Pieces
-- ---------------------------------------------------------------------------

@[simp] theorem stripStart?_append (start rest : List Char) :
    stripStart? start (start ++ rest) = some rest := by
  induction start with
  | nil => rfl
  | cons c start ih => simp [stripStart?, ih]

theorem eq_append_of_stripStart? {start text : List Char} (h : stripStart? start text = some rest) :
    text = start ++ rest := by
  induction start generalizing text with
  | nil => exact Option.some.inj h
  | cons p start ih =>
    cases text with
    | nil => cases h
    | cons c text =>
      simp only [stripStart?, beq_iff_eq] at h
      split at h
      · rename_i hp
        rw [hp, ih h, List.cons_append]
      · cases h

theorem stripEnd?_eq_some {text stem ending : List Char} :
    stripEnd? ending text = some stem ↔ text = stem ++ ending := by
  simp only [stripEnd?, Option.map_eq_some_iff]
  constructor
  · rintro ⟨rest, hs, rfl⟩
    have hreverse := eq_append_of_stripStart? hs
    rw [← List.reverse_reverse text, hreverse, List.reverse_append, List.reverse_reverse]
  · rintro rfl
    exact ⟨stem.reverse, by rw [List.reverse_append, stripStart?_append], List.reverse_reverse stem⟩

theorem matchLine_append (h : '\n' ∉ line) : matchLine (line ++ '\n' :: rest) = some (line, rest) := by
  have hline : ∀ c ∈ line, (c != '\n') = true := fun c hc => by
    simpa using fun he : c = '\n' => h (he ▸ hc)
  simp [matchLine, List.span_eq_takeWhile_dropWhile, List.takeWhile_append_of_pos hline,
    List.dropWhile_append_of_pos hline]

def IsRun (belongs : Char → Bool) (text : List Char) : Prop :=
  text ≠ [] ∧ ∀ c ∈ text, belongs c = true

instance (belongs : Char → Bool) (text : List Char) : Decidable (IsRun belongs text) :=
  decidable_of_iff (text ≠ [] ∧ text.all belongs = true) (and_congr_right fun _ => List.all_eq_true)

section
variable {belongs : Char → Bool} {count : Nat} {text found : List Char} {c : Char}

theorem matchCount_eq_some : matchCount belongs count text = some (found, rest) ↔
    found.length = count ∧ (∀ c ∈ found, belongs c = true) ∧ text = found ++ rest := by
  constructor
  · intro h
    simp only [matchCount] at h
    split at h
    · rename_i hfound
      cases h
      exact ⟨hfound.1, List.all_eq_true.mp hfound.2, (List.take_append_drop count text).symm⟩
    · cases h
  · rintro ⟨rfl, hall, rfl⟩
    simpa [matchCount] using hall

theorem matchCount_append (h : ∀ c ∈ found, belongs c = true) :
    matchCount belongs found.length (found ++ rest) = some (found, rest) :=
  matchCount_eq_some.mpr ⟨rfl, h, rfl⟩

theorem matchRun_eq_some : matchRun belongs text = some (found, rest) ↔
    IsRun belongs found ∧ text = found ++ rest ∧ ∀ c, rest.head? = some c → belongs c = false := by
  have hspan (text : List Char) :
      text.span belongs = (text.takeWhile belongs, text.dropWhile belongs) :=
    List.span_eq_takeWhile_dropWhile belongs text
  constructor
  · intro h
    rw [matchRun, hspan] at h
    split at h
    · cases h
    · rename_i hne
      obtain ⟨rfl, rfl⟩ := Prod.mk.inj (Option.some.inj h)
      refine ⟨⟨fun he => hne _ (Prod.ext he rfl), fun c hc => List.mem_takeWhile_imp hc⟩,
        List.takeWhile_append_dropWhile.symm, fun c hc => ?_⟩
      have hhead := List.head?_dropWhile_not belongs text
      simpa [hc] using hhead
  · rintro ⟨⟨hne, hall⟩, rfl, hstop⟩
    have hrest : rest.takeWhile belongs = [] ∧ rest.dropWhile belongs = rest := by
      cases rest with
      | nil => exact ⟨rfl, rfl⟩
      | cons c rest => simp [hstop c rfl]
    rw [matchRun, hspan, List.takeWhile_append_of_pos hall, List.dropWhile_append_of_pos hall,
      hrest.1, hrest.2, List.append_nil]
    obtain ⟨c, found, rfl⟩ := List.exists_cons_of_ne_nil hne
    rfl

theorem matchRun_append (hf : ∀ d ∈ found, belongs d = true) (hn : found ≠ [])
    (hc : belongs c = false) : matchRun belongs (found ++ c :: rest) = some (found, c :: rest) :=
  matchRun_eq_some.mpr ⟨⟨hn, hf⟩, rfl, fun d hd => by cases hd; exact hc⟩

theorem matchRun_single {d : Char} (hc : belongs c = true) (hd : belongs d = false) :
    matchRun belongs (c :: d :: rest) = some ([c], d :: rest) := by
  simp [matchRun, List.span_eq_takeWhile_dropWhile, hc, hd]

theorem matchRun_none (hc : belongs c = false) : matchRun belongs (c :: rest) = none := by
  simp [matchRun, List.span_eq_takeWhile_dropWhile, hc]

theorem of_matchRun (h : matchRun belongs text = some (found, rest)) :
    found ≠ [] ∧ (∀ c ∈ found, belongs c = true) ∧ text = found ++ rest := by
  obtain ⟨⟨hne, hall⟩, htext, -⟩ := matchRun_eq_some.mp h
  exact ⟨hne, hall, htext⟩

end

theorem splitOnce?_append {separator : Char} {before after : List Char} (h : separator ∉ before) :
    splitOnce? separator (before ++ separator :: after) = some (before, after) := by
  have hbefore : ∀ c ∈ before, (c != separator) = true := fun c hc => by
    simpa using fun he : c = separator => h (he ▸ hc)
  simp [splitOnce?, List.span_eq_takeWhile_dropWhile, List.takeWhile_append_of_pos hbefore,
    List.dropWhile_append_of_pos hbefore]

theorem of_splitOnce? {separator : Char} {text before after : List Char}
    (h : splitOnce? separator text = some (before, after)) :
    text = before ++ separator :: after ∧ separator ∉ before := by
  simp only [splitOnce?, List.span_eq_takeWhile_dropWhile] at h
  split at h
  · cases h
  · rename_i first c last he
    obtain ⟨hfirst, hlast⟩ := Prod.mk.inj he
    cases h
    have hc : c = separator := by
      have hhead := List.head?_dropWhile_not (· != separator) text
      rw [hlast] at hhead
      simpa using hhead
    rw [← hc, ← hlast, ← hfirst, List.takeWhile_append_dropWhile]
    exact ⟨rfl, fun hm => by simpa [hc] using List.mem_takeWhile_imp hm⟩

def blanks : List Char :=
  [9, 10, 11, 12, 13, 0x20, 0x85, 0xA0, 0x1680, 0x2000, 0x2001, 0x2002, 0x2003, 0x2004, 0x2005, 0x2006,
    0x2007, 0x2008, 0x2009, 0x200A, 0x2028, 0x2029, 0x202F, 0x205F, 0x3000].map Char.ofNat

theorem mem_blanks {c : Char} (h : isBlank c = true) : c ∈ blanks := by
  rw [← Char.ofNat_toNat c]
  refine List.mem_map_of_mem ?_
  simp only [isBlank, Bool.or_eq_true, Bool.and_eq_true, decide_eq_true_eq, beq_iff_eq] at h
  simp only [List.mem_cons, List.not_mem_nil, or_false]
  omega

theorem not_isPathChar_of_isBlank {c : Char} (h : isBlank c = true) : isPathChar c = false := by
  have hall : blanks.all (fun c => !isPathChar c) = true := by decide +kernel
  simpa using List.all_eq_true.mp hall c (mem_blanks h)

theorem isDigit_of_mem_toString {n : Nat} {c : Char} (h : c ∈ (toString n).toList) :
    c.isDigit = true := by
  rw [Nat.toString_eq_repr, Nat.repr, String.toList_ofList] at h
  exact Nat.isDigit_of_mem_toDigits (by decide) (by decide) h

theorem toString_nat_injective {m n : Nat} (h : toString m = toString n) : m = n := by
  have hdigits : Nat.toDigits 10 m = Nat.toDigits 10 n := by
    rw [Nat.toString_eq_repr, Nat.toString_eq_repr, Nat.repr, Nat.repr] at h
    exact String.ofList_injective h
  rw [← Nat.ofDigitChars_ten_toDigits (n := m), hdigits, Nat.ofDigitChars_ten_toDigits]

-- ---------------------------------------------------------------------------
-- Lines
-- ---------------------------------------------------------------------------

theorem prefix_of_head?_splitLines {text : List Char} (h : (splitLines text).head? = some line) :
    line <+: text := by
  fun_induction splitLines text generalizing line with
  | case1 => cases h
  | case2 => cases h; exact List.nil_prefix
  | case3 => cases h; exact List.nil_prefix
  | case4 => cases h; exact List.cons_prefix_cons.mpr ⟨rfl, List.nil_prefix⟩
  | case5 c rest _ _ first others hs ih =>
    cases h
    exact List.cons_prefix_cons.mpr ⟨rfl, ih (by rw [hs]; rfl)⟩

theorem infix_of_mem_splitLines {text : List Char} (h : line ∈ splitLines text) :
    line <:+: text := by
  fun_induction splitLines text generalizing line with
  | case1 => cases h
  | case2 rest ih =>
    rcases List.mem_cons.mp h with rfl | h
    · exact List.nil_infix
    · exact (ih h).trans (List.suffix_cons _ _).isInfix
  | case3 rest ih =>
    rcases List.mem_cons.mp h with rfl | h
    · exact List.nil_infix
    · exact (ih h).trans (List.suffix_append ['\r', '\n'] rest).isInfix
  | case4 c rest =>
    cases List.mem_singleton.mp h
    exact (List.cons_prefix_cons.mpr ⟨rfl, List.nil_prefix⟩).isInfix
  | case5 c rest _ _ first others hs ih =>
    rcases List.mem_cons.mp h with rfl | h
    · have hfirst : first <+: rest := prefix_of_head?_splitLines (by rw [hs]; rfl)
      exact (List.cons_prefix_cons.mpr ⟨rfl, hfirst⟩).isInfix
    · exact (ih (hs ▸ List.mem_cons_of_mem _ h)).trans (List.suffix_cons _ _).isInfix

@[simp] theorem unlines_nil : unlines [] = [] := rfl

@[simp] theorem unlines_cons (line : List Char) (lines : List (List Char)) :
    unlines (line :: lines) = line ++ '\n' :: unlines lines := by
  simp [unlines]

theorem splitAt_append {separator : Char} {piece : List Char} (h : separator ∉ piece) :
    splitAt separator (piece ++ separator :: rest) = piece :: splitAt separator rest := by
  induction piece with
  | nil => simp [splitAt]
  | cons c piece ih =>
    obtain ⟨hc, hp⟩ := not_or.mp (mt List.mem_cons.mpr h)
    simp [splitAt, Ne.symm hc, ih hp]

theorem splitAt_unlines (h : ∀ line ∈ lines, '\n' ∉ line) :
    splitAt '\n' (unlines lines ++ rest) = lines ++ splitAt '\n' rest := by
  induction lines with
  | nil => rfl
  | cons line lines ih =>
    obtain ⟨hl, hr⟩ := List.forall_mem_cons.mp h
    rw [unlines_cons, List.append_assoc, List.cons_append, splitAt_append hl, ih hr, List.cons_append]

-- ---------------------------------------------------------------------------
-- Passing over lines
-- ---------------------------------------------------------------------------

/-- What has no newline cannot reach over the end of a line. -/
theorem prefix_of_prefix_line (hm : '\n' ∉ mark) (h : mark <+: line ++ '\n' :: rest) :
    mark <+: line := by
  induction mark generalizing line with
  | nil => exact List.nil_prefix
  | cons m mark ih =>
    obtain ⟨hm, hmark⟩ := not_or.mp (mt List.mem_cons.mpr hm)
    cases line with
    | nil => exact absurd (List.cons_prefix_cons.mp h).1.symm hm
    | cons c line =>
      obtain ⟨rfl, hrest⟩ := List.cons_prefix_cons.mp h
      exact List.cons_prefix_cons.mpr ⟨rfl, ih hmark hrest⟩

variable {matcher : Matcher α}

/-- A text in which no match begins is passed over. -/
theorem findAll_pass {front : List Char}
    (h : ∀ tail, tail <:+ front → tail ≠ [] → matcher (tail ++ rest) = none) :
    findAll matcher (front ++ rest) = findAll matcher rest := by
  induction front with
  | nil => rfl
  | cons c front ih =>
    have hfirst : matcher (c :: (front ++ rest)) = none := h (c :: front) List.suffix_rfl (by simp)
    rw [List.cons_append, findAll_of_no_match hfirst]
    exact ih fun tail ht => h tail (ht.trans (List.suffix_cons c front))

theorem findAll_skip {c : Char} (h : ∀ tail, tail <:+ line → matcher (tail ++ c :: rest) = none) :
    findAll matcher (line ++ c :: rest) = findAll matcher rest := by
  rw [findAll_pass fun tail ht _ => h tail ht]
  exact findAll_of_no_match (h [] List.nil_suffix)

theorem findAll_line (hmatch : ∀ text found, matcher text = some found → mark <+: text)
    (hn : '\n' ∉ mark) (hl : ¬mark <:+: line) :
    findAll matcher (line ++ '\n' :: rest) = findAll matcher rest := by
  refine findAll_skip fun tail ht => Option.eq_none_iff_forall_ne_some.mpr fun found hf => ?_
  have hmarked : mark <+: tail := prefix_of_prefix_line hn (hmatch _ found hf)
  exact hl (hmarked.isInfix.trans ht.isInfix)

theorem findAll_unlines (hmatch : ∀ text found, matcher text = some found → mark <+: text)
    (hn : '\n' ∉ mark) (hl : ∀ line ∈ lines, ¬mark <:+: line) :
    findAll matcher (unlines lines ++ rest) = findAll matcher rest := by
  induction lines with
  | nil => rfl
  | cons line lines ih =>
    obtain ⟨hline, hlines⟩ := List.forall_mem_cons.mp hl
    rw [unlines_cons, List.append_assoc, List.cons_append, findAll_line hmatch hn hline,
      ih hlines]

end SnippetTrail.Text
