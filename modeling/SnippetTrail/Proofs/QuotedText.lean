import Mathlib.Data.List.TakeWhile
import SnippetTrail.Toml.Quoted

/-!
# Quoted strings are read as they were meant

What stands between the quotes is pieces, each of which means one character. `OneLine` and `ManyLines`
describe the two ways to put pieces together; reading gives the meaning (`OneLine.read`,
`ManyLines.read`), and each spelling of a text has that text as its meaning. So whichever form
`render` chooses, the text comes back (`readAny?_render`).
-/

namespace SnippetTrail.Toml.Quoted

variable {quote c : Char} {piece body text rest : List Char} {fuel run : Nat}

-- ---------------------------------------------------------------------------
-- Pieces
-- ---------------------------------------------------------------------------

inductive Piece (quote : Char) : List Char → Char → Prop where
  | plain {c : Char} (notQuote : c ≠ quote) (notEscape : quote = '"' → c ≠ '\\')
      (shown : isPlain c = true) : Piece quote [c] c
  | escape {letter c : Char} {digits : List Char} (basic : quote = '"')
      (visible : isPlain letter = true ∧ letter ≠ ' ' ∧ letter ≠ '\t')
      (reads : ∀ rest, escape? (letter :: (digits ++ rest)) = some (c, rest)) :
      Piece quote ('\\' :: letter :: digits) c

theorem Piece.starts (first : Piece quote piece c) : ∃ d more, piece = d :: more ∧ d ≠ quote ∧
    isPlain d = true := by
  cases first with
  | plain notQuote _ shown => exact ⟨c, [], rfl, notQuote, shown⟩
  | escape basic => exact ⟨'\\', _, rfl, by simp [basic], by decide⟩

theorem isPlain_of_not_isControl (h : isControl c = false) : isPlain c = true := by
  simp [isControl] at h
  simp [isPlain]
  omega

theorem code?_of_digits {digits : List Char} {width : Nat} (hlength : digits.length = width)
    (hdigits : digits.all (fun c => (radixDigit? 16 c).isSome) = true)
    (hvalue : radixValue 16 digits = c.toNat) (rest : List Char) :
    code? width (digits ++ rest) = some (c, rest) := by
  have hvalid : ¬((0xD800 ≤ c.toNat ∧ c.toNat ≤ 0xDFFF) ∨ 0x10FFFF < c.toNat) := by
    have := c.valid
    simp only [UInt32.isValidChar, Nat.isValidChar] at this
    have : c.toNat = c.val.toNat := rfl
    omega
  rw [code?, List.take_left' hlength, List.drop_left' hlength, if_pos ⟨hlength, hdigits⟩, hvalue,
    if_neg hvalid, Char.ofNat_toNat]
  rfl

theorem piece_unicodeEscape (h : isControl c = true) : Piece '"' (unicodeEscape c) c := by
  have hall : ∀ n < 128, isControl (Char.ofNat n) = true →
      let digits := (unicodeEscape (Char.ofNat n)).drop 2
      digits.length = 4 ∧ digits.all (fun c => (radixDigit? 16 c).isSome) = true ∧
        radixValue 16 digits = n := by decide +kernel
  have hsmall : c.toNat < 128 := by
    simp [isControl] at h
    omega
  have hc := hall c.toNat hsmall
  rw [Char.ofNat_toNat] at hc
  obtain ⟨hlength, hdigits, hvalue⟩ := hc h
  exact .escape rfl (by decide) (code?_of_digits hlength hdigits hvalue)

def escaped (overLines : Bool) (c : Char) : List Char :=
  if c == '\x08' then ['\\', 'b']
  else if c == '\t' then ['\\', 't']
  else if c == '\n' then (if overLines then ['\n'] else ['\\', 'n'])
  else if c == '\x0C' then ['\\', 'f']
  else if c == '\r' then ['\\', 'r']
  else if c == '\\' then ['\\', '\\']
  else if isControl c then unicodeEscape c
  else [c]

theorem escapeFrom_cons {overLines : Bool} (h : c ≠ '"') :
    escapeFrom overLines run (c :: rest) = escaped overLines c ++ escapeFrom overLines 0 rest := by
  rw [escapeFrom, if_neg (by simpa using h)]
  rfl

theorem piece_escaped {overLines : Bool} (hquote : c ≠ '"') (hline : c = '\n' → overLines = false) :
    Piece '"' (escaped overLines c) c := by
  simp only [escaped, beq_iff_eq]
  split_ifs with hb ht hn hmany hf hr hs hcontrol
  · exact hb ▸ .escape rfl (by decide) fun _ => rfl
  · exact ht ▸ .escape rfl (by decide) fun _ => rfl
  · cases (hline hn).symm.trans hmany
  · exact hn ▸ .escape rfl (by decide) fun _ => rfl
  · exact hf ▸ .escape rfl (by decide) fun _ => rfl
  · exact hr ▸ .escape rfl (by decide) fun _ => rfl
  · subst hs
    exact .escape rfl (by decide) fun _ => rfl
  · exact piece_unicodeEscape hcontrol
  · exact .plain hquote (fun _ => hs) (isPlain_of_not_isControl (by simpa using hcontrol))

theorem piece_quote : Piece '"' ['\\', '"'] '"' := .escape rfl (by decide) fun _ => rfl

-- ---------------------------------------------------------------------------
-- Strings on one line
-- ---------------------------------------------------------------------------

inductive OneLine (quote : Char) : List Char → List Char → Prop where
  | nil : OneLine quote [] []
  | cons {piece body text : List Char} {c : Char} (first : Piece quote piece c)
      (others : OneLine quote body text) : OneLine quote (piece ++ body) (c :: text)

theorem OneLine.read (h : OneLine quote body text) (hq : quote ≠ '\\') (rest : List Char)
    (hfuel : body.length < fuel) : oneLine quote fuel (body ++ quote :: rest) = some (text, rest) := by
  induction h generalizing fuel with
  | nil =>
    cases fuel with
    | zero => cases hfuel
    | succ fuel => simp [oneLine]
  | @cons piece body text c first others ih =>
    cases fuel with
    | zero => cases hfuel
    | succ fuel =>
      cases first with
      | plain notQuote notEscape shown =>
        have hescape : ¬(c = '\\' ∧ quote = '"') := fun ⟨he, hb⟩ => notEscape hb he
        have hmore := ih (by simpa using hfuel)
        simp [oneLine, notQuote, hescape, shown, hmore]
      | @escape letter _ digits basic _ reads =>
        have hmore := @ih fuel (by simp at hfuel; omega)
        have hescaped := reads (body ++ quote :: rest)
        subst basic
        simp [oneLine, hescaped, hmore]

theorem oneLine_escapeFrom (text : List Char) (run : Nat) :
    OneLine '"' (escapeFrom false run text) text := by
  induction text generalizing run with
  | nil => exact .nil
  | cons c rest ih =>
    by_cases hc : c = '"'
    · subst hc
      exact .cons piece_quote (ih 0)
    · rw [escapeFrom_cons hc]
      exact .cons (piece_escaped hc fun _ => rfl) (ih 0)

theorem oneLine_self (hq : quote ≠ '"') (hquote : quote ∉ text) (hplain : ∀ c ∈ text, isPlain c = true) :
    OneLine quote text text := by
  induction text with
  | nil => exact .nil
  | cons c rest ih =>
    obtain ⟨hc, hrest⟩ := List.forall_mem_cons.mp hplain
    obtain ⟨hne, hnot⟩ := not_or.mp (fun h => hquote (List.mem_cons.mpr h))
    exact .cons (.plain (Ne.symm hne) (fun h => absurd h hq) hc) (ih hnot hrest)

-- ---------------------------------------------------------------------------
-- Strings over several lines
-- ---------------------------------------------------------------------------

def LinePiece (quote : Char) (piece : List Char) (c : Char) : Prop :=
  Piece quote piece c ∨ piece = ['\n'] ∧ c = '\n'

/-- The pieces of a string over several lines, behind a run of quotes that stand for themselves, and
what they mean. There are never three such quotes in a row. -/
inductive ManyLines (quote : Char) : Nat → List Char → List Char → Prop where
  | nil {run : Nat} (few : run ≤ 2) : ManyLines quote run [] []
  | quote {run : Nat} {body text : List Char} (few : run < 2)
      (others : ManyLines quote (run + 1) body text) :
      ManyLines quote run (quote :: body) (quote :: text)
  | piece {run : Nat} {piece body text : List Char} {c : Char} (few : run ≤ 2)
      (first : LinePiece quote piece c) (others : ManyLines quote 0 body text) :
      ManyLines quote run (piece ++ body) (c :: text)

theorem takeWhile_replicate (run : Nat) (hrest : ∀ c ∈ rest.head?, c ≠ quote) :
    (List.replicate run quote ++ rest).takeWhile (· == quote) = List.replicate run quote := by
  rw [List.takeWhile_append_of_pos (by simp)]
  cases rest with
  | nil => simp
  | cons c rest => simp [hrest c rfl]

theorem manyLines_run {behind : List Char} {n : Nat} (few : run ≤ 2)
    (hbehind : ∀ c ∈ behind.head?, c ≠ quote)
    (h : ∀ fuel, n < fuel → manyLines quote fuel behind = some (text, rest)) (hfuel : run + n < fuel) :
    manyLines quote fuel (List.replicate run quote ++ behind) =
      some (List.replicate run quote ++ text, rest) := by
  cases run with
  | zero => exact h fuel (by omega)
  | succ run =>
    cases fuel with
    | zero => cases hfuel
    | succ fuel =>
      have hquotes := takeWhile_replicate (run + 1) hbehind
      have hdrop : (List.replicate (run + 1) quote ++ behind).drop (run + 1) = behind :=
        List.drop_left' List.length_replicate
      rw [show List.replicate (run + 1) quote ++ behind =
        quote :: (List.replicate run quote ++ behind) from rfl] at hquotes hdrop ⊢
      have hlength : (List.replicate (run + 1) quote).length = run + 1 := List.length_replicate
      simp only [manyLines, beq_self_eq_true, if_true, hquotes, hlength]
      rw [if_pos (by omega), hdrop, h fuel (by omega)]
      rfl

theorem manyLines_end (few : run ≤ 2) (hrest : ∀ c ∈ rest.head?, c ≠ quote) :
    manyLines quote (fuel + 1) (List.replicate (run + 3) quote ++ rest) =
      some (List.replicate run quote, rest) := by
  have hquotes := takeWhile_replicate (run + 3) hrest
  have hdrop : (List.replicate (run + 3) quote ++ rest).drop (run + 3) = rest :=
    List.drop_left' List.length_replicate
  rw [show List.replicate (run + 3) quote ++ rest = quote :: (List.replicate (run + 2) quote ++ rest)
    from rfl] at hquotes hdrop ⊢
  have hlength : (List.replicate (run + 3) quote).length = run + 3 := List.length_replicate
  simp only [manyLines, beq_self_eq_true, if_true, hquotes, hlength]
  rw [if_neg (by omega), if_pos (by omega), hdrop, Nat.add_sub_cancel]

theorem newline?_of_plain (h : isPlain c = true) (rest : List Char) : newline? (c :: rest) = none := by
  unfold newline?
  split
  case h_1 heq =>
    cases heq
    cases h
  case h_2 heq =>
    cases heq
    cases h
  case h_3 => rfl

theorem LinePiece.starts (first : LinePiece quote piece c) (hq : quote = '"' ∨ quote = '\'') :
    ∃ d more, piece = d :: more ∧ d ≠ quote := by
  rcases first with first | ⟨rfl, -⟩
  · obtain ⟨d, more, rfl, hd, -⟩ := first.starts
    exact ⟨d, more, rfl, hd⟩
  · exact ⟨'\n', [], rfl, by rcases hq with rfl | rfl <;> decide⟩

theorem manyLines_piece (first : LinePiece quote piece c) (hq : quote = '"' ∨ quote = '\'')
    (behind : List Char) : manyLines quote (fuel + 1) (piece ++ behind) =
      (manyLines quote fuel behind).map fun (more, rest) => (c :: more, rest) := by
  rcases first with first | ⟨rfl, rfl⟩
  · cases first with
    | plain notQuote notEscape shown =>
      have hescape : ¬(c = '\\' ∧ quote = '"') := fun ⟨he, hb⟩ => notEscape hb he
      simp [manyLines, notQuote, hescape, newline?_of_plain shown, shown]
    | @escape letter _ digits basic visible reads =>
      obtain ⟨hshown, hspace, htab⟩ := visible
      have hblank : (letter :: (digits ++ behind)).dropWhile (fun b => b == ' ' || b == '\t') =
          letter :: (digits ++ behind) := List.dropWhile_cons_of_neg (by simp [hspace, htab])
      have hescaped := reads behind
      subst basic
      simp only [manyLines, List.cons_append, hblank, newline?_of_plain hshown, hescaped]
      cases hmore : manyLines '"' fuel behind <;> simp [hmore]
  · rcases hq with rfl | rfl <;> simp [manyLines, newline?]

theorem ManyLines.read (h : ManyLines quote run body text) (hq : quote = '"' ∨ quote = '\'')
    (hrest : ∀ c ∈ rest.head?, c ≠ quote) (hfuel : run + body.length < fuel) :
    manyLines quote fuel (List.replicate run quote ++ (body ++ (List.replicate 3 quote ++ rest))) =
      some (List.replicate run quote ++ text, rest) := by
  induction h generalizing fuel with
  | @nil run few =>
    cases fuel with
    | zero => cases hfuel
    | succ fuel =>
      have hend := @manyLines_end quote rest fuel run few hrest
      rw [← List.replicate_append_replicate, List.append_assoc] at hend
      rw [List.append_nil]
      exact hend
  | @quote run body text few others ih =>
    have hmore := @ih fuel (by simp at hfuel; omega)
    rw [List.replicate_succ', List.append_assoc, List.append_assoc] at hmore
    exact hmore
  | @piece run piece body text c few first others ih =>
    obtain ⟨d, more, rfl, hd⟩ := first.starts hq
    refine manyLines_run few (by simpa using hd) (fun fuel hfuel => ?_) hfuel
    cases fuel with
    | zero => cases hfuel
    | succ fuel =>
      have hmore := @ih fuel (by simp at hfuel; omega)
      rw [List.append_assoc, manyLines_piece first hq]
      rw [List.replicate_zero, List.nil_append, List.nil_append] at hmore
      rw [hmore]
      rfl

theorem escapeFrom_quote : escapeFrom true run ('"' :: rest) =
    if run < 2 then '"' :: escapeFrom true (run + 1) rest
    else ['\\', '"'] ++ escapeFrom true 0 rest := by simp [escapeFrom]

theorem manyLines_escapeFrom (text : List Char) (few : run ≤ 2) :
    ManyLines '"' run (escapeFrom true run text) text := by
  induction text generalizing run with
  | nil => exact .nil few
  | cons c rest ih =>
    by_cases hc : c = '"'
    · rw [hc, escapeFrom_quote]
      split
      case isTrue hrun => exact .quote hrun (ih hrun)
      case isFalse => exact .piece few (.inl piece_quote) (ih (Nat.zero_le _))
    · rw [escapeFrom_cons hc]
      refine .piece few ?_ (ih (Nat.zero_le _))
      by_cases hline : c = '\n'
      · exact .inr ⟨by rw [hline]; rfl, hline⟩
      · exact .inl (piece_escaped hc fun h => absurd h hline)

/-- One step of `longestRun`, from the current run and the longest one so far. -/
def nextRun (quote : Char) (runs : Nat × Nat) (c : Char) : Nat × Nat :=
  if c == quote then (runs.1 + 1, max runs.2 (runs.1 + 1)) else (0, runs.2)

theorem longestRun_eq (quote : Char) (text : List Char) :
    longestRun quote text = (text.foldl (nextRun quote) (0, 0)).2 := rfl

theorem le_foldl_nextRun (quote : Char) (text : List Char) (runs : Nat × Nat) :
    runs.2 ≤ (text.foldl (nextRun quote) runs).2 := by
  induction text generalizing runs with
  | nil => exact Nat.le_refl _
  | cons c rest ih =>
    refine Nat.le_trans ?_ (ih _)
    rw [nextRun]
    split
    · exact Nat.le_max_left _ _
    · exact Nat.le_refl _

/-- The run that a quote continues is no longer than the longest one. -/
theorem lt_foldl_nextRun (quote : Char) (text : List Char) (runs : Nat × Nat) :
    runs.1 < ((quote :: text).foldl (nextRun quote) runs).2 := by
  refine Nat.lt_of_lt_of_le ?_ (le_foldl_nextRun quote text (nextRun quote runs quote))
  rw [nextRun, if_pos (beq_self_eq_true quote)]
  exact Nat.le_max_right runs.2 (runs.1 + 1)

theorem not_mem_of_foldl_nextRun {runs : Nat × Nat} (h : (text.foldl (nextRun quote) runs).2 = 0) :
    quote ∉ text := by
  induction text generalizing runs with
  | nil => exact List.not_mem_nil
  | cons c rest ih =>
    intro hm
    rcases List.mem_cons.mp hm with rfl | hm
    · have hlt := lt_foldl_nextRun quote rest runs
      omega
    · exact ih h hm

theorem manyLines_self (hq : quote ≠ '"') {longest : Nat} (few : run ≤ 2)
    (hruns : (text.foldl (nextRun quote) (run, longest)).2 ≤ 2)
    (hplain : ∀ c ∈ text, c = '\n' ∨ isPlain c = true) : ManyLines quote run text text := by
  induction text generalizing run longest with
  | nil => exact .nil few
  | cons c rest ih =>
    obtain ⟨hc, hrest⟩ := List.forall_mem_cons.mp hplain
    by_cases he : c = quote
    · subst he
      have hrun : run < 2 := Nat.lt_of_lt_of_le (lt_foldl_nextRun c rest (run, longest)) hruns
      rw [List.foldl_cons, nextRun, if_pos (beq_self_eq_true c)] at hruns
      exact .quote hrun (ih hrun hruns hrest)
    · rw [List.foldl_cons, nextRun, if_neg (by simpa using he)] at hruns
      have hpiece : LinePiece quote [c] c := by
        rcases hc with rfl | hc
        · exact .inr ⟨rfl, rfl⟩
        · exact .inl (.plain he (fun h => absurd h hq) hc)
      exact .piece few hpiece (ih (Nat.zero_le _) hruns hrest)

-- ---------------------------------------------------------------------------
-- The form that is chosen
-- ---------------------------------------------------------------------------

theorem readAny?_of_ne {d : Char} (h : d ≠ quote) :
    readAny? fuel (quote :: d :: rest) = read? fuel (quote :: d :: rest) := by
  cases rest with
  | nil => rfl
  | cons e rest => simp [readAny?, Ne.symm h]

theorem readAny?_oneLine (h : OneLine quote body text) (hq : quote = '"' ∨ quote = '\'')
    (hrest : ∀ c ∈ rest.head?, c ≠ quote) (hfuel : body.length < fuel) :
    readAny? fuel ([quote] ++ body ++ [quote] ++ rest) = some (text, rest) := by
  have hread : read? fuel (quote :: (body ++ quote :: rest)) = some (text, rest) := by
    have hslash : quote ≠ '\\' := by rcases hq with rfl | rfl <;> decide
    rw [read?, if_pos (by simpa using hq)]
    exact h.read hslash rest hfuel
  -- Only three quotes would be taken for the start of a string over several lines.
  rw [show [quote] ++ body ++ [quote] ++ rest = quote :: (body ++ quote :: rest) by simp, ← hread]
  cases h with
  | nil =>
    cases rest with
    | nil => rfl
    | cons d rest =>
      have hd : d ≠ quote := hrest d rfl
      simp [readAny?, Ne.symm hd]
  | cons first others =>
    obtain ⟨d, more, rfl, hd, -⟩ := first.starts
    exact readAny?_of_ne hd

theorem ManyLines.starts (h : ManyLines quote 0 body text) (hq : quote = '"' ∨ quote = '\'')
    (hline : '\n' ∉ text) : ∃ d more, body ++ [quote] = d :: more ∧ isPlain d = true := by
  have hquote : isPlain quote = true := by rcases hq with rfl | rfl <;> decide
  cases h with
  | nil => exact ⟨quote, [], rfl, hquote⟩
  | quote => exact ⟨quote, _, rfl, hquote⟩
  | piece _ first =>
    rcases first with first | ⟨-, rfl⟩
    · obtain ⟨d, more, rfl, -, hd⟩ := first.starts
      exact ⟨d, _, rfl, hd⟩
    · simp at hline

theorem readAny?_tripled (h : ManyLines quote 0 body text) (hq : quote = '"' ∨ quote = '\'')
    (hrest : ∀ c ∈ rest.head?, c ≠ quote) (hfuel : body.length < fuel) :
    readAny? fuel (tripled quote body text ++ rest) = some (text, rest) := by
  let start := if text.contains '\n' then ['\n'] else []
  let behind := body ++ (List.replicate 3 quote ++ rest)
  have hread : manyLines quote fuel behind = some (text, rest) :=
    h.read hq hrest (by simpa using hfuel)
  -- A newline behind the opening quotes does not count, so one stands there if the text could start
  -- with one.
  have hstart : (newline? (start ++ behind)).getD (start ++ behind) = behind := by
    by_cases hline : '\n' ∈ text
    · rw [show start = ['\n'] by simp [start, hline]]
      rfl
    · obtain ⟨d, more, hd, hplain⟩ := h.starts hq hline
      rw [show start = [] by simp [start, hline], List.nil_append,
        show behind = d :: (more ++ (List.replicate 2 quote ++ rest)) by
          rw [← List.cons_append, ← hd]
          simp [behind, List.replicate_succ], newline?_of_plain hplain]
      rfl
  have hopen : (quote == '"' || quote == '\'') = true := by simpa using hq
  rw [show tripled quote body text ++ rest = quote :: quote :: quote :: (start ++ behind) by
    simp [tripled, start, behind, List.replicate_succ]]
  simp only [readAny?, hopen, hstart, hread]
  simp

/-- Whatever stands in a text, it is read back from the form in which it is written. -/
theorem readAny?_render (text : List Char) (hrest : ∀ c ∈ rest.head?, c ≠ '"' ∧ c ≠ '\'')
    (hfuel : (render text).length ≤ fuel) : readAny? fuel (render text ++ rest) = some (text, rest) := by
  have hquote : ∀ c ∈ rest.head?, c ≠ '"' := fun c hc => (hrest c hc).1
  have hapostrophe : ∀ c ∈ rest.head?, c ≠ '\'' := fun c hc => (hrest c hc).2
  have hbasic (hfuel : (basic text).length ≤ fuel) :
      readAny? fuel (basic text ++ rest) = some (text, rest) :=
    readAny?_oneLine (oneLine_escapeFrom text 0) (.inl rfl) hquote (by simp [basic] at hfuel; omega)
  have hlines (hfuel : (tripled '"' (escapeFrom true 0 text) text).length ≤ fuel) :
      readAny? fuel (tripled '"' (escapeFrom true 0 text) text ++ rest) = some (text, rest) :=
    readAny?_tripled (manyLines_escapeFrom text (Nat.zero_le _)) (.inl rfl) hquote
      (by simp [tripled] at hfuel; omega)
  have hplain (h : (text.any fun c => isControl c && c != '\t' && c != '\n') = false) :
      ∀ c ∈ text, c = '\n' ∨ isPlain c = true := by
    intro c hc
    have hcode := List.any_eq_false.mp h c hc
    by_cases hcontrol : isControl c = true
    · by_cases htab : c = '\t'
      · exact .inr (htab ▸ rfl)
      · exact .inl (by simpa [hcontrol, htab] using hcode)
    · exact .inr (isPlain_of_not_isControl (by simpa using hcontrol))
  unfold render at hfuel ⊢
  simp only at hfuel ⊢
  split_ifs at hfuel ⊢ with _ hliteral _ hfew _
  · exact hbasic hfuel
  · simp only [Bool.and_eq_true, Bool.not_eq_true', beq_iff_eq, longestRun_eq] at hliteral
    obtain ⟨⟨hcodes, hruns⟩, hline⟩ := hliteral
    have hshown : ∀ c ∈ text, isPlain c = true := by
      intro c hc
      refine (hplain hcodes c hc).resolve_left ?_
      rintro rfl
      simp [hc] at hline
    exact readAny?_oneLine (oneLine_self (by decide) (not_mem_of_foldl_nextRun hruns) hshown)
      (.inr rfl) hapostrophe (by simp at hfuel; omega)
  · exact hlines hfuel
  · simp only [Bool.and_eq_true, Bool.not_eq_true', longestRun_eq] at hfew
    obtain ⟨hcodes, hruns⟩ := hfew
    exact readAny?_tripled
      (manyLines_self (by decide) (Nat.zero_le _) (of_decide_eq_true hruns) (hplain hcodes))
      (.inr rfl) hapostrophe (by simp [tripled] at hfuel; omega)
  · exact hlines hfuel
  · exact hbasic hfuel

end SnippetTrail.Toml.Quoted
