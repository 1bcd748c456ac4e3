import Mathlib.Data.List.Nodup
import Mathlib.Data.List.TakeDrop
import Mathlib.Data.List.TakeWhile
import SnippetTrail.Proofs.Outcome
import SnippetTrail.Proofs.QuotedText
import SnippetTrail.Proofs.Utf8Text
import SnippetTrail.Toml.Document
import SnippetTrail.Toml.Section

/-!
# Sections are read as they were written

A written value is read back whole, because a newline stands behind it: no string goes on past its
closing quotes, and no number is taken for a date or a fraction (`value?_render`). A file of sections
is read back as a table of tables (`ofText?_renderAll`).
-/

namespace SnippetTrail.Toml

variable {rest : List Char} {n fuel : Nat}

-- ---------------------------------------------------------------------------
-- Numbers
-- ---------------------------------------------------------------------------

theorem isAsciiDigit_of_mem_decimal {c : Char} (h : c ∈ Text.decimal n) :
    Text.isAsciiDigit c = true := Nat.isDigit_of_mem_toDigits (by decide) (by decide) h

theorem decimal_starts (hn : n ≠ 0) : ∃ c more, Text.decimal n = c :: more ∧ c ≠ '0' := by
  induction n using Nat.strongRecOn with
  | _ n ih =>
    by_cases hlt : n < 10
    · have hdigit : ∀ n < 10, n ≠ 0 → n.digitChar ≠ '0' := by decide
      exact ⟨n.digitChar, [], Nat.toDigits_of_lt_base hlt, hdigit n hlt hn⟩
    · obtain ⟨c, more, hmore, hc⟩ := ih (n / 10) (by omega) (by omega)
      refine ⟨c, more ++ [(n % 10).digitChar], ?_, hc⟩
      rw [Text.decimal] at hmore ⊢
      rw [Nat.toDigits_of_base_le (by decide) (by omega), hmore, List.cons_append]

theorem radixDigit?_of_isAsciiDigit {c : Char} (h : Text.isAsciiDigit c = true) :
    radixDigit? 10 c = some (c.toNat - 48) := by
  simp only [Text.isAsciiDigit, Bool.and_eq_true, decide_eq_true_eq] at h
  have hle : c.toNat ≤ 57 := h.2
  simp only [radixDigit?, h, and_self, if_true]
  exact if_pos (by omega)

theorem radixValue_decimal (n : Nat) : radixValue 10 (Text.decimal n) = n := by
  have hstep : ∀ value : Nat, ∀ c ∈ Text.decimal n,
      10 * value + (radixDigit? 10 c).getD 0 = 10 * value + (c.toNat - '0'.toNat) := by
    intro value c hc
    rw [radixDigit?_of_isAsciiDigit (isAsciiDigit_of_mem_decimal hc)]
    rfl
  calc radixValue 10 (Text.decimal n) = Nat.ofDigitChars 10 (Nat.toDigits 10 n) 0 :=
        List.foldl_ext _ _ _ hstep
    _ = n := Nat.ofDigitChars_ten_toDigits

section
variable {digits : List Char}

theorem digitRun_append (hdigits : ∀ c ∈ digits, Text.isAsciiDigit c = true) (rest : List Char) :
    digitRun Text.isAsciiDigit (digits ++ '\n' :: rest) = (digits, '\n' :: rest) := by
  induction digits with
  | nil => simp [digitRun, Text.isAsciiDigit]
  | cons c digits ih =>
    obtain ⟨hc, hdigits⟩ := List.forall_mem_cons.mp hdigits
    have hbar : c ≠ '_' := by
      rintro rfl
      cases hc
    rw [List.cons_append, digitRun.eq_2 _ _ _ (by simp [hbar])]
    simp [hc, ih hdigits]

/-- Behind a number of fixed width comes a further digit or the end of the digits. -/
theorem expect?_of_fixedNumber? (hdigits : ∀ c ∈ digits, Text.isAsciiDigit c = true)
    {width value : Nat} {after : List Char}
    (h : fixedNumber? width (digits ++ '\n' :: rest) = some (value, after)) {c : Char}
    (hc : Text.isAsciiDigit c = false) (hline : c ≠ '\n') : expect? c after = none := by
  rw [fixedNumber?, Option.ite_none_right_eq_some, Option.some.injEq, Prod.mk.injEq] at h
  obtain ⟨⟨hlength, hall⟩, -, rfl⟩ := h
  have hwidth : width ≤ digits.length := by
    by_contra hlong
    have hnewline : '\n' ∈ (digits ++ '\n' :: rest).take width := by
      rw [List.append_cons, List.take_append, List.take_of_length_le (by simp; omega)]
      simp
    cases List.all_eq_true.mp hall _ hnewline
  rw [List.drop_append_of_le_length hwidth]
  cases hdrop : digits.drop width with
  | nil => exact if_neg (by simpa using hline)
  | cons d more =>
    have hd : Text.isAsciiDigit d = true := hdigits d (List.mem_of_mem_drop (hdrop ▸ List.mem_cons_self))
    refine if_neg fun he => ?_
    rw [beq_iff_eq.mp he, hd] at hc
    cases hc

end

theorem decimal?_decimal (n : Nat) (rest : List Char) :
    decimal? (Text.decimal n ++ '\n' :: rest) = some (Text.decimal n, '\n' :: rest) := by
  by_cases hn : n = 0
  · subst hn
    rfl
  · obtain ⟨c, more, hmore, hc⟩ := decimal_starts hn
    have hrun := digitRun_append (fun c => @isAsciiDigit_of_mem_decimal n c) rest
    have hdigit : Text.isAsciiDigit c = true := isAsciiDigit_of_mem_decimal (by rw [hmore]; simp)
    rw [hmore, List.cons_append] at hrun ⊢
    simp [decimal?, hc, digits?, hdigit, hrun]

theorem dateTime?_decimal (n : Nat) (rest : List Char) :
    dateTime? (Text.decimal n ++ '\n' :: rest) = none := by
  have hnone {width value : Nat} {after : List Char} :=
    @expect?_of_fixedNumber? rest _ (fun c => @isAsciiDigit_of_mem_decimal n c) width value after
  have hdate : date? (Text.decimal n ++ '\n' :: rest) = none := by
    rw [date?]
    cases hyear : fixedNumber? 4 (Text.decimal n ++ '\n' :: rest) with
    | none => rfl
    | some year =>
      obtain ⟨value, after⟩ := year
      have hdash : expect? '-' after = none := hnone hyear (by decide) (by decide)
      simp [hdash]
  have htime : time? (Text.decimal n ++ '\n' :: rest) = none := by
    rw [time?]
    cases hhour : fixedNumber? 2 (Text.decimal n ++ '\n' :: rest) with
    | none => rfl
    | some hour =>
      obtain ⟨value, after⟩ := hour
      have hcolon : expect? ':' after = none := hnone hhour (by decide) (by decide)
      simp [hcolon]
  rw [dateTime?, hdate, htime]

theorem decimal_eq_cons (n : Nat) :
    ∃ c more, Text.decimal n = c :: more ∧ Text.isAsciiDigit c = true := by
  obtain ⟨c, more, hmore⟩ := List.exists_cons_of_ne_nil (@Nat.toDigits_ne_nil n 10)
  have hc : c ∈ Text.decimal n := by simp [Text.decimal, hmore]
  exact ⟨c, more, hmore, isAsciiDigit_of_mem_decimal hc⟩

theorem sign_decimal (n : Nat) (rest : List Char) :
    sign (Text.decimal n ++ '\n' :: rest) = (false, Text.decimal n ++ '\n' :: rest) := by
  obtain ⟨c, more, hmore, hc⟩ := decimal_eq_cons n
  have hsigns : c ≠ '+' ∧ c ≠ '-' := by
    constructor
    · rintro rfl
      cases hc
    · rintro rfl
      cases hc
  simp [sign, hmore, hsigns]

theorem float?_decimal (n : Nat) (rest : List Char) :
    float? (Text.decimal n ++ '\n' :: rest) = none := by
  obtain ⟨c, more, hmore, hc⟩ := decimal_eq_cons n
  have hletters : c ≠ 'i' ∧ c ≠ 'n' := by
    constructor
    · rintro rfl
      cases hc
    · rintro rfl
      cases hc
  simp only [float?, sign_decimal, decimal?_decimal]
  rw [hmore, List.cons_append]
  split
  case h_1 heq => exact absurd (List.cons.inj heq).1 hletters.1
  case h_2 heq => exact absurd (List.cons.inj heq).1 hletters.2
  case h_3 => rfl

/-- No letter of another radix stands behind a zero. -/
theorem eq_newline_of_zero {d : Char} {more : List Char}
    (h : Text.decimal n ++ '\n' :: rest = '0' :: d :: more) : d = '\n' := by
  by_cases hn : n = 0
  · subst hn
    exact (List.cons.inj (List.cons.inj h).2).1.symm
  · obtain ⟨c, others, hothers, hc⟩ := decimal_starts hn
    rw [hothers] at h
    exact absurd (List.cons.inj h).1 hc

theorem integer?_eq_map (n : Nat) (rest : List Char) :
    integer? (Text.decimal n ++ '\n' :: rest) = (inRange? n).map fun value => (value, '\n' :: rest) := by
  unfold integer?
  split
  case h_1 heq => exact absurd (eq_newline_of_zero heq) (by decide)
  case h_2 heq => exact absurd (eq_newline_of_zero heq) (by decide)
  case h_3 heq => exact absurd (eq_newline_of_zero heq) (by decide)
  case h_4 =>
    -- Not by `simp`: the kernel would then compute with the bounds of 64 bits.
    rw [sign_decimal]
    show Option.bind (decimal? _) _ = _
    rw [decimal?_decimal, Option.bind_some]
    show Option.bind (inRange? (if false = true then _ else _)) _ = _
    rw [if_neg Bool.false_ne_true, radixValue_decimal, Option.map_eq_bind]
    rfl

theorem integer?_decimal (h : Text.isSigned64 n = true) (rest : List Char) :
    integer? (Text.decimal n ++ '\n' :: rest) = some ((n : Int), '\n' :: rest) := by
  rw [integer?_eq_map, inRange?, if_pos h, Option.map_some]

-- ---------------------------------------------------------------------------
-- Values
-- ---------------------------------------------------------------------------

def Scalar.value : Scalar → Value
  | .string text => .string text
  | .path given => .string given.display
  | .integer n => .integer n
  | .boolean value => .boolean value

/-- Integers have up to 63 bits, and paths are texts. -/
@[simp] def Scalar.IsWritable : Scalar → Prop
  | .string _ | .boolean _ => True
  | .path given => ∃ text : String, given = text
  | .integer n => 2 * n < Text.wordCount

theorem Scalar.render_isOk {written : Scalar} :
    (∃ text, written.render = .ok text) ↔ written.IsWritable := by
  cases written with
  | string | boolean => simp [render, IsWritable]
  | path given =>
    rw [IsWritable, SystemText.exists_ofText_iff, render]
    cases given.text? <;> simp
  | integer n =>
    have hrange : Text.isSigned64 n = true ↔ 2 * n < Text.wordCount := by
      rw [Text.isSigned64, Bool.and_eq_true, decide_eq_true_iff, decide_eq_true_iff]
      omega
    rw [IsWritable, ← hrange, render]
    split
    case isTrue h => simp [h]
    case isFalse h => simp [h]

theorem Scalar.render_integer {text : List Char} (h : (Scalar.integer n).render = .ok text) :
    Text.isSigned64 n = true ∧ text = Text.decimal n := by
  rw [render] at h
  split at h
  case isTrue hrange => exact ⟨hrange, (Except.ok.inj h).symm⟩
  case isFalse => cases h

theorem Scalar.render_path {given : FilePath} {text : List Char}
    (h : (Scalar.path given).render = .ok text) :
    text = Quoted.render given.display.toList := by
  obtain ⟨name, rfl⟩ : ∃ name : String, given = name := Scalar.render_isOk.mp ⟨text, h⟩
  rw [render, SystemText.text?_ofText] at h
  rw [SystemText.display_ofText]
  exact (Except.ok.inj h).symm

theorem Quoted.render_starts (text : List Char) :
    ∃ quote more, Quoted.render text = quote :: more ∧ (quote = '"' ∨ quote = '\'') := by
  unfold Quoted.render
  simp only
  split_ifs
  all_goals exact ⟨_, _, rfl, by simp⟩

theorem value?_quoted {value : String} {depth : Nat}
    (hfuel : (Quoted.render value.toList).length ≤ fuel) (rest : List Char) :
    value? depth (fuel + 1) (Quoted.render value.toList ++ '\n' :: rest) =
      some (.string value, '\n' :: rest) := by
  have hread := @Quoted.readAny?_render ('\n' :: rest) fuel value.toList (by simp) hfuel
  obtain ⟨quote, more, hmore, hquote⟩ := Quoted.render_starts value.toList
  rw [hmore, List.cons_append] at hread ⊢
  rcases hquote with rfl | rfl
  · simp [value?, hread]
  · simp [value?, hread]

theorem value?_render {written : Scalar} {text : List Char} {depth : Nat}
    (h : written.render = .ok text) (hfuel : text.length ≤ fuel) (rest : List Char) :
    value? depth (fuel + 1) (text ++ '\n' :: rest) = some (written.value, '\n' :: rest) := by
  cases written with
  | string value =>
    cases h
    exact value?_quoted hfuel rest
  | path given =>
    obtain rfl := Scalar.render_path h
    exact value?_quoted hfuel rest
  | integer n =>
    obtain ⟨hrange, rfl⟩ := Scalar.render_integer h
    have hdate := dateTime?_decimal n rest
    have hfloat := float?_decimal n rest
    have hinteger := integer?_decimal hrange rest
    obtain ⟨c, more, hmore, hc⟩ := decimal_eq_cons n
    rw [hmore, List.cons_append] at hdate hfloat hinteger ⊢
    have hother : ∀ d, Text.isAsciiDigit d = false → c ≠ d := by
      rintro d hd rfl
      cases hc.symm.trans hd
    have hquote : c ≠ '"' := hother _ (by decide)
    have happostrophe : c ≠ '\'' := hother _ (by decide)
    have hbracket : c ≠ '[' := hother _ (by decide)
    have hbrace : c ≠ '\x7b' := hother _ (by decide)
    have ht : c ≠ 't' := hother _ (by decide)
    have hf : c ≠ 'f' := hother _ (by decide)
    simp [value?, hquote, happostrophe, hbracket, hbrace, ht, hf, hdate, hfloat, hinteger, Scalar.value]
  | boolean value =>
    cases h
    cases value <;> rfl

-- ---------------------------------------------------------------------------
-- Tables
-- ---------------------------------------------------------------------------

namespace Table

variable {entries below : List (String × Value)} {name key : String}

theorem find?_of_fresh (kind : TableKind) (h : key ∉ entries.map (·.1)) :
    (mk kind entries).find? key = none := by
  rw [find?, List.lookup_eq_none_iff]
  intro entry he
  exact bne_iff_ne.mpr fun hk => h (List.mem_map.mpr ⟨entry, he, hk.symm⟩)

theorem set_of_fresh (kind : TableKind) (value : Value) (h : key ∉ entries.map (·.1)) :
    (mk kind entries).set key value = mk kind (entries ++ [(key, value)]) := by
  refine if_neg fun hany => ?_
  obtain ⟨entry, he, hk⟩ := List.any_eq_true.mp hany
  exact h (List.mem_map.mpr ⟨entry, he, beq_iff_eq.mp hk⟩)

theorem find?_last (kind : TableKind) (value : Value) (h : key ∉ entries.map (·.1)) :
    (mk kind (entries ++ [(key, value)])).find? key = some value := by
  have hnone : entries.lookup key = none := find?_of_fresh kind h
  simp [find?, Table.entries, List.lookup_append, hnone]

theorem set_last (kind : TableKind) (before after : Value) (h : key ∉ entries.map (·.1)) :
    (mk kind (entries ++ [(key, before)])).set key after = mk kind (entries ++ [(key, after)]) := by
  have hsame : entries.map (fun entry => if entry.1 = key then (key, after) else entry) = entries := by
    have hother : ∀ entry ∈ entries, (if entry.1 = key then (key, after) else entry) = id entry :=
      fun entry he => if_neg fun hk => h (List.mem_map.mpr ⟨entry, he, hk⟩)
    rw [List.map_congr_left hother, List.map_id]
  simp [set, Table.entries, Table.kind, hsame]

theorem declare_fresh (h : name ∉ entries.map (·.1)) : (mk .declared entries).declare [name] =
    some (mk .declared (entries ++ [(name, .table (.mk .declared []))])) := by
  simp [declare, modify, find?_of_fresh _ h, set_of_fresh _ _ h]

theorem addBelow_last (value : Value) (hname : name ∉ entries.map (·.1))
    (hkey : key ∉ below.map (·.1)) :
    (mk .declared (entries ++ [(name, .table (.mk .declared below))])).addBelow [name] [key] value =
      some (mk .declared (entries ++ [(name, .table (.mk .declared (below ++ [(key, value)])))])) := by
  simp [addBelow, addValue, modify, find?_last _ _ hname, set_last _ _ _ hname, find?_of_fresh _ hkey,
    set_of_fresh _ _ hkey, Table.kind]

end Table

-- ---------------------------------------------------------------------------
-- Lines
-- ---------------------------------------------------------------------------

def IsBareKey (key : String) : Prop := key.toList ≠ [] ∧ ∀ c ∈ key.toList, isBareKeyChar c = true

theorem IsBareKey.starts {key : String} (h : IsBareKey key) :
    ∃ c more, key.toList = c :: more ∧ isBareKeyChar c = true := by
  obtain ⟨c, more, hmore⟩ := List.exists_cons_of_ne_nil h.1
  exact ⟨c, more, hmore, h.2 c (by rw [hmore]; exact List.mem_cons_self)⟩

theorem ne_of_isBareKeyChar {c d : Char} (h : isBareKeyChar c = true) (hd : isBareKeyChar d = false) :
    c ≠ d := by
  rintro rfl
  cases h.symm.trans hd

theorem skipBlank_of_bare {c : Char} (h : isBareKeyChar c = true) : skipBlank (c :: rest) = c :: rest := by
  have hspace : c ≠ ' ' := ne_of_isBareKeyChar h (by decide)
  have htab : c ≠ '\t' := ne_of_isBareKeyChar h (by decide)
  exact List.dropWhile_cons_of_neg (by simp [hspace, htab])

theorem simpleKey?_bare {key : String} (h : IsBareKey key) {c : Char} (hc : isBareKeyChar c = false) :
    simpleKey? fuel (key.toList ++ c :: rest) = some (key, c :: rest) := by
  have hspan : (key.toList ++ c :: rest).span isBareKeyChar = (key.toList, c :: rest) := by
    rw [List.span_eq_takeWhile_dropWhile, List.takeWhile_append_of_pos h.2,
      List.dropWhile_append_of_pos h.2]
    simp [hc]
  obtain ⟨first, more, hmore, hfirst⟩ := h.starts
  have hquote : first ≠ '"' := ne_of_isBareKeyChar hfirst (by decide)
  have happostrophe : first ≠ '\'' := ne_of_isBareKeyChar hfirst (by decide)
  have hkey : String.ofList (first :: more) = key := by rw [← hmore, String.ofList_toList]
  rw [hmore, List.cons_append] at hspan ⊢
  simp only [simpleKey?, hspan, hkey]
  simp [hquote, happostrophe]

theorem key?_bare {key : String} (h : IsBareKey key) {c : Char} (hc : isBareKeyChar c = false)
    (hdot : ∀ d ∈ (skipBlank (c :: rest)).head?, d ≠ '.') :
    key? (fuel + 1) (key.toList ++ c :: rest) = some ([key], skipBlank (c :: rest)) := by
  have hsimple : simpleKey? (fuel + 1) (skipBlank (key.toList ++ c :: rest)) = some (key, c :: rest) := by
    rw [← @simpleKey?_bare rest (fuel + 1) key h c hc]
    obtain ⟨first, more, hmore, hfirst⟩ := h.starts
    rw [hmore, List.cons_append, skipBlank_of_bare hfirst]
  have hdotted : dottedKey? (fuel + 1) (key.toList ++ c :: rest) =
      some ([key], skipBlank (c :: rest)) := by
    simp only [dottedKey?, hsimple, Option.bind_eq_bind, Option.bind_some]
    split
    case h_1 heq => exact absurd rfl (hdot '.' (by rw [heq]; rfl))
    case h_2 => rfl
  rw [key?, hdotted]
  rfl

/-- What starts a line here is no blank, no comment and no end of a line. -/
theorem skipLines_of_starts {c : Char} (h : c = '[' ∨ isBareKeyChar c = true) :
    skipLines fuel (c :: rest) = c :: rest := by
  have hne : ∀ d, isBareKeyChar d = false → d ≠ '[' → c ≠ d := by
    intro d hd hbracket
    rcases h with rfl | h
    · exact Ne.symm hbracket
    · exact ne_of_isBareKeyChar h hd
  have hspace : c ≠ ' ' := hne _ (by decide) (by decide)
  have htab : c ≠ '\t' := hne _ (by decide) (by decide)
  have hcomment : c ≠ '#' := hne _ (by decide) (by decide)
  have hnewline : c ≠ '\n' := hne _ (by decide) (by decide)
  have hreturn : c ≠ '\r' := hne _ (by decide) (by decide)
  cases fuel with
  | zero => rfl
  | succ fuel => simp [skipLines, skipBlank, skipComment, Quoted.newline?, hspace, htab, hcomment,
      hnewline, hreturn]

theorem Scalar.render_starts {written : Scalar} {text : List Char} (h : written.render = .ok text) :
    ∃ c more, text = c :: more ∧ c ≠ ' ' ∧ c ≠ '\t' := by
  have hquoted (value : List Char) :
      ∃ c more, Quoted.render value = c :: more ∧ c ≠ ' ' ∧ c ≠ '\t' := by
    obtain ⟨quote, more, hmore, hquote⟩ := Quoted.render_starts value
    refine ⟨quote, more, hmore, ?_⟩
    rcases hquote with rfl | rfl <;> decide
  cases written with
  | string value =>
    cases h
    exact hquoted value.toList
  | path given =>
    obtain rfl := Scalar.render_path h
    exact hquoted given.display.toList
  | integer n =>
    obtain ⟨-, rfl⟩ := Scalar.render_integer h
    obtain ⟨c, more, hmore, hc⟩ := decimal_eq_cons n
    refine ⟨c, more, hmore, ?_⟩
    constructor
    · rintro rfl
      cases hc
    · rintro rfl
      cases hc
  | boolean value =>
    cases h
    cases value
    · exact ⟨'f', _, rfl, by decide⟩
    · exact ⟨'t', _, rfl, by decide⟩

theorem lines?_entry {header : List String} {table : Toml.Table} {key : String} {written : Scalar}
    {text : List Char} (hkey : IsBareKey key) (hvalue : written.render = .ok text)
    (hfuel : text.length ≤ fuel) (rest : List Char) :
    lines? (fuel + 1) header table (key.toList ++ " = ".toList ++ text ++ ['\n'] ++ rest) =
      (table.addBelow header [key] written.value).bind fun table => lines? fuel header table rest := by
  obtain ⟨c, others, hothers, hspace, htab⟩ := Scalar.render_starts hvalue
  have hread : key? fuel (key.toList ++ ' ' :: '=' :: ' ' :: (text ++ '\n' :: rest)) =
      some ([key], '=' :: ' ' :: (text ++ '\n' :: rest)) := by
    obtain ⟨fuel, rfl⟩ := Nat.exists_eq_succ_of_ne_zero (show fuel ≠ 0 by
      rw [hothers, List.length_cons] at hfuel
      omega)
    exact key?_bare hkey (by decide) (by simp [skipBlank])
  have hblank : skipBlank (' ' :: (text ++ '\n' :: rest)) = text ++ '\n' :: rest := by
    simp [skipBlank, hothers, hspace, htab]
  have hvalue' : value? 0 (2 * fuel + 2) (text ++ '\n' :: rest) = some (written.value, '\n' :: rest) :=
    value?_render hvalue (by omega) rest
  have hend : lineEnd? ('\n' :: rest) = some rest := rfl
  obtain ⟨first, more, hmore, hfirst⟩ := hkey.starts
  have hbracket : first ≠ '[' := ne_of_isBareKeyChar hfirst (by decide)
  rw [show key.toList ++ " = ".toList ++ text ++ ['\n'] ++ rest =
    key.toList ++ ' ' :: '=' :: ' ' :: (text ++ '\n' :: rest) by simp]
  rw [hmore, List.cons_append] at hread ⊢
  simp [lines?, skipLines_of_starts (.inr hfirst), hbracket, hread, hblank, hvalue', hend]

theorem lines?_header {header : List String} {table : Toml.Table} {name : String}
    (hname : IsBareKey name) (rest : List Char) :
    lines? (fuel + 2) header table (['['] ++ name.toList ++ [']', '\n'] ++ rest) =
      (table.declare [name]).bind fun table => lines? (fuel + 1) [name] table rest := by
  have hread : key? (fuel + 1) (name.toList ++ ']' :: '\n' :: rest) = some ([name], ']' :: '\n' :: rest) :=
    key?_bare hname (by decide) (by simp [skipBlank])
  have hend : lineEnd? ('\n' :: rest) = some rest := rfl
  obtain ⟨first, more, hmore, hfirst⟩ := hname.starts
  have hbracket : first ≠ '[' := ne_of_isBareKeyChar hfirst (by decide)
  rw [show ['['] ++ name.toList ++ [']', '\n'] ++ rest = '[' :: (name.toList ++ ']' :: '\n' :: rest) by
    simp]
  rw [hmore, List.cons_append] at hread ⊢
  simp [lines?, skipLines_of_starts (.inl rfl), hbracket, hread, hend]

theorem lines?_gap {header : List String} {table : Toml.Table} (rest : List Char) :
    lines? (fuel + 2) header table ('\n' :: '[' :: rest) =
      lines? (fuel + 2) header table ('[' :: rest) := by
  have hgap : skipLines (fuel + 1) ('\n' :: '[' :: rest) = skipLines (fuel + 1) ('[' :: rest) := by
    rw [skipLines_of_starts (.inl rfl)]
    exact skipLines_of_starts (.inl rfl)
  simp only [lines?, hgap]

-- ---------------------------------------------------------------------------
-- Sections
-- ---------------------------------------------------------------------------

def Section.table (part : Section) : Toml.Table :=
  .mk .declared (part.entries.map fun entry => (entry.1, entry.2.value))

/-- The name and the keys of a section need no quotes, and no key stands twice. -/
structure Section.IsPlain (part : Section) : Prop where
  name : IsBareKey part.name
  keys : ∀ entry ∈ part.entries, IsBareKey entry.1
  nodup : (part.entries.map (·.1)).Nodup

theorem Section.isPlain_of_sublist {part : Section} {keys : List String}
    (hkeys : (part.entries.map (·.1)).Sublist keys)
    (hplain : (∀ key ∈ part.name :: keys, IsBareKey key) ∧ keys.Nodup) : part.IsPlain := by
  obtain ⟨hbare, hnodup⟩ := hplain
  obtain ⟨hname, hbare⟩ := List.forall_mem_cons.mp hbare
  exact ⟨hname, fun _ he => hbare _ (hkeys.subset (List.mem_map_of_mem he)), hnodup.sublist hkeys⟩

theorem lines?_entries {entries : List (String × Scalar)} {lines : List (List Char)}
    {done below : List (String × Value)} {name : String} {result : Toml.Table}
    (h : entries.mapM Section.renderEntry = .ok lines)
    (hkeys : ∀ entry ∈ entries, IsBareKey entry.1) (hname : name ∉ done.map (·.1))
    (hnodup : (below.map (·.1) ++ entries.map (·.1)).Nodup)
    (hrest : ∀ fuel, rest.length < fuel →
      lines? fuel [name] (.mk .declared (done ++ [(name, .table (.mk .declared
        (below ++ entries.map fun entry => (entry.1, entry.2.value))))])) rest = some result)
    (hfuel : (lines.flatten ++ rest).length < fuel) :
    lines? fuel [name] (.mk .declared (done ++ [(name, .table (.mk .declared below))]))
      (lines.flatten ++ rest) = some result := by
  induction entries generalizing lines below fuel with
  | nil =>
    cases h
    have hdone := hrest fuel (by simpa using hfuel)
    rw [List.map_nil, List.append_nil] at hdone
    exact hdone
  | cons entry entries ih =>
    obtain ⟨key, written⟩ := entry
    simp only [List.mapM_cons, bind_eq_ok, pure_eq_ok] at h
    obtain ⟨line, hline, others, hothers, rfl⟩ := h
    obtain ⟨text, htext, rfl⟩ := map_eq_ok.mp hline
    obtain ⟨hkey, hkeys⟩ := List.forall_mem_cons.mp hkeys
    have hfresh : key ∉ below.map (·.1) := by
      intro hm
      exact List.disjoint_of_nodup_append hnodup hm (by simp)
    cases fuel with
    | zero => cases hfuel
    | succ fuel =>
      rw [List.flatten_cons, List.append_assoc] at hfuel ⊢
      simp only [List.length_append, List.length_singleton] at hfuel
      rw [lines?_entry hkey htext (by omega), Table.addBelow_last _ hname hfresh, Option.bind_some]
      refine ih hothers hkeys ?_ (fun fuel hlong => ?_) (by rw [List.length_append]; omega)
      · rwa [List.map_append, List.append_assoc]
      · rw [List.append_assoc]
        exact hrest fuel hlong

theorem join_newline_cons (text : List Char) (texts : List (List Char)) :
    Text.join ['\n'] (text :: texts) =
      text ++ if texts = [] then [] else '\n' :: Text.join ['\n'] texts := by
  cases texts <;> simp [Text.join]

theorem join_starts {parts : List Section} {text : List Char} {texts : List (List Char)}
    (h : parts.mapM Section.render = .ok (text :: texts)) :
    ∃ more, Text.join ['\n'] (text :: texts) = '[' :: more := by
  cases parts with
  | nil => cases h
  | cons part parts =>
    simp only [List.mapM_cons, bind_eq_ok, pure_eq_ok, List.cons.injEq] at h
    obtain ⟨_, hpart, _, -, rfl, rfl⟩ := h
    obtain ⟨lines, -, rfl⟩ := map_eq_ok.mp hpart
    exact ⟨_, join_newline_cons _ _⟩

theorem lines?_sections {parts : List Section} {texts : List (List Char)}
    {done : List (String × Value)} {header : List String}
    (h : parts.mapM Section.render = .ok texts) (hplain : ∀ part ∈ parts, part.IsPlain)
    (hnodup : (done.map (·.1) ++ parts.map (·.name)).Nodup)
    (hfuel : (Text.join ['\n'] texts).length < fuel) :
    lines? fuel header (.mk .declared done) (Text.join ['\n'] texts) =
      some (.mk .declared (done ++ parts.map fun part => (part.name, .table part.table))) := by
  induction parts generalizing texts done header fuel with
  | nil =>
    cases h
    cases fuel with
    | zero => cases hfuel
    | succ fuel => cases fuel <;> simp [Text.join, lines?, skipLines, skipBlank, skipComment,
        Quoted.newline?]
  | cons part parts ih =>
    simp only [List.mapM_cons, bind_eq_ok, pure_eq_ok] at h
    obtain ⟨text, htext, texts, htexts, rfl⟩ := h
    obtain ⟨lines, hlines, rfl⟩ := map_eq_ok.mp htext
    obtain ⟨hpart, hplain⟩ := List.forall_mem_cons.mp hplain
    have hfresh : part.name ∉ done.map (·.1) := by
      intro hm
      exact List.disjoint_of_nodup_append hnodup hm (by simp)
    have hdone : ((done ++ [(part.name, Value.table part.table)]).map (·.1) ++
        parts.map (·.name)).Nodup := by
      rwa [List.map_append, List.append_assoc]
    rw [join_newline_cons, List.append_assoc] at hfuel ⊢
    simp only [List.length_append, List.length_cons, List.length_nil] at hfuel
    obtain ⟨fuel, rfl⟩ := Nat.exists_eq_add_of_le (show 2 ≤ fuel by omega)
    rw [Nat.add_comm, lines?_header hpart.name, Table.declare_fresh hfresh, Option.bind_some]
    refine lines?_entries hlines hpart.keys hfresh hpart.nodup (fun fuel hlong => ?_)
      (by rw [List.length_append]; omega)
    rw [List.nil_append, List.map_cons, List.append_cons done (part.name, Value.table part.table)]
    -- Behind the empty line the next section starts, or there is none.
    cases texts with
    | nil => exact ih htexts hplain hdone hlong
    | cons next others =>
      obtain ⟨more, hmore⟩ := join_starts htexts
      rw [if_neg (by simp), List.length_cons, hmore, List.length_cons] at hlong
      obtain ⟨fuel, rfl⟩ := Nat.exists_eq_add_of_le (show 2 ≤ fuel by omega)
      have hread := @ih (fuel + 2) _ _ [part.name] htexts hplain hdone
        (by rw [hmore, List.length_cons]; omega)
      rw [if_neg (by simp), Nat.add_comm, hmore, lines?_gap, ← hmore]
      exact hread

theorem renderAll_isOk {parts : List Section} : (∃ text, Section.renderAll parts = .ok text) ↔
    ∀ part ∈ parts, ∀ entry ∈ part.entries, entry.2.IsWritable := by
  simp only [Section.renderAll, Section.render, Section.renderEntry, map_isOk, mapM_isOk,
    Scalar.render_isOk]

theorem ofText?_renderAll {parts : List Section} {text : String}
    (h : Section.renderAll parts = .ok text) (hplain : ∀ part ∈ parts, part.IsPlain)
    (hnodup : (parts.map (·.name)).Nodup) :
    ofText? text = some (.mk .declared (parts.map fun part => (part.name, .table part.table))) := by
  obtain ⟨texts, htexts, rfl⟩ := map_eq_ok.mp h
  have hread := @lines?_sections ((Text.join ['\n'] texts).length + 2) parts texts [] [] htexts hplain
    hnodup (by omega)
  have hmark : ∀ more, Text.join ['\n'] texts ≠ '\uFEFF' :: more := by
    cases texts with
    | nil => simp [Text.join]
    | cons text texts =>
      obtain ⟨more, hmore⟩ := join_starts htexts
      simp [hmore]
  rw [ofText?]
  simp only [String.toList_ofList]
  exact hread

end SnippetTrail.Toml
