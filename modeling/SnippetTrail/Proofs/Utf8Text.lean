import Mathlib.Data.List.Basic
import SnippetTrail.Text.System

/-!
# Bytes that are text

The strict reader of bytes accepts exactly what the writer writes (`decode?_eq_some`): each character is
its first byte, which says how many others there are, and bytes that complete it.
-/

namespace SnippetTrail.Text.Utf8

-- ---------------------------------------------------------------------------
-- Characters of more than one byte
-- ---------------------------------------------------------------------------

/-- The bytes complete the part to the code point of a character. -/
inductive Completes : Partial → List UInt8 → Nat → Prop
  | last {part : Partial} {byte : UInt8} : part.owed ≤ 1 → part.low ≤ byte.toNat →
      byte.toNat ≤ part.high → Completes part [byte] (part.bits * 64 + (byte.toNat - 0x80))
  | more {part : Partial} {byte : UInt8} {seq : List UInt8} {n : Nat} : 1 < part.owed →
      part.low ≤ byte.toNat → byte.toNat ≤ part.high →
      Completes ⟨part.bits * 64 + (byte.toNat - 0x80), part.owed - 1, 0x80, 0xBF⟩ seq n →
      Completes part (byte :: seq) n

variable {part : Partial} {first byte : UInt8} {seq rest bytes : List UInt8} {n : Nat} {c : Char}
  {text : List Char}

theorem Completes.scan (h : Completes part seq n) (rest : List UInt8) :
    Utf8.scan (some part) (seq ++ rest) = some (Char.ofNat n) :: Utf8.scan none rest := by
  induction h with
  | last howed hlow hhigh => simp [Utf8.scan, hlow, hhigh, howed]
  | more howed hlow hhigh _ ih =>
    rw [List.cons_append, Utf8.scan]
    simp only [hlow, hhigh, decide_true, Bool.and_self, if_true, if_neg (Nat.not_le.mpr howed)]
    exact ih

theorem exists_completes (h : none ∉ Utf8.scan (some part) bytes) :
    ∃ seq rest n, bytes = seq ++ rest ∧ Completes part seq n := by
  induction bytes generalizing part with
  | nil => exact absurd (by simp [Utf8.scan]) h
  | cons byte bytes ih =>
    rw [Utf8.scan] at h
    dsimp only at h
    split at h
    · rename_i hrange
      simp only [Bool.and_eq_true, decide_eq_true_eq] at hrange
      split at h
      · rename_i howed
        exact ⟨[byte], bytes, _, rfl, .last howed hrange.1 hrange.2⟩
      · rename_i howed
        obtain ⟨seq, rest, n, rfl, hseq⟩ := ih h
        exact ⟨byte :: seq, rest, n, rfl, .more (Nat.not_le.mp howed) hrange.1 hrange.2 hseq⟩
    · simp at h

theorem completes_one {bits low high : Nat} : Completes ⟨bits, 1, low, high⟩ seq n ↔
    ∃ byte : UInt8, seq = [byte] ∧ low ≤ byte.toNat ∧ byte.toNat ≤ high ∧
      n = bits * 64 + (byte.toNat - 0x80) := by
  constructor
  · intro h
    cases h with
    | @last _ byte _ hlow hhigh => exact ⟨byte, rfl, hlow, hhigh, rfl⟩
    | more howed => exact absurd howed (Nat.lt_irrefl 1)
  · rintro ⟨byte, rfl, hlow, hhigh, hn⟩
    rw [hn]
    exact Completes.last (Nat.le_refl 1) hlow hhigh

theorem completes_more {bits owed low high : Nat} : Completes ⟨bits, owed + 2, low, high⟩ seq n ↔
    ∃ (byte : UInt8) (rest : List UInt8), seq = byte :: rest ∧ low ≤ byte.toNat ∧ byte.toNat ≤ high ∧
      Completes ⟨bits * 64 + (byte.toNat - 0x80), owed + 1, 0x80, 0xBF⟩ rest n := by
  constructor
  · intro h
    cases h with
    | last howed => exact absurd howed (Nat.not_le.mpr (Nat.le_add_left 2 owed))
    | more _ hlow hhigh hrest => exact ⟨_, _, rfl, hlow, hhigh, hrest⟩
  · rintro ⟨byte, rest, rfl, hlow, hhigh, hrest⟩
    exact .more (Nat.le_add_left 2 owed) hlow hhigh hrest

-- ---------------------------------------------------------------------------
-- First bytes
-- ---------------------------------------------------------------------------

theorem lead_one (h : byte.toNat < 0x80) : lead byte = .whole (Char.ofNat byte.toNat) := by
  rw [lead, if_pos h]

theorem lead_two (hlow : 0xC2 ≤ byte.toNat) (hhigh : byte.toNat < 0xE0) :
    lead byte = .start ⟨byte.toNat - 0xC0, 1, 0x80, 0xBF⟩ := by
  rw [lead, if_neg (by omega), if_neg (by omega), if_pos hhigh]

theorem lead_three (hlow : 0xE0 ≤ byte.toNat) (hhigh : byte.toNat < 0xF0) :
    ∃ low high, lead byte = .start ⟨byte.toNat - 0xE0, 2, low, high⟩ ∧
      (byte.toNat = 0xE0 ∧ low = 0xA0 ∨ byte.toNat ≠ 0xE0 ∧ low = 0x80) ∧
      (byte.toNat = 0xED ∧ high = 0x9F ∨ byte.toNat ≠ 0xED ∧ high = 0xBF) := by
  rw [lead, if_neg (by omega), if_neg (by omega), if_neg (by omega)]
  by_cases hfirst : byte.toNat = 0xE0
  · simp [hfirst]
  by_cases hsurrogates : byte.toNat = 0xED
  · simp [hsurrogates]
  · simp [hfirst, hsurrogates, hhigh]

theorem lead_four (hlow : 0xF0 ≤ byte.toNat) (hhigh : byte.toNat ≤ 0xF4) :
    ∃ low high, lead byte = .start ⟨byte.toNat - 0xF0, 3, low, high⟩ ∧
      (byte.toNat = 0xF0 ∧ low = 0x90 ∨ byte.toNat ≠ 0xF0 ∧ low = 0x80) ∧
      (byte.toNat = 0xF4 ∧ high = 0x8F ∨ byte.toNat ≠ 0xF4 ∧ high = 0xBF) := by
  rw [lead, if_neg (by omega), if_neg (by omega), if_neg (by omega)]
  by_cases hfirst : byte.toNat = 0xF0
  · simp [hfirst]
  by_cases hlast : byte.toNat = 0xF4
  · simp [hlast]
  · have hless : byte.toNat < 0xF4 := by omega
    simp [hfirst, hlast, hless, show ¬byte.toNat < 240 by omega, show byte.toNat ≠ 224 by omega,
      show byte.toNat ≠ 237 by omega]

theorem lead_invalid (h : 0x80 ≤ byte.toNat ∧ byte.toNat < 0xC2 ∨ 0xF4 < byte.toNat) :
    lead byte = .invalid := by
  rcases h with ⟨hlow, hhigh⟩ | hhigh
  · rw [lead, if_neg (by omega), if_pos hhigh]
  · simp [lead, show ¬byte.toNat < 128 by omega, show ¬byte.toNat < 194 by omega,
      show ¬byte.toNat < 224 by omega, show ¬byte.toNat < 240 by omega,
      show ¬byte.toNat < 244 by omega, show byte.toNat ≠ 224 by omega,
      show byte.toNat ≠ 237 by omega, show byte.toNat ≠ 240 by omega, show byte.toNat ≠ 244 by omega]

theorem lead_start (h : lead byte = .start part) :
    (0xC2 ≤ byte.toNat ∧ byte.toNat < 0xE0) ∨ (0xE0 ≤ byte.toNat ∧ byte.toNat < 0xF0) ∨
      (0xF0 ≤ byte.toNat ∧ byte.toNat ≤ 0xF4) := by
  by_cases hone : byte.toNat < 0x80
  · rw [lead_one hone] at h
    cases h
  by_cases hno : 0x80 ≤ byte.toNat ∧ byte.toNat < 0xC2 ∨ 0xF4 < byte.toNat
  · rw [lead_invalid hno] at h
    cases h
  · omega

-- ---------------------------------------------------------------------------
-- Single characters
-- ---------------------------------------------------------------------------

theorem toNat_ofNat (h : n.isValidChar) : (Char.ofNat n).toNat = n := by
  rw [Char.ofNat, dif_pos h]
  rfl

theorem ofNat_eq (h : UInt8.toNat byte = n) : UInt8.ofNat n = byte := by
  rw [← h, UInt8.ofNat_toNat]

theorem encode_two {low : UInt8} (hfirst : 0xC2 ≤ first.toNat ∧ first.toNat < 0xE0)
    (hlow : 0x80 ≤ low.toNat ∧ low.toNat ≤ 0xBF)
    (hc : c.toNat = (first.toNat - 0xC0) * 64 + (low.toNat - 0x80)) :
    String.utf8EncodeChar c = [first, low] := by
  have hval : c.val.toNat = c.toNat := rfl
  rw [String.utf8EncodeChar, hval, if_neg (by omega), if_pos (by omega), @ofNat_eq first _ (by omega),
    @ofNat_eq low _ (by omega)]

theorem encode_three {middle low : UInt8} (hfirst : 0xE0 ≤ first.toNat ∧ first.toNat < 0xF0)
    (hmiddle : 0x80 ≤ middle.toNat ∧ middle.toNat ≤ 0xBF)
    (hleast : first.toNat = 0xE0 → 0xA0 ≤ middle.toNat)
    (hlow : 0x80 ≤ low.toNat ∧ low.toNat ≤ 0xBF)
    (hc : c.toNat = ((first.toNat - 0xE0) * 64 + (middle.toNat - 0x80)) * 64 + (low.toNat - 0x80)) :
    String.utf8EncodeChar c = [first, middle, low] := by
  have hval : c.val.toNat = c.toNat := rfl
  rw [String.utf8EncodeChar, hval, if_neg (by omega), if_neg (by omega), if_pos (by omega),
    @ofNat_eq first _ (by omega), @ofNat_eq middle _ (by omega), @ofNat_eq low _ (by omega)]

theorem encode_four {second third low : UInt8} (hfirst : 0xF0 ≤ first.toNat ∧ first.toNat ≤ 0xF4)
    (hsecond : 0x80 ≤ second.toNat ∧ second.toNat ≤ 0xBF)
    (hleast : first.toNat = 0xF0 → 0x90 ≤ second.toNat)
    (hthird : 0x80 ≤ third.toNat ∧ third.toNat ≤ 0xBF) (hlow : 0x80 ≤ low.toNat ∧ low.toNat ≤ 0xBF)
    (hc : c.toNat = (((first.toNat - 0xF0) * 64 + (second.toNat - 0x80)) * 64 +
      (third.toNat - 0x80)) * 64 + (low.toNat - 0x80)) :
    String.utf8EncodeChar c = [first, second, third, low] := by
  have hval : c.val.toNat = c.toNat := rfl
  rw [String.utf8EncodeChar, hval, if_neg (by omega), if_neg (by omega), if_neg (by omega),
    @ofNat_eq first _ (by omega), @ofNat_eq second _ (by omega), @ofNat_eq third _ (by omega),
    @ofNat_eq low _ (by omega)]

/-- What is completed behind a first byte is a character beyond ASCII, which is written with these bytes. -/
theorem encode_of_completes (hlead : lead first = .start part) (hseq : Completes part seq n) :
    String.utf8EncodeChar (Char.ofNat n) = first :: seq := by
  rcases lead_start hlead with hfirst | hfirst | hfirst
  · obtain rfl := Lead.start.inj (hlead.symm.trans (lead_two hfirst.1 hfirst.2))
    obtain ⟨low, rfl, hlow, hhigh, hn⟩ := completes_one.mp hseq
    have hchar : (Char.ofNat n).toNat = n := toNat_ofNat (by unfold Nat.isValidChar; omega)
    exact encode_two hfirst ⟨hlow, hhigh⟩ (hchar.trans hn)
  · obtain ⟨least, most, hpart, hleast, hmost⟩ := lead_three hfirst.1 hfirst.2
    obtain rfl := Lead.start.inj (hlead.symm.trans hpart)
    obtain ⟨middle, rest, rfl, hmiddle, hm, hrest⟩ := completes_more.mp hseq
    obtain ⟨low, rfl, hlow, hhigh, hn⟩ := completes_one.mp hrest
    have hchar : (Char.ofNat n).toNat = n := toNat_ofNat (by unfold Nat.isValidChar; omega)
    exact encode_three hfirst ⟨by omega, by omega⟩ (by omega) ⟨hlow, hhigh⟩ (hchar.trans hn)
  · obtain ⟨least, most, hpart, hleast, hmost⟩ := lead_four hfirst.1 hfirst.2
    obtain rfl := Lead.start.inj (hlead.symm.trans hpart)
    obtain ⟨second, rest, rfl, hsecond, hs, hrest⟩ := completes_more.mp hseq
    obtain ⟨third, rest, rfl, hthird, ht, hrest⟩ := completes_more.mp hrest
    obtain ⟨low, rfl, hlow, hhigh, hn⟩ := completes_one.mp hrest
    have hchar : (Char.ofNat n).toNat = n := toNat_ofNat (by unfold Nat.isValidChar; omega)
    exact encode_four hfirst ⟨by omega, by omega⟩ (by omega) ⟨hthird, ht⟩ ⟨hlow, hhigh⟩
      (hchar.trans hn)

theorem exists_byte (h : n < 256) : ∃ byte : UInt8, byte.toNat = n :=
  ⟨UInt8.ofNat n, by rw [UInt8.toNat_ofNat', Nat.mod_eq_of_lt h]⟩

theorem exists_lead (h : 0x80 ≤ c.toNat) :
    ∃ first seq part, String.utf8EncodeChar c = first :: seq ∧ lead first = .start part ∧
      Completes part seq c.toNat := by
  have hvalid : c.toNat < 0xD800 ∨ 0xDFFF < c.toNat ∧ c.toNat < 0x110000 := c.valid
  obtain ⟨low, hlow⟩ : ∃ low : UInt8, low.toNat = c.toNat % 64 + 0x80 := exists_byte (by omega)
  by_cases htwo : c.toNat < 0x800
  · obtain ⟨first, hfirst⟩ : ∃ first : UInt8, first.toNat = c.toNat / 64 + 0xC0 :=
      exists_byte (by omega)
    exact ⟨first, [low], _, encode_two (by omega) (by omega) (by omega), lead_two (by omega) (by omega),
      completes_one.mpr ⟨low, rfl, by omega, by omega, by omega⟩⟩
  obtain ⟨third, hthird⟩ : ∃ third : UInt8, third.toNat = c.toNat / 64 % 64 + 0x80 :=
    exists_byte (by omega)
  by_cases hthree : c.toNat < 0x10000
  · obtain ⟨first, hfirst⟩ : ∃ first : UInt8, first.toNat = c.toNat / 4096 + 0xE0 :=
      exists_byte (by omega)
    obtain ⟨least, most, hlead, hleast, hmost⟩ := @lead_three first (by omega) (by omega)
    exact ⟨first, [third, low], _, encode_three (by omega) (by omega) (by omega) (by omega) (by omega),
      hlead, completes_more.mpr ⟨third, [low], rfl, by omega, by omega,
        completes_one.mpr ⟨low, rfl, by omega, by omega, by omega⟩⟩⟩
  · obtain ⟨first, hfirst⟩ : ∃ first : UInt8, first.toNat = c.toNat / 262144 + 0xF0 :=
      exists_byte (by omega)
    obtain ⟨second, hsecond⟩ : ∃ second : UInt8, second.toNat = c.toNat / 4096 % 64 + 0x80 :=
      exists_byte (by omega)
    obtain ⟨least, most, hlead, hleast, hmost⟩ := @lead_four first (by omega) (by omega)
    exact ⟨first, [second, third, low], _,
      encode_four (by omega) (by omega) (by omega) (by omega) (by omega) (by omega),
      hlead, completes_more.mpr ⟨second, [third, low], rfl, by omega, by omega,
        completes_more.mpr ⟨third, [low], rfl, by omega, by omega,
          completes_one.mpr ⟨low, rfl, by omega, by omega, by omega⟩⟩⟩⟩

theorem utf8EncodeChar_ascii (h : c.toNat < 0x80) :
    String.utf8EncodeChar c = [UInt8.ofNat c.toNat] := by
  have hval : c.val.toNat ≤ 127 := Nat.le_of_lt_succ h
  simp only [String.utf8EncodeChar, if_pos hval]
  rfl

-- ---------------------------------------------------------------------------
-- Whole texts
-- ---------------------------------------------------------------------------

theorem scan_utf8EncodeChar (c : Char) (rest : List UInt8) :
    scan none (String.utf8EncodeChar c ++ rest) = some c :: scan none rest := by
  by_cases h : 0x80 ≤ c.toNat
  · obtain ⟨first, seq, part, hencode, hlead, hseq⟩ := exists_lead h
    rw [hencode, List.cons_append, scan]
    simp only [hlead]
    rw [hseq.scan rest, Char.ofNat_toNat]
  · obtain ⟨byte, hbyte⟩ : ∃ byte : UInt8, byte.toNat = c.toNat := exists_byte (by omega)
    have hlead : lead byte = .whole c := by
      rw [lead_one (by omega), hbyte, Char.ofNat_toNat]
    rw [utf8EncodeChar_ascii (Nat.not_le.mp h), ofNat_eq hbyte, List.singleton_append, scan]
    simp only [hlead]

theorem scan_encode (text : List Char) : scan none (encode text) = text.map some := by
  induction text with
  | nil => rfl
  | cons c rest ih =>
    rw [encode, List.flatMap_cons, scan_utf8EncodeChar, ← encode, ih, List.map_cons]

theorem exists_char (h : none ∉ scan none (byte :: bytes)) :
    ∃ c rest, byte :: bytes = String.utf8EncodeChar c ++ rest := by
  by_cases hascii : byte.toNat < 0x80
  · have hchar : (Char.ofNat byte.toNat).toNat = byte.toNat :=
      toNat_ofNat (by unfold Nat.isValidChar; omega)
    refine ⟨Char.ofNat byte.toNat, bytes, ?_⟩
    rw [utf8EncodeChar_ascii (by omega), hchar, UInt8.ofNat_toNat, List.singleton_append]
  · rw [scan] at h
    cases hlead : lead byte with
    | whole d =>
      rw [lead, if_neg hascii] at hlead
      repeat' split at hlead
      all_goals cases hlead
    | start part =>
      simp only [hlead] at h
      obtain ⟨seq, rest, n, rfl, hseq⟩ := exists_completes h
      exact ⟨Char.ofNat n, rest, by rw [encode_of_completes hlead hseq, List.cons_append]⟩
    | invalid => simp [hlead] at h

theorem eq_encode_of_scan (h : scan none bytes = text.map some) : bytes = encode text := by
  induction text generalizing bytes with
  | nil =>
    cases bytes with
    | nil => rfl
    | cons byte bytes =>
      obtain ⟨c, rest, hbytes⟩ := exists_char (by rw [h]; simp)
      rw [hbytes, scan_utf8EncodeChar] at h
      cases h
  | cons c text ih =>
    cases bytes with
    | nil => cases h
    | cons byte bytes =>
      obtain ⟨d, rest, hbytes⟩ := exists_char (by rw [h]; simp)
      rw [hbytes, scan_utf8EncodeChar, List.map_cons, List.cons.injEq, Option.some.injEq] at h
      obtain ⟨rfl, hrest⟩ := h
      rw [hbytes, ih hrest, encode, encode, List.flatMap_cons]

theorem decode?_eq_some : decode? bytes = some text ↔ bytes = encode text := by
  have hall (pieces : List (Option Char)) : pieces.mapM id = some text ↔ pieces = text.map some := by
    induction pieces generalizing text with
    | nil => cases text <;> simp
    | cons piece pieces ih =>
      cases piece with
      | none => cases text <;> simp
      | some c => cases text <;> simp [Option.bind_eq_some_iff, ih, and_comm]
  rw [decode?, hall]
  constructor
  · exact eq_encode_of_scan
  · rintro rfl
    exact scan_encode text

theorem decodeLossy_encode (text : List Char) : decodeLossy (encode text) = text := by
  rw [decodeLossy, scan_encode, List.map_map]
  exact List.map_id text

end SnippetTrail.Text.Utf8

namespace SnippetTrail.SystemText

variable {given : SystemText} {text : String}

theorem text?_eq_some : given.text? = some text ↔ given = text := by
  have hof : given = ofText text ↔ given.bytes = Text.Utf8.encode text.toList := by
    cases given
    exact SystemText.mk.injEq _ _ |>.to_iff
  rw [hof, ← Text.Utf8.decode?_eq_some, text?, Option.map_eq_some_iff]
  constructor
  · rintro ⟨chars, hchars, rfl⟩
    rwa [String.toList_ofList]
  · exact fun h => ⟨text.toList, h, String.ofList_toList⟩

theorem text?_ofText (text : String) : (ofText text).text? = some text := text?_eq_some.mpr rfl

theorem display_ofText (text : String) : (ofText text).display = text := by
  rw [display, ofText, Text.Utf8.decodeLossy_encode, String.ofList_toList]

theorem exists_ofText_iff : (∃ text : String, given = text) ↔ given.text? ≠ none := by
  simp only [← text?_eq_some, ← Option.isSome_iff_exists, Option.isSome_iff_ne_none]

end SnippetTrail.SystemText
