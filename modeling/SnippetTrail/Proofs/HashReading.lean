import Mathlib.Data.List.Basic
import Mathlib.Data.List.Infix
import SnippetTrail.Proofs.HashText
import SnippetTrail.Proofs.Utf8Text

/-!
# Reading hashes

Forty digits of either case are read as the hash that they write, and no other text is read strictly
(`ofHex?_eq_some`). The lenient reader takes the longest run of pairs of digits that a text begins with
(`exists_lenient`). Hashes are ordered as their texts are (`encode_lt_encode`).
-/

namespace SnippetTrail

namespace Hex

variable {bytes text run : List UInt8} {characters : List Char}

-- ---------------------------------------------------------------------------
-- Digits
-- ---------------------------------------------------------------------------

def digits : List Char := "0123456789abcdefABCDEF".toList

def IsDigit (c : Char) : Prop := c ∈ digits

instance (c : Char) : Decidable (IsDigit c) := inferInstanceAs (Decidable (c ∈ digits))

theorem forall_byte {holds : UInt8 → Prop} (h : ∀ n < 256, holds (UInt8.ofNat n)) (byte : UInt8) :
    holds byte := by
  have hbyte := h byte.toNat byte.toNat_lt
  rwa [UInt8.ofNat_toNat] at hbyte

theorem value?_eq_some : ∀ byte : UInt8, ∀ n < 16,
    value? byte = some n ↔ (Char.ofUInt8 byte).toLower = digit n :=
  forall_byte (by decide +kernel)

theorem value?_lt : ∀ byte : UInt8, ∀ n ∈ value? byte, n < 16 :=
  forall_byte (by decide +kernel)

theorem value?_isSome : ∀ byte : UInt8, (value? byte).isSome ↔ IsDigit (Char.ofUInt8 byte) :=
  forall_byte (by decide +kernel)

theorem ascii_of_isDigit {c : Char} (h : IsDigit c) : c.toNat < 128 := by
  have hall : digits.all (·.toNat < 128) = true := by decide
  simpa using List.all_eq_true.mp hall c h

theorem isDigit_of_toLower {c : Char} {n : Nat} (hn : n < 16) (h : c.toLower = digit n) : IsDigit c := by
  have hascii : c.toNat < 128 := by
    have hdigit : ∀ n < 16, (digit n).toNat < 128 := by decide
    have hlower := hdigit n hn
    rw [← h] at hlower
    unfold Char.toLower at hlower
    split at hlower
    · rename_i hupper
      exact Nat.lt_of_le_of_lt (UInt32.le_iff_toNat_le.mp hupper.2) (by decide)
    · exact hlower
  have hall : ∀ m < 128, ∀ n < 16, (Char.ofNat m).toLower = digit n → IsDigit (Char.ofNat m) := by
    decide +kernel
  rw [← Char.ofNat_toNat c] at h ⊢
  exact hall c.toNat hascii n hn h

theorem digit_eq_digit : ∀ m < 16, ∀ n < 16, digit m = digit n ↔ m = n := by
  decide

theorem digit_lt_digit : ∀ m < 16, ∀ n < 16, digit m < digit n ↔ m < n := by
  decide

-- ---------------------------------------------------------------------------
-- Texts that write bytes
-- ---------------------------------------------------------------------------

/-- The characters of a text that has one byte for each. -/
def shown (text : List UInt8) : List Char := text.map Char.ofUInt8

def Writes (bytes text : List UInt8) : Prop := (shown text).map Char.toLower = encode bytes

theorem encode_cons (byte : UInt8) (bytes : List UInt8) : encode (byte :: bytes) =
    digit (byte.toNat / 16) :: digit (byte.toNat % 16) :: encode bytes := rfl

theorem writes_cons {byte high low : UInt8} {rest : List UInt8} :
    Writes (byte :: bytes) (high :: low :: rest) ↔
      value? high = some (byte.toNat / 16) ∧ value? low = some (byte.toNat % 16) ∧
        Writes bytes rest := by
  have hbyte := byte.toNat_lt
  rw [value?_eq_some high _ (by omega), value?_eq_some low _ (by omega)]
  simp [Writes, shown, encode_cons]

theorem Writes.length (h : Writes bytes text) : text.length = 2 * bytes.length := by
  rw [← length_encode, ← h, List.length_map, shown, List.length_map]

theorem Writes.isDigit (h : Writes bytes text) : ∀ byte ∈ text, IsDigit (Char.ofUInt8 byte) := by
  intro byte hm
  have hmem : (Char.ofUInt8 byte).toLower ∈ encode bytes :=
    h ▸ List.mem_map_of_mem (List.mem_map_of_mem hm)
  obtain ⟨n, hn, hdigit⟩ := mem_encode hmem
  exact isDigit_of_toLower hn hdigit

theorem Writes.take (h : Writes bytes text) (count : Nat) :
    Writes (bytes.take count) (text.take (2 * count)) := by
  induction count generalizing bytes text with
  | zero => rfl
  | succ count ih =>
    cases bytes with
    | nil =>
      rw [List.length_eq_zero_iff.mp h.length]
      rfl
    | cons byte bytes =>
      match text, h.length with
      | high :: low :: rest, _ =>
        obtain ⟨hhigh, hlow, hrest⟩ := writes_cons.mp h
        exact writes_cons.mpr ⟨hhigh, hlow, ih hrest⟩

theorem leadingPairs_of_writes (h : Writes bytes text) : leadingPairs text = bytes := by
  induction bytes generalizing text with
  | nil =>
    rw [List.length_eq_zero_iff.mp h.length]
    rfl
  | cons byte bytes ih =>
    match text, h.length with
    | high :: low :: rest, _ =>
      obtain ⟨hhigh, hlow, hrest⟩ := writes_cons.mp h
      have hbyte : 16 * (byte.toNat / 16) + byte.toNat % 16 = byte.toNat := by omega
      simp only [leadingPairs, hhigh, hlow, hbyte, UInt8.ofNat_toNat, ih hrest]

theorem writes_leadingPairs (text : List UInt8) :
    Writes (leadingPairs text) (text.take (2 * (leadingPairs text).length)) := by
  fun_induction leadingPairs text with
  | case1 high low rest h l hlow hhigh ih =>
    have hbounds := And.intro (value?_lt high h hhigh) (value?_lt low l hlow)
    have hbyte : (UInt8.ofNat (16 * h + l)).toNat = 16 * h + l := by
      rw [UInt8.toNat_ofNat']
      omega
    refine writes_cons.mpr ⟨?_, ?_, ih⟩
    · rw [hbyte, hhigh]
      congr 1
      omega
    · rw [hbyte, hlow]
      congr 1
      omega
  | case2 => rfl
  | case3 => rfl

theorem le_length_leadingPairs {count : Nat} (hrun : run <+: text) (hlength : run.length = 2 * count)
    (hdigit : ∀ byte ∈ run, IsDigit (Char.ofUInt8 byte)) : count ≤ (leadingPairs text).length := by
  induction count generalizing run text with
  | zero => exact Nat.zero_le _
  | succ count ih =>
    match run, hlength with
    | high :: low :: run, hlength =>
      obtain ⟨rest, rfl⟩ := hrun
      obtain ⟨hhigh, hdigit⟩ := List.forall_mem_cons.mp hdigit
      obtain ⟨hlow, hdigit⟩ := List.forall_mem_cons.mp hdigit
      obtain ⟨h, hh⟩ := Option.isSome_iff_exists.mp ((value?_isSome high).mpr hhigh)
      obtain ⟨l, hl⟩ := Option.isSome_iff_exists.mp ((value?_isSome low).mpr hlow)
      have hshort : run.length = 2 * count := by
        simp only [List.length_cons] at hlength
        omega
      have hrest := ih (List.prefix_append run rest) hshort hdigit
      simpa only [List.cons_append, leadingPairs, hh, hl, List.length_cons, Nat.add_le_add_iff_right]
        using hrest

-- ---------------------------------------------------------------------------
-- Digits as characters
-- ---------------------------------------------------------------------------

theorem ascii_of_utf8EncodeChar {c : Char}
    (h : ∀ byte ∈ String.utf8EncodeChar c, byte.toNat < 128) : c.toNat < 128 := by
  by_contra hc
  obtain ⟨first, seq, part, hencode, hlead, -⟩ := Text.Utf8.exists_lead (Nat.not_lt.mp hc)
  have hfirst := h first (hencode ▸ List.mem_cons_self)
  have hrange := Text.Utf8.lead_start hlead
  omega

theorem shown_utf8 (h : ∀ c ∈ characters, c.toNat < 128) :
    shown (Text.Utf8.encode characters) = characters := by
  induction characters with
  | nil => rfl
  | cons c rest ih =>
    obtain ⟨hc, hrest⟩ := List.forall_mem_cons.mp h
    have hbyte : Char.ofUInt8 (UInt8.ofNat c.toNat) = c := by
      have hall : ∀ n < 128, Char.ofUInt8 (UInt8.ofNat n) = Char.ofNat n := by decide
      rw [hall c.toNat hc, Char.ofNat_toNat]
    calc shown (Text.Utf8.encode (c :: rest))
        = Char.ofUInt8 (UInt8.ofNat c.toNat) :: shown (Text.Utf8.encode rest) := by
          rw [Text.Utf8.encode, List.flatMap_cons, Text.Utf8.utf8EncodeChar_ascii hc]
          rfl
      _ = c :: rest := by rw [hbyte, ih hrest]

theorem writes_utf8 : Writes bytes (Text.Utf8.encode characters) ↔
    characters.map Char.toLower = encode bytes := by
  constructor
  · intro h
    have hascii : ∀ c ∈ characters, c.toNat < 128 := fun c hc => by
      refine ascii_of_utf8EncodeChar fun byte hm => ?_
      exact ascii_of_isDigit (h.isDigit byte (List.mem_flatMap.mpr ⟨c, hc, hm⟩))
    rwa [Writes, shown_utf8 hascii] at h
  · intro h
    have hascii : ∀ c ∈ characters, c.toNat < 128 := fun c hc => by
      obtain ⟨n, hn, hdigit⟩ := mem_encode (h ▸ List.mem_map_of_mem hc)
      exact ascii_of_isDigit (isDigit_of_toLower hn hdigit)
    rwa [Writes, shown_utf8 hascii]

-- ---------------------------------------------------------------------------
-- The longest run
-- ---------------------------------------------------------------------------

/-- The text begins with the run, which is of pairs of digits, up to a number of them. -/
structure Begins (limit : Nat) (text run : List UInt8) : Prop where
  starts : run <+: text
  digit : ∀ byte ∈ run, IsDigit (Char.ofUInt8 byte)
  paired : ∃ pairs ≤ limit, run.length = 2 * pairs

structure LongestRun (limit : Nat) (text run : List UInt8) : Prop where
  begins : Begins limit text run
  longest : ∀ other, Begins limit text other → other.length ≤ run.length

theorem longestRun_leadingPairs (limit : Nat) (text : List UInt8) :
    ∃ run, LongestRun limit text run ∧ Writes ((leadingPairs text).take limit) run := by
  have hwrites := (writes_leadingPairs text).take limit
  have hlength := hwrites.length
  refine ⟨_, ⟨⟨?_, hwrites.isDigit, _, ?_, hlength⟩, ?_⟩, hwrites⟩
  · exact (List.take_prefix _ _).trans (List.take_prefix _ _)
  · exact List.length_take_le _ _
  · rintro other ⟨hstarts, hdigit, pairs, hpairs, hother⟩
    have hle := le_length_leadingPairs hstarts hother hdigit
    rw [hother, hlength, List.length_take]
    omega

-- ---------------------------------------------------------------------------
-- Order
-- ---------------------------------------------------------------------------

theorem encode_lt_encode {first second : List UInt8} :
    encode first < encode second ↔ List.compareLex compare first second = .lt := by
  induction first generalizing second with
  | nil =>
    cases second with
    | nil => simp [encode, List.compareLex]
    | cons byte rest => simp [encode_cons, List.compareLex, show encode [] = [] from rfl]
  | cons byte bytes ih =>
    cases second with
    | nil => simp [encode, List.compareLex]
    | cons other others =>
      have hbyte := byte.toNat_lt
      have hother := other.toNat_lt
      rw [encode_cons, encode_cons, List.cons_lt_cons_iff, List.cons_lt_cons_iff, ih,
        List.compareLex_cons_cons, Ordering.then_eq_lt, Std.compare_eq_lt, Std.compare_eq_iff_eq,
        digit_lt_digit _ (by omega) _ (by omega), digit_eq_digit _ (by omega) _ (by omega),
        digit_lt_digit _ (by omega) _ (by omega), digit_eq_digit _ (by omega) _ (by omega),
        UInt8.lt_iff_toNat_lt, ← UInt8.toNat_inj]
      by_cases hrest : List.compareLex compare bytes others = .lt
      · simp only [hrest, and_true]
        omega
      · simp only [hrest, and_false, or_false]
        omega

end Hex

namespace Hash

theorem ofHex?_eq_some {text : String} {hash : Hash} :
    ofHex? text = some hash ↔ Hex.Writes hash.bytes (Text.Utf8.encode text.toList) := by
  constructor
  · intro h
    unfold ofHex? at h
    dsimp only at h
    split at h
    · rename_i hlengths
      cases h
      have hwrites := Hex.writes_leadingPairs (Text.Utf8.encode text.toList)
      rwa [hlengths.2, List.take_of_length_le hlengths.1.le] at hwrites
    · cases h
  · intro h
    have hpairs := Hex.leadingPairs_of_writes h
    have hlength : (Text.Utf8.encode text.toList).length = 40 := by
      rw [h.length, hash.length_bytes]
    rw [ofHex?, dif_pos ⟨hlength, hpairs ▸ hash.length_bytes⟩]
    congr

theorem hex_eq_toLower {text : String} {hash : Hash} (h : ofHex? text = some hash) :
    hash.hex = text.toLower := by
  have hlower : text.toLower = text.map Char.toLower := rfl
  refine String.toList_injective ?_
  rw [hex, String.toList_ofList, hlower, String.toList_map, Hex.writes_utf8.mp (ofHex?_eq_some.mp h)]

theorem ofHex?_isSome {text : String} :
    (ofHex? text).isSome ↔ text.length = 40 ∧ ∀ c ∈ text.toList, Hex.IsDigit c := by
  constructor
  · intro h
    obtain ⟨hash, hread⟩ := Option.isSome_iff_exists.mp h
    have hlower := Hex.writes_utf8.mp (ofHex?_eq_some.mp hread)
    refine ⟨?_, fun c hc => ?_⟩
    · rw [← String.length_toList, ← List.length_map (f := Char.toLower), hlower, Hex.length_encode,
        hash.length_bytes]
    · obtain ⟨n, hn, hdigit⟩ := Hex.mem_encode (hlower ▸ List.mem_map_of_mem hc)
      exact Hex.isDigit_of_toLower hn hdigit
  · rintro ⟨hlength, hdigits⟩
    have hshown : Hex.shown (Text.Utf8.encode text.toList) = text.toList :=
      Hex.shown_utf8 fun c hc => Hex.ascii_of_isDigit (hdigits c hc)
    have hbytes := congrArg List.length hshown
    rw [Hex.shown, List.length_map, String.length_toList, hlength] at hbytes
    have hleast : 20 ≤ (Hex.leadingPairs (Text.Utf8.encode text.toList)).length :=
      Hex.le_length_leadingPairs (List.prefix_refl _) hbytes fun byte hm =>
        hdigits _ (hshown ▸ List.mem_map_of_mem hm)
    have hmost := (Hex.writes_leadingPairs (Text.Utf8.encode text.toList)).length
    rw [List.length_take, hbytes] at hmost
    have hcount : (Hex.leadingPairs (Text.Utf8.encode text.toList)).length = 20 := by omega
    rw [ofHex?, dif_pos ⟨hbytes, hcount⟩]
    rfl

theorem compare_eq_lt {first second : Hash} : compare first second = .lt ↔ first.hex < second.hex := by
  rw [String.lt_iff, hex, hex, String.toList_ofList, String.toList_ofList, Hex.encode_lt_encode]
  rfl

theorem compare_eq_gt {first second : Hash} : compare first second = .gt ↔ second.hex < first.hex := by
  rw [← compare_eq_lt]
  show List.compareLex compare first.bytes second.bytes = .gt ↔
    List.compareLex compare second.bytes first.bytes = .lt
  exact Std.OrientedCmp.gt_iff_lt

theorem compare_eq_eq {first second : Hash} : compare first second = .eq ↔ first.hex = second.hex := by
  constructor
  · intro h
    have hbytes : first.bytes = second.bytes := Std.LawfulEqCmp.eq_of_compare h
    rw [hex, hex, hbytes]
  · intro h
    have hread := ofHex?_hex first
    rw [h, ofHex?_hex] at hread
    cases hread
    show List.compareLex compare first.bytes first.bytes = .eq
    exact Std.ReflCmp.compare_self

theorem bytes_ofBytes (bytes : List UInt8) : (ofBytes bytes).bytes =
    bytes.take 20 ++ List.replicate (20 - (bytes.take 20).length) 0 := by
  show (bytes ++ List.replicate 20 0).take 20 = _
  rw [List.take_append, List.take_replicate, List.length_take]
  congr 2
  omega

/-- The lenient reader reads the longest run that a text begins with, and puts zeros behind it. -/
theorem exists_lenient (text : String) :
    ∃ run bytes, Hex.LongestRun 20 (Text.Utf8.encode text.toList) run ∧ Hex.Writes bytes run ∧
      (lenient text).bytes = bytes ++ List.replicate (20 - bytes.length) 0 := by
  obtain ⟨run, hrun, hwrites⟩ := Hex.longestRun_leadingPairs 20 (Text.Utf8.encode text.toList)
  exact ⟨run, _, hrun, hwrites, bytes_ofBytes _⟩

/-- A hash is read back from its text; exactly the texts of forty digits are read, each as the hash
whose text is the lower-case one, which the lenient reader reads as well; the lenient reader reads the
longest run of at most twenty pairs of digits that a text begins with, with zeros behind it; and hashes
are ordered as their texts are. -/
theorem reads_as_written :
    (∀ hash : Hash, ofHex? hash.hex = some hash) ∧
    (∀ text, (ofHex? text).isSome ↔ text.length = 40 ∧ ∀ c ∈ text.toList, Hex.IsDigit c) ∧
    (∀ text hash, ofHex? text = some hash → hash.hex = text.toLower ∧ lenient text = hash) ∧
    (∀ text, ∃ run bytes, Hex.LongestRun 20 (Text.Utf8.encode text.toList) run ∧
      Hex.Writes bytes run ∧ (lenient text).bytes = bytes ++ List.replicate (20 - bytes.length) 0) ∧
    ∀ first second : Hash, (compare first second = .lt ↔ first.hex < second.hex) ∧
      (compare first second = .eq ↔ first.hex = second.hex) ∧
      (compare first second = .gt ↔ second.hex < first.hex) := by
  refine ⟨ofHex?_hex, fun _ => ofHex?_isSome, fun text hash h => ⟨hex_eq_toLower h, ?_⟩,
    exists_lenient, fun _ _ => ⟨compare_eq_lt, compare_eq_eq, compare_eq_gt⟩⟩
  have hpairs := Hex.leadingPairs_of_writes (ofHex?_eq_some.mp h)
  obtain ⟨bytes, hbytes⟩ := hash
  simp only [lenient, ofBytes, hpairs, List.take_left' hbytes]

theorem reads_as_written_mixed :
    ∃ hash, ofHex? "E7d49F6b1aE3d5ab3b25e3a3fb1aa8c7e2d8a1f3" = some hash ∧
      hash.hex = "e7d49f6b1ae3d5ab3b25e3a3fb1aa8c7e2d8a1f3" ∧
      lenient "E7d49F6b1aE3d5ab3b25e3a3fb1aa8c7e2d8a1f3" = hash := by
  obtain ⟨-, hread, hlower, -⟩ := reads_as_written
  have hdigits : "E7d49F6b1aE3d5ab3b25e3a3fb1aa8c7e2d8a1f3".toList.all (Hex.IsDigit ·) = true := by
    decide +kernel
  have hall : ∀ c ∈ "E7d49F6b1aE3d5ab3b25e3a3fb1aa8c7e2d8a1f3".toList, Hex.IsDigit c :=
    fun c hc => of_decide_eq_true (List.all_eq_true.mp hdigits c hc)
  obtain ⟨hash, h⟩ := Option.isSome_iff_exists.mp
    ((hread "E7d49F6b1aE3d5ab3b25e3a3fb1aa8c7e2d8a1f3").mpr ⟨by decide +kernel, hall⟩)
  obtain ⟨hhex, hlenient⟩ := hlower _ hash h
  exact ⟨hash, h, hhex.trans (by decide +kernel), hlenient⟩

end Hash

end SnippetTrail
