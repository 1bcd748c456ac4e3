import Mathlib.Data.List.Basic
import SnippetTrail.Git.Hash

/-!
# Hashes as text

A byte is written as two digits and read back from them, so the forty digits of a hash are read back as
the hash (`ofHex?_hex`).
-/

namespace SnippetTrail

namespace Hex

theorem digit_byte : ∀ n < 16, String.utf8EncodeChar (digit n) = [(digit n).toNat.toUInt8] ∧
    value? (digit n).toNat.toUInt8 = some n := by
  decide

theorem mem_encode {bytes : List UInt8} {c : Char} (h : c ∈ encode bytes) : ∃ n < 16, c = digit n := by
  obtain ⟨byte, -, hc⟩ := List.mem_flatMap.mp h
  have hbyte := byte.toNat_lt
  simp only [encodeByte, List.mem_cons, List.not_mem_nil, or_false] at hc
  rcases hc with rfl | rfl
  · exact ⟨byte.toNat / 16, by omega, rfl⟩
  · exact ⟨byte.toNat % 16, by omega, rfl⟩

theorem length_encode (bytes : List UInt8) : (encode bytes).length = 2 * bytes.length := by
  induction bytes with
  | nil => rfl
  | cons byte rest ih =>
    have hlength : (encode (byte :: rest)).length = 2 + (encode rest).length := by
      simp [encode, encodeByte]
      omega
    rw [hlength, ih, List.length_cons]
    omega

theorem utf8_encode (bytes : List UInt8) :
    Text.Utf8.encode (encode bytes) = (encode bytes).map fun c => c.toNat.toUInt8 := by
  have hsingle : ∀ c ∈ encode bytes, String.utf8EncodeChar c = [c.toNat.toUInt8] := by
    intro c hc
    obtain ⟨n, hn, rfl⟩ := mem_encode hc
    exact (digit_byte n hn).1
  rw [Text.Utf8.encode, List.flatMap_congr hsingle, List.map_eq_flatMap]

theorem leadingPairs_encode (bytes : List UInt8) :
    leadingPairs ((encode bytes).map fun c => c.toNat.toUInt8) = bytes := by
  induction bytes with
  | nil => rfl
  | cons byte rest ih =>
    have hbyte := byte.toNat_lt
    have hhigh := (digit_byte (byte.toNat / 16) (by omega)).2
    have hlow := (digit_byte (byte.toNat % 16) (by omega)).2
    have hsum : 16 * (byte.toNat / 16) + byte.toNat % 16 = byte.toNat := by omega
    show leadingPairs (_ :: _ :: (encode rest).map fun c => c.toNat.toUInt8) = byte :: rest
    rw [leadingPairs, hhigh, hlow]
    dsimp only
    rw [hsum, UInt8.ofNat_toNat, ih]

end Hex

namespace Hash

theorem length_hex (hash : Hash) : hash.hex.toList.length = 40 := by
  rw [hex, String.toList_ofList, Hex.length_encode, hash.length_bytes]

theorem ofHex?_hex (hash : Hash) : ofHex? hash.hex = some hash := by
  have hbytes : Text.Utf8.encode hash.hex.toList =
      (Hex.encode hash.bytes).map fun c => c.toNat.toUInt8 := by
    rw [hex, String.toList_ofList, Hex.utf8_encode]
  have hpairs : Hex.leadingPairs (Text.Utf8.encode hash.hex.toList) = hash.bytes := by
    rw [hbytes, Hex.leadingPairs_encode]
  have hlength : (Text.Utf8.encode hash.hex.toList).length = 40 := by
    rw [hbytes, List.length_map, Hex.length_encode, hash.length_bytes]
  rw [ofHex?, dif_pos ⟨hlength, hpairs ▸ hash.length_bytes⟩]
  congr

end Hash

end SnippetTrail
