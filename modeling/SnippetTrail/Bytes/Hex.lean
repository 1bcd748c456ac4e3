/-!
# Hexadecimal digits

Bytes are written as two lower-case digits each; digits of either case are read.
-/

namespace SnippetTrail.Hex

def digit (n : Nat) : Char := if n < 10 then Char.ofNat (48 + n) else Char.ofNat (87 + n)

def value? (byte : UInt8) : Option Nat :=
  let b := byte.toNat
  if 48 ≤ b ∧ b ≤ 57 then some (b - 48)
  else if 97 ≤ b ∧ b ≤ 102 then some (b - 87)
  else if 65 ≤ b ∧ b ≤ 70 then some (b - 55)
  else none

def encodeByte (byte : UInt8) : List Char := [digit (byte.toNat / 16), digit (byte.toNat % 16)]

def encode (bytes : List UInt8) : List Char := bytes.flatMap encodeByte

/-- The longest run of leading pairs of digits, decoded; an odd last byte is ignored. -/
def leadingPairs : List UInt8 → List UInt8
  | high :: low :: rest =>
    match value? high, value? low with
    | some h, some l => UInt8.ofNat (16 * h + l) :: leadingPairs rest
    | _, _ => []
  | _ => []

end SnippetTrail.Hex
