/-!
# Text as bytes

`Utf8.encode` writes a text as bytes. `Utf8.decodeLossy` reads any bytes back and writes one
replacement character for each longest piece that starts a character but does not complete it, or
for a byte that starts none; `Utf8.decode?` refuses such bytes.
-/

namespace SnippetTrail.Text.Utf8

def encode (text : List Char) : List UInt8 := text.flatMap String.utf8EncodeChar

/-- A character read in part: its bits so far, the bytes still owed, and the bounds of the next. -/
structure Partial where
  bits : Nat
  owed : Nat
  low : Nat
  high : Nat

inductive Lead where
  | whole (c : Char)
  | start (part : Partial)
  | invalid

def lead (byte : UInt8) : Lead :=
  let b := byte.toNat
  if b < 0x80 then .whole (Char.ofNat b)
  else if b < 0xC2 then .invalid
  else if b < 0xE0 then .start ⟨b - 0xC0, 1, 0x80, 0xBF⟩
  else if b == 0xE0 then .start ⟨0, 2, 0xA0, 0xBF⟩
  else if b == 0xED then .start ⟨0xD, 2, 0x80, 0x9F⟩
  else if b < 0xF0 then .start ⟨b - 0xE0, 2, 0x80, 0xBF⟩
  else if b == 0xF0 then .start ⟨0, 3, 0x90, 0xBF⟩
  else if b < 0xF4 then .start ⟨b - 0xF0, 3, 0x80, 0xBF⟩
  else if b == 0xF4 then .start ⟨4, 3, 0x80, 0x8F⟩
  else .invalid

/-- The characters of the bytes, with `none` for each piece that is no character. -/
def scan : Option Partial → List UInt8 → List (Option Char)
  | none, [] => []
  | some _, [] => [none]
  | state, byte :: rest =>
    let begin (_ : Unit) : List (Option Char) := match lead byte with
      | .whole c => some c :: scan none rest
      | .start part => scan (some part) rest
      | .invalid => none :: scan none rest
    match state with
    | none => begin ()
    | some part =>
      if part.low ≤ byte.toNat && byte.toNat ≤ part.high then
        let bits := part.bits * 64 + (byte.toNat - 0x80)
        if part.owed ≤ 1 then some (Char.ofNat bits) :: scan none rest
        else scan (some ⟨bits, part.owed - 1, 0x80, 0xBF⟩) rest
      else none :: begin ()

def replacement : Char := '\uFFFD'

def decodeLossy (bytes : List UInt8) : List Char := (scan none bytes).map (·.getD replacement)

def decode? (bytes : List UInt8) : Option (List Char) := (scan none bytes).mapM id

end SnippetTrail.Text.Utf8
