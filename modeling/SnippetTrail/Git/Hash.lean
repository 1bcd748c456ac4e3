import SnippetTrail.Bytes.Hex
import SnippetTrail.Text.Utf8

/-!
# Object names

The 20-byte name of an object. `Hash.ofHex?` reads exactly forty hexadecimal digits, `Hash.lenient`
reads what it can and fills the rest with zeros, and `Hash.hex` writes forty lower-case digits.
-/

namespace SnippetTrail

structure Hash where
  bytes : List UInt8
  length_bytes : bytes.length = 20
  deriving DecidableEq

namespace Hash

def zero : Hash := ⟨List.replicate 20 0, rfl⟩

instance : Inhabited Hash := ⟨zero⟩

def isZero (hash : Hash) : Bool := hash == zero

/-- The first twenty of the bytes, with zeros behind them when there are fewer. -/
def ofBytes (bytes : List UInt8) : Hash :=
  ⟨(bytes ++ List.replicate 20 0).take 20, by simp⟩

def hex (hash : Hash) : String := String.ofList (Hex.encode hash.bytes)

def lenient (text : String) : Hash := ofBytes (Hex.leadingPairs (Text.Utf8.encode text.toList))

def ofHex? (text : String) : Option Hash :=
  let digits := Text.Utf8.encode text.toList
  let bytes := Hex.leadingPairs digits
  if h : digits.length = 40 ∧ bytes.length = 20 then some ⟨bytes, h.2⟩ else none

instance : Ord Hash := ⟨fun a b => List.compareLex compare a.bytes b.bytes⟩

end Hash

end SnippetTrail
