import SnippetTrail.Text.Utf8

/-!
# Texts of the system

Arguments, variables and paths are bytes to the system that hands them over. They need not be text, and
where they are not, messages show replacement characters for them.
-/

namespace SnippetTrail

structure SystemText where
  bytes : List UInt8
  deriving DecidableEq

namespace SystemText

def ofText (text : String) : SystemText := ⟨Text.Utf8.encode text.toList⟩

instance : Coe String SystemText := ⟨ofText⟩

instance : Coe (List String) (List SystemText) := ⟨List.map ofText⟩

def text? (given : SystemText) : Option String := (Text.Utf8.decode? given.bytes).map String.ofList

def display (given : SystemText) : String := String.ofList (Text.Utf8.decodeLossy given.bytes)

def isEmpty (given : SystemText) : Bool := given.bytes.isEmpty

end SystemText

end SnippetTrail
