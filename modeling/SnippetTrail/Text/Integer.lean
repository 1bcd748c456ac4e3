import SnippetTrail.Text.Word

/-!
# Decimal integers

A text reads as an integer when it is an optional sign and one or more ASCII digits. Leading zeros
are allowed; nothing else is.
-/

namespace SnippetTrail.Text

def digitValue (c : Char) : Nat := c.toNat - '0'.toNat

def digitsValue (digits : List Char) : Nat :=
  digits.foldl (fun value c => 10 * value + digitValue c) 0

def readNat? (text : List Char) : Option Nat :=
  if text.isEmpty || !text.all isAsciiDigit then none else some (digitsValue text)

def readInt? : List Char → Option Int
  | '+' :: digits => (readNat? digits).map Int.ofNat
  | '-' :: digits => (readNat? digits).map fun n => -Int.ofNat n
  | digits => (readNat? digits).map Int.ofNat

def wordCount : Nat := 0x1_0000_0000_0000_0000

def isSigned64 (n : Int) : Bool := -(wordCount : Int) ≤ 2 * n && 2 * n < wordCount

def readInt64? (text : List Char) : Option Int :=
  (readInt? text).filter isSigned64

/-- An unsigned number of 64 bits; a plus sign may precede it. -/
def readNat64? : List Char → Option Nat
  | '+' :: digits => (readNat? digits).filter (· < wordCount)
  | digits => (readNat? digits).filter (· < wordCount)

def decimal (n : Nat) : List Char := Nat.toDigits 10 n

end SnippetTrail.Text
