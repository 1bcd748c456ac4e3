import SnippetTrail.Text.Blank
import SnippetTrail.Text.Integer
import SnippetTrail.Text.Utf8

/-!
# What the small programs compute

Programs that turn arguments and bytes into bytes, without files.
-/

namespace SnippetTrail.Shell

def bytesOf (text : String) : List UInt8 := Text.Utf8.encode text.toList

-- ---------------------------------------------------------------------------
-- Escapes

def isOctal (c : Char) : Bool := '0' ≤ c && c ≤ '7'

def octalByte (digits : List Char) : UInt8 :=
  UInt8.ofNat (digits.foldl (fun n c => 8 * n + (c.toNat - '0'.toNat)) 0)

def simpleEscape? : Char → Option Char
  | 'a' => some '\x07'
  | 'b' => some '\x08'
  | 'f' => some '\x0C'
  | 'n' => some '\n'
  | 'r' => some '\r'
  | 't' => some '\t'
  | 'v' => some '\x0B'
  | '\\' => some '\\'
  | _ => none

def formatEscape (text : List Char) : List UInt8 × List Char :=
  match text with
  | [] => ([92], [])
  | c :: rest =>
    if isOctal c then
      let digits := (text.take 3).takeWhile isOctal
      ([octalByte digits], text.drop digits.length)
    else match simpleEscape? c with
      | some shown => ([UInt8.ofNat shown.toNat], rest)
      | none =>
        if c == '"' || c == '\'' then ([UInt8.ofNat c.toNat], rest)
        else (Text.Utf8.encode ['\\', c], rest)

/-- Text with escapes as arguments have them; `none` behind an escape that ends all output. -/
def argumentEscapes : Nat → List Char → List UInt8 × Bool
  | 0, _ => ([], false)
  | _ + 1, [] => ([], false)
  | _ + 1, '\\' :: 'c' :: _ => ([], true)
  | fuel + 1, '\\' :: '0' :: rest =>
    let digits := (rest.take 3).takeWhile isOctal
    let (more, stop) := argumentEscapes fuel (rest.drop digits.length)
    (octalByte digits :: more, stop)
  | fuel + 1, '\\' :: c :: rest =>
    let (more, stop) := argumentEscapes fuel rest
    (match simpleEscape? c with
      | some shown => UInt8.ofNat shown.toNat :: more
      | none => Text.Utf8.encode ['\\', c] ++ more, stop)
  | fuel + 1, c :: rest =>
    let (more, stop) := argumentEscapes fuel rest
    (Text.Utf8.encode [c] ++ more, stop)

-- ---------------------------------------------------------------------------
-- Numerals

def inBase (base : Nat) (digits : List Char) : Nat :=
  digits.foldl (fun n c =>
    base * n + (if Text.isAsciiDigit c then c.toNat - '0'.toNat
      else if Text.isAsciiLower c then c.toNat - 'a'.toNat + 10
      else c.toNat - 'A'.toNat + 10)) 0

def isHex (c : Char) : Bool := Text.isAsciiDigit c || ('a' ≤ c && c ≤ 'f') || ('A' ≤ c && c ≤ 'F')

/-- A numeral at the start of a text, whose own start tells its base, and the text behind it. -/
def numeral (text : List Char) : Nat × List Char :=
  let digits := match text with
    | '0' :: 'x' :: digits | '0' :: 'X' :: digits => some digits
    | _ => none
  match digits with
  | some digits => (inBase 16 (digits.takeWhile isHex), digits.dropWhile isHex)
  | none =>
    if text.head? == some '0' then (inBase 8 (text.takeWhile isOctal), text.dropWhile isOctal)
    else (inBase 10 (text.takeWhile Text.isAsciiDigit), text.dropWhile Text.isAsciiDigit)

-- ---------------------------------------------------------------------------
-- Formats

structure Complaint where
  text : String
  isFatal : Bool

structure Conversion where
  flags : List Char
  width : Nat
  precision : Option Nat
  kind : Char

namespace Conversion

def padded (conversion : Conversion) (isNumber : Bool) (text : List UInt8) : List UInt8 :=
  let missing := conversion.width - text.length
  if conversion.flags.contains '-' then text ++ List.replicate missing 32
  else if isNumber && conversion.flags.contains '0' then
    match text with
    | 45 :: digits => 45 :: List.replicate missing 48 ++ digits
    | 43 :: digits => 43 :: List.replicate missing 48 ++ digits
    | digits => List.replicate missing 48 ++ digits
  else List.replicate missing 32 ++ text

/-- The number that an argument is, and what is wrong with it. A quote asks for the code of the
character behind it. -/
def number (argument : String) : Int × List Complaint :=
  let read (sign : Int) (digits : List Char) : Int × List Complaint :=
    let (n, rest) := numeral digits
    if rest.isEmpty && !digits.isEmpty then (sign * n, [])
    else if rest.length == digits.length then
      (0, [⟨argument ++ ": expected numeric value", false⟩])
    else (sign * n, [⟨argument ++ ": not completely converted", false⟩])
  match argument.toList with
  | [] => (0, [])
  | '\'' :: c :: _ | '"' :: c :: _ => (c.toNat, [])
  | '-' :: digits => read (-1) digits
  | '+' :: digits => read 1 digits
  | digits => read 1 digits

def digits (conversion : Conversion) (base : Nat) (n : Nat) : List Char :=
  let digits := Nat.toDigits base n
  let digits := if conversion.kind == 'X' then digits.map Char.toUpper else digits
  List.replicate (conversion.precision.getD 1 - digits.length) '0' ++ digits

def apply (conversion : Conversion) (argument : String) : List UInt8 × List Complaint :=
  let numeric (shown : Int → List Char) : List UInt8 × List Complaint :=
    let (n, complaints) := number argument
    (conversion.padded true (Text.Utf8.encode (shown n)), complaints)
  let cut (bytes : List UInt8) : List UInt8 := match conversion.precision with
    | some n => bytes.take n
    | none => bytes
  match conversion.kind with
  | 'd' | 'i' => numeric fun n =>
    let digits := conversion.digits 10 n.natAbs
    if n < 0 then '-' :: digits
    else if conversion.flags.contains '+' then '+' :: digits
    else if conversion.flags.contains ' ' then ' ' :: digits
    else digits
  | 'u' => numeric fun n => conversion.digits 10 (n.emod Text.wordCount).toNat
  | 'x' | 'X' => numeric fun n => conversion.digits 16 (n.emod Text.wordCount).toNat
  | 'o' => numeric fun n => conversion.digits 8 (n.emod Text.wordCount).toNat
  | 'b' => (conversion.padded false (argumentEscapes (argument.length + 1) argument.toList).1, [])
  | 'c' => (conversion.padded false (Text.Utf8.encode (argument.toList.take 1)), [])
  | 's' => (conversion.padded false (cut (bytesOf argument)), [])
  | kind => ([], [⟨"%" ++ String.ofList [kind] ++ ": invalid directive", true⟩])

end Conversion

def conversion? (text : List Char) : Option (Conversion × List Char) :=
  let isFlag := fun c => c == '-' || c == '0' || c == '+' || c == ' ' || c == '#'
  let flags := text.takeWhile isFlag
  let text := text.drop flags.length
  let width := text.takeWhile Text.isAsciiDigit
  let text := text.drop width.length
  let (precision, text) := match text with
    | '.' :: rest =>
      (some (Text.digitsValue (rest.takeWhile Text.isAsciiDigit)), rest.dropWhile Text.isAsciiDigit)
    | _ => (none, text)
  match text with
  | [] => none
  | kind :: rest => some (⟨flags, Text.digitsValue width, precision, kind⟩, rest)

structure Formatted where
  bytes : List UInt8
  complaints : List Complaint
  left : List String
  isLast : Bool

def Formatted.after (bytes : List UInt8) (complaints : List Complaint) (rest : Formatted) : Formatted :=
  { rest with bytes := bytes ++ rest.bytes, complaints := complaints ++ rest.complaints }

/-- One pass over a format; `wide` allows escapes by hexadecimal digits. -/
def formatOnce (wide : Bool) : Nat → List Char → List String → Formatted
  | 0, _, arguments => ⟨[], [], arguments, true⟩
  | _ + 1, [], arguments => ⟨[], [], arguments, false⟩
  | fuel + 1, '\\' :: 'c' :: rest, arguments =>
    if wide then ⟨[], [], arguments, true⟩
    else (formatOnce wide fuel rest arguments).after [92, 99] []
  | fuel + 1, '\\' :: rest, arguments =>
    let digits := (rest.drop 1).takeWhile isHex |>.take 2
    if wide && rest.head? == some 'x' && !digits.isEmpty then
      (formatOnce wide fuel (rest.drop (digits.length + 1)) arguments).after
        [UInt8.ofNat (inBase 16 digits)] []
    else
      let (bytes, rest) := formatEscape rest
      (formatOnce wide fuel rest arguments).after bytes []
  | fuel + 1, '%' :: '%' :: rest, arguments => (formatOnce wide fuel rest arguments).after [37] []
  | fuel + 1, '%' :: rest, arguments =>
    match conversion? rest with
    | none => ⟨[], [⟨"missing format character", true⟩], arguments, true⟩
    | some (conversion, rest) =>
      let (bytes, complaints) := conversion.apply (arguments.head?.getD "")
      if complaints.any Complaint.isFatal then ⟨bytes, complaints, [], true⟩
      else (formatOnce wide fuel rest arguments.tail).after bytes complaints
  | fuel + 1, c :: rest, arguments =>
    (formatOnce wide fuel rest arguments).after (Text.Utf8.encode [c]) []

def format (wide : Bool) : Nat → String → List String → List UInt8 × List Complaint
  | 0, _, _ => ([], [])
  | fuel + 1, text, arguments =>
    let pass := formatOnce wide (text.length + 1) text.toList arguments
    if pass.isLast || pass.left.isEmpty || pass.left.length == arguments.length then
      (pass.bytes, pass.complaints)
    else
      let (bytes, complaints) := format wide fuel text pass.left
      (pass.bytes ++ bytes, pass.complaints ++ complaints)

-- ---------------------------------------------------------------------------
-- Bytes for bytes

def byteSet : Nat → List Char → List UInt8
  | 0, _ => []
  | _ + 1, [] => []
  | fuel + 1, '\\' :: rest =>
    let (bytes, rest) := formatEscape rest
    bytes ++ byteSet fuel rest
  | fuel + 1, first :: '-' :: last :: rest =>
    let bytes := (List.range (last.toNat + 1 - first.toNat)).map fun n => UInt8.ofNat (first.toNat + n)
    bytes ++ byteSet fuel rest
  | fuel + 1, c :: rest => Text.Utf8.encode [c] ++ byteSet fuel rest

def byteSetOf (text : String) : List UInt8 := byteSet (text.length + 1) text.toList

def counterpart (first second : List UInt8) (byte : UInt8) : UInt8 :=
  match first.findIdx? (· == byte) with
  | none => byte
  | some i => (second[i]?.or second.getLast?).getD byte

def translate (arguments : List String) (input : List UInt8) : List UInt8 :=
  match arguments with
  | "-d" :: set :: _ => let deleted := byteSetOf set; input.filter fun byte => !deleted.contains byte
  | first :: second :: _ => input.map (counterpart (byteSetOf first) (byteSetOf second))
  | _ => input

def isBlankByte (byte : UInt8) : Bool := byte == 32 || (9 ≤ byte && byte ≤ 13)

def countWords : Bool → List UInt8 → Nat
  | _, [] => 0
  | inWord, byte :: rest =>
    if isBlankByte byte then countWords false rest
    else (if inWord then 0 else 1) + countWords true rest

def count (option : String) (input : List UInt8) : Nat :=
  if option == "-c" then input.length
  else if option == "-w" then countWords false input
  else (input.filter (· == 10)).length

def firstLines : Nat → List UInt8 → List UInt8
  | 0, _ => []
  | n + 1, input =>
    let line := input.takeWhile (· != 10)
    match input.drop line.length with
    | [] => line
    | newline :: rest => line ++ newline :: firstLines n rest

def byteLines : List UInt8 → List (List UInt8)
  | [] => []
  | byte :: rest =>
    if byte == 10 then [] :: byteLines rest
    else match byteLines rest with
      | [] => [[byte]]
      | line :: lines => (byte :: line) :: lines

inductive Amount where
  | lines (n : Nat)
  | bytes (n : Nat)

def Amount.first : Amount → List UInt8 → List UInt8
  | .lines n, input => firstLines n input
  | .bytes n, input => input.take n

def Amount.last : Amount → List UInt8 → List UInt8
  | .lines n, input =>
    let breaks := count "-l" input + (if input.getLast? == some 10 || input.isEmpty then 0 else 1)
    let skipped := firstLines (breaks - n) input
    input.drop skipped.length
  | .bytes n, input => input.drop (input.length - n)

-- ---------------------------------------------------------------------------
-- Patterns

def bracket : List (Char × Bool) → Option (List (Char × Bool) × List (Char × Bool))
  | [] => none
  | (']', false) :: rest => some ([], rest)
  | c :: rest => (bracket rest).map fun (inner, rest) => (c :: inner, rest)

def inBracket (c : Char) : List (Char × Bool) → Bool
  | (first, _) :: ('-', false) :: (last, _) :: rest => (first ≤ c && c ≤ last) || inBracket c rest
  | (d, _) :: rest => d == c || inBracket c rest
  | [] => false

/-- Whether a text has the form of a pattern; what is marked stands for itself. -/
def fits : Nat → List (Char × Bool) → List Char → Bool
  | 0, _, _ => false
  | _ + 1, [], text => text.isEmpty
  | fuel + 1, ('*', false) :: pattern, text =>
    fits fuel pattern text || (match text with
      | [] => false
      | _ :: rest => fits fuel (('*', false) :: pattern) rest)
  | fuel + 1, ('?', false) :: pattern, text => match text with
    | [] => false
    | _ :: rest => fits fuel pattern rest
  | fuel + 1, (c, isMarked) :: pattern, text =>
    match text with
    | [] => false
    | d :: rest =>
      if c == '[' && !isMarked then
        let isNegated := pattern.head? == some ('!', false)
        match bracket (if isNegated then pattern.tail else pattern) with
        | some (inner, behind) => (inBracket d inner != isNegated) && fits fuel behind rest
        | none => c == d && fits fuel pattern rest
      else c == d && fits fuel pattern rest

end SnippetTrail.Shell
