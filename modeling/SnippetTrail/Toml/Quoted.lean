import SnippetTrail.Text.Search
import SnippetTrail.Toml.Number

/-!
# Quoted strings

Basic strings have escapes and literal strings have none; both may span lines between three quotes.
`render` chooses the plainest form that can hold a text: basic, then literal, then over several
lines, and escapes only where nothing else fits.
-/

namespace SnippetTrail.Toml.Quoted

-- ---------------------------------------------------------------------------
-- Reading

def isPlain (c : Char) : Bool := c == '\t' || (0x20 ≤ c.toNat && c.toNat != 0x7F)

def code? (width : Nat) (text : List Char) : Option (Char × List Char) := do
  let digits := text.take width
  if digits.length = width ∧ digits.all (fun c => (radixDigit? 16 c).isSome) then
    let code := radixValue 16 digits
    if (0xD800 ≤ code ∧ code ≤ 0xDFFF) ∨ 0x10FFFF < code then none
    else pure (Char.ofNat code, text.drop width)
  else none

def escape? : List Char → Option (Char × List Char)
  | 'b' :: rest => some ('\x08', rest)
  | 't' :: rest => some ('\t', rest)
  | 'n' :: rest => some ('\n', rest)
  | 'f' :: rest => some ('\x0C', rest)
  | 'r' :: rest => some ('\r', rest)
  | '"' :: rest => some ('"', rest)
  | '\\' :: rest => some ('\\', rest)
  | 'u' :: rest => code? 4 rest
  | 'U' :: rest => code? 8 rest
  | _ => none

def newline? : List Char → Option (List Char)
  | '\n' :: rest => some rest
  | '\r' :: '\n' :: rest => some rest
  | _ => none

def oneLine (quote : Char) : Nat → List Char → Option (List Char × List Char)
  | 0, _ => none
  | fuel + 1, text =>
    match text with
    | [] => none
    | c :: rest =>
      if c == quote then some ([], rest)
      else if c == '\\' && quote == '"' then do
        let (escaped, rest) ← escape? rest
        let (more, rest) ← oneLine quote fuel rest
        pure (escaped :: more, rest)
      else if isPlain c then (oneLine quote fuel rest).map fun (more, rest) => (c :: more, rest)
      else none

def skipLineSpace : Nat → List Char → List Char
  | 0, text => text
  | fuel + 1, text =>
    match text with
    | ' ' :: rest | '\t' :: rest => skipLineSpace fuel rest
    | _ => match newline? text with
      | some rest => skipLineSpace fuel rest
      | none => text

/-- The rest of a string over several lines; up to two quotes may stand before the closing three. -/
def manyLines (quote : Char) : Nat → List Char → Option (List Char × List Char)
  | 0, _ => none
  | fuel + 1, text =>
    match text with
    | [] => none
    | c :: rest =>
      if c == quote then
        let run := (text.takeWhile (· == quote)).length
        if run < 3 then
          (manyLines quote fuel (text.drop run)).map fun (more, rest) =>
            (List.replicate run quote ++ more, rest)
        else if run ≤ 5 then some (List.replicate (run - 3) quote, text.drop run)
        else none
      else if c == '\\' && quote == '"' then
        match newline? (rest.dropWhile fun b => b == ' ' || b == '\t') with
        | some behind => manyLines quote fuel (skipLineSpace fuel behind)
        | none => do
          let (escaped, rest) ← escape? rest
          let (more, rest) ← manyLines quote fuel rest
          pure (escaped :: more, rest)
      else match newline? text with
        | some rest => (manyLines quote fuel rest).map fun (more, rest) => ('\n' :: more, rest)
        | none =>
          if isPlain c then (manyLines quote fuel rest).map fun (more, rest) => (c :: more, rest)
          else none

/-- A string on one line at its opening quote; the fuel is no less than the number of characters. -/
def read? (fuel : Nat) (text : List Char) : Option (List Char × List Char) :=
  match text with
  | quote :: rest => if quote == '"' || quote == '\'' then oneLine quote fuel rest else none
  | [] => none

def readAny? (fuel : Nat) (text : List Char) : Option (List Char × List Char) :=
  match text with
  | a :: b :: c :: rest =>
    if (a == '"' || a == '\'') && a == b && b == c then
      manyLines a fuel ((newline? rest).getD rest)
    else read? fuel text
  | _ => read? fuel text

-- ---------------------------------------------------------------------------
-- Writing

def longestRun (c : Char) (text : List Char) : Nat :=
  (text.foldl (fun ((run : Nat), (longest : Nat)) d =>
    if d == c then (run + 1, max longest (run + 1)) else (0, longest)) (0, 0)).2

def isControl (c : Char) : Bool := c.toNat < 0x20 || c.toNat == 0x7F

def unicodeEscape (c : Char) : List Char :=
  let digits := (Nat.toDigits 16 c.toNat).map Char.toUpper
  ['\\', 'u'] ++ List.replicate (4 - digits.length) '0' ++ digits

/-- Characters of a basic string; `run` counts the quotes before the next one, and a quote that
exceeds the allowed run is escaped. -/
def escapeFrom (overLines : Bool) : Nat → List Char → List Char
  | _, [] => []
  | run, c :: rest =>
    if c == '"' then
      if run < (if overLines then 2 else 0) then c :: escapeFrom overLines (run + 1) rest
      else ['\\', '"'] ++ escapeFrom overLines 0 rest
    else
      let escaped : List Char :=
        if c == '\x08' then ['\\', 'b']
        else if c == '\t' then ['\\', 't']
        else if c == '\n' then (if overLines then ['\n'] else ['\\', 'n'])
        else if c == '\x0C' then ['\\', 'f']
        else if c == '\r' then ['\\', 'r']
        else if c == '\\' then ['\\', '\\']
        else if isControl c then unicodeEscape c
        else [c]
      escaped ++ escapeFrom overLines 0 rest

def basic (text : List Char) : List Char := ['"'] ++ escapeFrom false 0 text ++ ['"']

def tripled (quote : Char) (body text : List Char) : List Char :=
  List.replicate 3 quote ++ (if text.contains '\n' then ['\n'] else []) ++ body ++
    List.replicate 3 quote

def render (text : List Char) : List Char :=
  let needsCodes := text.any fun c => isControl c && c != '\t' && c != '\n'
  let hasBackslash := text.contains '\\'
  let hasNewline := text.contains '\n'
  let quotes := longestRun '"' text
  let apostrophes := longestRun '\'' text
  let overLines := tripled '"' (escapeFrom true 0 text) text
  if !needsCodes && !hasBackslash && quotes == 0 && !hasNewline then basic text
  else if !needsCodes && apostrophes == 0 && !hasNewline then ['\''] ++ text ++ ['\'']
  else if !needsCodes && !hasBackslash && quotes ≤ 2 then overLines
  else if !needsCodes && apostrophes ≤ 2 then tripled '\'' text text
  else if hasNewline then overLines
  else basic text

end SnippetTrail.Toml.Quoted
