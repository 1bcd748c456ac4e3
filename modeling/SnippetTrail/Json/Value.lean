/-!
# Values of object notation

Objects keep their members in order and with repeated names. A string is without text when an
escape in it names half of a surrogate pair; such a string may be passed over but not be used.
-/

namespace SnippetTrail.Json

inductive Value where
  | null
  | bool (value : Bool)
  | number
  | string (text : Option String)
  | array (items : List Value)
  | object (members : List (Option String × Value))

-- ---------------------------------------------------------------------------
-- Lexical parts

def isSpace (c : Char) : Bool := c == ' ' || c == '\t' || c == '\n' || c == '\r'

def skipSpace (text : List Char) : List Char := text.dropWhile isSpace

def hexValue? (c : Char) : Option Nat :=
  if '0' ≤ c ∧ c ≤ '9' then some (c.toNat - 48)
  else if 'a' ≤ c ∧ c ≤ 'f' then some (c.toNat - 87)
  else if 'A' ≤ c ∧ c ≤ 'F' then some (c.toNat - 55)
  else none

def unit? (a b c d : Char) : Option Nat := do
  pure (((← hexValue? a) * 16 + (← hexValue? b)) * 256 + (← hexValue? c) * 16 + (← hexValue? d))

def simpleEscape? : Char → Option Char
  | '"' => some '"'
  | '\\' => some '\\'
  | '/' => some '/'
  | 'b' => some '\x08'
  | 'f' => some '\x0C'
  | 'n' => some '\n'
  | 'r' => some '\r'
  | 't' => some '\t'
  | _ => none

/-- A piece of a string: a character or a code unit of an escape. -/
inductive Piece where
  | char (c : Char)
  | unit (code : Nat)

def readPieces : List Char → Option (List Piece × List Char)
  | [] => none
  | '"' :: rest => some ([], rest)
  | '\\' :: 'u' :: a :: b :: c :: d :: rest => do
    let unit ← unit? a b c d
    let (pieces, rest) ← readPieces rest
    pure (.unit unit :: pieces, rest)
  | '\\' :: c :: rest => do
    let escaped ← simpleEscape? c
    let (pieces, rest) ← readPieces rest
    pure (.char escaped :: pieces, rest)
  | c :: rest =>
    if c.toNat < 0x20 || c == '\\' then none
    else do
      let (pieces, rest) ← readPieces rest
      pure (.char c :: pieces, rest)

/-- The characters of the pieces; two units that form a pair are one character. -/
def joinPieces : List Piece → Option (List Char)
  | [] => some []
  | .char c :: rest => (joinPieces rest).map (c :: ·)
  | .unit high :: .unit low :: rest =>
    if 0xD800 ≤ high ∧ high ≤ 0xDBFF then
      if 0xDC00 ≤ low ∧ low ≤ 0xDFFF then
        (joinPieces rest).map (Char.ofNat (0x10000 + (high - 0xD800) * 0x400 + (low - 0xDC00)) :: ·)
      else none
    else if 0xDC00 ≤ high ∧ high ≤ 0xDFFF then none
    else (joinPieces (.unit low :: rest)).map (Char.ofNat high :: ·)
  | .unit code :: rest =>
    if 0xD800 ≤ code ∧ code ≤ 0xDFFF then none else (joinPieces rest).map (Char.ofNat code :: ·)

def readString (text : List Char) : Option (Option String × List Char) := do
  let (pieces, rest) ← readPieces text
  pure ((joinPieces pieces).map String.ofList, rest)

def isDigit (c : Char) : Bool := '0' ≤ c && c ≤ '9'

def skipDigits (text : List Char) : Option (List Char) :=
  match text.span isDigit with
  | ([], _) => none
  | (_, rest) => some rest

/-- Past a number: no leading zeros, and digits on both sides of a point. -/
def skipNumber (text : List Char) : Option (List Char) := do
  let text := if text.head? == some '-' then text.tail else text
  let rest ← match text with
    | '0' :: rest => if rest.head?.any isDigit then none else some rest
    | _ => skipDigits text
  let rest ← match rest with
    | '.' :: rest => skipDigits rest
    | _ => some rest
  match rest with
  | e :: rest' =>
    if e == 'e' || e == 'E' then
      match rest' with
      | sign :: digits => if sign == '+' || sign == '-' then skipDigits digits else skipDigits rest'
      | [] => none
    else some rest
  | [] => some rest

-- ---------------------------------------------------------------------------
-- Whole values

def stripWord (word : String) (text : List Char) : Option (List Char) :=
  if word.toList.isPrefixOf text then some (text.drop word.length) else none

mutual

def readValue : Nat → List Char → Option (Value × List Char)
  | 0, _ => none
  | fuel + 1, text =>
    match skipSpace text with
    | [] => none
    | '"' :: rest => (readString rest).map fun (text, rest) => (.string text, rest)
    | '[' :: rest =>
      match skipSpace rest with
      | ']' :: rest => some (.array [], rest)
      | rest => (readItems fuel rest).map fun (items, rest) => (.array items, rest)
    | '\x7b' :: rest =>
      match skipSpace rest with
      | '\x7d' :: rest => some (.object [], rest)
      | rest => (readMembers fuel rest).map fun (members, rest) => (.object members, rest)
    | 'n' :: rest => (stripWord "ull" rest).map (Value.null, ·)
    | 't' :: rest => (stripWord "rue" rest).map (Value.bool true, ·)
    | 'f' :: rest => (stripWord "alse" rest).map (Value.bool false, ·)
    | text => (skipNumber text).map (Value.number, ·)

def readItems : Nat → List Char → Option (List Value × List Char)
  | 0, _ => none
  | fuel + 1, text => do
    let (item, rest) ← readValue fuel text
    match skipSpace rest with
    | ',' :: rest => (readItems fuel rest).map fun (items, rest) => (item :: items, rest)
    | ']' :: rest => some ([item], rest)
    | _ => none

def readMembers : Nat → List Char → Option (List (Option String × Value) × List Char)
  | 0, _ => none
  | fuel + 1, text =>
    match skipSpace text with
    | '"' :: rest => do
      let (name, rest) ← readString rest
      match skipSpace rest with
      | ':' :: rest =>
        let (value, rest) ← readValue fuel rest
        match skipSpace rest with
        | ',' :: rest => (readMembers fuel rest).map fun (members, rest) => ((name, value) :: members, rest)
        | '\x7d' :: rest => some ([(name, value)], rest)
        | _ => none
      | _ => none
    | _ => none

end

def Value.ofText? (text : String) : Option Value :=
  match readValue (2 * text.length + 2) text.toList with
  | some (value, rest) => if (skipSpace rest).isEmpty then some value else none
  | none => none

-- ---------------------------------------------------------------------------
-- Reading records

def Value.text? : Value → Option String
  | .string text => text
  | _ => none

def Value.bool? : Value → Option Bool
  | .bool value => some value
  | _ => none

structure Field (α : Type) where
  name : String
  required : Bool
  set : α → Value → Option α

/-- A record given as an object: every known name at most once, all required ones, and any others. -/
def readObject (fields : List (Field α)) (initial : α) (members : List (Option String × Value)) :
    Option α := do
  let (record, given) ← members.foldlM (fun ((record : α), (given : List String)) member => do
    let name ← member.1
    match fields.find? (·.name == name) with
    | none => pure (record, given)
    | some field =>
      if name ∈ given then none else pure (← field.set record member.2, name :: given)) (initial, [])
  if fields.all fun field => !field.required || given.contains field.name then some record else none

/-- A record given as an array of its fields in order; the last ones may be left out. -/
def readArray : List (Field α) → α → List Value → Option α
  | [], record, [] => some record
  | [], _, _ :: _ => none
  | fields, record, [] => if fields.any (·.required) then none else some record
  | field :: fields, record, value :: values => do readArray fields (← field.set record value) values

def readRecord (fields : List (Field α)) (initial : α) : Value → Option α
  | .object members => readObject fields initial members
  | .array items => readArray fields initial items
  | _ => none

end SnippetTrail.Json
