import SnippetTrail.Toml.Quoted
import SnippetTrail.Toml.Value

/-!
# Configuration files

A file is lines of keys with values and headers of tables. `Toml.ofText?` accepts exactly the
well-formed ones and gives the table that they describe. The fuel of a reader is no less than the
number of characters that it may read.
-/

namespace SnippetTrail.Toml

def skipBlank (text : List Char) : List Char := text.dropWhile fun c => c == ' ' || c == '\t'

def skipComment (text : List Char) : List Char :=
  match text with
  | '#' :: rest => rest.dropWhile Quoted.isPlain
  | _ => text

def lineEnd? (text : List Char) : Option (List Char) :=
  match skipComment (skipBlank text) with
  | [] => some []
  | rest => Quoted.newline? rest

def skipLines : Nat → List Char → List Char
  | 0, text => text
  | fuel + 1, text =>
    let rest := skipComment (skipBlank text)
    match Quoted.newline? rest with
    | some rest => skipLines fuel rest
    | none => rest

-- ---------------------------------------------------------------------------
-- Keys

def isBareKeyChar (c : Char) : Bool :=
  ('0' ≤ c && c ≤ '9') || ('A' ≤ c && c ≤ 'Z') || ('a' ≤ c && c ≤ 'z') || c == '_' || c == '-'

def simpleKey? (fuel : Nat) (text : List Char) : Option (String × List Char) :=
  match text with
  | [] => none
  | c :: _ =>
    if c == '"' || c == '\'' then 
      (Quoted.read? fuel text).map fun (key, rest) => (String.ofList key, rest)
    else match text.span isBareKeyChar with
      | ([], _) => none
      | (key, rest) => some (String.ofList key, rest)

def dottedKey? : Nat → List Char → Option (List String × List Char)
  | 0, _ => none
  | fuel + 1, text => do
    let (key, rest) ← simpleKey? (fuel + 1) (skipBlank text)
    match skipBlank rest with
    | '.' :: rest => (dottedKey? fuel rest).map fun (keys, rest) => (key :: keys, rest)
    | rest => some ([key], rest)

/-- No key may have more parts than this, and no value may nest deeper. -/
def depthLimit : Nat := 80

def key? (fuel : Nat) (text : List Char) : Option (List String × List Char) :=
  (dottedKey? fuel text).filter fun (keys, _) => keys.length < depthLimit

-- ---------------------------------------------------------------------------
-- Values

mutual

def value? (depth : Nat) : Nat → List Char → Option (Value × List Char)
  | 0, _ => none
  | fuel + 1, text =>
    match text with
    | [] => none
    | '"' :: _ | '\'' :: _ =>
      (Quoted.readAny? fuel text).map fun (string, rest) => (.string (String.ofList string), rest)
    | '[' :: rest =>
      if depth + 1 < depthLimit then
        (items? (depth + 1) fuel rest).map fun (items, rest) => (.array items, rest)
      else none
    | '\x7b' :: rest =>
      if depth + 1 < depthLimit then
        match skipBlank rest with
        | '\x7d' :: rest => some (.inline (.mk .declared []), rest)
        | rest => (pairs? (depth + 1) fuel (.mk .declared []) rest).map fun (table, rest) =>
          (.inline table, rest)
      else none
    | 't' :: 'r' :: 'u' :: 'e' :: rest => some (.boolean true, rest)
    | 'f' :: 'a' :: 'l' :: 's' :: 'e' :: rest => some (.boolean false, rest)
    | _ => match dateTime? text with
      | some rest => some (.dateTime, rest)
      | none => match float? text with
        | some rest => some (.float, rest)
        | none => (integer? text).map fun (n, rest) => (.integer n, rest)

def items? (depth : Nat) : Nat → List Char → Option (List Value × List Char)
  | 0, _ => none
  | fuel + 1, text =>
    match skipLines fuel text with
    | ']' :: rest => some ([], rest)
    | rest => do
      let (item, rest) ← value? depth fuel rest
      match skipLines fuel rest with
      | ',' :: rest => (items? depth fuel rest).map fun (items, rest) => (item :: items, rest)
      | ']' :: rest => some ([item], rest)
      | _ => none

def pairs? (depth : Nat) : Nat → Table → List Char → Option (Table × List Char)
  | 0, _, _ => none
  | fuel + 1, table, text => do
    let (key, rest) ← key? fuel text
    match rest with
    | '=' :: rest =>
      let (value, rest) ← value? depth fuel (skipBlank rest)
      let table ← table.addValue key value
      match skipBlank rest with
      | ',' :: rest => pairs? depth fuel table rest
      | '\x7d' :: rest => some (table, rest)
      | _ => none
    | _ => none

end

-- ---------------------------------------------------------------------------
-- Lines

/-- The lines of a file; `header` is the path of the table that they belong to. -/
def lines? : Nat → List String → Table → List Char → Option Table
  | 0, _, _, _ => none
  | fuel + 1, header, table, text =>
    match skipLines fuel text with
    | [] => some table
    | '[' :: '[' :: rest => do
      let (path, rest) ← key? fuel rest
      match rest with
      | ']' :: ']' :: rest => lines? fuel path (← table.declareNext path) (← lineEnd? rest)
      | _ => none
    | '[' :: rest => do
      let (path, rest) ← key? fuel rest
      match rest with
      | ']' :: rest => lines? fuel path (← table.declare path) (← lineEnd? rest)
      | _ => none
    | rest => do
      let (key, rest) ← key? fuel rest
      match rest with
      | '=' :: rest =>
        let (value, rest) ← value? 0 (2 * fuel + 2) (skipBlank rest)
        lines? fuel header (← table.addBelow header key value) (← lineEnd? rest)
      | _ => none

/-- The table that a file describes; a byte order mark may start it. -/
def ofText? (text : String) : Option Table :=
  let chars := match text.toList with
    | '\uFEFF' :: rest => rest
    | chars => chars
  lines? (chars.length + 2) [] (.mk .declared []) chars

-- ---------------------------------------------------------------------------
-- Reading records

def Value.string? : Value → Option String
  | .string text => some text
  | _ => none

def Value.boolean? : Value → Option Bool
  | .boolean value => some value
  | _ => none

def Value.natural? : Value → Option Nat
  | .integer (.ofNat n) => some n
  | _ => none

structure Field (α : Type) where
  name : String
  set : α → Value → Option α

def Field.setAll (fields : List (Field α)) (initial : α) (entries : List (String × Value)) : Option α :=
  entries.foldlM (fun record (name, value) =>
    match fields.find? (·.name == name) with
    | none => some record
    | some field => field.set record value) initial

/-- A record given as a table, or as an array of its fields in order; a date stands for a record
without values. -/
def Field.readRecord (fields : List (Field α)) (initial : α) : Value → Option α
  | .table table | .inline table => Field.setAll fields initial table.entries
  | .array items => (fields.zip items).foldlM (fun record (field, value) => field.set record value) initial
  | .tables earlier last =>
    (fields.zip ((earlier ++ [last]).map Value.table)).foldlM
      (fun record (field, value) => field.set record value) initial
  | .dateTime => some initial
  | _ => none

end SnippetTrail.Toml
