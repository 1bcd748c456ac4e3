import SnippetTrail.Yaml.Scalar
import SnippetTrail.Text.Utf8

/-!
# Tokens of a document

A document is read as tokens. Indentation shows as tokens too: a block collection opens where a
line is indented further and closes where one is indented less. Whether a scalar is a key is known
only when the colon behind it is found; the key token is then put before the scalar.
-/

namespace SnippetTrail.Yaml

inductive Token where
  | streamEnd
  | documentStart
  | documentEnd
  | blockSequenceStart
  | blockMappingStart
  | blockEnd
  | flowSequenceStart
  | flowSequenceEnd
  | flowMappingStart
  | flowMappingEnd
  | blockEntry
  | flowEntry
  | key
  | value
  | alias (name : String)
  | anchor (name : String)
  | tag (handle : String) (suffix : List UInt8)
  | scalar (text : String) (plain : Bool)
  deriving DecidableEq, Inhabited

structure PendingKey where
  token : Nat
  needed : Bool
  index : Nat
  line : Nat
  column : Nat

/-- A key reaches neither beyond its line nor over more than 1024 bytes. -/
def PendingKey.reaches (pending : PendingKey) (cursor : Cursor) : Bool :=
  pending.line == cursor.line && cursor.index ≤ pending.index + 1024

structure Lexer where
  cursor : Cursor
  tokens : Array Token
  indent : Int
  outerIndents : List Int
  /-- One entry for each open flow collection and one for the blocks around them. -/
  keys : List (Option PendingKey)
  keyAllowed : Bool

namespace Lexer

def start (text : List Char) : Lexer :=
  ⟨Cursor.ofText text, #[], -1, [], [none], true⟩

def inFlow (lexer : Lexer) : Bool := !lexer.keys.tail.isEmpty

def push (lexer : Lexer) (token : Token) : Lexer := { lexer with tokens := lexer.tokens.push token }

def insertToken (lexer : Lexer) (position : Nat) (token : Token) : Lexer :=
  { lexer with tokens := lexer.tokens.insertIdxIfInBounds position token }

-- ---------------------------------------------------------------------------
-- Indentation

def closeBlocks : Nat → Lexer → Int → Lexer
  | 0, lexer, _ => lexer
  | fuel + 1, lexer, column =>
    if column < lexer.indent then
      let closed := { lexer.push .blockEnd with
        indent := lexer.outerIndents.head?.getD (-1), outerIndents := lexer.outerIndents.tail }
      closeBlocks fuel closed column
    else lexer

def unrollIndent (lexer : Lexer) (column : Int) : Lexer :=
  if lexer.inFlow then lexer else closeBlocks (lexer.outerIndents.length + 1) lexer column

def rollIndent (lexer : Lexer) (column : Nat) (position : Nat) (token : Token) : Lexer :=
  if lexer.inFlow || (column : Int) ≤ lexer.indent then lexer
  else { lexer.insertToken position token with
    indent := column, outerIndents := lexer.indent :: lexer.outerIndents }

-- ---------------------------------------------------------------------------
-- Keys

/-- A pending key that is needed must not be given up. -/
def dropKey (lexer : Lexer) : Option Lexer :=
  match lexer.keys with
  | some pending :: rest => if pending.needed then none else some { lexer with keys := none :: rest }
  | _ => some lexer

def saveKey (lexer : Lexer) : Option Lexer :=
  if lexer.keyAllowed then do
    let dropped ← lexer.dropKey
    let c := lexer.cursor
    let needed := !lexer.inFlow && lexer.indent == (c.column : Int)
    pure { dropped with
      keys := some ⟨lexer.tokens.size, needed, c.index, c.line, c.column⟩ :: dropped.keys.tail }
  else some lexer

/-- The key that a colon at the cursor belongs to; one that is needed must reach the colon. -/
def reachedKey (lexer : Lexer) : Option (Option PendingKey) :=
  match lexer.keys with
  | some pending :: _ =>
    if pending.reaches lexer.cursor then some pending else if pending.needed then none else some none
  | _ => some none

-- ---------------------------------------------------------------------------
-- Blank space and comments

/-- To the next token. Tabs are blank space except where a key may start. -/
def skipToToken : Nat → Lexer → Lexer
  | 0, lexer => lexer
  | fuel + 1, lexer =>
    let c := lexer.cursor
    let c := if c.column == 0 && c.peek == some '\uFEFF' then c.next else c
    let tabs := lexer.inFlow || !lexer.keyAllowed
    let c := (c.skipWhile fun ch => ch == ' ' || (tabs && ch == '\t')).skipComment
    if c.peek.any isBreak then
      skipToToken fuel { lexer with
        cursor := c.takeBreak.2, keyAllowed := lexer.keyAllowed || !lexer.inFlow }
    else { lexer with cursor := c }

-- ---------------------------------------------------------------------------
-- Anchors and tags

def readName (cursor : Cursor) : String × Cursor :=
  let name := cursor.rest.takeWhile isNameChar
  (String.ofList name, cursor.skip name.length)

def anchorName (cursor : Cursor) : Option (String × Cursor) :=
  let (name, after) := readName cursor.next
  let ends := isGap after.peek ||
    after.peek.any fun c => c ∈ ['?', ':', ',', ']', '}', '%', '@', '\x60']
  if name.isEmpty || !ends then none else some (name, after)

def isTagChar (verbatim : Bool) (c : Char) : Bool :=
  isNameChar c || c ∈ [';', '/', '?', ':', '@', '&', '=', '+', '$', '.', '!', '~', '*', '\'', '(', ')']
    || (verbatim && c ∈ [',', '[', ']'])

def escapedByte? (cursor : Cursor) : Option (UInt8 × Cursor) :=
  match cursor.rest with
  | '%' :: high :: low :: _ => do
    let value ← hexNumber? [high, low]
    pure (UInt8.ofNat value, cursor.skip 3)
  | _ => none

def continuationBytes : Nat → List UInt8 → Cursor → Option (List UInt8 × Cursor)
  | 0, bytes, cursor => some (bytes, cursor)
  | count + 1, bytes, cursor => do
    let (byte, after) ← escapedByte? cursor
    if byte.toNat / 64 == 2 then continuationBytes count (bytes ++ [byte]) after else none

def escapedChar? (cursor : Cursor) : Option (List UInt8 × Cursor) := do
  let (byte, after) ← escapedByte? cursor
  let b := byte.toNat
  if b < 0x80 then pure ([byte], after)
  else if b / 32 == 6 then continuationBytes 1 [byte] after
  else if b / 16 == 14 then continuationBytes 2 [byte] after
  else if b / 8 == 30 then continuationBytes 3 [byte] after
  else none

def tagText (verbatim : Bool) : Nat → List UInt8 → Cursor → Option (List UInt8 × Cursor)
  | 0, bytes, cursor => some (bytes, cursor)
  | fuel + 1, bytes, cursor =>
    match cursor.peek with
    | some '%' => do
      let (escaped, after) ← escapedChar? cursor
      tagText verbatim fuel (bytes ++ escaped) after
    | some c =>
      if isTagChar verbatim c then
        tagText verbatim fuel (bytes ++ String.utf8EncodeChar c) cursor.next
      else some (bytes, cursor)
    | none => some (bytes, cursor)

def tagParts (fuel : Nat) (cursor : Cursor) : Option (String × List UInt8 × Cursor) :=
  if cursor.peekAt 1 == some '<' then do
    let (suffix, after) ← tagText true fuel [] (cursor.skip 2)
    if suffix.isEmpty || after.peek != some '>' then none else pure ("", suffix, after.next)
  else
    let (name, after) := readName cursor.next
    if after.peek == some '!' then do
      let (suffix, after) ← tagText false fuel [] after.next
      if suffix.isEmpty then none else pure ("!" ++ name ++ "!", suffix, after)
    else do
      let (suffix, after) ← tagText false fuel (Text.Utf8.encode name.toList) after
      if suffix.isEmpty then pure ("", Text.Utf8.encode ['!'], after) else pure ("!", suffix, after)

def tag? (fuel : Nat) (cursor : Cursor) (inFlow : Bool) : Option (Token × Cursor) := do
  let (handle, suffix, after) ← tagParts fuel cursor
  if isGap after.peek || (inFlow && after.peek == some ',') then pure (.tag handle suffix, after)
  else none

-- ---------------------------------------------------------------------------
-- Single tokens

def mark (lexer : Lexer) (token : Token) (width : Nat) (keyAllowed : Bool) : Option Lexer := do
  let dropped ← lexer.dropKey
  pure { dropped.push token with cursor := lexer.cursor.skip width, keyAllowed }

def openFlow (lexer : Lexer) (token : Token) : Option Lexer := do
  let saved ← lexer.saveKey
  pure { saved.push token with
    cursor := lexer.cursor.next, keys := none :: saved.keys, keyAllowed := true }

def closeFlow (lexer : Lexer) (token : Token) : Option Lexer := do
  let closed ← lexer.mark token 1 false
  pure (if closed.inFlow then { closed with keys := closed.keys.tail } else closed)

def blockEntry (lexer : Lexer) : Option Lexer :=
  if lexer.inFlow then lexer.mark .blockEntry 1 true
  else if !lexer.keyAllowed then none
  else (lexer.rollIndent lexer.cursor.column lexer.tokens.size .blockSequenceStart).mark .blockEntry 1 true

def explicitKey (lexer : Lexer) : Option Lexer :=
  if lexer.inFlow then lexer.mark .key 1 false
  else if !lexer.keyAllowed then none
  else (lexer.rollIndent lexer.cursor.column lexer.tokens.size .blockMappingStart).mark .key 1 true

def colon (lexer : Lexer) : Option Lexer :=
  let cursor := lexer.cursor.next
  let outerKeys := lexer.keys.tail
  let after (l : Lexer) (keyAllowed : Bool) : Lexer := { l.push .value with cursor, keyAllowed }
  match lexer.reachedKey with
  | none => none
  | some (some pending) =>
    let keyed := lexer.insertToken pending.token .key
    let rolled := keyed.rollIndent pending.column pending.token .blockMappingStart
    some (after { rolled with keys := none :: outerKeys } false)
  | some none =>
    if lexer.inFlow then some (after lexer false)
    else if !lexer.keyAllowed then none
    else some (after (lexer.rollIndent lexer.cursor.column lexer.tokens.size .blockMappingStart) true)

def keyed (lexer : Lexer) (token : Token) (after : Cursor) (keyAllowed : Bool) : Option Lexer := do
  let saved ← lexer.saveKey
  pure { saved.push token with cursor := after, keyAllowed }

def block (fuel : Nat) (lexer : Lexer) (literal : Bool) : Option Lexer := do
  let dropped ← lexer.dropKey
  let (text, after) ← blockScalar fuel literal lexer.indent lexer.cursor
  pure { dropped.push (.scalar (String.ofList text) false) with cursor := after, keyAllowed := true }

def quoted (fuel : Nat) (lexer : Lexer) (single : Bool) : Option Lexer := do
  let (text, after) ← quotedScalar fuel single lexer.cursor
  lexer.keyed (.scalar (String.ofList text) false) after false

def plain (fuel : Nat) (lexer : Lexer) : Option Lexer := do
  let (text, broken, after) ← plainScalar fuel lexer.inFlow lexer.indent lexer.cursor
  lexer.keyed (.scalar (String.ofList text) true) after broken

def finish (lexer : Lexer) : Option Lexer := do
  let dropped ← (lexer.unrollIndent (-1)).dropKey
  pure (dropped.push .streamEnd)

def documentMark (lexer : Lexer) (c : Char) : Option Lexer :=
  (lexer.unrollIndent (-1)).mark (if c == '-' then .documentStart else .documentEnd) 3 false

/-- The token that starts with a character; directives are refused, as they may only stand before
a document and the documents read here start at once. -/
def dispatch (fuel : Nat) (lexer : Lexer) (c : Char) : Option Lexer :=
  let cursor := lexer.cursor
  let next := cursor.peekAt 1
  let inFlow := lexer.inFlow
  if cursor.column == 0 && c == '%' then none
  else if cursor.atDocumentMark then lexer.documentMark c
  else if c == '[' then lexer.openFlow .flowSequenceStart
  else if c == '{' then lexer.openFlow .flowMappingStart
  else if c == ']' then lexer.closeFlow .flowSequenceEnd
  else if c == '}' then lexer.closeFlow .flowMappingEnd
  else if c == ',' then lexer.mark .flowEntry 1 true
  else if c == '-' && isGap next then lexer.blockEntry
  else if c == '?' && (inFlow || isGap next) then lexer.explicitKey
  else if c == ':' && (inFlow || isGap next) then lexer.colon
  else if c == '*' then do
    let (name, after) ← anchorName cursor
    lexer.keyed (.alias name) after false
  else if c == '&' then do
    let (name, after) ← anchorName cursor
    lexer.keyed (.anchor name) after false
  else if c == '!' then do
    let (token, after) ← tag? fuel cursor inFlow
    lexer.keyed token after false
  else if c == '|' && !inFlow then block fuel lexer true
  else if c == '>' && !inFlow then block fuel lexer false
  else if c == '\'' then quoted fuel lexer true
  else if c == '"' then quoted fuel lexer false
  else if isSpaceOrTab c || c ∈ ['#', '|', '>', '%', '@', '\x60'] then none
  else plain fuel lexer

/-- All tokens up to the end of the text; the fuel is more than the number of characters left. -/
def run : Nat → Lexer → Option (List Token)
  | 0, _ => none
  | fuel + 1, lexer => do
    let lexer := skipToToken fuel lexer
    let lexer := lexer.unrollIndent lexer.cursor.column
    match lexer.cursor.peek with
    | none => (← lexer.finish).tokens.toList
    | some c => run fuel (← dispatch fuel lexer c)

end Lexer

def Token.ofText? (text : List Char) : Option (List Token) :=
  if text.all isAllowed then Lexer.run (text.length + 2) (Lexer.start text) else none

end SnippetTrail.Yaml
