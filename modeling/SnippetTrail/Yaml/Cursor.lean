/-!
# A place in a document

The unread text together with its position. The column decides about indentation, and line and index
about how far a key may reach.
-/

namespace SnippetTrail.Yaml

structure Cursor where
  rest : List Char
  /-- The bytes that precede the place in UTF-8. -/
  index : Nat
  line : Nat
  column : Nat

def isSpaceOrTab (c : Char) : Bool := c == ' ' || c == '\t'

def isBreak (c : Char) : Bool :=
  c == '\n' || c == '\r' || c.toNat == 0x85 || c.toNat == 0x2028 || c.toNat == 0x2029

def isBreakOrEnd : Option Char → Bool
  | some c => isBreak c
  | none => true

def isGap : Option Char → Bool
  | some c => isSpaceOrTab c || isBreak c
  | none => true

def isNameChar (c : Char) : Bool :=
  ('0' ≤ c && c ≤ '9') || ('A' ≤ c && c ≤ 'Z') || ('a' ≤ c && c ≤ 'z') || c == '_' || c == '-'

def isAllowed (c : Char) : Bool :=
  let n := c.toNat
  n == 0x09 || n == 0x0A || n == 0x0D || (0x20 ≤ n && n ≤ 0x7E) || n == 0x85 ||
    (0xA0 ≤ n && n ≤ 0xD7FF) || (0xE000 ≤ n && n ≤ 0xFFFD) || 0x10000 ≤ n

namespace Cursor

def ofText (text : List Char) : Cursor := ⟨text, 0, 0, 0⟩

def peek (cursor : Cursor) : Option Char := cursor.rest.head?

def peekAt (cursor : Cursor) (n : Nat) : Option Char := cursor.rest[n]?

def byteSize (text : List Char) : Nat := text.foldl (fun size c => size + c.utf8Size) 0

def skip (cursor : Cursor) (n : Nat) : Cursor :=
  { cursor with
    rest := cursor.rest.drop n
    index := cursor.index + byteSize (cursor.rest.take n)
    column := cursor.column + n }

def next (cursor : Cursor) : Cursor := cursor.skip 1

def skipWhile (cursor : Cursor) (belongs : Char → Bool) : Cursor :=
  cursor.skip (cursor.rest.takeWhile belongs).length

/-- The text of a line break and the place behind it; no text where there is none. Separators of
lines and paragraphs keep their own character, and the other breaks read as a newline. -/
def takeBreak (cursor : Cursor) : List Char × Cursor :=
  let behind (n : Nat) : Cursor :=
    { cursor.skip n with line := cursor.line + 1, column := 0 }
  match cursor.rest with
  | '\r' :: '\n' :: _ => (['\n'], behind 2)
  | c :: _ =>
    if c == '\n' || c == '\r' || c.toNat == 0x85 then (['\n'], behind 1)
    else if isBreak c then ([c], behind 1)
    else ([], cursor)
  | [] => ([], cursor)

def skipComment (cursor : Cursor) : Cursor :=
  if cursor.peek == some '#' then cursor.skipWhile fun c => !isBreak c else cursor

def atDocumentMark (cursor : Cursor) : Bool :=
  cursor.column == 0 && (cursor.rest.take 3 == ['-', '-', '-'] || cursor.rest.take 3 == ['.', '.', '.'])
    && isGap (cursor.peekAt 3)

end Cursor

end SnippetTrail.Yaml
