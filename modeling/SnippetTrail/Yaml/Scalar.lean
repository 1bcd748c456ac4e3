import SnippetTrail.Yaml.Cursor

/-!
# Scalars

The text of plain, quoted and block scalars. Line breaks inside a scalar are folded: one break is a
space, and of several all but the first stay. Every reader here answers nothing for text that is
not well formed, and gives the place behind the scalar otherwise. What has been read is collected with
the last character first; the fuel of a reader is no less than the number of characters left.
-/

namespace SnippetTrail.Yaml

/-- White space that is not yet part of the scalar: blanks on one line, or line breaks. -/
structure Gap where
  blanks : List Char
  firstBreak : List Char
  moreBreaks : List Char
  broken : Bool

def Gap.none : Gap := ⟨[], [], [], false⟩

def Gap.folded (gap : Gap) : List Char :=
  if gap.broken then
    if gap.firstBreak.head? == some '\n' then
      if gap.moreBreaks.isEmpty then [' '] else gap.moreBreaks
    else gap.firstBreak ++ gap.moreBreaks
  else gap.blanks

/-- Reads on through blanks and breaks. Blanks behind a break are indentation; in a block, a tab
among the first `indent` columns is refused. -/
def Gap.read (refuseTab : Cursor → Bool) : Nat → Gap → Cursor → Option (Gap × Cursor)
  | 0, gap, cursor => some (gap, cursor)
  | fuel + 1, gap, cursor =>
    match cursor.peek with
    | some c =>
      if isSpaceOrTab c then
        if gap.broken then
          if c == '\t' && refuseTab cursor then Option.none
          else Gap.read refuseTab fuel gap cursor.next
        else Gap.read refuseTab fuel { gap with blanks := gap.blanks ++ [c] } cursor.next
      else if isBreak c then
        let (text, after) := cursor.takeBreak
        if gap.broken then
          Gap.read refuseTab fuel { gap with moreBreaks := gap.moreBreaks ++ text } after
        else Gap.read refuseTab fuel { gap with blanks := [], firstBreak := text, broken := true } after
      else some (gap, cursor)
    | Option.none => some (gap, cursor)

-- ---------------------------------------------------------------------------
-- Plain scalars

/-- The rest of the word at the cursor; in a flow collection brackets and commas end it, and a
colon may not stand before one of them. -/
def plainWord (inFlow : Bool) : Nat → List Char → Cursor → Option (List Char × Cursor)
  | 0, word, cursor => some (word, cursor)
  | fuel + 1, word, cursor =>
    match cursor.peek with
    | Option.none => some (word, cursor)
    | some c =>
      if isGap (some c) then some (word, cursor)
      else
        let next := cursor.peekAt 1
        if inFlow && c == ':' && (next.any fun n => n ∈ [',', '?', '[', ']', '{', '}']) then Option.none
        else if (c == ':' && isGap next) || (inFlow && c ∈ [',', '[', ']', '{', '}']) then
          some (word, cursor)
        else plainWord inFlow fuel (c :: word) cursor.next

/-- The words of a plain scalar; the flag tells whether a line break was passed after the last. -/
def plainWords (inFlow : Bool) (indent : Int) :
    Nat → List Char → Gap → Cursor → Option (List Char × Bool × Cursor)
  | 0, text, gap, cursor => some (text, gap.broken, cursor)
  | fuel + 1, text, gap, cursor =>
    if cursor.atDocumentMark || cursor.peek == some '#' then some (text, gap.broken, cursor)
    else do
      let (word, after) ← plainWord inFlow fuel [] cursor
      let text := if word.isEmpty then text else word ++ gap.folded.reverseAux text
      let gap := if word.isEmpty then gap else Gap.none
      if !(after.peek.any fun c => isSpaceOrTab c || isBreak c) then
        some (text, gap.broken, after)
      else
        let (gap, after) ← Gap.read (fun c => (c.column : Int) < indent) fuel gap after
        if !inFlow && (after.column : Int) < indent then some (text, gap.broken, after)
        else plainWords inFlow indent fuel text gap after

def plainScalar (fuel : Nat) (inFlow : Bool) (indent : Int) (cursor : Cursor) :
    Option (List Char × Bool × Cursor) :=
  (plainWords inFlow (indent + 1) fuel [] Gap.none cursor).map fun (text, rest) => (text.reverse, rest)

-- ---------------------------------------------------------------------------
-- Quoted scalars

def hexDigit? (c : Char) : Option Nat :=
  if '0' ≤ c ∧ c ≤ '9' then some (c.toNat - 48)
  else if 'a' ≤ c ∧ c ≤ 'f' then some (c.toNat - 87)
  else if 'A' ≤ c ∧ c ≤ 'F' then some (c.toNat - 55)
  else none

def hexNumber? (digits : List Char) : Option Nat :=
  digits.foldlM (fun value c => (hexDigit? c).map (16 * value + ·)) 0

inductive Escape where
  | char (code : Nat)
  | digits (count : Nat)

def escape? : Char → Option Escape
  | '0' => some (.char 0)
  | 'a' => some (.char 7)
  | 'b' => some (.char 8)
  | 't' => some (.char 9)
  | '\t' => some (.char 9)
  | 'n' => some (.char 10)
  | 'v' => some (.char 11)
  | 'f' => some (.char 12)
  | 'r' => some (.char 13)
  | 'e' => some (.char 27)
  | ' ' => some (.char 32)
  | '"' => some (.char 34)
  | '/' => some (.char 47)
  | '\\' => some (.char 92)
  | 'N' => some (.char 0x85)
  | '_' => some (.char 0xA0)
  | 'L' => some (.char 0x2028)
  | 'P' => some (.char 0x2029)
  | 'x' => some (.digits 2)
  | 'u' => some (.digits 4)
  | 'U' => some (.digits 8)
  | _ => none

def readEscape (cursor : Cursor) : Option (Char × Cursor) := do
  let c ← cursor.peek
  match ← escape? c with
  | .char code => pure (Char.ofNat code, cursor.next)
  | .digits count =>
    let digits := cursor.next.rest.take count
    if digits.length < count then none
    else
      let code ← hexNumber? digits
      if (0xD800 ≤ code && code ≤ 0xDFFF) || 0x10FFFF < code then none
      else pure (Char.ofNat code, cursor.next.skip count)

/-- The rest of a quoted line up to a gap or the closing quote; the flag tells whether an escaped
line break ended it. -/
def quotedLine (single : Bool) : Nat → List Char → Cursor → Option (List Char × Bool × Cursor)
  | 0, text, cursor => some (text, false, cursor)
  | fuel + 1, text, cursor =>
    match cursor.peek with
    | none => some (text, false, cursor)
    | some c =>
      if isGap (some c) then some (text, false, cursor)
      else if single && c == '\'' && cursor.peekAt 1 == some '\'' then
        quotedLine single fuel ('\'' :: text) (cursor.skip 2)
      else if c == (if single then '\'' else '"') then some (text, false, cursor)
      else if !single && c == '\\' then
        if (cursor.peekAt 1).any isBreak then some (text, true, cursor.next.takeBreak.2)
        else do
          let (escaped, after) ← readEscape cursor.next
          quotedLine single fuel (escaped :: text) after
      else quotedLine single fuel (c :: text) cursor.next

def quotedLines (single : Bool) : Nat → List Char → Cursor → Option (List Char × Cursor)
  | 0, _, _ => none
  | fuel + 1, text, cursor =>
    if cursor.atDocumentMark || cursor.peek.isNone then none
    else do
      let (text, escapedBreak, after) ← quotedLine single fuel text cursor
      if after.peek == some (if single then '\'' else '"') then some (text, after.next)
      else
        let gap := { Gap.none with broken := escapedBreak }
        let (gap, after) ← Gap.read (fun _ => false) fuel gap after
        quotedLines single fuel (gap.folded.reverseAux text) after

def quotedScalar (fuel : Nat) (single : Bool) (cursor : Cursor) : Option (List Char × Cursor) :=
  (quotedLines single fuel [] cursor.next).map fun (text, after) => (text.reverse, after)

-- ---------------------------------------------------------------------------
-- Block scalars

inductive Chomp where
  | strip
  | clip
  | keep
  deriving DecidableEq

def chomp? : Option Char → Option Chomp
  | some '+' => some .keep
  | some '-' => some .strip
  | _ => none

def readWidth (cursor : Cursor) : Option (Option Nat × Cursor) :=
  match cursor.peek with
  | some c =>
    if c == '0' then none
    else if '1' ≤ c && c ≤ '9' then some (some (c.toNat - 48), cursor.next)
    else some (none, cursor)
  | none => some (none, cursor)

def blockHeader (cursor : Cursor) : Option (Chomp × Option Nat × Cursor) :=
  match chomp? cursor.peek with
  | some chomp => (readWidth cursor.next).map fun (width, after) => (chomp, width, after)
  | none => do
    let (width, after) ← readWidth cursor
    match width, chomp? after.peek with
    | some _, some chomp => some (chomp, width, after.next)
    | _, _ => some (.clip, width, after)

/-- Past the empty lines and the indentation before the next line of a block; an indentation of
zero is not known yet. Gives the breaks, the widest indentation seen and the place. -/
def blockBreaks (indent : Nat) : Nat → List Char → Nat → Cursor → Option (List Char × Nat × Cursor)
  | 0, breaks, widest, cursor => some (breaks, widest, cursor)
  | fuel + 1, breaks, widest, cursor =>
    let spaces := (cursor.rest.takeWhile (· == ' ')).length
    let cursor := cursor.skip (if indent == 0 then spaces else min spaces (indent - cursor.column))
    let widest := max widest cursor.column
    if (indent == 0 || cursor.column < indent) && cursor.peek == some '\t' then none
    else if cursor.peek.any isBreak then
      let (text, after) := cursor.takeBreak
      blockBreaks indent fuel (breaks ++ text) widest after
    else some (breaks, widest, cursor)

/-- The lines of a block scalar. `lead` is the break before the line at the cursor and `more` are
the empty lines behind that break. -/
def blockLines (literal : Bool) (indent : Nat) :
    Nat → List Char → List Char → List Char → Bool → Cursor →
      Option (List Char × List Char × List Char × Cursor)
  | 0, text, lead, more, _, cursor => some (text, lead, more, cursor)
  | fuel + 1, text, lead, more, leadBlank, cursor =>
    if cursor.column != indent || cursor.peek.isNone then some (text, lead, more, cursor)
    else do
      let blank := cursor.peek.any isSpaceOrTab
      let joint :=
        if !literal && lead.head? == some '\n' && !leadBlank && !blank then
          if more.isEmpty then [' '] else []
        else lead
      let line := cursor.rest.takeWhile fun c => !isBreak c
      let (lead, after) := (cursor.skip line.length).takeBreak
      let (breaks, _, after) ← blockBreaks indent fuel [] 0 after
      blockLines literal indent fuel ((joint ++ more ++ line).reverseAux text) lead breaks blank after

def blockScalar (fuel : Nat) (literal : Bool) (outer : Int) (cursor : Cursor) :
    Option (List Char × Cursor) := do
  let (chomp, width, after) ← blockHeader cursor.next
  let after := (after.skipWhile isSpaceOrTab).skipComment
  if !isBreakOrEnd after.peek then none
  else
    let (_, after) := after.takeBreak
    let known := match width with
      | some w => if 0 ≤ outer then outer.toNat + w else w
      | none => 0
    let (breaks, widest, after) ← blockBreaks known fuel [] 0 after
    let indent := if known != 0 then known else max (max widest (outer + 1).toNat) 1
    let (text, lead, more, after) ←
      blockLines literal indent fuel [] [] breaks false after
    let ending := (if chomp == .strip then [] else lead) ++ (if chomp == .keep then more else [])
    pure (text.reverse ++ ending, after)

end SnippetTrail.Yaml
