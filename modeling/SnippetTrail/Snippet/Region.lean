import SnippetTrail.Table
import SnippetTrail.Text.Blank
import SnippetTrail.Text.Integer
import SnippetTrail.Text.Lines
import SnippetTrail.Text.Scan
import SnippetTrail.Text.Search

/-!
# Tagged regions

A region of a tag runs from a line with `[START tag]` to the next line with `[END tag]`. A second
start discards the open region and begins a new one. Lines that only refer to regions, marked by
`:start-after:` and `:end-before:`, do not delimit any.
-/

namespace SnippetTrail

def isTagChar (c : Char) : Bool :=
  Text.isAsciiDigit c || Text.isAsciiUpper c || Text.isAsciiLower c || c == '_' || c == '-'

namespace Region

def startMark (tag : List Char) : List Char := "[START ".toList ++ tag ++ [']']

def endMark (tag : List Char) : List Char := "[END ".toList ++ tag ++ [']']

def opens (tag line : List Char) : Bool :=
  Text.occursIn (startMark tag) line && !Text.occursIn ":start-after:".toList line

def closes (tag line : List Char) : Bool :=
  Text.occursIn (endMark tag) line && !Text.occursIn ":end-before:".toList line

def matchStart : Text.Matcher (List Char) := fun text => do
  let rest ← Text.stripStart? "[START ".toList text
  let (tag, rest) ← Text.matchRun isTagChar rest
  let rest ← Text.stripStart? [']'] rest
  pure (tag, rest)

def tags (content : String) : List String :=
  (Text.findAll matchStart content.toList).map String.ofList

def distinctTags (content : String) : List String :=
  ((tags content).foldl (fun table tag => table.insert tag ()) Table.empty).keys

end Region

structure Region where
  first : Nat
  last : Nat
  lines : List (List Char)
  deriving DecidableEq

namespace Region

/-- A region that is not closed yet: the number of its first line, and its lines, the last first. -/
structure Opened where
  first : Nat
  earlier : List (List Char)

/-- The regions that lines close, when `number` is the number of the next line. -/
def closedFrom (tag : List Char) : Nat → Option Opened → List (List Char) → List Region
  | _, _, [] => []
  | number, opened, line :: rest =>
    if opens tag line then closedFrom tag (number + 1) (some ⟨number, [line]⟩) rest
    else match opened with
      | none => closedFrom tag (number + 1) none rest
      | some ⟨first, earlier⟩ =>
        if closes tag line then
          ⟨first, number, (line :: earlier).reverse⟩ :: closedFrom tag (number + 1) none rest
        else closedFrom tag (number + 1) (some ⟨first, line :: earlier⟩) rest

def closed (tag : List Char) (lines : List (List Char)) : List Region := closedFrom tag 1 none lines

def range (region : Region) : String :=
  String.ofList ('L' :: Text.decimal region.first ++ '-' :: 'L' :: Text.decimal region.last)

/-- The text of regions one after another, without blank ends. -/
def text (regions : List Region) : String :=
  String.ofList (Text.trim (regions.flatMap fun region => Text.unlines region.lines))

end Region

end SnippetTrail
