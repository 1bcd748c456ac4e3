import SnippetTrail.Table
import SnippetTrail.Text.Scan
import SnippetTrail.Text.Search

/-!
# Remotes

The repositories that a clone exchanges commits with. The remote list of the version control tool
has one line `<name> <url> (fetch)` or `<name> <url> (push)` for each use of a URL.
-/

namespace SnippetTrail

structure Remote where
  name : String
  /-- Fetching uses the first URL, pushing uses all of them. -/
  urls : List String
  deriving DecidableEq

namespace Remote

def origin : String := "origin"

def listing (remote : Remote) : String :=
  let url := remote.urls.head?.getD ""
  remote.name ++ "\t" ++ url ++ " (fetch)\n" ++ remote.name ++ "\t" ++ url ++ " (push)"

def isUrlChar (c : Char) : Bool := Text.isPathChar c || c == ':' || c == '@'

def matchUse : Text.Matcher Unit := fun text =>
  match Text.stripStart? "(fetch)".toList text with
  | some rest => some ((), rest)
  | none => (Text.stripStart? "(push)".toList text).map ((), ·)

def matchListed : Text.Matcher (String × String) := fun text => do
  let (name, rest) ← Text.matchRun Text.isWord text
  let (_, rest) ← Text.matchRun Text.isBlank rest
  let (url, rest) ← Text.matchRun isUrlChar rest
  let (_, rest) ← Text.matchRun Text.isBlank rest
  let (_, rest) ← matchUse rest
  pure ((String.ofList name, String.ofList url), rest)

def addUrl (table : Table (List String)) (entry : String × String) : Table (List String) :=
  let known := (table.find? entry.1).getD []
  table.insert entry.1 (if entry.2 ∈ known then known else known ++ [entry.2])

def ofListing (listing : String) : List Remote :=
  ((Text.findAll matchListed listing.toList).foldl addUrl Table.empty).entries.map
    fun (name, urls) => ⟨name, urls⟩

end Remote

end SnippetTrail
