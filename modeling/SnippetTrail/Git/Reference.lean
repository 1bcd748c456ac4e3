import SnippetTrail.Git.Hash
import SnippetTrail.Text.Scan
import SnippetTrail.Text.Search

/-!
# References

Names for objects. The reference list of the version control tool has one line `<hash> <name>` for
each reference.
-/

namespace SnippetTrail

structure RefName where
  text : String
  deriving DecidableEq, Inhabited

namespace RefName

def branchFolder : String := "refs/heads/"

def head : RefName := ⟨"HEAD"⟩
def master : RefName := ⟨"refs/heads/master"⟩
def main : RefName := ⟨"refs/heads/main"⟩
def originMaster : RefName := ⟨"refs/remotes/origin/master"⟩

def branch (short : String) : RefName := ⟨branchFolder ++ short⟩

def short? (name : RefName) : Option String :=
  (Text.stripStart? branchFolder.toList name.text.toList).map String.ofList

def isBranch (name : RefName) : Bool := name.short?.isSome

/-- The name without the folder of branches; other names stay whole. -/
def short (name : RefName) : String := name.short?.getD name.text

end RefName

inductive Reference where
  | invalid
  | direct (name : RefName) (hash : Hash)
  | symbolic (name target : RefName)
  deriving DecidableEq, Inhabited

namespace Reference

def name : Reference → RefName
  | .invalid => ⟨""⟩
  | .direct name _ => name
  | .symbolic name _ => name

/-- The object of a direct reference; zero for the others. -/
def hash : Reference → Hash
  | .direct _ hash => hash
  | _ => Hash.zero

def target? : Reference → Option RefName
  | .symbolic _ target => some target
  | _ => none

def isLowerHex (c : Char) : Bool := ('0' ≤ c && c ≤ '9') || ('a' ≤ c && c ≤ 'f')

def matchListed : Text.Matcher Reference := fun text => do
  let (digits, rest) ← Text.matchCount isLowerHex 40 text
  let rest ← Text.stripStart? [' '] rest
  let (name, rest) ← Text.matchRun Text.isPathChar rest
  let hash ← Hash.ofHex? (String.ofList digits)
  pure (.direct ⟨String.ofList name⟩ hash, rest)

/-- The references that a reference list names, in its order. -/
def ofListing (listing : String) : List Reference := Text.findAll matchListed listing.toList

end Reference

end SnippetTrail
