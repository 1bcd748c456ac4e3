import SnippetTrail.Git.Hash
import SnippetTrail.Text.Lines

/-!
# Commits

A commit carries a snapshot of every file it touched. Times are seconds since the start of 1970.
-/

namespace SnippetTrail

structure Signature where
  name : String
  email : String
  time : Int
  deriving DecidableEq, Inhabited

structure File where
  path : String
  /-- The number of bytes, which invalid bytes make differ from the size of the decoded text. -/
  size : Nat
  contents : String
  deriving DecidableEq

namespace File

def ofText (path contents : String) : File := ⟨path, contents.utf8ByteSize, contents⟩

def deleted (path : String) : File := ⟨path, 0, ""⟩

/-- An empty file counts as deleted. -/
def isDeleted (file : File) : Bool := file.size == 0 && file.contents.isEmpty

end File

structure Commit where
  hash : Hash
  author : Signature
  committer : Signature
  message : String
  files : List File
  deriving DecidableEq

namespace Commit

def subject (commit : Commit) : String :=
  String.ofList ((Text.splitLines commit.message.toList).head?.getD [])

end Commit

end SnippetTrail
