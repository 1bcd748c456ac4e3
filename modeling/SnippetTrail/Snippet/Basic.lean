import SnippetTrail.Git.Commit

/-!
# Snippets

A snippet is one region tag in one language, followed over the commits of a branch. Each change of
the region appends a version; a version without lines and content marks its removal.
-/

namespace SnippetTrail

structure CommitRecord where
  body : String
  subject : String
  authorEmail : String
  authored : Int
  committerEmail : String
  committed : Int
  hash : String
  name : String
  deriving DecidableEq

def repositoryName (owner repository : String) : String :=
  "owners/" ++ owner ++ "/repositories/" ++ repository

def commitName (owner repository hash : String) : String :=
  repositoryName owner repository ++ "/gitCommits/" ++ hash

def snippetName (owner repository tag language : String) : String :=
  repositoryName owner repository ++ "/snippets/" ++ tag ++ "/languages/" ++ language

def CommitRecord.ofCommit (owner repository : String) (commit : Commit) : CommitRecord where
  body := commit.message
  subject := commit.subject
  authorEmail := commit.author.email
  authored := commit.author.time
  committerEmail := commit.committer.email
  committed := commit.committer.time
  hash := commit.hash.hex
  name := commitName owner repository commit.hash.hex

structure VersionFile where
  path : String
  commit : CommitRecord
  size : Nat
  deriving DecidableEq

structure Notes where
  title : String
  description : String
  usage : String
  apiVersion : String
  deriving DecidableEq

def Notes.empty : Notes := ⟨"", "", "", ""⟩

structure Version where
  name : String
  file : Option VersionFile
  /-- The line ranges of the regions, in file order. -/
  lines : List String
  content : String
  notes : Notes
  deriving DecidableEq

namespace Version

/-- Same content, same path and same line ranges; without files the content alone decides. -/
def equivalent (a b : Version) : Bool :=
  a.content == b.content && match a.file, b.file with
    | none, none => true
    | some f, some g => f.path == g.path && a.lines == b.lines
    | _, _ => false

def isTombstone (version : Version) : Bool := version.content.isEmpty && version.lines.isEmpty

end Version

structure Snippet where
  name : String
  language : String
  /-- Oldest first. -/
  versions : List Version
  deriving DecidableEq

namespace Snippet

def new (name language : String) : Snippet := ⟨name, language, []⟩

def primary? (snippet : Snippet) : Option Version := snippet.versions.getLast?

/-- Whether the region exists after the commits seen so far. -/
def isLive (snippet : Snippet) : Bool := snippet.primary?.any fun version => !version.isTombstone

def nextName (snippet : Snippet) : String :=
  snippet.name ++ "/" ++ String.ofList (Nat.toDigits 10 snippet.versions.length)

def append (snippet : Snippet) (version : Version) : Snippet :=
  { snippet with versions := snippet.versions ++ [version] }

end Snippet

end SnippetTrail
