import SnippetTrail.Git.FileStatus
import SnippetTrail.Git.Hash
import SnippetTrail.Text.Blank
import SnippetTrail.Text.Integer
import SnippetTrail.Text.Lines
import SnippetTrail.Text.Search
import SnippetTrail.Time.Timestamp

/-!
# The history text

A shell pipeline prints a branch's commits from the oldest to the newest, each as a block of labelled
lines and the list of the files that it touched. `LogBlock.ofText` reads the blocks back.
-/

namespace SnippetTrail

-- ---------------------------------------------------------------------------
-- The pipeline

def shellQuote (text : String) : String :=
  String.ofList (['\''] ++ text.toList.flatMap (fun c =>
    if c == '\'' then ['\'', '\\', '\'', '\''] else [c]) ++ ['\''])

def logFormat : String :=
  "Commit: %H%nAuthor: %an%nAuthor Email: %ae%nAuthor Date: %at%nCommitter: %cn%nCommitter Email: " ++
    "%ce%nCommitter Date: %ct%nSubject: %s"

/-- The pipeline for the commits that a commit is reached from. -/
def logScript (program : String) (start : Hash) : String :=
  let git := shellQuote program
  git ++ " rev-list " ++ start.hex ++ " --reverse | while read sha1; do " ++
    git ++ " show -s --format=\"" ++ logFormat ++ "\" $sha1; " ++
    git ++ " show -s --format=\"Body: %B\" $sha1 | tr \"\\n\" \" \" | tr \"\\r\" \" \"; echo; " ++
    "echo \"Files:\"; " ++
    git ++ " show --format='' --name-status $sha1; echo; echo; done"

-- ---------------------------------------------------------------------------
-- Blocks

structure LogBlock where
  hash : String
  author : String
  authorEmail : String
  authorDate : String
  committer : String
  committerEmail : String
  committerDate : String
  subject : String
  body : String
  statusLines : List String
  deriving DecidableEq

namespace LogBlock

def isLowerHex (c : Char) : Bool := ('0' ≤ c && c ≤ '9') || ('a' ≤ c && c ≤ 'f')

def matchField (label : String) : Text.Matcher String := fun text => do
  let rest ← Text.stripStart? label.toList text
  let (value, rest) ← Text.matchLine rest
  pure (String.ofList value, rest)

/-- A capital letter, digits, a tab and any text. -/
def isStatusLine : List Char → Bool
  | [] => false
  | letter :: rest =>
    Text.isAsciiUpper letter && (rest.dropWhile Text.isDecimalDigit).head? == some '\t'

def statusRun (text : List Char) : List (List Char) × List Char :=
  let lines := (Text.splitAt '\n' text).dropLast.takeWhile isStatusLine
  (lines, text.drop (lines.flatMap (· ++ ['\n'])).length)

def statusText (line : List Char) : String :=
  String.ofList (if line.getLast? == some '\r' then line.dropLast else line)

def matchBlock : Text.Matcher LogBlock := fun text => do
  let rest ← Text.stripStart? "Commit: ".toList text
  let (hash, rest) ← Text.matchCount isLowerHex 40 rest
  let rest ← Text.stripStart? ['\n'] rest
  let (author, rest) ← matchField "Author: " rest
  let (authorEmail, rest) ← matchField "Author Email: " rest
  let (authorDate, rest) ← matchField "Author Date: " rest
  let (committer, rest) ← matchField "Committer: " rest
  let (committerEmail, rest) ← matchField "Committer Email: " rest
  let (committerDate, rest) ← matchField "Committer Date: " rest
  let (subject, rest) ← matchField "Subject: " rest
  let (body, rest) ← matchField "Body:" rest
  let rest ← Text.stripStart? "Files:\n".toList rest
  let rest := (Text.stripStart? ['\n'] rest).getD rest
  let (lines, rest) := statusRun rest
  pure (⟨String.ofList hash, author, authorEmail, authorDate, committer, committerEmail,
    committerDate, subject, body, lines.map statusText⟩, rest)

def ofText (text : String) : List LogBlock := Text.findAll matchBlock text.toList

/-- The message of the commit: the subject, and the body without blank ends. -/
def message (block : LogBlock) : String :=
  block.subject ++ "\n" ++ String.ofList (Text.trim block.body.toList)

end LogBlock

/-- A point in time given as seconds, if the calendar reaches that far. -/
def readTime? (text : String) : Option Int :=
  (Text.readInt64? (Text.trim text.toList)).filter Timestamp.inRange

end SnippetTrail
