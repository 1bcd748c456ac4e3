import SnippetTrail.Text.Scan

/-!
# What a commit did to a path

A status line is a letter, for copies and renames a score of three digits, and one or two paths,
each with blank characters before it. `FileStatus.parse?` refuses every other line.
-/

namespace SnippetTrail

inductive FileStatus where
  | deleted (path : String)
  | added (path : String)
  | copied (source target : String)
  | modified (path : String)
  | renamed (source target : String)
  deriving DecidableEq

namespace FileStatus

def matchPath : Text.Matcher String := fun text => do
  let (_, rest) ← Text.matchRun Text.isBlank text
  let (path, rest) ← Text.matchRun Text.isPathChar rest
  pure (String.ofList path, rest)

def onePath? (text : List Char) : Option String :=
  match matchPath text with
  | some (path, []) => some path
  | _ => none

def twoPaths? (text : List Char) : Option (String × String) := do
  let (_, rest) ← Text.matchCount Text.isDecimalDigit 3 text
  let (source, rest) ← matchPath rest
  let target ← onePath? rest
  pure (source, target)

def parse? (line : String) : Option FileStatus :=
  match line.toList with
  | 'D' :: rest => (onePath? rest).map .deleted
  | 'A' :: rest => (onePath? rest).map .added
  | 'M' :: rest => (onePath? rest).map .modified
  | 'C' :: rest => (twoPaths? rest).map fun (source, target) => .copied source target
  | 'R' :: rest => (twoPaths? rest).map fun (source, target) => .renamed source target
  | _ => none

end FileStatus

end SnippetTrail
