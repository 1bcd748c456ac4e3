import SnippetTrail.Text.Search

/-!
# Files worth scanning

Only paths with one of these endings, and a build file of its own name at the top, can carry
regions.
-/

namespace SnippetTrail.SourceFile

def extensions : List String :=
  ["c", "cpp", "cc", "cs", "go", "gs", "html", "jade", "pug", "java", "js", "json", "kt", "kts", "m",
    "php", "py", "rb", "ru", "swift", "sh", "xml", "yaml"]

/-- Whether one line of text precedes a dot and the extension at the end of the path. -/
def hasExtension (path : List Char) (extension : String) : Bool :=
  match Text.stripEnd? ('.' :: extension.toList) path with
  | some stem => !stem.isEmpty && !stem.contains '\n'
  | none => false

/-- The letter without case; the Kelvin sign is a letter `k` too. -/
def foldCase (c : Char) : Char :=
  if 'A' ≤ c ∧ c ≤ 'Z' then Char.ofNat (c.toNat + 32) else if c == '\u212A' then 'k' else c

def isScanned (path : String) : Bool :=
  path.toList.map foldCase == "dockerfile".toList || extensions.any (hasExtension path.toList)

end SnippetTrail.SourceFile
