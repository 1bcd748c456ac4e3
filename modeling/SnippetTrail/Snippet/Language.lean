import SnippetTrail.Path
import SnippetTrail.Text.Blank
import SnippetTrail.Text.Lines
import SnippetTrail.Text.Uppercase
import SnippetTrail.Text.Word

/-!
# Programming languages

The language of a file follows from its name, and where the name says nothing, from the interpreter
named in the first line. `clean` gives the form used in names of snippets.
-/

namespace SnippetTrail.Language

/-- Lower case as far as it can make a text ASCII: ASCII capitals and the Kelvin sign. -/
def lowerAscii (c : Char) : Char :=
  if Text.isAsciiUpper c then Char.ofNat (c.toNat + 32) else if c == '\u212A' then 'k' else c

def isDockerfile (name : List Char) : Bool :=
  name.map (fun c => if Text.isAsciiUpper c then Char.ofNat (c.toNat + 32) else c) == "dockerfile".toList

def ofExtension? : String → Option String
  | "c" | "h" => some "C"
  | "cpp" | "cc" | "cxx" | "hpp" => some "C++"
  | "cs" => some "C#"
  | "go" => some "Go"
  | "gs" => some "JavaScript"
  | "html" | "htm" => some "HTML"
  | "jade" | "pug" => some "Pug"
  | "java" => some "Java"
  | "js" | "mjs" | "cjs" => some "JavaScript"
  | "ts" => some "TypeScript"
  | "json" => some "JSON"
  | "kt" | "kts" => some "Kotlin"
  | "php" => some "PHP"
  | "py" => some "Python"
  | "rb" | "ru" => some "Ruby"
  | "rs" => some "Rust"
  | "swift" => some "Swift"
  | "sh" | "bash" => some "Shell"
  | "xml" => some "XML"
  | "yaml" | "yml" => some "YAML"
  | _ => none

def objectiveCMarks : List String := ["#import", "@interface", "@implementation", "@end", "#include"]

def isMatlabLine (line : List Char) : Bool :=
  let text := Text.trimStart line
  "function ".toList.isPrefixOf text || (['%'].isPrefixOf text && !(['%', '\x7b'].isPrefixOf text))

/-- Two languages share the extension `m`; their content tells them apart. -/
def ofSharedExtension (content : List Char) : String :=
  if objectiveCMarks.any fun mark => Text.occursIn mark.toList content then "Objective-C"
  else if (Text.splitLines content).any isMatlabLine then "MATLAB"
  else "Objective-C"

def ofInterpreter? : String → Option String
  | "python" => some "Python"
  | "node" | "nodejs" => some "JavaScript"
  | "ruby" => some "Ruby"
  | "php" => some "PHP"
  | "sh" | "bash" | "zsh" | "dash" | "ksh" => some "Shell"
  | _ => none

def isVersionChar (c : Char) : Bool := Text.isAsciiDigit c || c == '.'

/-- The interpreter that the first line names, without its version. -/
def interpreter? (content : List Char) : Option (List Char) := do
  let line ← (Text.splitLines content).head?
  let command ← Text.stripStart? ['#', '!'] line
  let parts := Text.words command
  let program ← (Text.splitAt '/' (← parts.head?)).getLast?
  let program ← if program == "env".toList then parts[1]? else some program
  pure (program.reverse.dropWhile isVersionChar).reverse

def ofFirstLine? (content : List Char) : Option String := do
  ofInterpreter? (String.ofList (← interpreter? content))

def detect? (path content : String) : Option String :=
  if (Path.fileName? path).any fun name => isDockerfile name.toList then some "Dockerfile"
  else match Path.extension? path with
    | none => ofFirstLine? content.toList
    | some extension =>
      let lower := String.ofList (extension.toList.map lowerAscii)
      if lower == "m" then some (ofSharedExtension content.toList)
      else match ofExtension? lower with
        | some language => some language
        | none => ofFirstLine? content.toList

/-- Upper case, with words joined by underscores and without signs in the two names that have some. -/
def clean (language : String) : String :=
  if language == "C#" then "CSHARP"
  else if language == "C++" then "CPP"
  else String.ofList ((Text.upper language.toList).map fun c => if c == ' ' || c == '-' then '_' else c)

end SnippetTrail.Language
