import SnippetTrail.Path
import SnippetTrail.Text.Integer
import SnippetTrail.Toml.Quoted

/-!
# Sections of a configuration file

A section is a header and one line for each key. Sections stand with an empty line between them.
-/

namespace SnippetTrail.Toml

inductive Scalar where
  | string (text : String)
  | path (given : FilePath)
  | integer (n : Nat)
  | boolean (value : Bool)
  deriving DecidableEq

inductive WriteFault where
  | outOfRange
  | invalidPath
  deriving DecidableEq

def WriteFault.message : WriteFault → String
  | .outOfRange => "out-of-range value for u64 type"
  | .invalidPath => "path contains invalid UTF-8 characters"

/-- Integers of up to 63 bits are written, and paths that are texts. -/
def Scalar.render : Scalar → Except WriteFault (List Char)
  | .string text => .ok (Quoted.render text.toList)
  | .path given => match given.text? with
    | some text => .ok (Quoted.render text.toList)
    | none => .error .invalidPath
  | .integer n => if Text.isSigned64 n then .ok (Text.decimal n) else .error .outOfRange
  | .boolean value => .ok (if value then "true".toList else "false".toList)

structure Section where
  name : String
  entries : List (String × Scalar)

namespace Section

def renderEntry (entry : String × Scalar) : Except WriteFault (List Char) :=
  entry.2.render.map fun value => entry.1.toList ++ " = ".toList ++ value ++ ['\n']

def render (part : Section) : Except WriteFault (List Char) :=
  (part.entries.mapM renderEntry).map fun lines =>
    ['['] ++ part.name.toList ++ [']', '\n'] ++ lines.flatten

/-- The text of a file with these sections, or why the first value that cannot be written cannot. -/
def renderAll (parts : List Section) : Except WriteFault String :=
  (parts.mapM render).map fun texts => String.ofList (Text.join ['\n'] texts)

end Section

end SnippetTrail.Toml
