import SnippetTrail.Path
import SnippetTrail.Text.Blank
import SnippetTrail.Text.Quoted

/-!
# Commands and their results
-/

namespace SnippetTrail

structure Command where
  program : String
  arguments : List String
  dir : FilePath
  deriving DecidableEq

namespace Command

def showArgument (argument : String) : String :=
  if argument.toList.any Text.isBlank then String.ofList (Text.quoted argument.toList) else argument

/-- The command line as messages show it; arguments with blanks are quoted. -/
def display (command : Command) : String :=
  command.arguments.foldl (fun line argument => line ++ " " ++ showArgument argument) command.program

end Command

structure ProcessOutput where
  stdout : String
  stderr : String
  /-- A process that a signal ended has no code. -/
  code : Option Int
  deriving DecidableEq

namespace ProcessOutput

def isSuccess (output : ProcessOutput) : Bool := output.code == some 0

def combined (output : ProcessOutput) : String := output.stdout ++ output.stderr

end ProcessOutput

end SnippetTrail
