import SnippetTrail.Daemon.Run
import SnippetTrail.Machine.Basic

/-!
# The program

Reads the variables of the process and the files that the settings name, and runs the daemon with them
on a machine in memory. Programs other than those of that machine are not found there, so this shows
what the settings amount to without touching a disk or a network.
-/

namespace SnippetTrail

namespace Program

def variableNames : List String :=
  ["HOME", "XDG_DATA_HOME", "XDG_CONFIG_HOME", "SAMPLR_CONFIG", "SAMPLR_GIT_BINARY", "SAMPLR_SHELL",
    "SAMPLR_REMOTE_NAME", "SAMPLR_POLL_INTERVAL_SECS", "SAMPLR_CLONE_ROOT", "SAMPLR_REPOS_FILE",
    "SAMPLR_DEFAULT_BRANCH"]

def accountHome : FilePath := "/root"

def environmentOf (bindings : List (String × String)) : Environment :=
  ⟨bindings.map fun (name, value) => (name, Text.Utf8.encode value.toList), accountHome⟩

def settingsFile (environment : Environment) (arguments : List SystemText) : FilePath :=
  match Options.ofArguments environment arguments with
  | .run options => options.configFile.getD environment.configFile
  | _ => environment.configFile

/-- The list file of a command line, on a machine that has the settings file. -/
def listFile? (environment : Environment) (arguments : List SystemText) (machine : Machine) :
    Option FilePath :=
  match Options.ofArguments environment arguments with
  | .run options =>
    match options.config Machine.host environment machine with
    | .ok config => config.corpus.listFile
    | .error _ => none
  | _ => none

def withFile (path : String) (bytes : List UInt8) (machine : Machine) : Machine :=
  let whole := if Path.isAbsolute path then path
    else Path.join (Shell.State.placeText machine.folder) path
  { machine with files := (machine.files.plantNode whole (.file bytes)).toOption.getD machine.files }

def readVariables : IO (List (String × String)) :=
  variableNames.filterMapM fun name => do
    pure ((← IO.getEnv name).map (name, ·))

def copyFile (file : FilePath) (machine : Machine) : IO Machine := do
  let path := file.display
  try
    let bytes ← IO.FS.readBinFile path
    pure (withFile path bytes.toList machine)
  catch _ => pure machine

end Program

end SnippetTrail

open SnippetTrail in
def main (arguments : List String) : IO UInt32 := do
  let arguments := arguments.map SystemText.ofText
  let bindings ← Program.readVariables
  let environment := Program.environmentOf bindings
  let folder := ((Text.splitAt '/' (← IO.currentDir).toString.toList).map String.ofList).filter (· != "")
  let machine := Machine.new folder bindings
  let machine ← Program.copyFile (Program.settingsFile environment arguments) machine
  let machine ← match Program.listFile? environment arguments machine with
    | some path => Program.copyFile path machine
    | none => pure machine
  let (exit, _) := Daemon.launch Machine.host Daemon.turnLimit environment arguments machine
  (← IO.getStderr).putStr exit.report
  pure (UInt32.ofNat exit.code)
