import SnippetTrail.Machine.FileTree
import SnippetTrail.Shell.Arithmetic
import SnippetTrail.Shell.Filter
import SnippetTrail.Shell.Script

/-!
# The state of a shell

Everything that a running script can see and change. Its outputs are numbered streams: the standard
ones, and one for each place where the output of commands becomes the input or the text of others.
-/

namespace SnippetTrail.Shell

/-- Whether and why a script does not go on with its next command. -/
inductive Ending where
  | running
  | exited
  | killed (signal : Nat)
  | returned
  | broken (loops : Nat)
  | continued (loops : Nat)
  /-- Goes on for ever, as far as anyone can tell. -/
  | endless
  deriving DecidableEq

inductive Sink where
  | stream (number : Nat)
  | file (place : Place)
  | nowhere
  deriving DecidableEq

structure Streams where
  out : Sink
  err : Sink

def Streams.standard : Streams := ⟨.stream 0, .stream 1⟩

structure State where
  files : FileTree
  folder : Place
  bindings : List (String × String)
  exported : List String
  functions : List (String × Script)
  name : String
  arguments : List String
  line : Nat
  status : Nat
  ending : Ending
  loops : Nat
  stopsOnFailure : Bool
  demandsValues : Bool
  isTested : Bool
  traps : List (String × String)
  due : List String
  input : List UInt8
  /-- The bytes of each stream, the last first. -/
  outputs : List (List UInt8)
  /-- What the shell itself has redirected. -/
  diverted : List (Sink × Sink)
  elapsed : Nat

namespace State

def isRunning (state : State) : Bool := state.ending == .running

/-- Where output for a sink really goes. -/
def resolve (state : State) (sink : Sink) : Sink := (state.diverted.lookup sink).getD sink

def divert (state : State) (streams inner : Streams) : State :=
  { state with
    diverted := (streams.out, state.resolve inner.out) :: (streams.err, state.resolve inner.err) ::
      state.diverted }

def emit (state : State) (sink : Sink) (bytes : List UInt8) : State :=
  match state.resolve sink with
  | .nowhere => state
  | .stream number => { state with outputs := state.outputs.modify number (bytes.reverseAux ·) }
  | .file place => match state.files.node? place with
    | some (.file old) => { state with files := state.files.put place (.file (old ++ bytes)) }
    | some (.device _) => state
    | _ => { state with files := state.files.put place (.file bytes) }

def say (state : State) (sink : Sink) (text : String) : State := state.emit sink (bytesOf text)

def leave (state : State) (status : Nat) : State := { state with status }

def fail (state : State) (streams : Streams) (status : Nat) (text : String) : State :=
  (state.say streams.err (text ++ "\n")).leave status

def place (state : State) : String := state.name ++ ": " ++ toString state.line ++ ": "

def stall (state : State) : State := { state with ending := .endless }

def abort (state : State) (streams : Streams) (text : String) : State :=
  { state.fail streams 2 (state.place ++ text) with ending := .exited }

-- ---------------------------------------------------------------------------
-- Variables

def valueOf? (state : State) (name : String) : Option String := state.bindings.lookup name

def assign (state : State) (name value : String) : State :=
  { state with bindings := (name, value) :: state.bindings.filter (·.1 != name) }

def processNumber : String := "4242"

def placeText (place : Place) : String := "/" ++ "/".intercalate place

def parameter? (state : State) (name : String) : Option String :=
  match name with
  | "?" => some (toString state.status)
  | "$" => some processNumber
  | "#" => some (toString state.arguments.length)
  | "0" => some state.name
  | "-" => some ((if state.stopsOnFailure then "e" else "") ++ if state.demandsValues then "u" else "")
  | "@" | "*" =>
    if state.arguments.isEmpty then none else some (" ".intercalate state.arguments)
  | "PWD" => some (placeText state.folder)
  | _ => match Text.readNat? name.toList with
    | some n => state.arguments[n - 1]?
    | none => state.valueOf? name

def separators (state : State) : List Char := ((state.valueOf? "IFS").getD " \t\n").toList

-- ---------------------------------------------------------------------------
-- Faults

def reason (fault : IoFault) : String :=
  ((fault.message.splitOn " (os error").head?).getD ""

def fault (state : State) (streams : Streams) (doing : String) (fault : IoFault) : State :=
  state.fail streams 1 (doing ++ ": " ++ reason fault)

-- ---------------------------------------------------------------------------
-- Streams

def openStream (state : State) : Nat × State :=
  (state.outputs.length, { state with outputs := state.outputs ++ [[]] })

def closeStream (state : State) (number : Nat) : List UInt8 × State :=
  ((state.outputs[number]?.getD []).reverse, { state with outputs := state.outputs.take number })

-- ---------------------------------------------------------------------------
-- States around runs

def inner (state : State) : State := { state with traps := [], due := [] }

/-- The state behind an inner shell: the inner one keeps its folder and variables to itself. -/
def behindInner (outer inner : State) : State :=
  { outer with
    files := inner.files
    status := inner.status
    input := inner.input
    outputs := inner.outputs
    elapsed := inner.elapsed
    ending := match inner.ending with
      | .killed _ | .endless => inner.ending
      | _ => outer.ending }

def process (state : State) (name : String) (arguments : List String) : State :=
  { state with
    bindings := state.bindings.filter fun entry => state.exported.contains entry.1
    functions := []
    name
    arguments
    status := 0
    ending := .running
    loops := 0
    stopsOnFailure := false
    demandsValues := false
    isTested := false
    traps := []
    due := [] }

def signalText : Nat → String
  | 1 => "Hangup\n"
  | 2 => "\n"
  | 3 => "Quit\n"
  | 6 => "Aborted\n"
  | 9 => "Killed\n"
  | 13 => ""
  | 14 => "Alarm clock\n"
  | 15 => "Terminated\n"
  | _ => ""

def behindProcess (outer process : State) (streams : Streams) : State :=
  let behind := behindInner outer process
  match process.ending with
  | .killed signal =>
    ({ behind with ending := outer.ending }.say streams.err (signalText signal)).leave (128 + signal)
  | _ => behind

end State

end SnippetTrail.Shell
