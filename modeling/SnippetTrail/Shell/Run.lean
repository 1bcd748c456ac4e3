import SnippetTrail.Shell.Field
import SnippetTrail.Shell.Program

/-!
# Running scripts

Every run has fuel, and one that uses it up counts as endless.
-/

namespace SnippetTrail.Shell

-- ---------------------------------------------------------------------------
-- Redirections

def setSink (streams : Streams) (descriptor : Nat) (sink : Sink) : Streams :=
  if descriptor == 1 then { streams with out := sink }
  else if descriptor == 2 then { streams with err := sink }
  else streams

def sinkOf (streams : Streams) (descriptor : String) : Sink :=
  if descriptor == "1" then streams.out
  else if descriptor == "2" then streams.err
  else .nowhere

def openOutput (state : State) (extend : Bool) (path : String) : Except IoFault (Sink × State) := do
  let files ← state.files.write state.folder extend path []
  let found ← files.find state.folder true path
  pure (.file found.place, { state with files })

def openReason (creating : Bool) : IoFault → String
  | .notFound | .notDirectory => if creating then "Directory nonexistent" else "No such file"
  | fault => State.reason fault

-- ---------------------------------------------------------------------------
-- What a run leaves

/-- A command that fails ends a script that wants it so. -/
def settled (state : State) : State :=
  if state.stopsOnFailure && !state.isTested && state.status != 0 && state.isRunning then
    { state with ending := .exited }
  else state

def afterRound (state : State) : Bool × State :=
  match state.ending with
  | .running => (true, state)
  | .broken loops =>
    (false, { state with ending := if loops ≤ 1 then .running else .broken (loops - 1) })
  | .continued loops =>
    if loops ≤ 1 then (true, { state with ending := .running })
    else (false, { state with ending := .continued (loops - 1) })
  | _ => (false, state)

/-- What writes for ever into a pipe ends with what reads from it. -/
def pipeBroken (state : State) : State :=
  if state.ending == .endless then { state with ending := .exited } else state

def afterReturn (state : State) : State :=
  if state.ending == .returned then { state with ending := .running } else state

def hasOutput (word : Word) : Bool :=
  word.any fun part => match part with
    | .output .. => true
    | _ => false

def givenVariables : List String → List (String × String) × List String
  | [] => ([], [])
  | argument :: rest =>
    match Text.splitOnce? '=' argument.toList with
    | none => ([], argument :: rest)
    | some (name, value) =>
      let (more, command) := givenVariables rest
      ((String.ofList name, String.ofList value) :: more, command)

def commandPath? (state : State) (name : String) : Option String :=
  if (state.functions.lookup name).isSome || (builtins.lookup name).isSome then some name
  else if name.toList.contains '/' then if Call.isRunnable state name then some name else none
  else if programs.contains name then some ("/usr/bin/" ++ name)
  else none

def notRun (state : State) (name : String) : Nat × String :=
  if name.toList.contains '/' && (Call.nodeAt? state name).isSome then
    (126, name ++ ": Permission denied")
  else (127, name ++ ": not found")

def notStarted (state : State) (name : String) : Nat × IoFault :=
  match state.files.find state.folder true name with
  | .ok found => if found.node.isSome && name.toList.contains '/' then (126, .permissionDenied)
    else (127, .notFound)
  | .error .notFound => (127, .notFound)
  | .error fault => (126, fault)

-- ---------------------------------------------------------------------------
-- Runs

mutual

def expandOperand : Nat → Streams → Bool → List Char → State → List Piece × State
  | 0, _, _, _, state => ([], state.stall)
  | fuel + 1, streams, inQuotes, operand, state =>
    let (pieces, state) := expandWord fuel streams (operandParts inQuotes operand) state
    (pieces.map Piece.asSplit, state)

def expandParameter : Nat → Streams → Parameter → Bool → State → List Piece × State
  | 0, _, _, _, state => ([], state.stall)
  | fuel + 1, streams, ⟨name, use, operand⟩, inQuotes, state =>
    let shown (text : String) : List Piece := if inQuotes then quotedPieces text else splitPieces text
    let given := state.parameter? name
    let value := given.getD ""
    let valueShown := if name == "@" && inQuotes then argumentPieces state.arguments else shown value
    let has (orEmpty : Bool) : Bool := given.isSome && !(orEmpty && value.isEmpty)
    match use with
    | .value =>
      if state.demandsValues && given.isNone && name != "@" && name != "*" then
        ([], state.abort streams (name ++ ": parameter not set"))
      else (valueShown, state)
    | .length => (shown (toString value.utf8ByteSize), state)
    | .otherwise orEmpty =>
      if has orEmpty then (valueShown, state) else expandOperand fuel streams inQuotes operand state
    | .assign orEmpty =>
      if has orEmpty then (valueShown, state)
      else
        let (pieces, state) := expandOperand fuel streams inQuotes operand state
        (pieces, state.assign name (Field.text (wholeField pieces)))
    | .demand orEmpty =>
      if has orEmpty then (valueShown, state)
      else
        let (pieces, state) := expandOperand fuel streams inQuotes operand state
        let reason := Field.text (wholeField pieces)
        let standard := "parameter not set" ++ if orEmpty then " or null" else ""
        ([], state.abort streams (name ++ ": " ++ if reason.isEmpty then standard else reason))
    | .instead orEmpty =>
      if has orEmpty then expandOperand fuel streams inQuotes operand state else ([], state)
    | .withoutStart longest =>
      let (pieces, state) := expandWord fuel streams (operandParts false operand) state
      (shown (String.ofList (withoutStart longest (wholeField pieces) value.toList)), state)
    | .withoutEnd longest =>
      let (pieces, state) := expandWord fuel streams (operandParts false operand) state
      (shown (String.ofList (withoutEnd longest (wholeField pieces) value.toList)), state)
    | .bad => ([], state.abort streams "Bad substitution")

def expandPart : Nat → Streams → Part → State → List Piece × State
  | 0, _, _, state => ([], state.stall)
  | fuel + 1, streams, part, state =>
    match part with
    | .plain text => (text.map (.char · .live), state)
    | .quoted text => (.presence :: text.map (.char · .fixed), state)
    | .parameter parameter inQuotes => expandParameter fuel streams parameter inQuotes state
    | .output script inQuotes =>
      let (number, opened) := state.openStream
      let inner := runText fuel ⟨.stream number, streams.err⟩ script opened.inner
      let (bytes, behind) := (opened.behindInner inner).closeStream number
      let text := outputText bytes
      (if inQuotes then quotedPieces text else splitPieces text, behind)
    | .number expression inQuotes =>
      let (pieces, state) := expandWord fuel streams (operandParts true expression) state
      let text := Field.text (wholeField pieces)
      match Sum.evalText text state.bindings with
      | .error fault => ([], state.abort streams (fault.message text))
      | .ok (n, bindings) =>
        (if inQuotes then quotedPieces (toString n) else splitPieces (toString n),
          { state with bindings })

def expandWord : Nat → Streams → Word → State → List Piece × State
  | 0, _, _, state => ([], state.stall)
  | _ + 1, _, [], state => ([], state)
  | fuel + 1, streams, part :: rest, state =>
    let (pieces, state) := expandPart fuel streams part state
    let (more, state) := expandWord fuel streams rest state
    (pieces ++ more, state)

def expandWords : Nat → Streams → List Word → State → List String × State
  | 0, _, _, state => ([], state.stall)
  | _ + 1, _, [], state => ([], state)
  | fuel + 1, streams, word :: rest, state =>
    let (pieces, state) := expandWord fuel streams word state
    let (more, state) := expandWords fuel streams rest state
    ((fieldsFrom state.separators none pieces).flatMap (Field.texts state) ++ more, state)

def assignAll : Nat → Streams → List (String × Word) → State → State
  | 0, _, _, state => state.stall
  | _ + 1, _, [], state => state
  | fuel + 1, streams, (name, word) :: rest, state =>
    let (pieces, state) := expandWord fuel streams word state
    assignAll fuel streams rest (state.assign name (Field.text (wholeField pieces)))

def redirect : Nat → Streams → List Redirect → State → Option Streams × State
  | 0, _, _, state => (none, state.stall)
  | _ + 1, streams, [], state => (some streams, state)
  | fuel + 1, streams, ⟨descriptor, kind, word⟩ :: rest, state =>
    let (pieces, state) := expandWord fuel streams word state
    let text := Field.text (wholeField pieces)
    let complain (creating : Bool) (fault : IoFault) : Option Streams × State :=
      (none, state.fail streams 2 (state.place ++ "cannot " ++
        (if creating then "create " else "open ") ++ text ++ ": " ++ openReason creating fault))
    match kind with
    | .same => redirect fuel (setSink streams descriptor (sinkOf streams text)) rest state
    | .text => redirect fuel streams rest { state with input := bytesOf text }
    | .read => match state.files.read state.folder text with
      | .ok input => redirect fuel streams rest { state with input }
      | .error fault => complain false fault
    | .write | .extend => match openOutput state (kind == .extend) text with
      | .ok (sink, state) => redirect fuel (setSink streams descriptor sink) rest state
      | .error fault => complain true fault

def runLines : Nat → Streams → Script.Input → State → State
  | 0, _, _, state => state.stall
  | fuel + 1, streams, input, state =>
    if !state.isRunning then state
    else match Script.nextLine input with
      | .ok none => state
      | .ok (some (script, input)) => runLines fuel streams input (run fuel streams script state)
      | .error fault =>
        { state with line := fault.line }.abort streams ("Syntax error: " ++ fault.reason)

def runText : Nat → Streams → List Char → State → State
  | 0, _, _, state => state.stall
  | fuel + 1, streams, text, state => runLines fuel streams (Script.inputOf text) state

def runWhole : Nat → Streams → List Char → State → State
  | 0, _, _, state => state.stall
  | fuel + 1, streams, text, state =>
    let behind := runText fuel streams text state
    match behind.ending, behind.traps.lookup "0" with
    | .killed _, _ | .endless, _ | _, none => behind
    | _, some action =>
      let last := runText fuel streams action.toList { behind with ending := .running, traps := [] }
      if last.isRunning then last.leave behind.status else last

def runShell : Nat → Streams → String → List String → State → State
  | 0, _, _, _, state => state.stall
  | fuel + 1, streams, shell, arguments, state =>
    let switches := arguments.takeWhile Call.isSwitch
    let operands := arguments.drop switches.length
    let operands := if operands.head? == some "--" then operands.tail else operands
    let letters := switches.flatMap fun switch => switch.toList.drop 1
    let process (name : String) (arguments : List String) (state : State) : State :=
      switches.foldl Call.switch (state.process name arguments)
    match letters.find? fun letter => !("ceuxsi".toList.contains letter) with
    | some letter =>
      state.fail streams 2 (shell ++ ": 0: Illegal option -" ++ String.ofList [letter])
    | none =>
      if letters.contains 'c' then match operands with
        | [] => state.fail streams 2 (shell ++ ": 0: -c requires an argument")
        | [script] => runWhole fuel streams script.toList (process shell [] state)
        | script :: name :: arguments =>
          runWhole fuel streams script.toList (process name arguments state)
      else match operands with
        | [] =>
          runWhole fuel streams (Text.Utf8.decodeLossy state.input)
            (process shell [] { state with input := [] })
        | file :: arguments => match state.files.read state.folder file with
          | .ok bytes =>
            runWhole fuel streams (Text.Utf8.decodeLossy bytes) (process file arguments state)
          | .error fault => state.fail streams 2
            (shell ++ ": 0: cannot open " ++ file ++ ": " ++ openReason false fault)

/-- Runs a program as a process, if there is such a program. -/
def runProgram? : Nat → Streams → String → List String → State → Option State
  | 0, _, _, _, _ => none
  | fuel + 1, streams, name, arguments, state =>
    match program? state.files state.folder state.bindings name with
    | none => none
    | some program =>
      if shells.contains program then some (runShell fuel streams name arguments state)
      else if program == "env" then
        let isBare := arguments.head? == some "-i"
        let (given, command) := givenVariables (if isBare then arguments.tail else arguments)
        let state := if isBare then { state with exported := [] } else state
        let state := given.foldl (fun state (name, value) =>
          { state.assign name value with exported := name :: state.exported }) state
        match command with
        | [] => some (state.emit streams.out (((state.bindings.filter fun entry =>
            state.exported.contains entry.1).map fun entry =>
              bytesOf (entry.1 ++ "=" ++ entry.2 ++ "\n")).flatten))
        | name :: arguments => (runProgram? fuel streams name arguments state).or
          (let (status, fault) := notStarted state name
          some (state.fail streams status ("env: '" ++ name ++ "': " ++ State.reason fault)))
      else (processes.lookup program).map fun act =>
        act ⟨streams, program, arguments, true⟩ state

def runNamed : Nat → Streams → String → List String → State → State
  | 0, _, _, _, state => state.stall
  | fuel + 1, streams, name, arguments, state =>
    let complain (status : Nat) (text : String) : State :=
      state.fail streams status (state.place ++ text)
    match state.functions.lookup name with
    | some body =>
      let behind := run fuel streams body { state with arguments, loops := 0 }
      { afterReturn behind with arguments := state.arguments, loops := state.loops }
    | none => match builtins.lookup name with
      | some act => act ⟨streams, name, arguments, false⟩ state
      | none => match name, arguments with
        | "exec", [] => state
        | "exec", name :: arguments =>
          match runProgram? fuel streams name arguments state with
          | some process =>
            { state.behindInner process with
              ending := match process.ending with
                | .killed _ | .endless => process.ending
                | _ => .exited }
          | none =>
            let (status, reason) := notRun state name
            { complain status ("exec: " ++ reason) with ending := .exited }
        | "eval", arguments => runText fuel streams (" ".intercalate arguments).toList state
        | "command", "-v" :: name :: _ => match commandPath? state name with
          | some path => (state.say streams.out (path ++ "\n")).leave 0
          | none => state.leave 127
        | "command", name :: arguments =>
          runNamed fuel streams name arguments { state with functions := [] }
        | ".", file :: _ =>
          if !file.toList.contains '/' && !searchesHere state.bindings then
            state.abort streams (".: " ++ file ++ ": not found")
          else match state.files.read state.folder file with
            | .ok bytes => afterReturn (runText fuel streams (Text.Utf8.decodeLossy bytes) state)
            | .error fault =>
              state.abort streams (".: cannot open " ++ file ++ ": " ++ openReason false fault)
        | _, _ => match runProgram? fuel streams name arguments state with
          | some process =>
            if (program? state.files state.folder state.bindings name).any fun program =>
              (processes.lookup program).isSome then process
            else state.behindProcess process streams
          | none =>
            let (status, reason) := notRun state name
            complain status reason

def runDue : Nat → Streams → State → State
  | 0, _, state => state.stall
  | fuel + 1, streams, state =>
    match state.due with
    | [] => state
    | action :: due =>
      let behind := runText fuel streams action.toList { state with due }
      runDue fuel streams (if behind.isRunning then behind.leave state.status else behind)

def runLoop : Nat → Streams → Bool → Script → Script → Nat → State → State
  | 0, _, _, _, _, _, state => state.stall
  | fuel + 1, streams, untilTrue, condition, body, last, state =>
    let tested := run fuel streams condition { state with isTested := true }
    let (goesOn, tested) := afterRound { tested with isTested := state.isTested }
    if !goesOn then tested
    else if (tested.status == 0) == untilTrue then tested.leave last
    else match afterRound (run fuel streams body tested) with
      | (true, state) => runLoop fuel streams untilTrue condition body state.status state
      | (false, state) => state

def runEach : Nat → Streams → String → List String → Script → State → State
  | 0, _, _, _, _, state => state.stall
  | _ + 1, _, _, [], _, state => state
  | fuel + 1, streams, name, value :: values, body, state =>
    match afterRound (run fuel streams body (state.assign name value)) with
    | (true, state) => runEach fuel streams name values body state
    | (false, state) => state

def fitsAny : Nat → Streams → List Word → List Char → State → Bool × State
  | 0, _, _, _, state => (false, state.stall)
  | _ + 1, _, [], _, state => (false, state)
  | fuel + 1, streams, word :: rest, text, state =>
    let (pieces, state) := expandWord fuel streams word state
    if (wholeField pieces).isFitted text then (true, state) else fitsAny fuel streams rest text state

def runArms : Nat → Streams → List Char → List (List Word × Script) → State → State
  | 0, _, _, _, state => state.stall
  | _ + 1, _, _, [], state => state.leave 0
  | fuel + 1, streams, text, (patterns, body) :: rest, state =>
    let (isChosen, state) := fitsAny fuel streams patterns text state
    if isChosen then run fuel streams body (state.leave 0)
    else runArms fuel streams text rest state

def runTested : Nat → Streams → Script → State → State
  | 0, _, _, state => state.stall
  | fuel + 1, streams, script, state =>
    { run fuel streams script { state with isTested := true } with isTested := state.isTested }

def runSimple : Nat → Streams → List (String × Word) → List Word → List Redirect → State → State
  | 0, _, _, _, _, state => state.stall
  | fuel + 1, streams, assignments, words, redirects, state =>
    let (words, expanded) := expandWords fuel streams words state
    if !expanded.isRunning then expanded
    else match redirect fuel streams redirects expanded with
      | (none, state) => state
      | (some inner, opened) =>
        let behind := match words with
          | ["exec"] => opened.divert streams inner
          | [] =>
            let behind := assignAll fuel inner assignments opened
            if !behind.isRunning || assignments.any (hasOutput ·.2) then behind else behind.leave 0
          | name :: arguments =>
            let given := assignAll fuel inner assignments opened
            let given := { given with exported := assignments.map (·.1) ++ given.exported }
            let after := runDue fuel inner (runNamed fuel inner name arguments given)
            if assignments.isEmpty then after
            else
              let added := after.bindings.filter fun entry => !assignments.any (·.1 == entry.1)
              let kept := opened.bindings.filter fun entry => assignments.any (·.1 == entry.1)
              { after with bindings := kept ++ added, exported := opened.exported }
        if redirects.any (·.descriptor == 0) && words != ["exec"] then
          { behind with input := expanded.input }
        else behind

def run : Nat → Streams → Script → State → State
  | 0, _, _, state => state.stall
  | fuel + 1, streams, script, state =>
    if !state.isRunning then state
    else match script with
      | .nothing => state
      | .simple line assignments words redirects =>
        settled (runSimple fuel streams assignments words redirects { state with line })
      | .pipe left right =>
        let (number, opened) := state.openStream
        let first := run fuel { streams with out := .stream number } left opened.inner
        let (bytes, closed) := (opened.behindInner (pipeBroken first)).closeStream number
        let second := run fuel streams right { closed.inner with input := bytes }
        settled { closed.behindInner second with input := closed.input }
      | .both left right =>
        let state := runTested fuel streams left state
        if state.status == 0 then run fuel streams right state else state
      | .either left right =>
        let state := runTested fuel streams left state
        if state.status == 0 then state else run fuel streams right state
      | .opposite script =>
        let state := runTested fuel streams script state
        if state.isRunning then state.leave (if state.status == 0 then 1 else 0) else state
      | .sequence first second => run fuel streams second (run fuel streams first state)
      | .choose condition yes no =>
        let state := runTested fuel streams condition state
        if state.status == 0 then run fuel streams yes (state.leave 0)
        else run fuel streams no (state.leave 0)
      | .loop untilTrue condition body =>
        let behind := runLoop fuel streams untilTrue condition body 0
          { state with loops := state.loops + 1 }
        { behind with loops := state.loops }
      | .each name words body =>
        let (values, expanded) := expandWords fuel streams words state
        let behind := runEach fuel streams name values body
          { expanded.leave 0 with loops := state.loops + 1 }
        { behind with loops := state.loops }
      | .select word arms =>
        let (pieces, state) := expandWord fuel streams word state
        runArms fuel streams ((wholeField pieces).map (·.1)) arms state
      | .isolated script => settled (state.behindInner (run fuel streams script state.inner))
      | .background script => (state.behindInner (run fuel streams script state.inner)).leave 0
      | .redirected script redirects =>
        match redirect fuel streams redirects state with
        | (none, state) => state
        | (some inner, opened) =>
          let behind := run fuel inner script opened
          if redirects.any (·.descriptor == 0) then { behind with input := state.input } else behind
      | .define name body =>
        { state with
          functions := (name, body) :: state.functions.filter (·.1 != name)
          status := 0 }

end

-- ---------------------------------------------------------------------------
-- Processes

structure Outcome where
  files : FileTree
  stdout : List UInt8
  stderr : List UInt8
  code : Option Nat
  elapsed : Option Nat

/-- How far a process is followed: far enough to tell that it does not end in time when there is a
time for it, and to its end otherwise. -/
def runFuel (isTimed : Bool) : Nat := if isTimed then 300000 else 0x4000_0000_0000_0000

def runProcess (isTimed : Bool) (files : FileTree) (folder : Place)
    (bindings : List (String × String)) (program : String) (arguments : List String) :
    Option Outcome :=
  let state : State := {
    files, folder, bindings
    exported := bindings.map (·.1)
    functions := []
    name := program
    arguments := []
    line := 1
    status := 0
    ending := .running
    loops := 0
    stopsOnFailure := false
    demandsValues := false
    isTested := false
    traps := []
    due := []
    input := []
    outputs := [[], []]
    diverted := []
    elapsed := 0 }
  (runProgram? (runFuel isTimed) Streams.standard program arguments state).map fun behind => {
    files := behind.files
    stdout := (behind.outputs[0]?.getD []).reverse
    stderr := (behind.outputs[1]?.getD []).reverse
    code := match behind.ending with
      | .killed _ => none
      | _ => some behind.status
    elapsed := if behind.ending == .endless then none else some behind.elapsed }

end SnippetTrail.Shell
