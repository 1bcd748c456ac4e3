import SnippetTrail.Shell.State

/-!
# Programs

The programs that scripts use. Each takes its arguments and the state to the state behind it; those
that run scripts themselves are elsewhere.
-/

namespace SnippetTrail.Shell

structure Call where
  streams : Streams
  name : String
  arguments : List String
  isProcess : Bool

namespace Call

def complain (call : Call) (status : Nat) (text : String) (state : State) : State :=
  state.fail call.streams status (state.place ++ text)

def say (call : Call) (text : String) (state : State) : State :=
  (state.say call.streams.out text).leave 0

def options (call : Call) : List String :=
  call.arguments.takeWhile fun argument => argument.startsWith "-" && argument != "-"

def operands (call : Call) : List String := call.arguments.drop call.options.length

def has (call : Call) (letter : Char) : Bool :=
  call.options.any fun option => option.toList.contains letter

-- ---------------------------------------------------------------------------
-- Text

/-- Prints its arguments. A shell reads escapes in them; a program does so only when it is asked to. -/
def echo (call : Call) (state : State) : State :=
  let isOption := fun argument =>
    argument == "-n" || (call.isProcess && ["-e", "-E", "-ne", "-en"].contains argument)
  let options := if call.isProcess then call.arguments.takeWhile isOption
    else (call.arguments.take 1).takeWhile isOption
  let isBare := options.any fun option => option.toList.contains 'n'
  let text := " ".intercalate (call.arguments.drop options.length)
  let (bytes, stop) :=
    if call.isProcess && !options.any (fun option => option.toList.contains 'e') then
      (bytesOf text, false)
    else argumentEscapes (text.length + 1) text.toList
  (state.emit call.streams.out (bytes ++ if isBare || stop then [] else [10])).leave 0

def printf (call : Call) (state : State) : State :=
  match call.arguments with
  | [] => call.complain 2 "printf: usage: printf format [arg ...]" state
  | text :: arguments =>
    let (bytes, complaints) := format call.isProcess (arguments.length + 1) text arguments
    let state := (state.emit call.streams.out bytes).leave 0
    complaints.foldl (fun state complaint =>
      call.complain (if complaint.isFatal then 2 else 1) ("printf: " ++ complaint.text) state) state

def readAll (call : Call) (files : List String) (state : State) : List UInt8 × State :=
  if files.isEmpty then (state.input, { state with input := [], status := 0 })
  else files.foldl (fun ((bytes : List UInt8), (state : State)) file =>
    if file == "-" then (bytes ++ state.input, { state with input := [] })
    else match state.files.read state.folder file with
      | .ok more => (bytes ++ more, state)
      | .error fault => (bytes, state.fault call.streams (call.name ++ ": " ++ file) fault))
    ([], state.leave 0)

def cat (call : Call) (state : State) : State :=
  let (bytes, state) := call.readAll call.operands state
  state.emit call.streams.out bytes

def amount (arguments : List String) : Amount × List String :=
  let number (text : String) : Nat := (Text.readNat? text.toList).getD 0
  match arguments with
  | "-n" :: n :: files => (.lines (number n), files)
  | "-c" :: n :: files => (.bytes (number n), files)
  | first :: files =>
    match first.toList with
    | '-' :: 'n' :: digits => (.lines (number (String.ofList digits)), files)
    | '-' :: 'c' :: digits => (.bytes (number (String.ofList digits)), files)
    | '-' :: digits => match Text.readNat? digits with
      | some n => (.lines n, files)
      | none => (.lines 10, arguments)
    | _ => (.lines 10, arguments)
  | [] => (.lines 10, [])

def zeroDevice : String := "/dev/zero"

def head (call : Call) (state : State) : State :=
  match amount call.arguments with
  | (.bytes n, [file]) =>
    if file == zeroDevice then (state.emit call.streams.out (List.replicate n 0)).leave 0
    else
      let (bytes, state) := call.readAll [file] state
      state.emit call.streams.out (bytes.take n)
  | (amount, files) =>
    let (bytes, state) := call.readAll files state
    state.emit call.streams.out (amount.first bytes)

def tail (call : Call) (state : State) : State :=
  let (amount, files) := amount call.arguments
  let (bytes, state) := call.readAll files state
  state.emit call.streams.out (amount.last bytes)

def wc (call : Call) (state : State) : State :=
  let (bytes, state) := call.readAll call.operands state
  let label := match call.operands with
    | [file] => " " ++ file
    | _ => ""
  let column (option : String) : List Char :=
    let digits := Text.decimal (count option bytes)
    let width := if call.operands.isEmpty then 7 else (Text.decimal bytes.length).length
    List.replicate (width - digits.length) ' ' ++ digits
  let shown := match call.options.head? with
    | some option => toString (count option bytes)
    | none => " ".intercalate (["-l", "-w", "-c"].map fun option => String.ofList (column option))
  state.say call.streams.out (shown ++ label ++ "\n")

def sort (call : Call) (state : State) : State :=
  let (bytes, state) := call.readAll call.operands state
  let number (line : List UInt8) : Nat :=
    Text.digitsValue ((Text.Utf8.decodeLossy line).takeWhile Text.isAsciiDigit)
  let isBelow (a b : List UInt8) : Bool :=
    if call.has 'n' && number a != number b then number a < number b else !decide (b < a)
  let sorted := (byteLines bytes).mergeSort isBelow
  let sorted := if call.has 'r' then sorted.reverse else sorted
  let sorted := if call.has 'u' then sorted.eraseReps else sorted
  state.emit call.streams.out (sorted.flatMap (· ++ [10]))

def uniq (call : Call) (state : State) : State :=
  let (bytes, state) := call.readAll call.operands state
  state.emit call.streams.out ((byteLines bytes).eraseReps.flatMap (· ++ [10]))

def seq (call : Call) (state : State) : State :=
  let number (text : String) : Int := (Text.readInt? text.toList).getD 0
  let (first, step, last) : Int × Int × Int := match call.arguments with
    | [last] => (1, 1, number last)
    | [first, last] => (number first, 1, number last)
    | first :: step :: last :: _ => (number first, number step, number last)
    | [] => (1, 1, 0)
  let size := if step == 0 then 0 else (((last - first).fdiv step) + 1).toNat
  let lines := (List.range size).map fun (n : Nat) => toString (first + step * n) ++ "\n"
  (state.say call.streams.out (String.join lines)).leave 0

def yes (call : Call) (state : State) : State :=
  let line := if call.arguments.isEmpty then "y" else " ".intercalate call.arguments
  let bytes := bytesOf line ++ [10]
  let copies := 262144 / bytes.length + 1
  (state.emit call.streams.out ((List.replicate copies bytes).flatten)).stall

def basename (call : Call) (state : State) : State :=
  match call.arguments with
  | [] => state.fail call.streams 1 "basename: missing operand"
  | path :: endings =>
    let name := (Path.fileName? path).getD path
    let shown := match endings with
      | [] => name
      | ending :: _ =>
        if ending == name then name
        else ((Text.stripEnd? ending.toList name.toList).map String.ofList).getD name
    call.say (shown ++ "\n") state

def dirname (call : Call) (state : State) : State :=
  match call.arguments with
  | [] => state.fail call.streams 1 "dirname: missing operand"
  | path :: _ =>
    let parent := (Path.parent? path).getD path
    call.say ((if parent.isEmpty then "." else parent) ++ "\n") state

def tee (call : Call) (state : State) : State :=
  let bytes := state.input
  let state := { state with input := [] }.emit call.streams.out bytes
  call.operands.foldl (fun state file =>
    match state.files.write state.folder (call.has 'a') file bytes with
    | .ok files => { state with files }
    | .error fault => state.fault call.streams ("tee: " ++ file) fault) (state.leave 0)

def tr (call : Call) (state : State) : State :=
  ({ state with input := [] }.emit call.streams.out (translate call.arguments state.input)).leave 0

-- ---------------------------------------------------------------------------
-- Files

def ls (call : Call) (state : State) : State :=
  let paths := if call.operands.isEmpty then ["."] else call.operands
  paths.foldl (fun state path =>
    match state.files.find state.folder true path with
    | .error fault => missing path fault state
    | .ok found => match found.node with
      | none => missing path .notFound state
      | some .folder =>
        let names := (state.files.names found.place).filter fun name =>
          call.has 'A' || call.has 'a' || !name.startsWith "."
        state.say call.streams.out (String.join (names.map (· ++ "\n")))
      | some _ => state.say call.streams.out (path ++ "\n")) (state.leave 0)
where
  missing (path : String) (fault : IoFault) (state : State) : State :=
    (state.fault call.streams ("ls: cannot access '" ++ path ++ "'") fault).leave 2

def eachPath (call : Call) (doing : String) (change : String → State → Except IoFault FileTree)
    (state : State) : State :=
  call.operands.foldl (fun state path =>
    match change path state with
    | .ok files => { state with files }
    | .error fault => state.fault call.streams (doing ++ " '" ++ path ++ "'") fault) (state.leave 0)

def rm (call : Call) (state : State) : State :=
  call.eachPath "rm: cannot remove" (fun path state =>
    match state.files.removeFile state.folder path with
    | .error .isDirectory =>
      if call.has 'r' || call.has 'R' then state.files.removeFolder state.folder path
      else .error .isDirectory
    | .error .notFound => if call.has 'f' then .ok state.files else .error .notFound
    | .error .notDirectory => if call.has 'f' then .ok state.files else .error .notDirectory
    | outcome => outcome) state

def mkdir (call : Call) (state : State) : State :=
  call.eachPath "mkdir: cannot create directory" (fun path state =>
    if call.has 'p' then state.files.createFolders state.folder path
    else state.files.createFolder state.folder path) state

def rmdir (call : Call) (state : State) : State :=
  call.eachPath "rmdir: failed to remove" (fun path state =>
    match state.files.find state.folder false path with
    | .error fault => .error fault
    | .ok found =>
      if found.node != some .folder then .error (if found.node.isSome then .notDirectory else .notFound)
      else if (state.files.children found.place).isEmpty then .ok (state.files.remove found.place)
      else .error .notEmpty) state

def touch (call : Call) (state : State) : State :=
  call.eachPath "touch: cannot touch" (fun path state =>
    if state.files.leadsToFolder state.folder path then .ok state.files
    else state.files.write state.folder true path []) state

def targetPath (state : State) (source target : String) : String :=
  if state.files.leadsToFolder state.folder target then
    Path.join target ((Path.fileName? source).getD source)
  else target

def cp (call : Call) (state : State) : State :=
  match call.operands with
  | [source, target] =>
    match state.files.read state.folder source with
    | .error fault => state.fault call.streams (call.name ++ ": cannot stat '" ++ source ++ "'") fault
    | .ok bytes =>
      match state.files.write state.folder false (targetPath state source target) bytes with
      | .error .notDirectory =>
        state.fault call.streams (call.name ++ ": cannot stat '" ++ target ++ "'") .notDirectory
      | .error fault =>
        let refused := if call.name == "mv" then "mv: cannot move '" ++ source ++ "' to '"
          else "cp: cannot create regular file '"
        state.fault call.streams (refused ++ target ++ "'") fault
      | .ok files => { state with files, status := 0 }
  | _ => state.fail call.streams 1 "cp: missing file operand"

def mv (call : Call) (state : State) : State :=
  match call.operands with
  | [source, target] =>
    let copied := cp { call with name := "mv" } state
    if copied.status != 0 then copied
    else match copied.files.removeFile copied.folder source with
      | .ok files => { copied with files }
      | .error fault => copied.fault call.streams ("mv: cannot remove '" ++ target ++ "'") fault
  | _ => state.fail call.streams 1 "mv: missing file operand"

-- ---------------------------------------------------------------------------
-- Tests

def programFolder : Place := ["usr", "bin"]

def nodeAt? (state : State) (path : String) : Option FileNode :=
  match state.files.find state.folder true path with
  | .ok found => found.node
  | .error _ => none

def isRunnable (state : State) (path : String) : Bool :=
  match state.files.find state.folder true path with
  | .ok ⟨place, some node, _⟩ => node == .folder || place.take 2 == programFolder
  | _ => false

def unary? (state : State) (operator operand : String) : Option Bool :=
  match operator with
  | "-n" => some (!operand.isEmpty)
  | "-z" => some operand.isEmpty
  | "-e" | "-r" | "-w" => some (nodeAt? state operand).isSome
  | "-d" => some (nodeAt? state operand == some .folder)
  | "-x" => some (isRunnable state operand)
  | "-f" => some (match nodeAt? state operand with
    | some (.file _) => true
    | _ => false)
  | "-s" => some (match nodeAt? state operand with
    | some (.file bytes) => !bytes.isEmpty
    | node => node.isSome)
  | "-t" | "-p" | "-S" | "-b" | "-c" => some false
  | "-L" | "-h" => some (match state.files.kind state.folder false operand with
    | .ok .link => true
    | _ => false)
  | _ => none

def compareNumbers? (operator : String) (a b : Int) : Option Bool :=
  match operator with
  | "-eq" => some (a == b)
  | "-ne" => some (a != b)
  | "-lt" => some (a < b)
  | "-le" => some (a ≤ b)
  | "-gt" => some (b < a)
  | "-ge" => some (b ≤ a)
  | _ => none

def binary? (operator left right : String) : Option Bool :=
  match operator with
  | "=" | "==" => some (left == right)
  | "!=" => some (left != right)
  | "<" => some (left < right)
  | ">" => some (right < left)
  | _ => do
    let a ← Text.readInt? (Text.trim left.toList)
    let b ← Text.readInt? (Text.trim right.toList)
    compareNumbers? operator a b

def condition? (state : State) : Nat → List String → Option Bool
  | 0, _ => none
  | fuel + 1, arguments =>
    match arguments with
    | [] => some false
    | [text] => some (!text.isEmpty)
    | ["!", text] => some text.isEmpty
    | [operator, operand] => unary? state operator operand
    | [left, operator, right] =>
      match binary? operator left right with
      | some value => some value
      | none => if left == "!" then (unary? state operator right).map not else none
    | "!" :: rest => (condition? state fuel rest).map not
    | left :: operator :: right :: joint :: rest => do
      let first ← binary? operator left right
      let second ← condition? state fuel rest
      if joint == "-a" then pure (first && second)
      else if joint == "-o" then pure (first || second)
      else none

def complaint (arguments : List String) : String :=
  match arguments with
  | [left, operator, right] =>
    if (compareNumbers? operator 0 0).isSome then
      let isNumber := (Text.readInt? (Text.trim left.toList)).isSome
      "Illegal number: " ++ if isNumber then right else left
    else operator ++ ": unexpected operator"
  | [_, operator] => operator ++ ": unexpected operator"
  | _ => (arguments.head?.getD "") ++ ": unexpected operator"

def test (call : Call) (state : State) : State :=
  let arguments := if call.name == "[" then call.arguments.dropLast else call.arguments
  if call.name == "[" && call.arguments.getLast? != some "]" then
    call.complain 2 "[: missing ]" state
  else match condition? state (arguments.length + 1) arguments with
    | some value => state.leave (if value then 0 else 1)
    | none =>
      call.complain 2 (call.name ++ ": " ++ complaint arguments) state

-- ---------------------------------------------------------------------------
-- The shell itself

def exit (call : Call) (state : State) : State :=
  match call.arguments with
  | [] => { state with ending := .exited }
  | argument :: _ =>
    match Text.readNat? argument.toList with
    | some status => { state with status := status % 256, ending := .exited }
    | none => state.abort call.streams ("exit: Illegal number: " ++ argument)

def cd (call : Call) (state : State) : State :=
  let target := match call.operands with
    | path :: _ => path
    | [] => (state.valueOf? "HOME").getD "/"
  match state.files.find state.folder true target with
  | .ok ⟨place, some .folder, _⟩ => { state with folder := place, status := 0 }
  | _ => call.complain 2 ("cd: can't cd to " ++ target) state

/-- The line at the start of an input: its bytes, whether a newline ends it, and what is behind it. A
backslash joins it to the next line, unless it is taken raw. -/
def inputLine (raw : Bool) : List UInt8 → List UInt8 → List UInt8 × Bool × List UInt8
  | line, [] => (line.reverse, false, [])
  | line, byte :: rest =>
    if byte == 10 then (line.reverse, true, rest)
    else if byte == 92 && !raw then
      match rest with
      | [] => (line.reverse, false, [])
      | next :: rest =>
        if next == 10 then inputLine raw line rest else inputLine raw (next :: byte :: line) rest
    else inputLine raw (byte :: line) rest

/-- The characters of a line, and whether they may separate words; one behind a backslash may not. -/
def markEscapes : List Char → List (Char × Bool)
  | '\\' :: c :: rest => (c, false) :: markEscapes rest
  | c :: rest => (c, true) :: markEscapes rest
  | [] => []

def behindSeparator (isBlank isSeparator : Char × Bool → Bool) (text : List (Char × Bool)) :
    List (Char × Bool) :=
  match text.dropWhile isBlank with
  | c :: rest => if isSeparator c then rest.dropWhile isBlank else c :: rest
  | [] => []

def assignWords (isBlank isSeparator : Char × Bool → Bool) :
    List String → List (Char × Bool) → State → State
  | [], _, state => state
  | [name], text, state =>
    let word := text.takeWhile fun c => !isSeparator c
    let isLast := (behindSeparator isBlank isSeparator (text.drop word.length)).isEmpty
    let kept := if isLast then word else (text.reverse.dropWhile isBlank).reverse
    state.assign name (String.ofList (kept.map (·.1)))
  | name :: names, text, state =>
    let word := text.takeWhile fun c => !isSeparator c
    assignWords isBlank isSeparator names
      (behindSeparator isBlank isSeparator (text.drop word.length))
      (state.assign name (String.ofList (word.map (·.1))))

def read (call : Call) (state : State) : State :=
  let raw := call.has 'r'
  let isSeparator : Char × Bool → Bool := fun c => c.2 && state.separators.contains c.1
  let isBlank : Char × Bool → Bool := fun c => isSeparator c && [' ', '\t', '\n'].contains c.1
  let (line, isWhole, rest) := inputLine raw [] state.input
  let text := Text.Utf8.decodeLossy line
  let marked := if raw then text.map (·, true) else markEscapes text
  match call.operands with
  | [] => call.complain 2 "read: arg count" state
  | names => (assignWords isBlank isSeparator names (marked.dropWhile isBlank)
      { state with input := rest }).leave (if isWhole then 0 else 1)

def signals : List (String × Nat) :=
  ("EXIT", 0) :: ["HUP", "INT", "QUIT", "ILL", "TRAP", "ABRT", "BUS", "FPE", "KILL", "USR1", "SEGV",
    "USR2", "PIPE", "ALRM", "TERM", "16", "CHLD", "CONT", "STOP", "TSTP", "TTIN", "TTOU", "URG",
    "XCPU", "XFSZ", "VTALRM", "PROF", "WINCH", "IO", "PWR", "SYS"].zipIdx 1

def signalNumber? (text : String) : Option Nat :=
  ((Text.readNat? text.toList).filter (· ≤ 64)).or
    (signals.lookup (String.ofList (text.toList.map Char.toUpper)))

/-- The signals that do nothing to a process that has not asked for them. -/
def harmless : List Nat := [17, 18, 23, 28]

def halting : List Nat := [19, 20, 21, 22]

def signalName (text : String) : String :=
  match signalNumber? text with
  | some n => toString n
  | none => text

def receive (signal : Nat) (state : State) : State :=
  match state.traps.lookup (toString signal) with
  | some action =>
    if signal == 9 then { state with ending := .killed signal }
    else if action.isEmpty then state.leave 0
    else { state with due := state.due ++ [action], status := 0 }
  | none =>
    if harmless.contains signal then state.leave 0
    else { state with ending := if halting.contains signal then .endless else .killed signal }

def kill (call : Call) (state : State) : State :=
  let (signal, targets) := match call.arguments with
    | "-s" :: name :: rest => (signalNumber? name, rest)
    | first :: rest => match first.toList with
      | '-' :: name => (signalNumber? (String.ofList name), rest)
      | _ => (some 15, call.arguments)
    | [] => (some 15, [])
  match signal with
  | none => call.complain 2 (match call.arguments with
      | "-s" :: name :: _ => "kill: invalid signal number or name: " ++ name
      | first :: _ => "kill: Illegal option -" ++ String.ofList ((first.toList.drop 1).take 1)
      | [] => "") state
  | some signal =>
    match targets.find? fun target => (Text.readInt? target.toList).isNone with
    | some target => call.complain 2 ("kill: Illegal number: " ++ target) state
    | none =>
      if targets.isEmpty then call.complain 2
        "kill: Usage: kill [-s sigspec | -signum | -sigspec] [pid | job]... or\nkill -l [exitstatus]"
        state
      else if !targets.contains State.processNumber then
        call.complain 1 "kill: No such process\n" state
      else if signal == 0 then state.leave 0
      else receive signal state

def trap (call : Call) (state : State) : State :=
  match call.operands with
  | [] => state.leave 0
  | action :: names =>
    let known := names.takeWhile fun name => (signalNumber? name).isSome
    let numbers := known.map signalName
    let others := state.traps.filter fun entry => !numbers.contains entry.1
    let added := if action == "-" then [] else numbers.map (·, action)
    let state := { state with traps := added ++ others, status := 0 }
    match names.drop known.length with
    | [] => state
    | name :: _ => state.fail call.streams 1 ("trap: " ++ name ++ ": bad trap")

def unit : Char → Option Nat
  | 's' => some 1
  | 'm' => some 60
  | 'h' => some 3600
  | 'd' => some 86400
  | _ => none

def milliseconds? (digits : List Char) : Option Nat :=
  match Text.splitOnce? '.' digits with
  | none => (Text.readNat? digits).map (1000 * ·)
  | some (whole, part) =>
    if (whole ++ part).isEmpty || !(whole ++ part).all Text.isAsciiDigit then none
    else some (1000 * Text.digitsValue whole + Text.digitsValue ((part ++ ['0', '0', '0']).take 3))

def interval? (text : String) : Option Nat :=
  match (text.toList.getLast?).bind unit with
  | some seconds => (milliseconds? text.toList.dropLast).map (seconds * ·)
  | none => milliseconds? text.toList

def isInfinite (text : String) : Bool := ["inf", "infinity"].contains text

def sleep (call : Call) (state : State) : State :=
  let hint := "\nTry 'sleep --help' for more information."
  if call.arguments.isEmpty then state.fail call.streams 1 ("sleep: missing operand" ++ hint)
  else match call.arguments.find? fun argument =>
      (interval? argument).isNone && !isInfinite argument with
    | some argument =>
      state.fail call.streams 1 ("sleep: invalid time interval '" ++ argument ++ "'" ++ hint)
    | none =>
      if call.arguments.any isInfinite then state.stall
      else { state with
        elapsed := state.elapsed + (call.arguments.filterMap interval?).foldl (· + ·) 0
        status := 0 }

def shift (call : Call) (state : State) : State :=
  let n := ((call.arguments.head?).bind fun text => Text.readNat? text.toList).getD 1
  { state with arguments := state.arguments.drop n, status := 0 }

def exportAll (call : Call) (state : State) : State :=
  call.arguments.foldl (fun state argument =>
    match Text.splitOnce? '=' argument.toList with
    | some (name, value) =>
      let state := state.assign (String.ofList name) (String.ofList value)
      { state with exported := String.ofList name :: state.exported }
    | none => { state with exported := argument :: state.exported }) (state.leave 0)

def assignAll (call : Call) (state : State) : State :=
  { exportAll call state with exported := state.exported }

def unset (call : Call) (state : State) : State :=
  { state with
    bindings := state.bindings.filter fun entry => !call.arguments.contains entry.1, status := 0 }

def times (call : Call) : Nat :=
  ((call.arguments.head?).bind fun text => Text.readNat? text.toList).getD 1

def leaveLoops (call : Call) (state : State) : State :=
  { state.leave 0 with
    ending := if state.loops == 0 then .running else .broken (min call.times state.loops) }

def continueLoop (call : Call) (state : State) : State :=
  { state.leave 0 with
    ending := if state.loops == 0 then .running else .continued (min call.times state.loops) }

def leaveFunction (call : Call) (state : State) : State :=
  let status := ((call.arguments.head?).bind fun text => Text.readNat? text.toList).getD state.status
  { state with status := status % 256, ending := .returned }

def isSwitch (argument : String) : Bool :=
  (argument.startsWith "-" || argument.startsWith "+") && argument != "--" && argument != "-"

def switch (state : State) (argument : String) : State :=
  let isOn := argument.startsWith "-"
  let letters := argument.toList
  { state with
    stopsOnFailure := if letters.contains 'e' then isOn else state.stopsOnFailure
    demandsValues := if letters.contains 'u' then isOn else state.demandsValues }

def set (call : Call) (state : State) : State :=
  let state := (call.arguments.takeWhile isSwitch).foldl switch (state.leave 0)
  match call.arguments.dropWhile isSwitch with
  | [] => state
  | "--" :: arguments => { state with arguments }
  | arguments => { state with arguments }

def pwd (call : Call) (state : State) : State :=
  call.say (State.placeText state.folder ++ "\n") state

end Call

def shared : List (String × (Call → State → State)) := [
  ("true", fun _ state => state.leave 0), ("false", fun _ state => state.leave 1),
  ("echo", Call.echo), ("printf", Call.printf), ("test", Call.test), ("[", Call.test),
  ("kill", Call.kill), ("pwd", Call.pwd)]

def processes : List (String × (Call → State → State)) := shared ++ [
  ("cat", Call.cat), ("head", Call.head), ("tail", Call.tail), ("wc", Call.wc), ("tr", Call.tr),
  ("sort", Call.sort), ("uniq", Call.uniq), ("seq", Call.seq), ("yes", Call.yes), ("tee", Call.tee),
  ("basename", Call.basename), ("dirname", Call.dirname), ("ls", Call.ls), ("rm", Call.rm),
  ("mkdir", Call.mkdir), ("rmdir", Call.rmdir), ("touch", Call.touch), ("cp", Call.cp),
  ("mv", Call.mv), ("sleep", Call.sleep), ("chmod", fun _ state => state.leave 0)]

def builtins : List (String × (Call → State → State)) := shared ++ [
  (":", fun _ state => state.leave 0), ("exit", Call.exit), ("cd", Call.cd), ("read", Call.read),
  ("shift", Call.shift), ("export", Call.exportAll), ("unset", Call.unset), ("set", Call.set),
  ("trap", Call.trap), ("break", Call.leaveLoops), ("continue", Call.continueLoop),
  ("return", Call.leaveFunction), ("readonly", Call.exportAll), ("local", Call.assignAll),
  ("wait", fun _ state => state.leave 0)]

def shells : List String := ["sh", "dash", "bash"]

def searched (bindings : List (String × String)) : List String :=
  match bindings.lookup "PATH" with
  | none => ["/usr/bin"]
  | some path => (Text.splitAt ':' path.toList).map String.ofList

def searchesPrograms (bindings : List (String × String)) : Bool :=
  (searched bindings).any ["/bin", "/usr/bin", "/bin/", "/usr/bin/"].contains

def searchesHere (bindings : List (String × String)) : Bool :=
  (searched bindings).any ["", ".", "./"].contains

def programs : List String := shells ++ "env" :: processes.map (·.1)

def programFiles : List (Place × FileNode) :=
  programs.map fun name => (Call.programFolder ++ [name], .file [0x7F, 0x45, 0x4C, 0x46])

/-- The name of the program that a word finds: by a path to its file, or by its name alone. -/
def program? (files : FileTree) (folder : Place) (bindings : List (String × String)) (word : String) :
    Option String :=
  if word.toList.contains '/' then
    match files.find folder true word with
    | .ok ⟨["usr", "bin", name], some (.file _), _⟩ => some name
    | _ => none
  else if searchesPrograms bindings then some word
  else none

end SnippetTrail.Shell
