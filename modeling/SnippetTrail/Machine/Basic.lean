import SnippetTrail.Shell.Run

/-!
# A machine in memory

A machine with files, a few programs and a shell. It runs every process to its end before anything
else happens, and time passes on it only where a program sleeps.
-/

namespace SnippetTrail

structure Machine where
  files : FileTree
  folder : Place
  bindings : List (String × String)
  calledOff : List Nat
  lastScope : Nat
  /-- A process that takes this many milliseconds is called off. -/
  patience : Option Nat

namespace Machine

def fixtures : List (Place × FileNode) := Shell.programFiles ++ [
  (["dev"], .folder), (["dev", "null"], .device .null), (["dev", "full"], .device .full),
  (["dev", "zero"], .device .zero),
  (["bin"], .link "usr/bin"), (["sbin"], .link "usr/sbin"), (["lib"], .link "usr/lib"),
  (["lib64"], .link "usr/lib64"), (["usr"], .folder), (["usr", "bin"], .folder),
  (["usr", "sbin"], .folder), (["usr", "lib"], .folder), (["usr", "lib64"], .folder),
  (["usr", "local"], .folder), (["usr", "local", "bin"], .folder), (["usr", "share"], .folder),
  (["boot"], .folder), (["etc"], .folder), (["home"], .folder), (["media"], .folder),
  (["mnt"], .folder), (["opt"], .folder), (["proc"], .folder), (["root"], .folder),
  (["run"], .folder), (["srv"], .folder), (["sys"], .folder), (["tmp"], .folder), (["var"], .folder),
  (["etc", "passwd"], .file (Shell.bytesOf "root:x:0:0:root:/root:/bin/bash\n")),
  (["etc", "hosts"], .file (Shell.bytesOf "127.0.0.1\tlocalhost\n"))]

def new (folder : Place) (bindings : List (String × String)) : Machine :=
  ⟨(FileTree.mk fixtures).makeFolder folder, folder, bindings, [], 0, none⟩

def isCalledOff (scope : Scope) (machine : Machine) : Bool :=
  scope.any machine.calledOff.contains

def callOff (scope : Scope) (machine : Machine) : Machine :=
  { machine with calledOff := scope.head?.toList ++ machine.calledOff }

def enter (scope : Scope) (machine : Machine) : Scope × Machine :=
  let fresh := machine.lastScope + 1
  (fresh :: scope, { machine with lastScope := fresh })

-- ---------------------------------------------------------------------------
-- Processes

def hasNul (text : String) : Bool := text.toList.any (·.toNat == 0)

/-- What a path leads to. The files here have texts as names, and no other path is taken. -/
def atText (path : FilePath) (find : String → Except IoFault α) : Except IoFault α :=
  match path.text? with
  | some text => find text
  | none => .error .invalidName

def isTooLong (argument : String) : Bool := 131072 ≤ argument.utf8ByteSize

def refusal? (machine : Machine) (folder : Place) (program : String) : Option IoFault :=
  let found := Shell.program? machine.files folder machine.bindings program
  if found.any Shell.programs.contains then none
  else if program == "." || program == ".." then some .permissionDenied
  else if program.toList.contains '/' then
    match machine.files.find folder true program with
    | .error fault => some fault
    | .ok target => some (if target.node.isSome then .permissionDenied else .notFound)
  else some (if FileTree.nameLimit < program.utf8ByteSize then .nameTooLong else .notFound)

def process (machine : Machine) (command : Command) : Except IoFault Shell.Outcome :=
  if hasNul command.program || command.arguments.any hasNul || command.dir.bytes.contains 0 then
    .error (.other "nul byte found in provided data")
  else match atText command.dir (machine.files.find machine.folder true) with
    | .error fault => .error fault
    | .ok ⟨place, some .folder, _⟩ =>
      match machine.refusal? place command.program with
      | some fault => .error fault
      | none =>
        if command.arguments.any isTooLong then .error .argumentsTooLong
        else match Shell.runProcess machine.patience.isSome machine.files place machine.bindings
          command.program command.arguments with
        | some outcome => .ok outcome
        | none => .error .notFound
    | .ok ⟨_, some _, _⟩ => .error .notDirectory
    | .ok ⟨_, none, _⟩ => .error .notFound

def outputOf (outcome : Shell.Outcome) : ProcessOutput where
  stdout := String.ofList (Text.Utf8.decodeLossy outcome.stdout)
  stderr := String.ofList (Text.Utf8.decodeLossy outcome.stderr)
  code := outcome.code.map Int.ofNat

def run (scope : Scope) (command : Command) (machine : Machine) :
    Except GitError ProcessOutput × Machine :=
  if machine.isCalledOff scope then (.error (.cancelled command.display), machine)
  else match machine.process command with
    | .error fault => (.error (.spawn command.display fault), machine)
    | .ok outcome =>
      if machine.patience.any fun limit => outcome.elapsed.all (limit ≤ ·) then
        (.error (.cancelled command.display), machine.callOff scope)
      else (.ok (outputOf outcome), { machine with files := outcome.files })

-- ---------------------------------------------------------------------------
-- The host

def change (outcome : Except IoFault FileTree) (machine : Machine) : Except IoFault Unit × Machine :=
  match outcome with
  | .ok files => (.ok (), { machine with files })
  | .error fault => (.error fault, machine)

def host : Host Machine where
  run := run
  isCalledOff := isCalledOff
  callOff := callOff
  enter := enter
  kind := fun path machine => atText path (machine.files.kind machine.folder true)
  linkKind := fun path machine => atText path (machine.files.kind machine.folder false)
  read := fun path machine => atText path (machine.files.read machine.folder)
  write := fun path bytes machine =>
    change (atText path fun text => machine.files.write machine.folder false text bytes) machine
  createFolders := fun path machine =>
    change (atText path (machine.files.createFolders machine.folder)) machine
  removeFolder := fun path machine =>
    change (atText path (machine.files.removeFolder machine.folder)) machine

end Machine

end SnippetTrail
