import SnippetTrail.Corpus.Sync
import SnippetTrail.Daemon.Options
import SnippetTrail.Tracked.List

/-!
# The daemon

The daemon tracks the repository of its command line and those of its list file, updates each once
and keeps them in sync from then on. It reads the list file again at every poll and tracks what is
new in it. A repository is tracked once.
-/

namespace SnippetTrail

inductive Failure where
  | service (error : ServiceError)
  | track (tracked : TrackedRepository) (error : ServiceError)
  | list (error : CorpusError)
  | nothingToTrack
  deriving DecidableEq

namespace Failure

def messages : Failure → List String
  | .service error => error.message :: error.causes
  | .track tracked error => ("Failed to track " ++ tracked.display) :: error.message :: error.causes
  | .list error => [error.message]
  | .nothingToTrack => ["No repositories to track; pass --owner and --repo or --repos-file"]

def indented (first further : List Char) (text : String) : List Char :=
  first ++ Text.join ('\n' :: further) (Text.splitAt '\n' text.toList)

def numberMark (n : Nat) : List Char :=
  let digits := Text.decimal n
  List.replicate (5 - digits.length) ' ' ++ digits ++ [':', ' ']

def listing (causes : List String) : List Char :=
  match causes with
  | [cause] => '\n' :: indented (List.replicate 4 ' ') (List.replicate 4 ' ') cause
  | _ => causes.zipIdx.flatMap fun (cause, n) =>
    '\n' :: indented (numberMark n) (List.replicate 7 ' ') cause

def report (failure : Failure) : String :=
  match failure.messages with
  | [] => ""
  | message :: causes =>
    String.ofList ("Error: ".toList ++ message.toList ++
      (if causes.isEmpty then [] else "\n\nCaused by:".toList ++ listing causes) ++ ['\n'])

end Failure

structure Desk (σ : Type) where
  list : Option RepositoryList
  /-- The repositories that have been tracked, by owner and name. -/
  known : List String
  machine : σ

def Desk.host (host : Host σ) : Host (Desk σ) :=
  Host.onPart Desk.machine (fun machine desk => { desk with machine }) host

abbrev DaemonState (σ : Type) := CorpusState WatchedRepository (Desk σ)

abbrev DaemonAct (σ ε α : Type) := Act (DaemonState σ) ε α

namespace Daemon

/-- Nothing calls the daemon off but its end. -/
def scope : Scope := [0]

def track (host : Host σ) (tracked : TrackedRepository) : DaemonAct σ ServiceError Bool :=
  Corpus.track (Desk.host host) (fun watched => watched) scope tracked

def remember (key : String) (state : DaemonState σ) : DaemonState σ :=
  { state with machine := { state.machine with known := key :: state.machine.known } }

/-- Tracks the repositories that are not known yet; one that cannot be tracked is tried again at the
next change of the list. -/
def trackNew (host : Host σ) : List TrackedRepository → DaemonState σ → DaemonState σ
  | [], state => state
  | tracked :: rest, state =>
    if tracked.display ∈ state.machine.known then trackNew host rest state
    else match track host tracked state with
      | (.ok true, state) => trackNew host rest (remember tracked.display state)
      | (_, state) => trackNew host rest state

def readList (host : Host σ) (list : RepositoryList) (state : DaemonState σ) :
    Except CorpusError Bool × List TrackedRepository × DaemonState σ :=
  let (outcome, list) := list.update host state.machine.machine
  (outcome, list.repositories, { state with machine := { state.machine with list := some list } })

def refresh (host : Host σ) (state : DaemonState σ) : DaemonState σ :=
  match state.machine.list with
  | none => state
  | some list =>
    match readList host list state with
    | (.ok true, repositories, state) => trackNew host repositories state
    | (_, _, state) => state

def trackGiven (host : Host σ) (options : Options) : DaemonAct σ Failure Unit :=
  match options.owner, options.repository with
  | some owner, some name => do
    let tracked := { TrackedRepository.new owner name with tracksSnippets := true }
    let _ ← Act.mapError (Failure.track tracked) (track host tracked)
    modify (remember tracked.display)
  | _, _ => pure ()

/-- Tracks the repositories of the list file, which has to be readable at the start. -/
def trackListed (host : Host σ) (config : Config) : DaemonAct σ Failure Unit :=
  match config.corpus.listFile with
  | none => pure ()
  | some path => fun state =>
    match readList host (RepositoryList.new path) state with
    | (.error error, _, state) => (.error (.list error), state)
    | (.ok _, repositories, state) => (.ok (), trackNew host repositories state)

def runWith (host : Host σ) (fuel : Nat) (options : Options) (config : Config) :
    DaemonAct σ Failure Unit := do
  trackGiven host options
  trackListed host config
  if (← get).corpus.members.isEmpty then throw .nothingToTrack
  let update : Updater WatchedRepository (Desk σ) := updateWatched (Desk.host host)
  Act.mapError Failure.service (Corpus.prepare (Desk.host host) update scope)
  Act.mapError Failure.service (Corpus.sync (Desk.host host) update (refresh host) fuel scope)

def run (host : Host σ) (fuel : Nat) (environment : Environment) (options : Options) (machine : σ) :
    Except Failure Unit × σ :=
  match options.config host environment machine with
  | .error error => (.error (.service (.config error)), machine)
  | .ok config =>
    let corpus := Corpus.new (CorpusOptions.ofConfig config)
    let (outcome, state) := runWith host fuel options config ⟨corpus, ⟨none, [], machine⟩⟩
    (outcome, state.machine.machine)

def turnLimit : Nat := 0x4000_0000_0000_0000

structure Exit where
  code : Nat
  report : String
  deriving DecidableEq

def launch (host : Host σ) (fuel : Nat) (environment : Environment)
    (arguments : List SystemText) (machine : σ) : Exit × σ :=
  match Options.ofArguments environment arguments with
  | .inform => (⟨0, ""⟩, machine)
  | .misuse => (⟨2, ""⟩, machine)
  | .run options =>
    match run host fuel environment options machine with
    | (.ok (), machine) => (⟨0, ""⟩, machine)
    | (.error failure, machine) => (⟨1, failure.report⟩, machine)

end Daemon

end SnippetTrail
