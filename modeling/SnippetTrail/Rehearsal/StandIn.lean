import SnippetTrail.Corpus.Sync
import SnippetTrail.Rehearsal.Script

/-!
# Stand-ins

A stand-in is a member of a corpus that plays a part: it counts its updates, and at some of them it
does what its cues say. Each deed is written to a log after it is done.
-/

namespace SnippetTrail

inductive Deed where
  | fail
  | failCalledOff
  | callOff
  | add (id : String) (cues : List (Nat × Deed))
  | sync
  | prepare
  | askSyncing
  | mark
  deriving Inhabited

structure StandIn where
  id : String
  /-- What is done at which update, counted from one. -/
  cues : List (Nat × Deed)
  updates : Nat

inductive Member where
  | watched (repository : WatchedRepository)
  | standIn (player : StandIn)

namespace Member

def id : Member → String
  | .watched repository => repository.id
  | .standIn player => player.id

def owner : Member → String
  | .watched repository => repository.tracked.owner
  | .standIn _ => "fake"

def name : Member → String
  | .watched repository => repository.tracked.name
  | .standIn player => player.id

def snippets : Member → List Snippet
  | .watched repository => repository.allSnippets
  | .standIn _ => []

def commits : Member → List CommitRecord
  | .watched repository => repository.allCommits
  | .standIn _ => []

end Member

inductive Note where
  | failed
  | nothing
  | outcome (result : Except ServiceError Unit)
  | size (members : Nat)
  | flag (value : Bool)

structure LogEntry where
  id : String
  update : Nat
  deed : String
  note : Note

structure Stage where
  rehearsal : Rehearsal
  scope : Scope
  log : List LogEntry

namespace Stage

def new (rehearsal : Rehearsal) : Stage := ⟨rehearsal, [], []⟩

def host : Host Stage :=
  Host.onPart Stage.rehearsal (fun rehearsal stage => { stage with rehearsal }) Rehearsal.host

abbrev StageAct (α : Type) := CorpusAct Member Stage α

def note (standIn : StandIn) (deed : String) (note : Note) : StageAct Unit :=
  modify fun state => { state with
    machine := { state.machine with
      log := state.machine.log ++ [⟨standIn.id, standIn.updates, deed, note⟩] } }

def outcomeOf (act : StageAct Unit) : StageAct Note := fun state =>
  let (result, state) := act state
  (.ok (.outcome result), state)

def turnLimit : Nat := 0x4000_0000_0000_0000

def perform (update : Updater Member Stage) (scope : Scope) (standIn : StandIn) :
    Deed → StageAct Unit
  | .fail => do
    note standIn "fail" .failed
    throw (.other (standIn.id ++ " broke"))
  | .failCalledOff => throw (.git (.cancelled standIn.id))
  | .callOff => do
    modify fun state => { state with machine := host.callOff state.machine.scope state.machine }
    note standIn "cancel" (.outcome (.ok ()))
  | .add id cues => do
    modify fun state => { state with corpus := state.corpus.add (.standIn ⟨id, cues, 0⟩) }
    note standIn "add" (.size (← get).corpus.members.length)
  | .sync => do
    note standIn "sync" (← outcomeOf (Corpus.sync host update (fun state => state) turnLimit scope))
  | .prepare => do
    note standIn "initialize" (← outcomeOf (Corpus.prepare host update scope))
  | .askSyncing => do note standIn "syncing" (.flag (← get).corpus.isSyncing)
  | .mark => note standIn "mark" .nothing

def performAll (update : Updater Member Stage) (scope : Scope) (standIn : StandIn) :
    List (Nat × Deed) → StageAct Unit
  | [] => pure ()
  | (number, deed) :: rest => do
    if number == standIn.updates then perform update scope standIn deed
    performAll update scope standIn rest

/-- Updates a member; the fuel bounds how often deeds may lead back to the corpus. -/
def update : Nat → Updater Member Stage
  | 0, _, _ => throw (.other "too many updates within updates")
  | fuel + 1, scope, place => do
    match (← get).corpus.members[place]? with
    | none => pure ()
    | some (.watched watched) => fun state =>
      let (outcome, after) := WatchedRepository.update host scope ⟨watched, state.machine⟩
      (outcome, { state with
        corpus := { state.corpus with
          members := state.corpus.members.set place (.watched after.watched) }
        machine := after.machine })
    | some (.standIn standIn) =>
      let standIn := { standIn with updates := standIn.updates + 1 }
      modify fun state => { state with
        corpus := { state.corpus with
          members := state.corpus.members.set place (.standIn standIn) } }
      performAll (update fuel) scope standIn standIn.cues

end Stage

end SnippetTrail
