import SnippetTrail.Corpus.Basic

/-!
# Keeping a corpus in sync

A sync has one poller for each member. A poller updates its member, rests for the poll interval and
starts over; it ends when the sync is called off or when the update fails. Members that are added
while a sync runs join it. The first failure calls off the whole sync and is its outcome.

The pollers take turns: all that are due poll in order, then the failures among them and the members
that have been added are attended to, and time goes on to the next turn when none is due.
-/

namespace SnippetTrail.Corpus

inductive Turn where
  | resting
  | ended
  | failed (error : ServiceError)
  deriving DecidableEq

def poll (host : Host σ) (update : Updater ρ σ) (group : Scope) (place : Nat)
    (state : CorpusState ρ σ) : Turn × CorpusState ρ σ :=
  if host.isCalledOff group state.machine then (.ended, state)
  else match update group place state with
    | (.ok (), state) =>
      (if host.isCalledOff group state.machine then .ended else .resting, state)
    | (.error error, state) => (if error.isCancelled then .ended else .failed error, state)

def pollAll (host : Host σ) (update : Updater ρ σ) (group : Scope) :
    List Nat → CorpusState ρ σ → (List Nat × List ServiceError) × CorpusState ρ σ
  | [], state => (([], []), state)
  | place :: rest, state =>
    let (turn, state) := poll host update group place state
    let ((resting, failures), state) := pollAll host update group rest state
    match turn with
    | .resting => ((place :: resting, failures), state)
    | .ended => ((resting, failures), state)
    | .failed error => ((resting, error :: failures), state)

def takeJoining (state : CorpusState ρ σ) : List Nat × CorpusState ρ σ :=
  match state.corpus.joining with
  | none => ([], state)
  | some places => (places, { state with corpus := { state.corpus with joining := some [] } })

structure Session where
  due : List Nat
  resting : List Nat
  firstError : Option ServiceError

def turn (host : Host σ) (update : Updater ρ σ) (group : Scope) (session : Session)
    (state : CorpusState ρ σ) : Session × CorpusState ρ σ :=
  let ((resting, failures), state) := pollAll host update group session.due state
  let (added, state) := takeJoining state
  let joined := if host.isCalledOff group state.machine then [] else added
  let machine := if failures.isEmpty then state.machine else host.callOff group state.machine
  (⟨joined, session.resting ++ resting, session.firstError.or failures.head?⟩,
    { state with machine })

/-- Turns until every poller has ended. Time goes on to the next poll when none is due, and then
`tick` runs first. -/
def turns (host : Host σ) (update : Updater ρ σ) (tick : CorpusState ρ σ → CorpusState ρ σ)
    (group : Scope) : Nat → Session → CorpusState ρ σ → Option ServiceError × CorpusState ρ σ
  | 0, session, state => (session.firstError, state)
  | fuel + 1, session, state =>
    match session.due with
    | _ :: _ =>
      let (session, state) := turn host update group session state
      turns host update tick group fuel session state
    | [] =>
      if session.resting.isEmpty || host.isCalledOff group state.machine then
        (session.firstError, state)
      else
        let (session, state) := turn host update group ⟨session.resting, [], session.firstError⟩
          (tick state)
        turns host update tick group fuel session state

/-- Polls every member until the first failure or until the scope is called off. -/
def sync (host : Host σ) (update : Updater ρ σ) (tick : CorpusState ρ σ → CorpusState ρ σ)
    (fuel : Nat) (scope : Scope) : CorpusAct ρ σ Unit := fun state =>
  if state.corpus.isSyncing then (.error (.corpus .alreadySyncing), state)
  else
    let (group, machine) := host.enter scope state.machine
    let places := List.range state.corpus.members.length
    let (failure, state) := turns host update tick group fuel ⟨places, [], none⟩
      ⟨{ state.corpus with joining := some [] }, machine⟩
    (match failure with
      | none => .ok ()
      | some error => .error error,
      { state with corpus := { state.corpus with joining := none } })

end SnippetTrail.Corpus
