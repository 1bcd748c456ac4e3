import SnippetTrail.Config.Basic
import SnippetTrail.Corpus.Watched

/-!
# The corpus

The repositories that are watched, in the order in which they joined. The corpus is independent of
what a member is; it only needs to update the member at a place.
-/

namespace SnippetTrail

structure CorpusOptions where
  cloneRoot : FilePath
  /-- Seconds between two polls of a member. -/
  pollInterval : Nat
  tools : Tools
  remote : String
  /-- The branch of repositories that name none; the empty text leaves it to them. -/
  branch : String
  deriving DecidableEq

def CorpusOptions.ofConfig (config : Config) : CorpusOptions where
  cloneRoot := config.corpus.cloneRoot
  pollInterval := config.corpus.pollInterval
  tools := ⟨config.git.binary, config.git.shell⟩
  remote := config.git.remote
  branch := config.corpus.branch.getD ""

structure Corpus (ρ : Type) where
  options : CorpusOptions
  members : List ρ
  isPrepared : Bool
  /-- While a sync runs, the places of the members that have not been taken into it yet. -/
  joining : Option (List Nat)

structure CorpusState (ρ σ : Type) where
  corpus : Corpus ρ
  machine : σ

abbrev CorpusAct (ρ σ α : Type) := Act (CorpusState ρ σ) ServiceError α

abbrev Updater (ρ σ : Type) := Scope → Nat → CorpusAct ρ σ Unit

namespace Corpus

def new (options : CorpusOptions) : Corpus ρ := ⟨options, [], false, none⟩

def isSyncing (corpus : Corpus ρ) : Bool := corpus.joining.isSome

/-- Adds a member; a sync that runs is told its place. -/
def add (corpus : Corpus ρ) (member : ρ) : Corpus ρ :=
  { corpus with
    members := corpus.members ++ [member]
    joining := corpus.joining.map (· ++ [corpus.members.length]) }

def onMachine (convert : ε → ServiceError) (act : Act σ ε α) : CorpusAct ρ σ α :=
  Act.onPart CorpusState.machine (fun machine state => { state with machine })
    (Act.mapError convert act)

def isCalledOff (host : Host σ) (scope : Scope) : CorpusAct ρ σ Bool := do
  pure (host.isCalledOff scope (← get).machine)

-- ---------------------------------------------------------------------------
-- Tracking

def cloneDir (options : CorpusOptions) (tracked : TrackedRepository) : FilePath :=
  FilePath.join options.cloneRoot tracked.digest

def isThere (host : Host σ) (path : FilePath) (machine : σ) : Except IoFault Bool :=
  match host.kind path machine with
  | .ok _ => .ok true
  | .error .notFound => .ok false
  | .error fault => .error fault

/-- Clones a repository from an address, over whatever is in its folder, and watches it. -/
def trackAt (host : Host σ) (wrap : WatchedRepository → ρ) (scope : Scope)
    (tracked : TrackedRepository) (url : String) : CorpusAct ρ σ Unit := do
  let options := (← get).corpus.options
  let tracked :=
    if tracked.branch.isEmpty then { tracked with branch := options.branch } else tracked
  let dir := cloneDir options tracked
  if ← onMachine ServiceError.io (Act.ofQuery (isThere host dir)) then
    onMachine ServiceError.io (Act.ofStep (host.removeFolder dir))
  let repository ← onMachine ServiceError.git (Repository.clone host scope url dir options.tools)
  let watched := WatchedRepository.new repository tracked options.remote
  modify fun state => { state with corpus := state.corpus.add (wrap watched) }

def trackUrl (host : Host σ) (wrap : WatchedRepository → ρ) (scope : Scope) (url : String) :
    CorpusAct ρ σ Unit :=
  match TrackedRepository.ofUrl url with
  | .error error => throw (.corpus error)
  | .ok tracked => trackAt host wrap scope tracked url

def track (host : Host σ) (wrap : WatchedRepository → ρ) (scope : Scope)
    (tracked : TrackedRepository) : CorpusAct ρ σ Bool := do
  if tracked.tracksSnippets then
    trackAt host wrap scope tracked tracked.url
    pure true
  else pure false

-- ---------------------------------------------------------------------------
-- The first update

/-- Updates the members at the given places until the scope is called off; failures are passed
over. -/
def updateAll (host : Host σ) (update : Updater ρ σ) (scope : Scope) : List Nat → CorpusAct ρ σ Unit
  | [] => pure ()
  | place :: rest => do
    if ← isCalledOff host scope then pure ()
    else
      let _ ← (tryCatch (update scope place) fun _ => pure () : CorpusAct ρ σ Unit)
      updateAll host update scope rest

def prepare (host : Host σ) (update : Updater ρ σ) (scope : Scope) : CorpusAct ρ σ Unit := do
  if (← get).corpus.isPrepared then throw (.corpus .alreadyInitialized)
  else
    modify fun state => { state with corpus := { state.corpus with isPrepared := true } }
    updateAll host update scope (List.range (← get).corpus.members.length)

end Corpus

/-- Updates the watched repository at a place; `none` where the member is none. -/
def updateWatched (host : Host σ) (scope : Scope) (place : Nat) :
    CorpusAct WatchedRepository σ Unit := fun state =>
  match state.corpus.members[place]? with
  | none => (.ok (), state)
  | some watched =>
    let (outcome, after) := WatchedRepository.update host scope ⟨watched, state.machine⟩
    (outcome, { state with
      corpus := { state.corpus with members := state.corpus.members.set place after.watched }
      machine := after.machine })

end SnippetTrail
