import SnippetTrail.Git.Repository
import SnippetTrail.Git.Series
import SnippetTrail.Snippet.Catalog
import SnippetTrail.Table
import SnippetTrail.Tracked.Url

/-!
# Watched repositories

A watched repository is a clone together with what was last computed from it: for each branch, its
snippets and its commits. An update that fails leaves both tables as they were.
-/

namespace SnippetTrail

structure WatchedRepository where
  repository : Repository
  tracked : TrackedRepository
  remote : String
  /-- The commit that the work tree is known to hold. -/
  head : Option Hash
  /-- Under the full names of branches. -/
  snippets : Table (List Snippet)
  commits : Table (List CommitRecord)

structure Watching (σ : Type) where
  watched : WatchedRepository
  machine : σ

abbrev WatchingAct (σ α : Type) := Act (Watching σ) ServiceError α

def onClone (act : Repository → RepositoryAct σ α) : WatchingAct σ α := fun state =>
  Act.onPart (fun state : Watching σ => WorkTree.mk state.watched.head state.machine)
    (fun tree state => ⟨{ state.watched with head := tree.head }, tree.machine⟩)
    (Act.mapError ServiceError.git (act state.watched.repository)) state

namespace WatchedRepository

def new (repository : Repository) (tracked : TrackedRepository) (remote : String) :
    WatchedRepository :=
  ⟨repository, tracked, remote, none, Table.empty, Table.empty⟩

def ofUrl (repository : Repository) (remote : String) : Except CorpusError WatchedRepository :=
  (TrackedRepository.ofUrl repository.url).map fun tracked => new repository tracked remote

def id (watched : WatchedRepository) : String := watched.repository.url

def allSnippets (watched : WatchedRepository) : List Snippet := watched.snippets.values.flatten

def allCommits (watched : WatchedRepository) : List CommitRecord := watched.commits.values.flatten

def snippetsOf (watched : WatchedRepository) (branch : String) : List Snippet :=
  (watched.snippets.find? branch).getD []

def commitsOf (watched : WatchedRepository) (branch : String) : List CommitRecord :=
  (watched.commits.find? branch).getD []

-- ---------------------------------------------------------------------------
-- Updates

/-- The branch that is followed: the one asked for, else the one that the clone has. -/
def trackedBranch (host : Host σ) (scope : Scope) : WatchingAct σ RefName := do
  let branch := (← get).watched.tracked.branch
  if branch.isEmpty then
    pure ((← onClone (Repository.defaultBranch host scope)).getD RefName.master)
  else pure (RefName.branch branch)

/-- The commits that lead to a reference; its snippets are stored at once. -/
def analyse (host : Host σ) (scope : Scope) (reference : Reference) :
    WatchingAct σ (String × List CommitRecord) := do
  let commits ← onClone fun repository => repository.log host scope reference.hash
  let tracked := (← get).watched.tracked
  match calculateSnippets tracked.owner tracked.name commits with
  | .error error => throw (.extraction error)
  | .ok snippets =>
    modify fun state => { state with
      watched := { state.watched with
        snippets := state.watched.snippets.insert reference.name.text snippets } }
    pure (reference.name.text, commits.map (CommitRecord.ofCommit tracked.owner tracked.name))

def analyseAll (host : Host σ) (group : Scope) :
    List Reference → WatchingAct σ (List (String × List CommitRecord))
  | [] => pure []
  | reference :: rest => fun state =>
    match analyse host group reference state with
    | (.ok done, state) =>
      match analyseAll host group rest state with
      | (.ok others, state) => (.ok (done :: others), state)
      | (.error error, state) => (.error error, state)
    | (.error error, state) =>
      let state := { state with machine := host.callOff group state.machine }
      (.error error, (analyseAll host group rest state).2)

def storeCommits (entries : List (String × List CommitRecord)) (watched : WatchedRepository) :
    WatchedRepository :=
  { watched with
    commits := entries.foldl (fun table entry => table.insert entry.1 entry.2) watched.commits }

/-- Fetches, and unless that brought nothing to a repository with results, pulls the followed branch
and computes its snippets and commits anew. -/
def update (host : Host σ) (scope : Scope) : WatchingAct σ Unit := do
  let transfer ← onClone (Repository.fetch host scope)
  if transfer == .upToDate && !(← get).watched.snippets.entries.isEmpty then pure ()
  else
    let branch ← trackedBranch host scope
    let remote := (← get).watched.remote
    let _ ← onClone fun repository => repository.pull host scope remote branch
    let references ← onClone (Repository.references host scope)
    let group ← (fun state : Watching σ =>
      let (group, machine) := host.enter scope state.machine
      (.ok group, { state with machine }) : WatchingAct σ Scope)
    let done ← analyseAll host group (references.filter (·.name == branch))
    modify fun state => { state with watched := storeCommits done state.watched }

end WatchedRepository

def visitWhere [Monad m] (keep : α → Bool) (items : List α) (visitor : α → ExceptT ε m Flow) :
    ExceptT ε m Unit :=
  visitEach visitor (items.filter keep)

end SnippetTrail
