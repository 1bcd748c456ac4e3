import SnippetTrail.Host.Basic
import SnippetTrail.Json.Value
import SnippetTrail.Text.Search
import SnippetTrail.Text.Utf8
import SnippetTrail.Tracked.Repository

/-!
# Lists of tracked repositories

A list is kept in a file that may change at any time. Each entry names its repository as
`owner/name`; other entries are left out. A list that cannot be read leaves the last one in force.
-/

namespace SnippetTrail

namespace TrackedRepository

def fields : List (Json.Field TrackedRepository) := [
  ⟨"owner", true, fun tracked value => value.text?.map fun text => { tracked with owner := text }⟩,
  ⟨"name", true, fun tracked value => value.text?.map fun text => { tracked with name := text }⟩,
  ⟨"isTrackingIssues", false, fun tracked value =>
    value.bool?.map fun flag => { tracked with tracksIssues := flag }⟩,
  ⟨"isTrackingSnippets", false, fun tracked value =>
    value.bool?.map fun flag => { tracked with tracksSnippets := flag }⟩,
  ⟨"defaultBranch", false, fun tracked value =>
    value.text?.map fun text => { tracked with branch := text }⟩]

def ofJson? (text : String) : Option TrackedRepository := do
  Json.readRecord fields (new "" "") (← Json.Value.ofText? text)

end TrackedRepository

structure ListEntry where
  repository : String
  branch : String
  tracksIssues : Bool
  tracksSnippets : Bool
  deriving DecidableEq

namespace ListEntry

def fields : List (Json.Field ListEntry) := [
  ⟨"repo", true, fun entry value => value.text?.map fun text => { entry with repository := text }⟩,
  ⟨"default_branch", false, fun entry value =>
    value.text?.map fun text => { entry with branch := text }⟩,
  ⟨"is_tracking_issues", false, fun entry value =>
    value.bool?.map fun flag => { entry with tracksIssues := flag }⟩,
  ⟨"is_tracking_snippets", false, fun entry value =>
    value.bool?.map fun flag => { entry with tracksSnippets := flag }⟩]

def ofValue? (value : Json.Value) : Option ListEntry :=
  Json.readRecord fields ⟨"", "", false, false⟩ value

/-- The repository of an entry, if its text has one slash with something on both sides. -/
def tracked? (entry : ListEntry) : Option TrackedRepository := do
  let (owner, name) ← Text.splitOnce? '/' entry.repository.toList
  if owner.isEmpty || name.isEmpty || name.contains '/' then none
  else pure ⟨String.ofList owner, String.ofList name, entry.tracksIssues, entry.tracksSnippets,
    entry.branch⟩

def fileFields : List (Json.Field (List ListEntry)) := [
  ⟨"repos", false, fun _ value => match value with
    | .array items => items.mapM ofValue?
    | _ => none⟩]

def ofFile? (text : String) : Option (List ListEntry) := do
  Json.readRecord fileFields [] (← Json.Value.ofText? text)

end ListEntry

def readRepositories? (text : String) : Option (List TrackedRepository) :=
  (ListEntry.ofFile? text).map (·.filterMap ListEntry.tracked?)

structure RepositoryList where
  path : FilePath
  repositories : List TrackedRepository
  deriving DecidableEq

namespace RepositoryList

def new (path : FilePath) : RepositoryList := ⟨path, []⟩

def parse (path : FilePath) : Except IoFault (List UInt8) → Except CorpusError (List TrackedRepository)
  | .error fault => .error (.repoListFailed path.display fault.message)
  | .ok bytes =>
    match Text.Utf8.decode? bytes with
    | none => .error (.repoListFailed path.display IoFault.invalidText.message)
    | some text =>
      match readRepositories? (String.ofList text) with
      | none => .error (.repoListFailed path.display "not a list of repositories")
      | some repositories => .ok repositories

/-- Takes over what the file holds; tells whether that is anything new. -/
def accept (list : RepositoryList) (contents : Except IoFault (List UInt8)) :
    Except CorpusError Bool × RepositoryList :=
  match parse list.path contents with
  | .error error => (.error error, list)
  | .ok repositories =>
    (.ok (repositories != list.repositories), { list with repositories })

def update (host : Host σ) (list : RepositoryList) (machine : σ) :
    Except CorpusError Bool × RepositoryList :=
  list.accept (host.read list.path machine)

end RepositoryList

end SnippetTrail
