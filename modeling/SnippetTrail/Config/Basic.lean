import SnippetTrail.Config.Environment
import SnippetTrail.Error
import SnippetTrail.Git.Remote
import SnippetTrail.Git.Repository
import SnippetTrail.Text.Blank
import SnippetTrail.Text.Integer
import SnippetTrail.Text.Search

/-!
# Settings

What the service can be told, the values that hold when it is told nothing, and the conditions that
settings meet before they are used.
-/

namespace SnippetTrail

structure GitSettings where
  binary : String
  shell : String
  remote : String
  deriving DecidableEq

structure CorpusSettings where
  /-- Seconds between two polls of a repository. -/
  pollInterval : Nat
  cloneRoot : FilePath
  listFile : Option FilePath
  /-- The branch of repositories that name none. -/
  branch : Option String
  deriving DecidableEq

structure LoggingSettings where
  verbose : Bool
  json : Bool
  deriving DecidableEq

structure Config where
  git : GitSettings
  corpus : CorpusSettings
  logging : LoggingSettings
  deriving DecidableEq

namespace Config

def standard (environment : Environment) : Config where
  git := ⟨Tools.standard.git, Tools.standard.shell, Remote.origin⟩
  corpus := ⟨30, environment.cloneRoot, none, none⟩
  logging := ⟨false, false⟩

-- ---------------------------------------------------------------------------
-- Validity

def emptyReason : String := "must not be empty"

def isBlankText (text : String) : Bool := text.toList.all Text.isBlank

def isShortBranch (branch : String) : Bool :=
  !branch.isEmpty && !"refs/".toList.isPrefixOf branch.toList

/-- The conditions in the order in which they are checked. -/
def complaints (config : Config) : List (Bool × ConfigError) := [
  (isBlankText config.git.binary, .invalidValue "git.binary" emptyReason),
  (isBlankText config.git.shell, .invalidValue "git.shell" emptyReason),
  (isBlankText config.git.remote, .invalidValue "git.remote_name" emptyReason),
  (config.corpus.pollInterval == 0,
    .invalidValue "corpus.poll_interval_secs" "must be greater than 0"),
  (config.corpus.cloneRoot.isEmpty, .invalidValue "corpus.clone_root" emptyReason),
  (config.corpus.branch.any fun branch => !isShortBranch branch,
    .invalidValue "corpus.default_branch"
      ("must be a short branch name, got '" ++ config.corpus.branch.getD "" ++ "'"))]

def validate (config : Config) : Except ConfigError Unit :=
  match config.complaints.find? (·.1) with
  | none => .ok ()
  | some (_, error) => .error error

-- ---------------------------------------------------------------------------
-- Variables

/-- Settings from variables take the place of others; a poll interval that is no number is passed
over. -/
def override (environment : Environment) (config : Config) : Config where
  git := {
    binary := (environment.text? "SAMPLR_GIT_BINARY").getD config.git.binary
    shell := (environment.text? "SAMPLR_SHELL").getD config.git.shell
    remote := (environment.text? "SAMPLR_REMOTE_NAME").getD config.git.remote }
  corpus := {
    pollInterval := ((environment.text? "SAMPLR_POLL_INTERVAL_SECS").bind fun text =>
      Text.readNat64? text.toList).getD config.corpus.pollInterval
    cloneRoot := (environment.path? "SAMPLR_CLONE_ROOT").getD config.corpus.cloneRoot
    listFile := (environment.path? "SAMPLR_REPOS_FILE").or config.corpus.listFile
    branch := (environment.text? "SAMPLR_DEFAULT_BRANCH").or config.corpus.branch }
  logging := config.logging

end Config

end SnippetTrail
