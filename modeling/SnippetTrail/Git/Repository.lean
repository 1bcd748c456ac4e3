import SnippetTrail.Git.Commit
import SnippetTrail.Git.History
import SnippetTrail.Git.Reference
import SnippetTrail.Git.Remote
import SnippetTrail.Host.Basic
import SnippetTrail.Path

/-!
# Clones

A clone is worked on only through the version control tool and by reading its work tree. The commit
that is checked out is remembered, so that it is not checked out again. A pull makes it unknown.
-/

namespace SnippetTrail

structure Tools where
  git : String
  shell : String
  deriving DecidableEq

def Tools.standard : Tools := ⟨"git", "bash"⟩

structure Repository where
  url : String
  dir : FilePath
  tools : Tools
  deriving DecidableEq

structure WorkTree (σ : Type) where
  head : Option Hash
  machine : σ

inductive Transfer where
  | updated
  | upToDate
  deriving DecidableEq

abbrev RepositoryAct (σ α : Type) := Act (WorkTree σ) GitError α

def runChecked (host : Host σ) (scope : Scope) (command : Command) : Act σ GitError ProcessOutput := do
  let output ← Act.ofStep (host.run scope command)
  if output.isSuccess then pure output
  else throw (.commandFailed command.display output.code
    (String.ofList (Text.trimEnd output.stderr.toList)))

def onMachine (act : Act σ GitError α) : RepositoryAct σ α :=
  Act.onPart WorkTree.machine (fun machine tree => { tree with machine }) act

namespace Repository

-- ---------------------------------------------------------------------------
-- Cloning and opening

def parentDir (dir : FilePath) : FilePath :=
  match FilePath.parent? dir with
  | some parent => if parent.isEmpty then "." else parent
  | none => "."

def clone (host : Host σ) (scope : Scope) (url : String) (dir : FilePath) (tools : Tools) :
    Act σ GitError Repository := do
  let parent := parentDir dir
  Act.mapError (GitError.io parent.display) (Act.ofStep (host.createFolders parent))
  let target := (FilePath.fileName? dir).getD dir
  let _ ← runChecked host scope
    ⟨tools.git, ["clone", "--single-branch", url, target.display], parent⟩
  pure ⟨url, dir, tools⟩

def openAt (host : Host σ) (dir : FilePath) (machine : σ) : Except GitError Repository :=
  match host.kind dir machine with
  | .error fault => .error (.io dir.display fault)
  | .ok _ =>
    let inner := FilePath.join dir ".git"
    match host.kind inner machine with
    | .ok _ => .ok ⟨"", dir, Tools.standard⟩
    | .error .notFound => .error (.repositoryNotExists dir.display)
    | .error fault => .error (.io inner.display fault)

-- ---------------------------------------------------------------------------
-- Commands

def git (host : Host σ) (scope : Scope) (repository : Repository) (arguments : List String) :
    RepositoryAct σ ProcessOutput :=
  onMachine (runChecked host scope ⟨repository.tools.git, arguments, repository.dir⟩)

def remotes (host : Host σ) (scope : Scope) (repository : Repository) :
    RepositoryAct σ (List Remote) := do
  let output ← repository.git host scope ["remote", "-v"]
  pure (Remote.ofListing output.stdout)

def references (host : Host σ) (scope : Scope) (repository : Repository) :
    RepositoryAct σ (List Reference) := do
  let output ← repository.git host scope ["show-ref"]
  pure (Reference.ofListing output.stdout)

/-- The branch `master`, or else `main`, if there is one of them. -/
def defaultBranch (host : Host σ) (scope : Scope) (repository : Repository) :
    RepositoryAct σ (Option RefName) := do
  let references ← repository.references host scope
  pure ([RefName.master, RefName.main].find? fun name => references.any (·.name == name))

/-- Fetches; a fetch that prints nothing brought nothing. -/
def fetch (host : Host σ) (scope : Scope) (repository : Repository) : RepositoryAct σ Transfer := do
  let output ← repository.git host scope ["fetch"]
  pure (if output.combined.isEmpty then .upToDate else .updated)

def nothingPulled : String := "Already up to date.\n"

def pull (host : Host σ) (scope : Scope) (repository : Repository) (remote : String)
    (branch : RefName) : RepositoryAct σ Transfer := do
  let _ ← repository.git host scope ["checkout", branch.short, "--force"]
  modify fun tree => { tree with head := none }
  let output ← repository.git host scope ["pull", remote, branch.text]
  pure (if Text.endsWith output.stdout.toList nothingPulled.toList then .upToDate else .updated)

def checkout (host : Host σ) (scope : Scope) (repository : Repository) (hash : Hash) :
    RepositoryAct σ Unit := do
  if (← get).head == some hash then pure ()
  else
    let _ ← repository.git host scope ["checkout", hash.hex, "--force"]
    modify fun tree => { tree with head := some hash }

-- ---------------------------------------------------------------------------
-- Files

/-- The file at a path of the work tree; links and folders are left out. -/
def readFile (host : Host σ) (repository : Repository) (path : String) (machine : σ) :
    Except GitError (Option File) :=
  let full := FilePath.join repository.dir path
  match host.linkKind full machine with
  | .error fault => .error (.unreadable path fault)
  | .ok (.file size) =>
    match host.read full machine with
    | .error fault => .error (.unreadable path fault)
    | .ok bytes => .ok (some ⟨path, size, String.ofList (Text.Utf8.decodeLossy bytes)⟩)
  | .ok _ => .ok none

def readFileIfThere (host : Host σ) (repository : Repository) (path : String) (machine : σ) :
    Except GitError (Option File) :=
  match repository.readFile host path machine with
  | .error (.unreadable _ .notFound) => .ok none
  | outcome => outcome

/-- The files that a status line is about; a line that is no status contributes none. -/
def filesOfStatus (host : Host σ) (repository : Repository) (line : String) (machine : σ) :
    Except GitError (List File) :=
  match FileStatus.parse? line with
  | some (.deleted path) => .ok [File.deleted path]
  | some (.added path) | some (.modified path) => do
    pure (← repository.readFile host path machine).toList
  | some (.copied source target) => do
    let first ← repository.readFileIfThere host source machine
    let second ← repository.readFileIfThere host target machine
    pure (first.toList ++ second.toList)
  | some (.renamed source target) => do
    pure (File.deleted source :: (← repository.readFile host target machine).toList)
  | none => .ok []

def filesOfStatuses (host : Host σ) (repository : Repository) (lines : List String) (machine : σ) :
    Except GitError (List File) := do
  pure (← lines.mapM fun line => repository.filesOfStatus host line machine).flatten

-- ---------------------------------------------------------------------------
-- History

/-- The commit of a block; a block without a readable time has none. -/
def commitOfBlock (host : Host σ) (scope : Scope) (repository : Repository) (block : LogBlock) :
    RepositoryAct σ (Option Commit) := do
  match readTime? block.authorDate, readTime? block.committerDate with
  | some authored, some committed =>
    match Hash.ofHex? block.hash with
    | none => throw (.invalidHash block.hash)
    | some hash =>
      if !block.statusLines.isEmpty then repository.checkout host scope hash
      let files ← Act.ofQuery fun (tree : WorkTree σ) =>
        repository.filesOfStatuses host block.statusLines tree.machine
      pure (some ⟨hash, ⟨block.author, block.authorEmail, authored⟩,
        ⟨block.committer, block.committerEmail, committed⟩, block.message, files⟩)
  | _, _ => pure none

def commitsOfBlocks (host : Host σ) (scope : Scope) (repository : Repository) :
    List LogBlock → RepositoryAct σ (List Commit)
  | [] => pure []
  | block :: rest => do
    let commit ← repository.commitOfBlock host scope block
    let commits ← commitsOfBlocks host scope repository rest
    pure (commit.toList ++ commits)

/-- The commits that lead to a commit, oldest first, each with the files it touched. -/
def log (host : Host σ) (scope : Scope) (repository : Repository) (start : Hash) :
    RepositoryAct σ (List Commit) := do
  repository.checkout host scope start
  let script := logScript repository.tools.git start
  let output ← onMachine
    (runChecked host scope ⟨repository.tools.shell, ["-c", script], repository.dir⟩)
  repository.commitsOfBlocks host scope (LogBlock.ofText output.stdout)

end Repository

end SnippetTrail
