import Mathlib.Data.List.Basic
import Mathlib.Data.List.Forall2
import SnippetTrail.Git.Repository
import SnippetTrail.Proofs.Act
import SnippetTrail.Proofs.Extraction

/-!
# Files are read from the commit's own tree

The commit that is checked out is remembered, and a commit that is remembered is not checked out
again. What is remembered is true of the work tree after every operation, also after one that fails
(`WorkTree.Faithful`), so a history has the files as they are in the trees of its commits
(`log_after_calls`).
-/

namespace SnippetTrail

-- ---------------------------------------------------------------------------
-- Trees
-- ---------------------------------------------------------------------------

structure Held where
  kind : Except IoFault FileKind
  bytes : Except IoFault (List UInt8)

abbrev Contents := String → Held

def Contents.SameOn (tracked : String → Prop) (a b : Contents) : Prop :=
  ∀ path, tracked path → a path = b path

def Held.file? (held : Held) (path : String) : Option File :=
  match held.kind, held.bytes with
  | .ok (.file size), .ok bytes => some ⟨path, size, String.ofList (Text.Utf8.decodeLossy bytes)⟩
  | _, _ => none

def FileStatus.files (tree : Contents) : FileStatus → List File
  | .deleted path => [File.deleted path]
  | .added path | .modified path => ((tree path).file? path).toList
  | .copied source target =>
    ((tree source).file? source).toList ++ ((tree target).file? target).toList
  | .renamed source target => File.deleted source :: ((tree target).file? target).toList

def LogBlock.isDated (block : LogBlock) : Bool :=
  (readTime? block.authorDate).isSome && (readTime? block.committerDate).isSome

/-- The commit has the hash of the block, and the files of its status lines as the tree of that hash
holds them. Only the paths that can be in a tree are spoken of. -/
structure Commit.IsSnapshot (tracked : String → Prop) (tree : Hash → Contents) (block : LogBlock)
    (commit : Commit) : Prop where
  hash : Hash.ofHex? block.hash = some commit.hash
  files : ∃ seen : Contents, seen.SameOn tracked (tree commit.hash) ∧
    commit.files = (block.statusLines.filterMap FileStatus.parse?).flatMap (FileStatus.files seen)

-- ---------------------------------------------------------------------------
-- The version control tool
-- ---------------------------------------------------------------------------

namespace Repository

variable {σ : Type}

def contents (host : Host σ) (repository : Repository) (machine : σ) : Contents := fun path =>
  ⟨host.linkKind (FilePath.join repository.dir path) machine,
    host.read (FilePath.join repository.dir path) machine⟩

def command (repository : Repository) (arguments : List String) : Command :=
  ⟨repository.tools.git, arguments, repository.dir⟩

def pipeline (repository : Repository) (start : Hash) : Command :=
  ⟨repository.tools.shell, ["-c", logScript repository.tools.git start], repository.dir⟩

/-- What is assumed of the version control tool: what it does to the work tree, at the paths that can
be in a tree. Of a branch that is checked out or pulled, nothing is assumed. -/
structure TreeLaws (host : Host σ) (repository : Repository) (tracked : String → Prop)
    (tree : Hash → Contents) : Prop where
  checkout : ∀ scope hash machine output after,
    host.run scope (repository.command ["checkout", hash.hex, "--force"]) machine =
      (.ok output, after) → output.isSuccess = true →
    (repository.contents host after).SameOn tracked (tree hash)
  failed : ∀ scope command machine outcome after,
    host.run scope command machine = (outcome, after) →
    (∀ output, outcome = .ok output → output.isSuccess = false) →
    (repository.contents host after).SameOn tracked (repository.contents host machine)
  quiet : ∀ scope command machine outcome after,
    host.run scope command machine = (outcome, after) →
    (command ∈ [repository.command ["fetch"], repository.command ["show-ref"]] ∨
      ∃ start, command = repository.pipeline start) →
    (repository.contents host after).SameOn tracked (repository.contents host machine)

end Repository

-- ---------------------------------------------------------------------------
-- Commands
-- ---------------------------------------------------------------------------

section
variable {σ : Type} {host : Host σ} {repository : Repository} {scope : Scope}

theorem runChecked_ends (command : Command) (machine : σ) :
    (runChecked host scope command).Ends machine
      (fun output after => host.run scope command machine = (.ok output, after) ∧
        output.isSuccess = true)
      (fun _ after => ∃ outcome, host.run scope command machine = (outcome, after) ∧
        ∀ output, outcome = .ok output → output.isSuccess = false) := by
  unfold runChecked Act.Ends
  rw [Act.run_bind]
  rcases hrun : Act.ofStep (host.run scope command) machine with ⟨error | output, after⟩
  · exact ⟨.error error, hrun, nofun⟩
  · by_cases hs : output.isSuccess = true
    · simp only [hs]
      exact ⟨hrun, hs⟩
    · simp only [hs]
      refine ⟨.ok output, hrun, fun other ho => ?_⟩
      cases ho
      simpa using hs

theorem onMachine_ends {α : Type} {act : Act σ GitError α} {tree : WorkTree σ}
    {Done : α → σ → Prop} {Failed : GitError → σ → Prop} (h : act.Ends tree.machine Done Failed) :
    (onMachine act).Ends tree
      (fun value after => after.head = tree.head ∧ Done value after.machine)
      (fun error after => after.head = tree.head ∧ Failed error after.machine) := by
  unfold Act.Ends onMachine Act.onPart at *
  rcases hrun : act tree.machine with ⟨error | value, after⟩ <;> rw [hrun] at h
  · exact ⟨rfl, h⟩
  · exact ⟨rfl, h⟩

end

-- ---------------------------------------------------------------------------
-- What is remembered
-- ---------------------------------------------------------------------------

/-- The work tree holds the tree of the commit that it is known to hold. -/
def WorkTree.Faithful {σ : Type} (host : Host σ) (repository : Repository)
    (tracked : String → Prop) (tree : Hash → Contents) (work : WorkTree σ) : Prop :=
  ∀ hash, work.head = some hash →
    (repository.contents host work.machine).SameOn tracked (tree hash)

section
variable {σ : Type} {host : Host σ} {repository : Repository} {tracked : String → Prop}
  {tree : Hash → Contents} {work after : WorkTree σ} {scope : Scope}

theorem WorkTree.Faithful.of_none (h : work.head = none) :
    work.Faithful host repository tracked tree := by
  intro hash hk
  rw [h] at hk
  cases hk

theorem WorkTree.Faithful.same (hf : work.Faithful host repository tracked tree)
    (hh : after.head = work.head)
    (hs : (repository.contents host after.machine).SameOn tracked
      (repository.contents host work.machine)) : after.Faithful host repository tracked tree := by
  intro hash hk path hp
  rw [hs path hp]
  exact hf hash (hh ▸ hk) path hp

end

namespace Repository

variable {σ : Type} {host : Host σ} {repository : Repository} {tracked : String → Prop}
  {tree : Hash → Contents} {work : WorkTree σ} {scope : Scope}

namespace TreeLaws

theorem quiet_ends (laws : TreeLaws host repository tracked tree)
    (hf : work.Faithful host repository tracked tree) {command : Command}
    (hq : command ∈ [repository.command ["fetch"], repository.command ["show-ref"]] ∨
      ∃ start, command = repository.pipeline start) :
    (onMachine (runChecked host scope command)).Ends work
      (fun output after => after.Faithful host repository tracked tree ∧
        (host.run scope command work.machine).1 = .ok output)
      (fun _ after => after.Faithful host repository tracked tree) := by
  refine (onMachine_ends (runChecked_ends command work.machine)).mono ?_ ?_
  · rintro output after ⟨hh, hrun, -⟩
    exact ⟨hf.same hh (laws.quiet _ _ _ _ _ hrun hq), by rw [hrun]⟩
  · rintro error after ⟨hh, outcome, hrun, -⟩
    exact hf.same hh (laws.quiet _ _ _ _ _ hrun hq)

theorem git_ends (laws : TreeLaws host repository tracked tree)
    (hf : work.Faithful host repository tracked tree) (arguments : List String) :
    (repository.git host scope arguments).Ends work
      (fun output after => after.head = work.head ∧ output.isSuccess = true ∧
        host.run scope (repository.command arguments) work.machine = (.ok output, after.machine))
      (fun _ after => after.Faithful host repository tracked tree) := by
  refine (onMachine_ends (runChecked_ends _ work.machine)).mono ?_ ?_
  · rintro output after ⟨hh, hrun, hs⟩
    exact ⟨hh, hs, hrun⟩
  · rintro error after ⟨hh, outcome, hrun, hs⟩
    exact hf.same hh (laws.failed _ _ _ _ _ hrun hs)

theorem checkout_ends (laws : TreeLaws host repository tracked tree)
    (hf : work.Faithful host repository tracked tree) (hash : Hash) :
    (repository.checkout host scope hash).Ends work
      (fun _ after => after.Faithful host repository tracked tree ∧ after.head = some hash)
      (fun _ after => after.Faithful host repository tracked tree) := by
  unfold Repository.checkout
  refine Act.ends_get_bind ?_
  split
  · rename_i hk
    exact Act.ends_pure ⟨hf, by simpa using hk⟩
  · refine (laws.git_ends hf _).bind ?_
    rintro output after ⟨-, hs, hrun⟩
    refine Act.ends_modify ⟨?_, rfl⟩
    intro other ho
    cases ho
    exact laws.checkout _ _ _ _ _ hrun hs

theorem fetch_ends (laws : TreeLaws host repository tracked tree)
    (hf : work.Faithful host repository tracked tree) :
    (Repository.fetch host scope repository).Ends work
      (fun _ after => after.Faithful host repository tracked tree)
      (fun _ after => after.Faithful host repository tracked tree) :=
  (laws.quiet_ends hf (.inl (by simp [command]))).bind fun _ _ h => Act.ends_pure h.1

theorem references_ends (laws : TreeLaws host repository tracked tree)
    (hf : work.Faithful host repository tracked tree) :
    (Repository.references host scope repository).Ends work
      (fun _ after => after.Faithful host repository tracked tree)
      (fun _ after => after.Faithful host repository tracked tree) :=
  (laws.quiet_ends hf (.inl (by simp [command]))).bind fun _ _ h => Act.ends_pure h.1

theorem defaultBranch_ends (laws : TreeLaws host repository tracked tree)
    (hf : work.Faithful host repository tracked tree) :
    (Repository.defaultBranch host scope repository).Ends work
      (fun _ after => after.Faithful host repository tracked tree)
      (fun _ after => after.Faithful host repository tracked tree) :=
  (laws.references_ends hf).bind fun _ _ h => Act.ends_pure h

/-- Nothing is known of the work tree after a branch has been checked out, and nothing is
remembered. -/
theorem pull_ends (laws : TreeLaws host repository tracked tree)
    (hf : work.Faithful host repository tracked tree) (remote : String) (branch : RefName) :
    (repository.pull host scope remote branch).Ends work
      (fun _ after => after.Faithful host repository tracked tree)
      (fun _ after => after.Faithful host repository tracked tree) := by
  unfold Repository.pull
  refine (laws.git_ends hf _).bind fun output after _ => ?_
  refine Act.ends_modify_bind ?_
  refine (laws.git_ends (.of_none rfl) _).bind ?_
  rintro output last ⟨hh, -, -⟩
  exact Act.ends_pure (.of_none hh)

end TreeLaws

-- ---------------------------------------------------------------------------
-- Reading files
-- ---------------------------------------------------------------------------

section
variable {machine : σ} {path : String}

theorem readFile_eq {found : Option File} (h : repository.readFile host path machine = .ok found) :
    found = (repository.contents host machine path).file? path := by
  unfold Repository.readFile at h
  unfold Held.file? contents
  dsimp only at h ⊢
  split at h
  · cases h
  · rename_i size hk
    split at h
    · cases h
    · rename_i bytes hb
      cases h
      simp [hk, hb]
  · rename_i kind hfile hk
    cases h
    cases kind with
    | file size => exact absurd rfl (hfile size)
    | folder | link => simp [hk]

theorem readFileIfThere_eq {found : Option File}
    (h : repository.readFileIfThere host path machine = .ok found) :
    found = (repository.contents host machine path).file? path := by
  unfold readFileIfThere at h
  split at h
  · rename_i fault hr
    cases h
    unfold Repository.readFile at hr
    unfold Held.file? contents
    dsimp only at hr ⊢
    split at hr
    · rename_i hk
      simp [hk]
    · split at hr
      · rename_i hb
        simp [hb]
      · cases hr
    · cases hr
  · exact readFile_eq h

theorem filesOfStatus_eq {line : String} {files : List File}
    (h : repository.filesOfStatus host line machine = .ok files) :
    files = (FileStatus.parse? line).toList.flatMap
      (FileStatus.files (repository.contents host machine)) := by
  unfold filesOfStatus at h
  cases hp : FileStatus.parse? line with
  | none => simp_all
  | some status =>
    simp only [hp] at h
    simp only [Option.toList_some, List.flatMap_cons, List.flatMap_nil, List.append_nil]
    cases status with
    | deleted path =>
      cases h
      rfl
    | added path | modified path =>
      simp only [bind_eq_ok, pure_eq_ok] at h
      obtain ⟨found, hr, rfl⟩ := h
      rw [readFile_eq hr]
      rfl
    | copied source target =>
      simp only [bind_eq_ok, pure_eq_ok] at h
      obtain ⟨first, hs, second, ht, rfl⟩ := h
      rw [readFileIfThere_eq hs, readFileIfThere_eq ht]
      rfl
    | renamed source target =>
      simp only [bind_eq_ok, pure_eq_ok] at h
      obtain ⟨found, hr, rfl⟩ := h
      rw [readFile_eq hr]
      rfl

theorem filesOfStatuses_eq {lines : List String} {files : List File}
    (h : repository.filesOfStatuses host lines machine = .ok files) :
    files = (lines.filterMap FileStatus.parse?).flatMap
      (FileStatus.files (repository.contents host machine)) := by
  unfold filesOfStatuses at h
  simp only [bind_eq_ok, pure_eq_ok] at h
  obtain ⟨results, hm, rfl⟩ := h
  rw [mapM_ok (fun line _ files hr => filesOfStatus_eq hr) hm, List.filterMap_eq_flatMap_toList,
    List.flatMap_assoc, List.flatMap_def]

end

-- ---------------------------------------------------------------------------
-- Histories
-- ---------------------------------------------------------------------------

namespace TreeLaws

theorem filesOfBlock_ends {block : LogBlock} (hash : Hash)
    (hf : work.Faithful host repository tracked tree)
    (hhead : block.statusLines ≠ [] → work.head = some hash) :
    (Act.ofQuery fun work : WorkTree σ =>
        repository.filesOfStatuses host block.statusLines work.machine).Ends work
      (fun files after => after.Faithful host repository tracked tree ∧
        ∃ seen : Contents, seen.SameOn tracked (tree hash) ∧
          files = (block.statusLines.filterMap FileStatus.parse?).flatMap (FileStatus.files seen))
      (fun _ after => after.Faithful host repository tracked tree) := by
  refine (Act.ends_ofQuery _).mono ?_ fun _ after h => h ▸ hf
  rintro files after ⟨rfl, hread⟩
  have hfiles := filesOfStatuses_eq hread
  refine ⟨hf, ?_⟩
  by_cases hl : block.statusLines = []
  · exact ⟨tree hash, fun _ _ => rfl, by simp [hfiles, hl]⟩
  · exact ⟨_, hf hash (hhead hl), hfiles⟩

theorem commitOfBlock_ends (laws : TreeLaws host repository tracked tree)
    (hf : work.Faithful host repository tracked tree) (block : LogBlock) :
    (repository.commitOfBlock host scope block).Ends work
      (fun commit after => after.Faithful host repository tracked tree ∧
        List.Forall₂ (Commit.IsSnapshot tracked tree) ([block].filter LogBlock.isDated) commit.toList)
      (fun _ after => after.Faithful host repository tracked tree) := by
  unfold commitOfBlock
  split
  · rename_i authored committed hauthored hcommitted
    have hdated : [block].filter LogBlock.isDated = [block] := by
      simp [LogBlock.isDated, hauthored, hcommitted]
    rw [hdated]
    split
    · exact Act.ends_throw hf
    rename_i hash hhash
    dsimp only
    split
    · refine (laws.checkout_ends hf hash).bind ?_
      rintro _ after ⟨hafter, hhead⟩
      refine (filesOfBlock_ends hash hafter fun _ => hhead).bind ?_
      rintro files last ⟨hlast, hfiles⟩
      exact Act.ends_pure ⟨hlast, .cons ⟨hhash, hfiles⟩ .nil⟩
    · rename_i hl
      have hempty : block.statusLines = [] := by simpa using hl
      refine (filesOfBlock_ends hash hf fun hne => absurd hempty hne).bind ?_
      rintro files last ⟨hlast, hfiles⟩
      exact Act.ends_pure ⟨hlast, .cons ⟨hhash, hfiles⟩ .nil⟩
  · rename_i hundated
    have hdated : block.isDated = false := by
      cases ha : readTime? block.authorDate with
      | none => simp [LogBlock.isDated, ha]
      | some authored =>
        cases hc : readTime? block.committerDate with
        | none => simp [LogBlock.isDated, hc]
        | some committed => exact absurd hc (hundated authored committed ha)
    refine Act.ends_pure ⟨hf, ?_⟩
    simp [hdated]

theorem commitsOfBlocks_ends (laws : TreeLaws host repository tracked tree)
    (hf : work.Faithful host repository tracked tree) (blocks : List LogBlock) :
    (repository.commitsOfBlocks host scope blocks).Ends work
      (fun commits after => after.Faithful host repository tracked tree ∧
        List.Forall₂ (Commit.IsSnapshot tracked tree) (blocks.filter LogBlock.isDated) commits)
      (fun _ after => after.Faithful host repository tracked tree) := by
  induction blocks generalizing work with
  | nil => exact Act.ends_pure ⟨hf, .nil⟩
  | cons block rest ih =>
    refine (laws.commitOfBlock_ends hf block).bind ?_
    rintro commit middle ⟨hmiddle, hfirst⟩
    refine (ih hmiddle).bind ?_
    rintro commits after ⟨hafter, hrest⟩
    refine Act.ends_pure ⟨hafter, ?_⟩
    rw [← List.singleton_append, List.filter_append]
    exact List.rel_append hfirst hrest

theorem log_ends (laws : TreeLaws host repository tracked tree)
    (hf : work.Faithful host repository tracked tree) (start : Hash) :
    (repository.log host scope start).Ends work
      (fun commits after => after.Faithful host repository tracked tree ∧
        ∃ output before, (host.run scope (repository.pipeline start) before).1 = .ok output ∧
          List.Forall₂ (Commit.IsSnapshot tracked tree)
            ((LogBlock.ofText output.stdout).filter LogBlock.isDated) commits)
      (fun _ after => after.Faithful host repository tracked tree) := by
  unfold Repository.log
  refine (laws.checkout_ends hf start).bind ?_
  rintro _ before ⟨hbefore, -⟩
  refine (laws.quiet_ends hbefore (.inr ⟨start, rfl⟩)).bind ?_
  rintro output printed ⟨hprinted, hrun⟩
  refine (laws.commitsOfBlocks_ends hprinted _).mono ?_ fun _ _ h => h
  rintro commits after ⟨hafter, hcommits⟩
  exact ⟨hafter, output, before.machine, hrun, hcommits⟩

end TreeLaws

-- ---------------------------------------------------------------------------
-- Sequences of operations
-- ---------------------------------------------------------------------------

inductive Call where
  | fetch
  | references
  | defaultBranch
  | pull (remote : String) (branch : RefName)
  | log (start : Hash)

def afterCall (host : Host σ) (repository : Repository) (work : WorkTree σ) :
    Scope × Call → WorkTree σ
  | (scope, .fetch) => (Repository.fetch host scope repository work).2
  | (scope, .references) => (Repository.references host scope repository work).2
  | (scope, .defaultBranch) => (Repository.defaultBranch host scope repository work).2
  | (scope, .pull remote branch) => (repository.pull host scope remote branch work).2
  | (scope, .log start) => (repository.log host scope start work).2

theorem TreeLaws.afterCall_faithful (laws : TreeLaws host repository tracked tree)
    (hf : work.Faithful host repository tracked tree) (call : Scope × Call) :
    (afterCall host repository work call).Faithful host repository tracked tree := by
  obtain ⟨scope, operation⟩ := call
  cases operation with
  | fetch => exact (laws.fetch_ends hf).always
  | references => exact (laws.references_ends hf).always
  | defaultBranch => exact (laws.defaultBranch_ends hf).always
  | pull remote branch => exact (laws.pull_ends hf remote branch).always
  | log start => exact ((laws.log_ends hf start).mono (fun _ _ h => h.1) fun _ _ h => h).always

theorem TreeLaws.afterCalls_faithful (laws : TreeLaws host repository tracked tree)
    (hf : work.Faithful host repository tracked tree) (calls : List (Scope × Call)) :
    (calls.foldl (afterCall host repository) work).Faithful host repository tracked tree := by
  induction calls generalizing work with
  | nil => exact hf
  | cons call rest ih => exact ih (laws.afterCall_faithful hf call)

/-- After any operations on a clone, of which any may have failed, a history that is read has one
commit for each block with readable times, in order, and each commit has the files of its status
lines as the tree of its own hash holds them. -/
theorem log_after_calls (laws : TreeLaws host repository tracked tree)
    (calls : List (Scope × Call)) (machine : σ) {start : Hash} {commits : List Commit}
    {after : WorkTree σ}
    (h : repository.log host scope start (calls.foldl (afterCall host repository) ⟨none, machine⟩) =
      (.ok commits, after)) :
    ∃ output before, (host.run scope (repository.pipeline start) before).1 = .ok output ∧
      List.Forall₂ (Commit.IsSnapshot tracked tree)
        ((LogBlock.ofText output.stdout).filter LogBlock.isDated) commits :=
  ((laws.log_ends (laws.afterCalls_faithful (.of_none rfl) calls) start).done h).2

end Repository

namespace Sample

structure Desk where
  files : List (FilePath × List UInt8)
  answers : List ProcessOutput

def hash : Hash := Hash.ofBytes [1]

def treeOf (target : String) : List (FilePath × List UInt8) :=
  if target == hash.hex then [("work/a.py", [120, 255])] else [("work/a.py", [119])]

def filesAfter (files : List (FilePath × List UInt8)) :
    List String → List (FilePath × List UInt8)
  | ["checkout", target, "--force"] => treeOf target
  | "pull" :: _ => []
  | _ => files

namespace Desk

def run (command : Command) (desk : Desk) : Except GitError ProcessOutput × Desk :=
  let output := desk.answers.headD ⟨"", "", some 0⟩
  (.ok output, ⟨if output.isSuccess then filesAfter desk.files command.arguments else desk.files,
    desk.answers.tail⟩)

def read (path : FilePath) (desk : Desk) : Except IoFault (List UInt8) :=
  match desk.files.lookup path with
  | some bytes => .ok bytes
  | none => .error .notFound

def kind (path : FilePath) (desk : Desk) : Except IoFault FileKind :=
  (desk.read path).map fun bytes => .file bytes.length

def host : Host Desk where
  run := fun _ => run
  isCalledOff := fun _ _ => false
  callOff := fun _ desk => desk
  enter := fun scope desk => (scope, desk)
  kind := kind
  linkKind := kind
  read := read
  write := fun _ _ desk => (.error .permissionDenied, desk)
  createFolders := fun _ desk => (.error .permissionDenied, desk)
  removeFolder := fun _ desk => (.error .permissionDenied, desk)

end Desk

def repository : Repository := ⟨"https://github.com/o/r", "work", Tools.standard⟩

def tree (hash : Hash) : Contents := repository.contents Desk.host ⟨treeOf hash.hex, []⟩

theorem contents_eq {a b : Desk} (h : a.files = b.files) :
    repository.contents Desk.host a = repository.contents Desk.host b := by
  funext path
  simp only [Repository.contents, Desk.host, Desk.kind, Desk.read, h]

theorem desk_laws : Repository.TreeLaws Desk.host repository (fun _ => True) tree where
  checkout := by
    intro scope hash machine output after hrun hs path _
    cases hrun
    refine congrFun (contents_eq ?_) path
    simp only [if_pos hs]
    rfl
  failed := by
    intro scope command machine outcome after hrun hs path _
    cases hrun
    refine congrFun (contents_eq ?_) path
    simp only [hs _ rfl]
    rfl
  quiet := by
    intro scope command machine outcome after hrun hq path _
    cases hrun
    refine congrFun (contents_eq ?_) path
    have harguments : filesAfter machine.files command.arguments = machine.files := by
      rcases hq with hq | ⟨start, rfl⟩
      · rcases List.mem_pair.mp hq with rfl | rfl <;> rfl
      · rfl
    simp only [harguments, ite_self]

def succeeds (stdout : String) : ProcessOutput := ⟨stdout, "", some 0⟩

def fails : ProcessOutput := ⟨"", "fatal: unable to access", some 128⟩

def history : ProcessOutput := succeeds
  "Commit: 0100000000000000000000000000000000000000\nAuthor: \nAuthor Email: \nAuthor Date: 1\nCommitter: \nCommitter Email: \nCommitter Date: 1\nSubject: \nBody:\nFiles:\n\nA\ta.py\n\n\n"

/-- A commit is checked out for a history that is empty, a fetch fails, and a pull fails after its
branch has been checked out. -/
def calls : List (Scope × Repository.Call) :=
  [([], .log hash), ([], .fetch), ([], .pull "origin" RefName.main)]

def desk : Desk :=
  ⟨[], [succeeds "", succeeds "", fails, succeeds "", fails, succeeds "", history]⟩

end Sample

theorem Repository.log_after_calls_failed_pull :
    Repository.TreeLaws Sample.Desk.host Sample.repository (fun _ => True) Sample.tree ∧
      ∃ commits after, Sample.repository.log Sample.Desk.host [] Sample.hash
          (Sample.calls.foldl (Repository.afterCall Sample.Desk.host Sample.repository)
            ⟨none, Sample.desk⟩) = (.ok commits, after) ∧
        commits.map (·.files) = [[⟨"a.py", 2, "x\uFFFD"⟩]] ∧
        ∃ output before, (Sample.Desk.host.run []
            (Sample.repository.pipeline Sample.hash) before).1 = .ok output ∧
          List.Forall₂ (Commit.IsSnapshot (fun _ => True) Sample.tree)
            ((LogBlock.ofText output.stdout).filter LogBlock.isDated) commits := by
  refine ⟨Sample.desk_laws, ?_⟩
  obtain ⟨commits, hok, hfiles⟩ : ∃ commits, (Sample.repository.log Sample.Desk.host [] Sample.hash
      (Sample.calls.foldl (Repository.afterCall Sample.Desk.host Sample.repository)
        ⟨none, Sample.desk⟩)).1 = .ok commits ∧
      (commits.map (·.files) == [[⟨"a.py", 2, "x\uFFFD"⟩]]) = true :=
    ok_of_any (by decide +kernel)
  obtain ⟨after, hrun⟩ := Act.exists_after hok
  exact ⟨commits, after, hrun, by simpa using hfiles,
    Repository.log_after_calls Sample.desk_laws Sample.calls Sample.desk hrun⟩

end SnippetTrail
