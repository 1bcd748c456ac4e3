import SnippetTrail.Corpus.Watched
import SnippetTrail.Proofs.Checkout
import SnippetTrail.Proofs.Provenance

/-!
# Updates are all or nothing

An update first finds out what there is to analyse (`findTask`), which changes no results, and then
analyses it and stores the results (`renew`). When the followed branch is listed once, both tables
change together or not at all (`update_all_or_nothing`). So whatever a snippet of a branch refers to
is among the commits of the branch, after any number of updates.
-/

namespace SnippetTrail

-- ---------------------------------------------------------------------------
-- Acts that keep the results
-- ---------------------------------------------------------------------------

/-- Only what is known of the work tree differs. -/
def WatchedRepository.Kept (before after : WatchedRepository) : Prop :=
  ∃ head, after = { before with head }

namespace WatchedRepository.Kept

variable {a b c : WatchedRepository}

theorem refl (a : WatchedRepository) : a.Kept a := ⟨a.head, rfl⟩

theorem trans (hab : a.Kept b) (hbc : b.Kept c) : a.Kept c := by
  obtain ⟨_, rfl⟩ := hab
  obtain ⟨head, rfl⟩ := hbc
  exact ⟨head, rfl⟩

theorem snippets (h : a.Kept b) : b.snippets = a.snippets := by
  obtain ⟨_, rfl⟩ := h
  rfl

theorem commits (h : a.Kept b) : b.commits = a.commits := by
  obtain ⟨_, rfl⟩ := h
  rfl

theorem tracked (h : a.Kept b) : b.tracked = a.tracked := by
  obtain ⟨_, rfl⟩ := h
  rfl

end WatchedRepository.Kept

section
variable {σ α β : Type}

def Keeps (act : WatchingAct σ α) : Prop :=
  ∀ state : Watching σ, state.watched.Kept (act state).2.watched

theorem Keeps.bind {act : WatchingAct σ α} {next : α → WatchingAct σ β} (h : Keeps act)
    (hnext : ∀ value, Keeps (next value)) : Keeps (act >>= next) := by
  intro state
  have hact := h state
  rw [Act.run_bind]
  rcases hrun : act state with ⟨error | value, after⟩ <;> rw [hrun] at hact
  · exact hact
  · exact hact.trans (hnext value after)

theorem keeps_pure (value : α) : Keeps (pure value : WatchingAct σ α) := fun _ => .refl _

theorem keeps_get : Keeps (get : WatchingAct σ (Watching σ)) := fun _ => .refl _

theorem keeps_onClone (act : Repository → RepositoryAct σ α) : Keeps (onClone act) :=
  fun _ => ⟨_, rfl⟩

end

namespace WatchedRepository

variable {σ : Type}

-- ---------------------------------------------------------------------------
-- The two halves of an update
-- ---------------------------------------------------------------------------

/-- What an update is about to analyse, and the scope in which. -/
structure Task where
  branch : RefName
  listed : List Reference
  group : Scope
  deriving DecidableEq

def Task.followed (task : Task) : List Reference := task.listed.filter (·.name == task.branch)

def enter (host : Host σ) (scope : Scope) : WatchingAct σ Scope := fun state =>
  let (group, machine) := host.enter scope state.machine
  (.ok group, { state with machine })

def openTask (host : Host σ) (scope : Scope) : WatchingAct σ Task := do
  let branch ← trackedBranch host scope
  let remote := (← get).watched.remote
  let _ ← onClone fun repository => repository.pull host scope remote branch
  let listed ← onClone (Repository.references host scope)
  let group ← enter host scope
  pure ⟨branch, listed, group⟩

def findTask (host : Host σ) (scope : Scope) : WatchingAct σ (Option Task) := do
  let transfer ← onClone (Repository.fetch host scope)
  if transfer == .upToDate && !(← get).watched.snippets.entries.isEmpty then pure none
  else pure (some (← openTask host scope))

def renew (host : Host σ) (task : Task) : WatchingAct σ Unit := do
  let done ← analyseAll host task.group task.followed
  modify fun state => { state with watched := storeCommits done state.watched }

theorem update_eq (host : Host σ) (scope : Scope) : update host scope = (do
    match ← findTask host scope with
    | none => pure ()
    | some task => renew host task) := by
  unfold update findTask openTask renew enter
  simp only [bind_assoc]
  congr 1
  funext transfer
  congr 1
  funext state
  split <;> simp [bind_assoc, Task.followed]

theorem update_run (host : Host σ) (scope : Scope) (state : Watching σ) :
    update host scope state = match findTask host scope state with
      | (.ok none, after) => (.ok (), after)
      | (.ok (some task), after) => renew host task after
      | (.error error, after) => (.error error, after) := by
  rw [update_eq, Act.run_bind]
  rcases findTask host scope state with ⟨_ | _ | _, after⟩ <;> rfl

-- ---------------------------------------------------------------------------
-- Finding out what there is to analyse
-- ---------------------------------------------------------------------------

section
variable {host : Host σ} {scope : Scope}

theorem trackedBranch_keeps : Keeps (trackedBranch host scope) := by
  unfold trackedBranch
  refine keeps_get.bind fun state => ?_
  dsimp only
  split
  · exact (keeps_onClone _).bind fun branch? => keeps_pure _
  · exact keeps_pure _

theorem openTask_keeps : Keeps (openTask host scope) := by
  unfold openTask
  refine trackedBranch_keeps.bind fun branch => keeps_get.bind fun state => ?_
  refine (keeps_onClone _).bind fun pulled => (keeps_onClone _).bind fun listed => ?_
  have henter : Keeps (enter host scope) := fun _ => .refl _
  exact henter.bind fun group => keeps_pure _

theorem findTask_keeps : Keeps (findTask host scope) := by
  unfold findTask
  refine (keeps_onClone _).bind fun transfer => keeps_get.bind fun state => ?_
  split
  · exact keeps_pure _
  · exact openTask_keeps.bind fun task => keeps_pure _

end

-- ---------------------------------------------------------------------------
-- Analysing one reference
-- ---------------------------------------------------------------------------

def ResultsOf (host : Host σ) (group : Scope) (reference : Reference) (state : Watching σ)
    (snippets : List Snippet) (records : List CommitRecord) : Prop :=
  ∃ commits logged,
    onClone (fun repository => repository.log host group reference.hash) state =
      (.ok commits, logged) ∧
    calculateSnippets state.watched.tracked.owner state.watched.tracked.name commits =
      .ok snippets ∧
    records =
      commits.map (CommitRecord.ofCommit state.watched.tracked.owner state.watched.tracked.name)

theorem analyse_ends (host : Host σ) (group : Scope) (reference : Reference) (state : Watching σ) :
    (analyse host group reference).Ends state
      (fun done after => done.1 = reference.name.text ∧ ∃ snippets,
        ResultsOf host group reference state snippets done.2 ∧
        after.watched.snippets = state.watched.snippets.insert reference.name.text snippets ∧
        after.watched.commits = state.watched.commits)
      (fun _ after => state.watched.Kept after.watched) := by
  unfold analyse Act.Ends
  rw [Act.run_bind]
  have hkept := keeps_onClone (fun repository => repository.log host group reference.hash) state
  rcases hlog : onClone (fun repository => repository.log host group reference.hash) state with
    ⟨error | commits, logged⟩ <;> rw [hlog] at hkept
  · exact hkept
  refine Act.ends_get_bind ?_
  rw [hkept.tracked]
  dsimp only
  split
  · exact Act.ends_throw hkept
  · rename_i snippets hsnippets
    refine Act.ends_modify_bind (Act.ends_pure ⟨rfl, snippets, ?_, ?_, hkept.commits⟩)
    · exact ⟨commits, logged, hlog, hsnippets, rfl⟩
    · rw [hkept.snippets]

-- ---------------------------------------------------------------------------
-- One update
-- ---------------------------------------------------------------------------

def followed (host : Host σ) (scope : Scope) (state : Watching σ) : List Reference :=
  match (findTask host scope state).1 with
  | .ok (some task) => task.followed
  | _ => []

def SameResults (before after : WatchedRepository) : Prop :=
  after.snippets = before.snippets ∧ after.commits = before.commits

/-- The entries of the followed branch, which is listed as one reference, become the results of the
commits that lead to it. -/
def Renewed (host : Host σ) (scope : Scope) (before after : Watching σ) : Prop :=
  ∃ task start reference snippets records,
    findTask host scope before = (.ok (some task), start) ∧ task.followed = [reference] ∧
    ResultsOf host task.group reference start snippets records ∧
    after.watched.snippets = before.watched.snippets.insert task.branch.text snippets ∧
    after.watched.commits = before.watched.commits.insert task.branch.text records

section
variable {host : Host σ} {scope : Scope} {state start : Watching σ} {task : Task}
  {reference : Reference}

theorem Kept.sameResults {before after : WatchedRepository} (h : before.Kept after) :
    before.SameResults after := ⟨h.snippets, h.commits⟩

theorem Task.followed_name (h : reference ∈ task.followed) : reference.name = task.branch := by
  simpa using (List.mem_filter.mp h).2

theorem renew_none (h : task.followed = []) : renew host task state = (.ok (), state) := by
  unfold renew
  rw [h]
  rfl

theorem renew_single (h : task.followed = [reference]) :
    (renew host task).Ends state
      (fun _ after => ∃ snippets records, ResultsOf host task.group reference state snippets records ∧
        after.watched.snippets = state.watched.snippets.insert task.branch.text snippets ∧
        after.watched.commits = state.watched.commits.insert task.branch.text records)
      (fun _ after => state.watched.SameResults after.watched) := by
  have hname : reference.name = task.branch := Task.followed_name (h ▸ List.mem_singleton_self _)
  have hanalyse := analyse_ends host task.group reference state
  unfold Act.Ends renew at *
  rw [Act.run_bind, h]
  rcases hrun : analyse host task.group reference state with ⟨error | done, analysed⟩ <;>
    simp only [hrun] at hanalyse
  · simp only [analyseAll, hrun]
    exact hanalyse.sameResults
  · obtain ⟨hdone, snippets, hresults, hsnippets, hcommits⟩ := hanalyse
    simp only [analyseAll, hrun]
    refine ⟨snippets, done.2, hresults, ?_, ?_⟩
    · exact hname ▸ hsnippets
    · show analysed.watched.commits.insert done.1 done.2 = _
      rw [hcommits, hdone, hname]

theorem update_ends (h : (followed host scope state).length ≤ 1) :
    (update host scope).Ends state
      (fun _ after => state.watched.SameResults after.watched ∨ Renewed host scope state after)
      (fun _ after => state.watched.SameResults after.watched) := by
  have hkept := @findTask_keeps σ host scope state
  unfold followed at h
  unfold Act.Ends
  rw [update_run]
  rcases hfind : findTask host scope state with ⟨error | found, start⟩ <;> rw [hfind] at hkept h
  · exact hkept.sameResults
  cases found with
  | none => exact .inl hkept.sameResults
  | some task =>
    dsimp only at h ⊢
    match hfollowed : task.followed with
    | [] =>
      rw [renew_none hfollowed]
      exact .inl hkept.sameResults
    | [reference] =>
      refine (@renew_single _ host start task reference hfollowed).mono ?_ ?_
      · rintro _ after ⟨snippets, records, hresults, hsnippets, hcommits⟩
        rw [hkept.snippets] at hsnippets
        rw [hkept.commits] at hcommits
        exact .inr ⟨task, start, reference, snippets, records, hfind, hfollowed, hresults, hsnippets,
          hcommits⟩
      · rintro _ after ⟨hsnippets, hcommits⟩
        exact ⟨hsnippets.trans hkept.snippets, hcommits.trans hkept.commits⟩
    | _ :: _ :: _ => simp [hfollowed] at h

end

-- ---------------------------------------------------------------------------
-- Any number of updates
-- ---------------------------------------------------------------------------

structure Round (σ : Type) where
  scope : Scope
  state : Watching σ

namespace Round

def outcome (host : Host σ) (round : Round σ) : Except ServiceError Unit :=
  (update host round.scope round.state).1

def after (host : Host σ) (round : Round σ) : Watching σ :=
  (update host round.scope round.state).2

end Round

/-- Updates of one repository, one after the other. Between them anything may happen to the
machine. -/
inductive Rounds (host : Host σ) (first : WatchedRepository) :
    List (Round σ) → WatchedRepository → Prop where
  | nil : Rounds host first [] first
  | snoc {earlier : List (Round σ)} {watched : WatchedRepository}
      (h : Rounds host first earlier watched) (scope : Scope) (machine : σ) :
      Rounds host first (earlier ++ [⟨scope, watched, machine⟩])
        (Round.after host ⟨scope, watched, machine⟩).watched

/-- Whatever a snippet of a branch refers to is among the commits of the branch. -/
def Coherent (watched : WatchedRepository) : Prop :=
  ∀ branch, ∀ snippet ∈ watched.snippetsOf branch, ∀ version ∈ snippet.versions,
    ∀ file ∈ version.file, file.commit ∈ watched.commitsOf branch

section
variable {σ : Type} {host : Host σ} {scope : Scope} {before after : Watching σ}

theorem new_coherent (repository : Repository) (tracked : TrackedRepository) (remote : String) :
    (new repository tracked remote).Coherent := by
  intro branch snippet hs
  simp [snippetsOf, new] at hs

theorem Coherent.sameResults {a b : WatchedRepository} (hc : a.Coherent) (h : a.SameResults b) :
    b.Coherent := by
  unfold Coherent snippetsOf commitsOf
  rw [h.1, h.2]
  exact hc

theorem Coherent.renewed (hc : before.watched.Coherent) (h : Renewed host scope before after) :
    after.watched.Coherent := by
  obtain ⟨task, start, reference, snippets, records, -, -, hresults, hsnippets, hcommits⟩ := h
  obtain ⟨commits, _, -, hcalculate, rfl⟩ := hresults
  intro branch snippet hs version hv file hf
  unfold snippetsOf at hs
  unfold commitsOf
  rw [hsnippets, Table.find?_insert] at hs
  rw [hcommits, Table.find?_insert]
  split at hs
  · rename_i hb
    rw [if_pos hb]
    exact commit_mem_of_calculateSnippets hcalculate hs hv hf
  · rename_i hb
    rw [if_neg hb]
    exact hc branch snippet hs version hv file hf

end

section
variable {σ : Type} {host : Host σ}

theorem Coherent.round {round : Round σ} (hc : round.state.watched.Coherent)
    (h : (followed host round.scope round.state).length ≤ 1) :
    (round.after host).watched.Coherent := by
  have hends : (update host round.scope).Ends round.state (fun _ after => after.watched.Coherent)
      fun _ after => after.watched.Coherent := by
    refine (update_ends h).mono ?_ fun _ after hsame => hc.sameResults hsame
    rintro _ after (hsame | hrenewed)
    · exact hc.sameResults hsame
    · exact hc.renewed hrenewed
  exact hends.always

theorem Rounds.coherent {first last : WatchedRepository} {rounds : List (Round σ)}
    (h : Rounds host first rounds last) (hc : first.Coherent)
    (hf : ∀ round ∈ rounds, (followed host round.scope round.state).length ≤ 1) :
    last.Coherent := by
  induction h with
  | nil => exact hc
  | snoc _ scope machine ih =>
    refine Coherent.round (ih fun round hm => hf round (List.mem_append_left _ hm)) ?_
    exact hf _ (by simp)

/-- Let the followed branch be listed at most once in an update. If the update fails, the tables are
as before; if it succeeds, they are as before or the entries of the followed branch become the
results of one history. So what the snippets of a branch refer to is always among the commits of the
branch. -/
theorem update_all_or_nothing (host : Host σ) :
    (∀ round : Round σ, (followed host round.scope round.state).length ≤ 1 →
      (update host round.scope).Ends round.state
        (fun _ after => round.state.watched.SameResults after.watched ∨
          Renewed host round.scope round.state after)
        (fun _ after => round.state.watched.SameResults after.watched)) ∧
    ∀ (repository : Repository) (tracked : TrackedRepository) (remote : String)
      (rounds : List (Round σ)) (last : WatchedRepository),
      Rounds host (new repository tracked remote) rounds last →
      (∀ round ∈ rounds, (followed host round.scope round.state).length ≤ 1) → last.Coherent :=
  ⟨fun _ h => update_ends h,
    fun repository tracked remote _ _ h hf => h.coherent (new_coherent repository tracked remote) hf⟩

end

end WatchedRepository

namespace Sample

def still : Host Desk :=
  let bytes := Text.Utf8.encode "[START a]\n[END a]".toList
  { Desk.host with
    linkKind := fun _ _ => .ok (.file bytes.length)
    read := fun _ _ => .ok bytes }

def watched : WatchedRepository :=
  .new repository ⟨"o", "r", false, true, "main"⟩ "origin"

def listing : ProcessOutput :=
  succeeds "0100000000000000000000000000000000000000 refs/heads/main\n"

def firstUpdate : WatchedRepository.Round Desk :=
  ⟨[], watched, [], [succeeds "", succeeds "", succeeds "", listing, succeeds "", history]⟩

def failedUpdate : WatchedRepository.Round Desk :=
  ⟨[], (firstUpdate.after still).watched, [],
    [succeeds "From o/r\n", succeeds "", succeeds "", listing, fails]⟩

end Sample

namespace WatchedRepository

theorem update_all_or_nothing_failed_log :
    Rounds Sample.still Sample.watched [Sample.firstUpdate, Sample.failedUpdate]
        (Sample.failedUpdate.after Sample.still).watched ∧
      (∀ round ∈ [Sample.firstUpdate, Sample.failedUpdate],
        (followed Sample.still round.scope round.state).length ≤ 1 ∧
        (update Sample.still round.scope).Ends round.state
          (fun _ after => round.state.watched.SameResults after.watched ∨
            Renewed Sample.still round.scope round.state after)
          (fun _ after => round.state.watched.SameResults after.watched)) ∧
      (Sample.firstUpdate.outcome Sample.still).toOption.isSome = true ∧
      (Sample.failedUpdate.outcome Sample.still).toOption.isSome = false ∧
      (Sample.failedUpdate.after Sample.still).watched.allSnippets.length = 1 ∧
      (Sample.failedUpdate.after Sample.still).watched.Coherent := by
  have hfirst : Rounds Sample.still Sample.watched ([] ++ [Sample.firstUpdate])
      (Sample.firstUpdate.after Sample.still).watched := .snoc .nil _ _
  have hrounds : Rounds Sample.still Sample.watched ([Sample.firstUpdate] ++ [Sample.failedUpdate])
      (Sample.failedUpdate.after Sample.still).watched := .snoc hfirst _ _
  -- one evaluation decides all that is claimed of the two runs
  have hruns : (∀ round ∈ [Sample.firstUpdate, Sample.failedUpdate],
        (followed Sample.still round.scope round.state).length ≤ 1) ∧
      (Sample.firstUpdate.outcome Sample.still).toOption.isSome = true ∧
      (Sample.failedUpdate.outcome Sample.still).toOption.isSome = false ∧
      (Sample.failedUpdate.after Sample.still).watched.allSnippets.length = 1 := by decide +kernel
  obtain ⟨hfollowed, hok, hfailed, hlength⟩ := hruns
  have hall := update_all_or_nothing Sample.still
  refine ⟨hrounds, fun round hm => ?_, hok, hfailed, hlength, ?_⟩
  · exact ⟨hfollowed round hm, hall.1 round (hfollowed round hm)⟩
  · exact hall.2 _ _ _ _ _ hrounds hfollowed

end WatchedRepository

end SnippetTrail
