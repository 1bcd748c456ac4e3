import SnippetTrail.Corpus.Sync
import SnippetTrail.Proofs.Act

/-!
# What acts leave alone

An act leaves a part of the state alone if the part is as before however the act ends
(`Act.Leaves`). Acts are put together from steps of the host, so what no step touches
(`Host.Leaves`) is left alone by everything that a corpus does.
-/

namespace SnippetTrail

variable {σ τ π ε ε' α β : Type}

-- ---------------------------------------------------------------------------
-- Acts
-- ---------------------------------------------------------------------------

namespace Act

/-- However the act ends, this part of the state is as before. -/
def Leaves (part : σ → π) (act : Act σ ε α) : Prop := ∀ state, part (act state).2 = part state

section
variable {part : σ → π}

theorem leaves_pure (value : α) : (pure value : Act σ ε α).Leaves part := fun _ => rfl

theorem leaves_throw (error : ε) : (throw error : Act σ ε α).Leaves part := fun _ => rfl

theorem leaves_get : (get : Act σ ε σ).Leaves part := fun _ => rfl

theorem leaves_ofQuery (query : σ → Except ε α) : (ofQuery query).Leaves part := fun _ => rfl

theorem leaves_modify {change : σ → σ} (h : ∀ state, part (change state) = part state) :
    (modify change : Act σ ε PUnit).Leaves part := h

theorem Leaves.bind {act : Act σ ε α} {next : α → Act σ ε β} (h : act.Leaves part)
    (hnext : ∀ value, (next value).Leaves part) : (act >>= next).Leaves part := by
  intro state
  have hact := h state
  rw [run_bind]
  rcases hrun : act state with ⟨error | value, after⟩ <;> rw [hrun] at hact
  · exact hact
  · exact (hnext value after).trans hact

theorem Leaves.ends {act : Act σ ε α} (h : act.Leaves part) {state : σ} {kept : π}
    (hk : part state = kept) :
    act.Ends state (fun _ after => part after = kept) fun _ after => part after = kept :=
  ends_of_left ((h state).trans hk)

theorem mapError_left (convert : ε → ε') (act : Act σ ε α) (state : σ) :
    (mapError convert act state).2 = (act state).2 := by
  unfold Act.mapError
  rcases act state with ⟨error | value, after⟩ <;> rfl

theorem Leaves.mapError {act : Act σ ε α} (h : act.Leaves part) (convert : ε → ε') :
    (mapError convert act).Leaves part := fun state =>
  (congrArg part (mapError_left convert act state)).trans (h state)

theorem Leaves.tryCatch {act : Act σ ε α} {handler : ε → Act σ ε α} (h : act.Leaves part)
    (hh : ∀ error, (handler error).Leaves part) : (tryCatch act handler).Leaves part := by
  intro state
  have hact := h state
  rw [run_tryCatch]
  rcases hrun : act state with ⟨error | value, after⟩ <;> rw [hrun] at hact
  · exact (hh error after).trans hact
  · exact hact

theorem Leaves.onPart {get : τ → σ} {put : σ → τ → τ} {whole : τ → β} {act : Act σ ε α}
    (h : act.Leaves part)
    (hput : ∀ state after, part after = part (get state) → whole (put after state) = whole state) :
    (onPart get put act).Leaves whole := fun state => hput state _ (h (get state))

end

end Act

structure Host.Leaves (host : Host σ) (part : σ → π) : Prop where
  run : ∀ scope command machine, part (host.run scope command machine).2 = part machine
  callOff : ∀ scope machine, part (host.callOff scope machine) = part machine
  enter : ∀ scope machine, part (host.enter scope machine).2 = part machine
  createFolders : ∀ path machine, part (host.createFolders path machine).2 = part machine
  removeFolder : ∀ path machine, part (host.removeFolder path machine).2 = part machine

section
variable {host : Host σ} {part : σ → π} {scope : Scope}

-- ---------------------------------------------------------------------------
-- Clones
-- ---------------------------------------------------------------------------

theorem runChecked_leaves (h : host.Leaves part) (command : Command) :
    (runChecked host scope command).Leaves part := by
  unfold runChecked
  refine Act.Leaves.bind (h.run scope command) fun output => ?_
  split
  · exact Act.leaves_pure _
  · exact Act.leaves_throw _

theorem onMachine_leaves {act : Act σ GitError α} (h : act.Leaves part) :
    (onMachine act).Leaves fun tree => part tree.machine := h.onPart fun _ _ => id

namespace Repository

variable {repository : Repository}

theorem clone_leaves (h : host.Leaves part) (url : String) (dir : FilePath) (tools : Tools) :
    (clone host scope url dir tools).Leaves part := by
  have hcreate : (Act.ofStep (host.createFolders (parentDir dir))).Leaves part :=
    h.createFolders (parentDir dir)
  exact (hcreate.mapError _).bind fun _ => (runChecked_leaves h _).bind fun _ => Act.leaves_pure _

theorem git_leaves (h : host.Leaves part) (arguments : List String) :
    (repository.git host scope arguments).Leaves fun tree => part tree.machine :=
  onMachine_leaves (runChecked_leaves h _)

theorem fetch_leaves (h : host.Leaves part) :
    (fetch host scope repository).Leaves fun tree => part tree.machine :=
  (git_leaves h _).bind fun _ => Act.leaves_pure _

theorem references_leaves (h : host.Leaves part) :
    (references host scope repository).Leaves fun tree => part tree.machine :=
  (git_leaves h _).bind fun _ => Act.leaves_pure _

theorem defaultBranch_leaves (h : host.Leaves part) :
    (defaultBranch host scope repository).Leaves fun tree => part tree.machine :=
  (references_leaves h).bind fun _ => Act.leaves_pure _

theorem pull_leaves (h : host.Leaves part) (remote : String) (branch : RefName) :
    (repository.pull host scope remote branch).Leaves fun tree => part tree.machine := by
  refine (git_leaves h _).bind fun _ => (Act.leaves_modify ?_).bind fun _ => ?_
  · exact fun _ => rfl
  · exact (git_leaves h _).bind fun _ => Act.leaves_pure _

theorem checkout_leaves (h : host.Leaves part) (hash : Hash) :
    (repository.checkout host scope hash).Leaves fun tree => part tree.machine := by
  refine Act.leaves_get.bind fun tree => ?_
  split
  · exact Act.leaves_pure _
  · exact (git_leaves h _).bind fun _ => Act.leaves_modify fun _ => rfl

theorem commitOfBlock_leaves (h : host.Leaves part) (block : LogBlock) :
    (repository.commitOfBlock host scope block).Leaves fun tree => part tree.machine := by
  unfold commitOfBlock
  split
  case h_2 => exact Act.leaves_pure _
  case h_1 =>
    split
    case h_1 => exact Act.leaves_throw _
    case h_2 hash _ =>
      have hread (query : WorkTree σ → Except GitError (List File)) (commit : List File → Commit) :
          Act.Leaves (fun tree => part tree.machine) (do
            let files ← Act.ofQuery query
            pure (some (commit files))) :=
        (Act.leaves_ofQuery query).bind fun _ => Act.leaves_pure _
      dsimp only
      split
      · exact (checkout_leaves h hash).bind fun _ => hread _ _
      · exact hread _ _

theorem commitsOfBlocks_leaves (h : host.Leaves part) (blocks : List LogBlock) :
    (repository.commitsOfBlocks host scope blocks).Leaves fun tree => part tree.machine := by
  induction blocks with
  | nil => exact Act.leaves_pure _
  | cons block rest ih =>
    exact (commitOfBlock_leaves h block).bind fun _ => ih.bind fun _ => Act.leaves_pure _

theorem log_leaves (h : host.Leaves part) (start : Hash) :
    (repository.log host scope start).Leaves fun tree => part tree.machine :=
  (checkout_leaves h start).bind fun _ =>
    (onMachine_leaves (runChecked_leaves h _)).bind fun _ => commitsOfBlocks_leaves h _

end Repository

-- ---------------------------------------------------------------------------
-- Watched repositories
-- ---------------------------------------------------------------------------

namespace WatchedRepository

def aside (part : σ → π) (state : Watching σ) : TrackedRepository × π :=
  (state.watched.tracked, part state.machine)

theorem onClone_leaves {act : Repository → RepositoryAct σ α}
    (h : ∀ repository, (act repository).Leaves fun tree => part tree.machine) :
    (onClone act).Leaves (aside part) := fun state =>
  congrArg (Prod.mk _) ((h state.watched.repository).mapError ServiceError.git _)

theorem trackedBranch_leaves (h : host.Leaves part) :
    (trackedBranch host scope).Leaves (aside part) := by
  refine Act.leaves_get.bind fun state => ?_
  dsimp only
  split
  · exact (onClone_leaves fun _ => Repository.defaultBranch_leaves h).bind fun _ => Act.leaves_pure _
  · exact Act.leaves_pure _

theorem analyse_leaves (h : host.Leaves part) (reference : Reference) :
    (analyse host scope reference).Leaves (aside part) := by
  refine (onClone_leaves fun _ => Repository.log_leaves h _).bind fun commits => ?_
  refine Act.leaves_get.bind fun state => ?_
  dsimp only
  split
  · exact Act.leaves_throw _
  · refine (Act.leaves_modify ?_).bind fun _ => Act.leaves_pure _
    exact fun _ => rfl

theorem analyseAll_leaves (h : host.Leaves part) (references : List Reference) :
    (analyseAll host scope references).Leaves (aside part) := by
  induction references with
  | nil => exact Act.leaves_pure _
  | cons reference rest ih =>
    intro state
    have hone := @analyse_leaves _ _ _ _ scope h reference state
    unfold analyseAll
    rcases hrun : analyse host scope reference state with ⟨error | done, after⟩ <;> rw [hrun] at hone
    · refine (ih _).trans (Eq.trans ?_ hone)
      exact congrArg (Prod.mk _) (h.callOff scope after.machine)
    · have hothers := ih after
      dsimp only
      rcases hlast : analyseAll host scope rest after with ⟨error | others, last⟩ <;>
        rw [hlast] at hothers <;> exact hothers.trans hone

theorem update_leaves (h : host.Leaves part) : (update host scope).Leaves (aside part) := by
  have henter : Act.Leaves (aside part) (fun state : Watching σ =>
      (.ok (host.enter scope state.machine).1,
        { state with machine := (host.enter scope state.machine).2 }) : WatchingAct σ Scope) :=
    fun state => congrArg (Prod.mk _) (h.enter scope state.machine)
  unfold update
  refine (onClone_leaves fun _ => Repository.fetch_leaves h).bind fun transfer => ?_
  refine Act.leaves_get.bind fun state => ?_
  split
  · exact Act.leaves_pure _
  refine (trackedBranch_leaves h).bind fun branch => Act.leaves_get.bind fun state => ?_
  refine (onClone_leaves fun _ => Repository.pull_leaves h _ _).bind fun _ => ?_
  refine (onClone_leaves fun _ => Repository.references_leaves h).bind fun references => ?_
  refine henter.bind fun group => (analyseAll_leaves h _).bind fun done => Act.leaves_modify ?_
  exact fun _ => rfl

end WatchedRepository

-- ---------------------------------------------------------------------------
-- Corpora
-- ---------------------------------------------------------------------------

namespace Corpus

variable {ρ : Type}

def aside (part : σ → π) (state : CorpusState ρ σ) : Corpus ρ × π := (state.corpus, part state.machine)

theorem onMachine_leaves {convert : ε → ServiceError} {act : Act σ ε α} (h : act.Leaves part) :
    (onMachine convert act : CorpusAct ρ σ α).Leaves (aside part) := fun state =>
  congrArg (Prod.mk _) (h.mapError convert state.machine)

def Adds (part : σ → π) (wrap : WatchedRepository → ρ) (tracked : TrackedRepository)
    (before after : CorpusState ρ σ) : Prop :=
  ∃ (repository : Repository) (branch : String), aside part after =
    (before.corpus.add (wrap (.new repository { tracked with branch } before.corpus.options.remote)),
      part before.machine)

/-- A repository that is cloned becomes a member; nothing else happens to the corpus. -/
theorem trackAt_ends (h : host.Leaves part) (wrap : WatchedRepository → ρ)
    (tracked : TrackedRepository) (url : String) (state : CorpusState ρ σ) :
    (trackAt host wrap scope tracked url).Ends state
      (fun _ after => Adds part wrap tracked state after)
      (fun _ after => aside part after = aside part state) := by
  unfold trackAt
  refine Act.ends_get_bind ?_
  dsimp only
  obtain ⟨branch, hbranch⟩ : ∃ branch, (if tracked.branch.isEmpty then
      { tracked with branch := state.corpus.options.branch } else tracked) =
      { tracked with branch } := by
    split
    · exact ⟨_, rfl⟩
    · exact ⟨tracked.branch, rfl⟩
  rw [hbranch]
  generalize cloneDir state.corpus.options { tracked with branch } = dir
  -- the clone is made in the same way whether or not its folder had to be removed
  have hclone (middle : CorpusState ρ σ) (hm : aside part middle = aside part state) :
      (do
        let repository ← onMachine ServiceError.git
          (Repository.clone host scope url dir state.corpus.options.tools)
        modify fun state' : CorpusState ρ σ => { state' with corpus := state'.corpus.add (wrap
          (.new repository { tracked with branch } state.corpus.options.remote)) } :
        CorpusAct ρ σ Unit).Ends middle (fun _ after => Adds part wrap tracked state after)
      (fun _ after => aside part after = aside part state) := by
    refine ((onMachine_leaves (Repository.clone_leaves h _ _ _)).ends hm).bind ?_
    intro repository after hafter
    obtain ⟨hcorpus, hpart⟩ := Prod.mk.inj hafter
    refine Act.ends_modify ⟨repository, branch, ?_⟩
    rw [aside, hcorpus, hpart]
  refine ((onMachine_leaves (Act.leaves_ofQuery _)).ends rfl).bind fun there after hafter => ?_
  split
  · exact ((onMachine_leaves (h.removeFolder dir)).ends hafter).bind fun _ => hclone
  · exact hclone after hafter

end Corpus

-- ---------------------------------------------------------------------------
-- Updates and turns
-- ---------------------------------------------------------------------------

def Corpus.roster (part : σ → π) (state : CorpusState WatchedRepository σ) :
    List TrackedRepository × π := (state.corpus.members.map (·.tracked), part state.machine)

theorem updateWatched_leaves (h : host.Leaves part) (place : Nat) :
    (updateWatched host scope place).Leaves (Corpus.roster part) := by
  intro state
  unfold updateWatched
  split
  case h_1 => rfl
  case h_2 watched hplace =>
    obtain ⟨hlt, hwatched⟩ := List.getElem?_eq_some_iff.mp hplace
    have hupdate := @WatchedRepository.update_leaves _ _ _ _ scope h ⟨watched, state.machine⟩
    rcases hrun : WatchedRepository.update host scope ⟨watched, state.machine⟩ with ⟨outcome, after⟩
    rw [hrun] at hupdate
    obtain ⟨htracked, hpart⟩ := Prod.mk.inj hupdate
    refine Prod.ext ?_ hpart
    show (state.corpus.members.set place after.watched).map (·.tracked) = _
    rw [List.map_set, htracked, ← hwatched, ← List.map_set, List.set_getElem_self]
    rfl

namespace Corpus

variable {update : Updater WatchedRepository σ} {state : CorpusState WatchedRepository σ}

theorem updateAll_leaves {whole : CorpusState WatchedRepository σ → β}
    (hu : ∀ place, (update scope place).Leaves whole) (places : List Nat) :
    (updateAll host update scope places).Leaves whole := by
  induction places with
  | nil => exact Act.leaves_pure _
  | cons place rest ih =>
    refine Act.Leaves.bind (Act.leaves_get.bind fun _ => Act.leaves_pure _) fun off => ?_
    split
    · exact Act.leaves_pure _
    · exact ((hu place).tryCatch fun _ => Act.leaves_pure _).bind fun _ => ih

theorem prepare_leaves (hu : ∀ place, (update scope place).Leaves (roster part)) :
    (prepare host update scope).Leaves (roster part) := by
  refine Act.leaves_get.bind fun state => ?_
  split
  · exact Act.leaves_throw _
  refine (Act.leaves_modify ?_).bind fun _ => Act.leaves_get.bind fun _ => updateAll_leaves hu _
  exact fun _ => rfl

theorem poll_roster (hu : ∀ place, (update scope place).Leaves (roster part)) (place : Nat) :
    roster part (poll host update scope place state).2 = roster part state := by
  have hone := hu place state
  unfold poll
  split
  · rfl
  rcases hrun : update scope place state with ⟨error | _, after⟩ <;> rw [hrun] at hone <;> exact hone

theorem pollAll_roster (hu : ∀ place, (update scope place).Leaves (roster part))
    (places : List Nat) :
    roster part (pollAll host update scope places state).2 = roster part state := by
  induction places generalizing state with
  | nil => rfl
  | cons place rest ih =>
    have hrest := (@ih (poll host update scope place state).2).trans (poll_roster hu place)
    unfold pollAll
    rcases hturn : poll host update scope place state with ⟨turn, after⟩
    rw [hturn] at hrest
    cases turn <;> exact hrest

theorem turn_roster (h : host.Leaves part) (hu : ∀ place, (update scope place).Leaves (roster part))
    (session : Session) :
    roster part (turn host update scope session state).2 = roster part state := by
  have hpolls := @pollAll_roster _ _ host part scope update state hu session.due
  unfold turn
  rcases hrun : pollAll host update scope session.due state with ⟨⟨resting, failures⟩, polled⟩
  rw [hrun] at hpolls
  have htake : roster part (takeJoining polled).2 = roster part polled := by
    unfold takeJoining
    split <;> rfl
  dsimp only
  rcases htaken : takeJoining polled with ⟨added, taken⟩
  rw [htaken] at htake
  refine Eq.trans ?_ (htake.trans hpolls)
  refine congrArg (Prod.mk _) ?_
  dsimp only
  split
  · rfl
  · exact h.callOff scope taken.machine

/-- Whatever the ticks of a sync keep and the roster decides, the sync keeps. -/
theorem turns_keep {Kept : CorpusState WatchedRepository σ → Prop} (h : host.Leaves part)
    (hu : ∀ place, (update scope place).Leaves (roster part))
    (hroster : ∀ {state after}, Kept state → roster part after = roster part state → Kept after)
    {tick : CorpusState WatchedRepository σ → CorpusState WatchedRepository σ}
    (htick : ∀ {state}, Kept state → Kept (tick state)) (fuel : Nat) (session : Session)
    (hk : Kept state) : Kept (turns host update tick scope fuel session state).2 := by
  induction fuel generalizing session state with
  | zero => exact hk
  | succ fuel ih =>
    unfold turns
    split
    case h_1 => exact ih _ (hroster hk (turn_roster h hu session))
    case h_2 =>
      split
      case isTrue => exact hk
      case isFalse => exact ih _ (hroster (htick hk) (turn_roster h hu _))

theorem sync_keeps {Kept : CorpusState WatchedRepository σ → Prop} (h : host.Leaves part)
    (hu : ∀ group place, (update group place).Leaves (roster part))
    (hroster : ∀ {state after}, Kept state → roster part after = roster part state → Kept after)
    {tick : CorpusState WatchedRepository σ → CorpusState WatchedRepository σ}
    (htick : ∀ {state}, Kept state → Kept (tick state)) (fuel : Nat) (hk : Kept state) :
    Kept (sync host update tick fuel scope state).2 := by
  unfold sync
  split
  case isTrue => exact hk
  case isFalse =>
    have hbegun : Kept ⟨{ state.corpus with joining := some [] }, (host.enter scope state.machine).2⟩ :=
      hroster hk (congrArg (Prod.mk _) (h.enter scope state.machine))
    have hturns := turns_keep h (hu (host.enter scope state.machine).1) hroster htick fuel
      ⟨List.range state.corpus.members.length, [], none⟩ hbegun
    exact hroster hturns rfl

end Corpus

end

end SnippetTrail
