import SnippetTrail.Daemon.Run
import SnippetTrail.Proofs.Checkout
import SnippetTrail.Proofs.Frame

/-!
# Repositories are registered once

What is known is what the members are called, and no two members are called the same
(`Daemon.Tidy`). Every attempt to track a repository keeps this, and nothing else that the daemon
does touches either. So no repository is registered twice, and a call of `trackNew` settles its entries:
each of them whose snippets are asked for is registered, or was tried in vain in the course of the call,
whether nothing else happens meanwhile (`Daemon.Tidy.settles_call`) or the rest of the daemon goes on
(`Daemon.Tracks.settles`). `Daemon.registers_once` says this of every run.
-/

namespace SnippetTrail.Daemon

variable {σ : Type}

-- ---------------------------------------------------------------------------
-- What is registered
-- ---------------------------------------------------------------------------

def registered (state : DaemonState σ) : List TrackedRepository :=
  state.corpus.members.map (·.tracked)

def names (state : DaemonState σ) : List String := (registered state).map (·.display)

/-- Both are as before; the machine and all else may have changed. -/
def Aside (before after : DaemonState σ) : Prop :=
  registered after = registered before ∧ after.machine.known = before.machine.known

/-- What is known are the names of the members, and these are distinct. -/
structure Tidy (state : DaemonState σ) : Prop where
  nodup : (names state).Nodup
  known : ∀ name, name ∈ state.machine.known ↔ name ∈ names state

section
variable {state after : DaemonState σ}

theorem Aside.refl (state : DaemonState σ) : Aside state state := ⟨rfl, rfl⟩

theorem Tidy.aside (h : Tidy state) (ha : Aside state after) : Tidy after := by
  obtain ⟨hregistered, hknown⟩ := ha
  have hnames : names after = names state := congrArg (List.map _) hregistered
  constructor
  · rw [hnames]
    exact h.nodup
  · rw [hnames, hknown]
    exact h.known

structure Joins (tracked : TrackedRepository) (before after : DaemonState σ) : Prop where
  registered : ∃ branch, registered after = registered before ++ [{ tracked with branch }]
  known : after.machine.known = tracked.display :: before.machine.known

theorem Joins.names {tracked : TrackedRepository} (h : Joins tracked state after) :
    names after = names state ++ [tracked.display] := by
  obtain ⟨branch, hregistered⟩ := h.registered
  rw [Daemon.names, hregistered, List.map_append]
  rfl

theorem Tidy.joins {tracked : TrackedRepository} (h : Tidy state)
    (hn : tracked.display ∉ state.machine.known) (hj : Joins tracked state after) : Tidy after := by
  constructor
  · rw [hj.names, ← List.concat_eq_append]
    refine h.nodup.concat ?_
    rwa [← h.known]
  · intro name
    rw [hj.names, hj.known, List.mem_cons, h.known, List.mem_append, List.mem_singleton, or_comm]

end

-- ---------------------------------------------------------------------------
-- One repository
-- ---------------------------------------------------------------------------

section
variable {host : Host σ} {tracked : TrackedRepository} {state : DaemonState σ}

theorem desk_leaves (host : Host σ) : (Desk.host host).Leaves Desk.known where
  run _ _ _ := rfl
  callOff _ _ := rfl
  enter _ _ := rfl
  createFolders _ _ := rfl
  removeFolder _ _ := rfl

theorem track_ends (host : Host σ) (tracked : TrackedRepository) (state : DaemonState σ) :
    (track host tracked).Ends state
      (fun done after => done = tracked.tracksSnippets ∧
        if done then Joins tracked state (remember tracked.display after) else Aside state after)
      (fun _ after => Aside state after) := by
  unfold track Corpus.track
  split
  case isFalse htracks => exact Act.ends_pure ⟨by simpa using htracks, Aside.refl state⟩
  case isTrue htracks =>
    have hends : (Corpus.trackAt (Desk.host host) (fun watched => watched) scope tracked
        tracked.url).Ends state
        (fun _ after => Joins tracked state (remember tracked.display after))
        (fun _ after => Aside state after) := by
      refine (Corpus.trackAt_ends (desk_leaves host) _ tracked tracked.url state).mono ?_ ?_
      · rintro _ after ⟨repository, branch, hafter⟩
        obtain ⟨hcorpus, hknown⟩ := Prod.mk.inj hafter
        refine ⟨⟨branch, ?_⟩, congrArg (tracked.display :: ·) hknown⟩
        show after.corpus.members.map (·.tracked) = _
        rw [hcorpus]
        exact List.map_append
      · intro error after hafter
        obtain ⟨hcorpus, hknown⟩ := Prod.mk.inj hafter
        exact ⟨by rw [registered, hcorpus, registered], hknown⟩
    exact hends.bind fun _ after hj => Act.ends_pure ⟨htracks.symm, hj⟩

/-- The repository is not known, and tracking it fails. -/
def Fails (host : Host σ) (tracked : TrackedRepository) (state : DaemonState σ) : Prop :=
  tracked.display ∉ state.machine.known ∧ ∃ error, (track host tracked state).1 = .error error

theorem trackNew_single (host : Host σ) (tracked : TrackedRepository) (state : DaemonState σ) :
    (tracked.display ∉ state.machine.known ∧ tracked.tracksSnippets = true ∧
      Joins tracked state (trackNew host [tracked] state)) ∨
    ((tracked.tracksSnippets = true → tracked.display ∈ state.machine.known ∨ Fails host tracked state) ∧
      Aside state (trackNew host [tracked] state)) := by
  by_cases hknown : tracked.display ∈ state.machine.known
  · rw [trackNew, if_pos hknown]
    exact .inr ⟨fun _ => .inl hknown, Aside.refl state⟩
  have hends := track_ends host tracked state
  rw [trackNew, if_neg hknown]
  unfold Act.Ends at hends
  rcases hrun : track host tracked state with ⟨error | done, after⟩ <;> rw [hrun] at hends
  · exact .inr ⟨fun _ => .inr ⟨hknown, error, congrArg Prod.fst hrun⟩, hends⟩
  · obtain ⟨hdone, hafter⟩ := hends
    cases done with
    | true => exact .inl ⟨hknown, hdone.symm, hafter⟩
    | false => exact .inr ⟨fun htracks => by simp [htracks] at hdone, hafter⟩

theorem trackNew_cons (host : Host σ) (tracked : TrackedRepository) (rest : List TrackedRepository)
    (state : DaemonState σ) :
    trackNew host (tracked :: rest) state = trackNew host rest (trackNew host [tracked] state) := by
  simp only [trackNew]
  split
  · rfl
  · split <;> rfl

theorem Tidy.single (h : Tidy state) : Tidy (trackNew host [tracked] state) := by
  rcases trackNew_single host tracked state with ⟨hn, -, hj⟩ | ⟨-, ha⟩
  · exact h.joins hn hj
  · exact h.aside ha

theorem Tidy.listed_single (h : Tidy state) (htracks : tracked.tracksSnippets = true) :
    tracked.display ∈ names (trackNew host [tracked] state) ∨ Fails host tracked state := by
  rcases trackNew_single host tracked state with ⟨-, -, hj⟩ | ⟨hknown, ha⟩
  · exact .inl (by simp [hj.names])
  · refine (hknown htracks).imp_left fun hm => ?_
    rwa [names, ha.1, ← names, ← h.known]

theorem trackNew_append (host : Host σ) (done rest : List TrackedRepository) (state : DaemonState σ) :
    trackNew host (done ++ rest) state = trackNew host rest (trackNew host done state) := by
  induction done generalizing state with
  | nil => rfl
  | cons tracked done ih => rw [List.cons_append, trackNew_cons, ih, ← trackNew_cons]

end

-- ---------------------------------------------------------------------------
-- One call
-- ---------------------------------------------------------------------------

/-- A call of `trackNew` takes one entry after the other, while the rest of the daemon goes on. -/
inductive Tracks (host : Host σ) : List TrackedRepository → DaemonState σ → DaemonState σ → Prop
  | done {state : DaemonState σ} : Tracks host [] state state
  | next {tracked : TrackedRepository} {rest : List TrackedRepository} {state after : DaemonState σ}
      (h : Tracks host rest (trackNew host [tracked] state) after) :
      Tracks host (tracked :: rest) state after
  | aside {entries : List TrackedRepository} {state middle after : DaemonState σ}
      (ha : Aside state middle) (h : Tracks host entries middle after) : Tracks host entries state after

section
variable {host : Host σ} {entries : List TrackedRepository} {before after : DaemonState σ}

theorem trackNew_tracks (host : Host σ) (entries : List TrackedRepository) (state : DaemonState σ) :
    Tracks host entries state (trackNew host entries state) := by
  induction entries generalizing state with
  | nil => exact .done
  | cons tracked rest ih =>
    rw [trackNew_cons]
    exact .next (ih _)

theorem Tracks.split {done rest : List TrackedRepository} {entry : TrackedRepository}
    (h : Tracks host (done ++ entry :: rest) before after) :
    ∃ state, Tracks host done before state ∧ Tracks host rest (trackNew host [entry] state) after := by
  generalize hentries : done ++ entry :: rest = entries at h
  induction h generalizing done with
  | done => cases done <;> cases hentries
  | @next _ _ state _ h ih =>
    cases done with
    | nil =>
      cases hentries
      exact ⟨state, .done, h⟩
    | cons first done =>
      cases hentries
      obtain ⟨state, hdone, hrest⟩ := ih rfl
      exact ⟨state, .next hdone, hrest⟩
  | aside ha _ ih =>
    obtain ⟨state, hdone, hrest⟩ := ih hentries
    exact ⟨state, .aside ha hdone, hrest⟩

theorem Tracks.tidy (h : Tracks host entries before after) (ht : Tidy before) : Tidy after := by
  induction h with
  | done => exact ht
  | next _ ih => exact ih ht.single
  | aside ha _ ih => exact ih (ht.aside ha)

/-- The new members are entries whose snippets are asked for. -/
def Grows (entries : List TrackedRepository) (before after : DaemonState σ) : Prop :=
  ∃ added, registered after = registered before ++ added ∧
    ∀ tracked ∈ added, tracked.tracksSnippets = true ∧
      ∃ entry ∈ entries, ∃ branch, tracked = { entry with branch }

theorem Grows.names (h : Grows entries before after) {name : String} (hm : name ∈ names before) :
    name ∈ names after := by
  obtain ⟨added, hregistered, -⟩ := h
  rw [Daemon.names, hregistered, List.map_append]
  exact List.mem_append_left _ hm

theorem Grows.aside {middle : DaemonState σ} (ha : Aside before middle)
    (h : Grows entries middle after) : Grows entries before after := by
  rwa [Grows, ← ha.1]

theorem Grows.single {tracked : TrackedRepository} {rest : List TrackedRepository}
    (h : Grows rest (trackNew host [tracked] before) after) : Grows (tracked :: rest) before after := by
  obtain ⟨added, hregistered, hadded⟩ := h
  have hrest : ∀ new ∈ added, new.tracksSnippets = true ∧
      ∃ entry ∈ tracked :: rest, ∃ branch, new = { entry with branch } := by
    intro new hnew
    obtain ⟨htracks, entry, hentry, hbranch⟩ := hadded new hnew
    exact ⟨htracks, entry, List.mem_cons_of_mem _ hentry, hbranch⟩
  rcases trackNew_single host tracked before with ⟨-, htracks, ⟨branch, hjoined⟩, -⟩ | ⟨-, ha⟩
  · refine ⟨{ tracked with branch } :: added, ?_, ?_⟩
    · rw [hregistered, hjoined, List.append_assoc, List.singleton_append]
    · rintro new (_ | ⟨_, hnew⟩)
      · exact ⟨htracks, tracked, List.mem_cons_self, branch, rfl⟩
      · exact hrest new hnew
  · exact ⟨added, ha.1 ▸ hregistered, hrest⟩

theorem Tracks.grows (h : Tracks host entries before after) : Grows entries before after := by
  induction h with
  | done => exact ⟨[], by simp⟩
  | next _ ih => exact ih.single
  | aside ha _ ih => exact ih.aside ha

/-- Between the two states a call of `trackNew` has settled its entries: nothing is registered twice, what
is known are the names of the members, those that are new are entries whose snippets are asked for, and
each of these entries has a member by its name or was tried in vain. `Within done state` says that the
call came to the state when it had dealt with the entries `done`. -/
structure Settles (host : Host σ) (Within : List TrackedRepository → DaemonState σ → Prop)
    (entries : List TrackedRepository) (before after : DaemonState σ) : Prop where
  tidy : Tidy after
  grows : Grows entries before after
  listed : ∀ done entry rest, entries = done ++ entry :: rest → entry.tracksSnippets = true →
    entry.display ∈ names after ∨ ∃ state, Within done state ∧ Fails host entry state

def CallSettles (host : Host σ) (entries : List TrackedRepository) (before : DaemonState σ) : Prop :=
  Settles host (fun done state => state = trackNew host done before) entries before
    (trackNew host entries before)

theorem Tidy.settles_call (h : Tidy before) : CallSettles host entries before where
  tidy := (trackNew_tracks host entries before).tidy h
  grows := (trackNew_tracks host entries before).grows
  listed := by
    rintro done entry rest rfl htracks
    have hdone := (trackNew_tracks host done before).tidy h
    rw [trackNew_append, trackNew_cons]
    exact (hdone.listed_single htracks).imp (trackNew_tracks host rest _).grows.names
      fun hfails => ⟨_, rfl, hfails⟩

end

-- ---------------------------------------------------------------------------
-- Runs
-- ---------------------------------------------------------------------------

def start (config : Config) (machine : σ) : DaemonState σ :=
  ⟨Corpus.new (CorpusOptions.ofConfig config), ⟨none, [], machine⟩⟩

structure Call (σ : Type) where
  entries : List TrackedRepository
  before : DaemonState σ
  after : DaemonState σ

/-- On its way through the call the daemon came to the state, with these entries dealt with. -/
def Call.Within (host : Host σ) (call : Call σ) (done : List TrackedRepository)
    (state : DaemonState σ) : Prop :=
  ∃ entry rest, call.entries = done ++ entry :: rest ∧ Tracks host done call.before state ∧
    Tracks host rest (trackNew host [entry] state) call.after

/-- A run of the daemon up to a state, with the calls in it. Between them the list may be read again and
again, and members may be updated at any time. -/
inductive Run (host : Host σ) (options : Options) (config : Config) :
    List (Call σ) → DaemonState σ → Prop
  | begun (machine : σ) :
      Run host options config [] (trackGiven host options (start config machine)).2
  | aside {calls : List (Call σ)} {state after : DaemonState σ} (h : Run host options config calls state)
      (ha : Aside state after) : Run host options config calls after
  | called {calls : List (Call σ)} {list : RepositoryList} {state after : DaemonState σ}
      (h : Run host options config calls state) (hlist : state.machine.list = some list)
      (ht : Tracks host list.repositories state after) :
      Run host options config (calls ++ [⟨list.repositories, state, after⟩]) after

def IsGiven (options : Options) (tracked : TrackedRepository) : Prop :=
  options.owner = some tracked.owner ∧ options.repository = some tracked.name

section
variable {host : Host σ} {options : Options} {config : Config} {calls : List (Call σ)}
  {state after : DaemonState σ}

theorem trackGiven_ends (host : Host σ) (options : Options) (state : DaemonState σ) :
    (trackGiven host options).Ends state
      (fun _ after => Aside state after ∨ ∃ tracked : TrackedRepository,
        tracked.tracksSnippets = true ∧ IsGiven options tracked ∧ Joins tracked state after)
      (fun _ after => Aside state after) := by
  unfold trackGiven
  split
  case h_1 owner name howner hname =>
    refine ((track_ends host _ state).mapError.mono (fun _ _ h => h) ?_).bind ?_
    · rintro _ after ⟨error, -, ha⟩
      exact ha
    rintro done after ⟨rfl, hjoins⟩
    exact Act.ends_modify (.inr ⟨_, rfl, ⟨howner, hname⟩, hjoins⟩)
  case h_2 => exact Act.ends_pure (.inl (Aside.refl state))

/-- The repository of the command line is the only member, or there is none. -/
theorem trackGiven_left (host : Host σ) (options : Options) (config : Config) (machine : σ) :
    Tidy (trackGiven host options (start config machine)).2 ∧
      ∀ tracked ∈ registered (trackGiven host options (start config machine)).2,
        tracked.tracksSnippets = true ∧ IsGiven options tracked := by
  have hstart : Tidy (start config machine) := ⟨List.nodup_nil, fun _ => Iff.rfl⟩
  have haside {after : DaemonState σ} (ha : Aside (start config machine) after) : Tidy after ∧
      ∀ tracked ∈ registered after, tracked.tracksSnippets = true ∧ IsGiven options tracked := by
    refine ⟨hstart.aside ha, ?_⟩
    rw [ha.1]
    exact fun _ => nofun
  refine ((trackGiven_ends host options (start config machine)).mono ?_ fun _ _ => haside).always
  rintro _ after (ha | ⟨given, htracks, hgiven, hj⟩)
  · exact haside ha
  · refine ⟨hstart.joins List.not_mem_nil hj, ?_⟩
    obtain ⟨branch, hregistered⟩ := hj.registered
    rw [hregistered]
    intro tracked hm
    obtain rfl := List.mem_singleton.mp hm
    exact ⟨htracks, hgiven⟩

theorem Run.tidy (h : Run host options config calls state) : Tidy state := by
  induction h with
  | begun machine => exact (trackGiven_left host options config machine).1
  | aside _ ha ih => exact ih.aside ha
  | called _ _ ht ih => exact ht.tidy ih

theorem Run.origin (h : Run host options config calls state) :
    ∀ tracked ∈ registered state, tracked.tracksSnippets = true ∧
      (IsGiven options tracked ∨
        ∃ call ∈ calls, ∃ entry ∈ call.entries, ∃ branch, tracked = { entry with branch }) := by
  induction h with
  | begun machine =>
    intro tracked hm
    obtain ⟨htracks, hgiven⟩ := (trackGiven_left host options config machine).2 tracked hm
    exact ⟨htracks, .inl hgiven⟩
  | aside _ ha ih => rwa [ha.1]
  | called _ _ ht ih =>
    obtain ⟨added, hregistered, hadded⟩ := ht.grows
    rw [hregistered]
    intro tracked hm
    rcases List.mem_append.mp hm with hm | hm
    · obtain ⟨htracks, horigin⟩ := ih tracked hm
      refine ⟨htracks, horigin.imp_right ?_⟩
      rintro ⟨call, hcall, hentry⟩
      exact ⟨call, List.mem_append_left _ hcall, hentry⟩
    · obtain ⟨htracks, hentry⟩ := hadded tracked hm
      exact ⟨htracks, .inr ⟨_, List.mem_append_right _ (List.mem_singleton_self _), hentry⟩⟩

theorem Tracks.settles {entries : List TrackedRepository} (h : Tracks host entries state after)
    (ht : Tidy state) : Settles host (Call.Within host ⟨entries, state, after⟩) entries state after where
  tidy := h.tidy ht
  grows := h.grows
  listed := by
    rintro done entry rest rfl htracks
    obtain ⟨middle, hdone, hrest⟩ := h.split
    exact ((hdone.tidy ht).listed_single htracks).imp hrest.grows.names
      fun hfails => ⟨middle, ⟨entry, rest, rfl, hdone, hrest⟩, hfails⟩

theorem Run.settles (h : Run host options config calls state) :
    ∀ call ∈ calls, Settles host (call.Within host) call.entries call.before call.after := by
  induction h with
  | begun => simp
  | aside _ _ ih => exact ih
  | called h _ ht ih =>
    intro call hm
    rcases List.mem_append.mp hm with hm | hm
    · exact ih call hm
    · obtain rfl := List.mem_singleton.mp hm
      exact ht.settles h.tidy

def Reached (host : Host σ) (options : Options) (config : Config) (state : DaemonState σ) : Prop :=
  ∃ calls, Run host options config calls state

theorem Reached.aside (h : Reached host options config state) (ha : Aside state after) :
    Reached host options config after := by
  obtain ⟨calls, hrun⟩ := h
  exact ⟨calls, hrun.aside ha⟩

/-- The list has been read again, and holds what was found. -/
def holding (list : RepositoryList) (state : DaemonState σ) : DaemonState σ :=
  { state with machine := { state.machine with list := some list } }

theorem holding_aside (list : RepositoryList) (state : DaemonState σ) :
    Aside state (holding list state) := ⟨rfl, rfl⟩

theorem readList_eq {list fresh : RepositoryList} {outcome : Except CorpusError Bool}
    (h : list.update host state.machine.machine = (outcome, fresh)) :
    readList host list state = (outcome, fresh.repositories, holding fresh state) := by
  rw [readList, h]
  rfl

theorem refresh_eq {list fresh : RepositoryList} {outcome : Except CorpusError Bool}
    (hlist : state.machine.list = some list)
    (h : list.update host state.machine.machine = (outcome, fresh)) :
    refresh host state = if outcome = .ok true then trackNew host fresh.repositories (holding fresh state)
      else holding fresh state := by
  simp only [refresh, hlist, readList_eq h]
  split
  case h_1 hread =>
    cases hread
    rfl
  case h_2 hne hread =>
    cases hread
    exact (if_neg hne).symm

theorem Reached.holding (h : Reached host options config state) (list : RepositoryList) :
    Reached host options config (holding list state) := h.aside (holding_aside list state)

theorem Reached.reread (h : Reached host options config state) (list : RepositoryList) :
    Reached host options config (trackNew host list.repositories (Daemon.holding list state)) := by
  obtain ⟨calls, hrun⟩ := h
  exact ⟨_, (hrun.aside (holding_aside list state)).called rfl (trackNew_tracks host _ _)⟩

theorem Reached.refresh (h : Reached host options config state) :
    Reached host options config (refresh host state) := by
  cases hlist : state.machine.list with
  | none =>
    rw [Daemon.refresh, hlist]
    exact h
  | some list =>
    rcases hupdate : list.update host state.machine.machine with ⟨outcome, fresh⟩
    rw [refresh_eq hlist hupdate]
    split
    · exact h.reread fresh
    · exact h.holding fresh

theorem Reached.trackListed (h : Reached host options config state) :
    Reached host options config (trackListed host config state).2 := by
  unfold Daemon.trackListed
  cases config.corpus.listFile with
  | none => exact h
  | some path =>
    rcases hupdate : (RepositoryList.new path).update host state.machine.machine with ⟨error | new, fresh⟩
    · simp only [readList_eq hupdate]
      exact h.holding fresh
    · simp only [readList_eq hupdate]
      exact h.reread fresh

theorem updates_leave (host : Host σ) (group : Scope) (place : Nat) :
    (updateWatched (Desk.host host) group place).Leaves (Corpus.roster Desk.known) :=
  updateWatched_leaves (desk_leaves host) place

theorem runWith_reached (host : Host σ) (fuel : Nat) (options : Options) (config : Config)
    (machine : σ) :
    Reached host options config (runWith host fuel options config (start config machine)).2 := by
  have hroster {state after : DaemonState σ} (h : Reached host options config state)
      (ha : Corpus.roster Desk.known after = Corpus.roster Desk.known state) :
      Reached host options config after := h.aside (Prod.mk.inj ha)
  have hgiven : Reached host options config (trackGiven host options (start config machine)).2 :=
    ⟨[], .begun machine⟩
  refine Act.Ends.always (Act.Ends.bind (Act.ends_of_left hgiven) fun _ given hg => ?_)
  refine (Act.ends_of_left hg.trackListed).bind fun _ listed hl => Act.ends_get_bind ?_
  split
  · exact Act.ends_throw hl
  dsimp only
  refine Act.Ends.bind (Act.ends_of_left (hroster hl ?_)) fun _ prepared hp => Act.ends_of_left ?_
  · exact (Corpus.prepare_leaves (updates_leave host scope)).mapError Failure.service listed
  rw [Act.mapError_left]
  exact Corpus.sync_keeps (desk_leaves host) (updates_leave host) hroster Reached.refresh fuel hp

/-- The calls of `trackNew` that the daemon makes in this state. A poll makes one if the list has
changed, and the first reading of the list makes one if it succeeds. -/
structure CallsSettle (host : Host σ) (config : Config) (state : DaemonState σ) : Prop where
  call : ∀ entries, CallSettles host entries state
  changed : ∀ list fresh, state.machine.list = some list →
    list.update host state.machine.machine = (.ok true, fresh) →
      refresh host state = trackNew host fresh.repositories (holding fresh state) ∧
        CallSettles host fresh.repositories (holding fresh state)
  unchanged : ∀ list, state.machine.list = some list →
    (list.update host state.machine.machine).1 ≠ .ok true → Aside state (refresh host state)
  listed : ∀ path new fresh, config.corpus.listFile = some path →
    (RepositoryList.new path).update host state.machine.machine = (.ok new, fresh) →
      trackListed host config state =
          (.ok (), trackNew host fresh.repositories (holding fresh state)) ∧
        CallSettles host fresh.repositories (holding fresh state)

theorem Tidy.calls_settle (h : Tidy state) : CallsSettle host config state where
  call _ := h.settles_call
  changed list fresh hlist hupdate := by
    refine ⟨?_, (h.aside (holding_aside fresh state)).settles_call⟩
    rw [refresh_eq hlist hupdate, if_pos rfl]
  unchanged list hlist hne := by
    rcases hupdate : list.update host state.machine.machine with ⟨outcome, fresh⟩
    rw [hupdate] at hne
    rw [refresh_eq hlist hupdate, if_neg hne]
    exact holding_aside fresh state
  listed path new fresh hpath hupdate := by
    refine ⟨?_, (h.aside (holding_aside fresh state)).settles_call⟩
    simp only [trackListed, hpath, readList_eq hupdate]

/-- What the daemon does is a run. However the list changes in a run and whichever clones fail, no two
members are called the same, each of them is the repository of the command line or was an entry whose
snippets were asked for, and each call of `trackNew` settles its entries. -/
theorem registers_once (host : Host σ) (options : Options) (config : Config) :
    (∀ fuel machine, Reached host options config
      (runWith host fuel options config (start config machine)).2) ∧
    ∀ calls state, Run host options config calls state →
      (names state).Nodup ∧
      (∀ tracked ∈ registered state, tracked.tracksSnippets = true ∧
        (IsGiven options tracked ∨
          ∃ call ∈ calls, ∃ entry ∈ call.entries, ∃ branch, tracked = { entry with branch })) ∧
      (∀ call ∈ calls, Settles host (call.Within host) call.entries call.before call.after) ∧
      CallsSettle host config state :=
  ⟨fun fuel machine => runWith_reached host fuel options config machine,
    fun _ _ hrun => ⟨hrun.tidy.nodup, hrun.origin, hrun.settles, hrun.tidy.calls_settle⟩⟩

end

end SnippetTrail.Daemon

namespace SnippetTrail.Sample

def listText : String :=
  "\x7b\"repos\": [\x7b\"repo\": \"o/r\", \"is_tracking_snippets\": true\x7d, " ++
    "\x7b\"repo\": \"c/d\"\x7d, " ++
    "\x7b\"repo\": \"a/b\", \"is_tracking_snippets\": true\x7d, " ++
    "\x7b\"repo\": \"a/b\", \"is_tracking_snippets\": true\x7d]\x7d"

def town : Host Desk :=
  { Desk.host with
    read := fun _ _ => .ok (Text.Utf8.encode listText.toList)
    kind := fun _ _ => .error .notFound
    createFolders := fun _ desk => (.ok (), desk) }

def given : Options := { Options.none with owner := some "o", repository := some "r" }

def townSettings : Config :=
  ⟨⟨"git", "bash", "origin"⟩, ⟨30, "clones", some "list.json", none⟩, ⟨false, false⟩⟩

def twice : TrackedRepository := ⟨"a", "b", false, true, ""⟩

def entries : List TrackedRepository :=
  [⟨"o", "r", false, true, ""⟩, ⟨"c", "d", false, false, ""⟩, twice, twice]

/-- The list was empty when it was read, and the next two clones will fail. -/
def opened : DaemonState Desk :=
  let state := (Daemon.trackGiven town given (Daemon.start townSettings
    ⟨[], [succeeds "", fails, fails, succeeds ""]⟩)).2
  { state with machine := { state.machine with list := some ⟨"list.json", []⟩ } }

def reread : DaemonState Desk := Daemon.holding ⟨"list.json", entries⟩ opened

def refused : DaemonState Desk := Daemon.trackNew town entries reread

def retried : DaemonState Desk := Daemon.trackNew town entries refused

end SnippetTrail.Sample

namespace SnippetTrail.Daemon

theorem registers_once_retried :
    Run Sample.town Sample.given Sample.townSettings
      [⟨Sample.entries, Sample.reread, Sample.refused⟩, ⟨Sample.entries, Sample.refused, Sample.retried⟩]
      Sample.retried ∧
    refresh Sample.town Sample.opened = Sample.refused ∧ names Sample.refused = ["o/r"] ∧
    Fails Sample.town Sample.twice (trackNew Sample.town (Sample.entries.take 2) Sample.reread) ∧
    names Sample.retried = ["o/r", "a/b"] ∧ (names Sample.retried).Nodup := by
  have hopened : Run Sample.town Sample.given Sample.townSettings [] Sample.opened :=
    .aside (.begun _) ⟨rfl, rfl⟩
  have hupdate : RepositoryList.update Sample.town ⟨"list.json", []⟩ Sample.opened.machine.machine =
      (.ok true, ⟨"list.json", Sample.entries⟩) := by decide +kernel
  obtain ⟨-, -, -, hcalls⟩ :=
    (registers_once Sample.town Sample.given Sample.townSettings).2 _ _ hopened
  obtain ⟨hrefresh, hsettles⟩ := hcalls.changed _ _ rfl hupdate
  have hnames : names Sample.refused = ["o/r"] ∧ names Sample.retried = ["o/r", "a/b"] ∧
      Sample.refused.machine.list = some ⟨"list.json", Sample.entries⟩ := by decide +kernel
  obtain ⟨hrefused, hretried, hlist⟩ := hnames
  have hrun : Run Sample.town Sample.given Sample.townSettings _ Sample.retried :=
    ((hopened.aside (holding_aside ⟨"list.json", Sample.entries⟩ _)).called rfl
      (trackNew_tracks _ _ _)).called hlist (trackNew_tracks _ _ _)
  obtain ⟨hnodup, -, -, -⟩ :=
    (registers_once Sample.town Sample.given Sample.townSettings).2 _ _ hrun
  have hfails := (hsettles.listed (Sample.entries.take 2) Sample.twice [Sample.twice] rfl rfl).resolve_left (by
    show ¬_ ∈ names Sample.refused
    rw [hrefused]
    decide)
  obtain ⟨_, rfl, hfails⟩ := hfails
  exact ⟨hrun, hrefresh, hrefused, hfails, hretried, hnodup⟩

end SnippetTrail.Daemon
