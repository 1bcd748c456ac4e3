import SnippetTrail.Proofs.Update

/-!
# What a failed update leaves behind

An update that fetches new objects and then fails leaves the old results, and the next fetch brings
nothing. `madeUp_iff` says when an update that succeeds leaves results older than what was fetched:
after such a failure, if the fetch is silent and there are results from before.
-/

namespace SnippetTrail

theorem insertEntry_ne_nil {α : Type} (key : String) (value : α) (entries : List (String × α)) :
    insertEntry key value entries ≠ [] := by
  cases entries with
  | nil => simp [insertEntry]
  | cons head rest =>
    unfold insertEntry
    split
    · simp
    · split <;> simp

namespace WatchedRepository

variable {σ : Type}

-- ---------------------------------------------------------------------------
-- How an update goes
-- ---------------------------------------------------------------------------

def HasResults (watched : WatchedRepository) : Prop := watched.snippets.entries ≠ []

namespace Round

section
variable (host : Host σ) (round : Round σ)

def fetched : Except ServiceError Transfer :=
  (onClone (Repository.fetch host round.scope) round.state).1

def Brings : Prop := round.fetched host = .ok .updated

def IsSilent : Prop := round.fetched host = .ok .upToDate

def Succeeds : Prop := round.outcome host = .ok ()

/-- The followed branch was pulled, and what is listed under its name was analysed and stored. -/
def Recomputes : Prop :=
  round.Succeeds host ∧ ∃ task, (findTask host round.scope round.state).1 = .ok (some task)

def Stores : Prop := (round.after host).watched.snippets ≠ round.state.watched.snippets

end

end Round

section
variable {host : Host σ} {scope : Scope} {state : Watching σ} {round : Round σ}

theorem findTask_run (host : Host σ) (scope : Scope) (state : Watching σ) :
    findTask host scope state = match onClone (Repository.fetch host scope) state with
      | (.error error, fetched) => (.error error, fetched)
      | (.ok transfer, fetched) =>
        if transfer == .upToDate && !fetched.watched.snippets.entries.isEmpty then
          (.ok none, fetched)
        else match openTask host scope fetched with
          | (.ok task, start) => (.ok (some task), start)
          | (.error error, start) => (.error error, start) := by
  unfold findTask
  rw [Act.run_bind]
  rcases onClone (Repository.fetch host scope) state with ⟨error | transfer, fetched⟩
  · rfl
  show (if transfer == .upToDate && !fetched.watched.snippets.entries.isEmpty then pure none
    else openTask host scope >>= fun task => pure (some task) : WatchingAct σ (Option Task))
      fetched = _
  dsimp only
  split
  · rfl
  · rw [Act.run_bind]
    rcases openTask host scope fetched with ⟨error | task, start⟩ <;> rfl

theorem findTask_none {start : Watching σ} (h : findTask host scope state = (.ok none, start)) :
    (onClone (Repository.fetch host scope) state).1 = .ok .upToDate ∧ state.watched.HasResults := by
  have hkept := keeps_onClone (Repository.fetch host scope) state
  rw [findTask_run] at h
  rcases hfetch : onClone (Repository.fetch host scope) state with ⟨error | transfer, fetched⟩ <;>
    rw [hfetch] at h hkept
  · cases h
  dsimp only at h
  split at h
  · rename_i hsettled
    obtain ⟨htransfer, hentries⟩ := Bool.and_eq_true_iff.mp hsettled
    rw [hkept.snippets] at hentries
    exact ⟨by rw [beq_iff_eq.mp htransfer], by simpa [HasResults] using hentries⟩
  · rcases hopen : openTask host scope fetched with ⟨error | task, last⟩ <;>
      rw [hopen] at h <;> cases h

/-- An update that succeeds recomputes the results, or it is silent and there are some. -/
theorem Round.Succeeds.cases (h : round.Succeeds host) :
    round.Recomputes host ∨ (round.IsSilent host ∧ round.state.watched.HasResults) := by
  rcases hfind : findTask host round.scope round.state with ⟨error | _ | task, start⟩
  · unfold Succeeds outcome at h
    rw [update_run, hfind] at h
    cases h
  · exact .inr (findTask_none hfind)
  · exact .inl ⟨h, task, by rw [hfind]⟩

theorem Round.Brings.not_silent (h : round.Brings host) : ¬round.IsSilent host := by
  intro hsilent
  cases h.symm.trans hsilent

end

-- ---------------------------------------------------------------------------
-- Results stay
-- ---------------------------------------------------------------------------

theorem Kept.hasResults {a b : WatchedRepository} (h : a.Kept b) (ha : a.HasResults) :
    b.HasResults := by
  unfold HasResults
  rwa [h.snippets]

section
variable {state : Watching σ} (host : Host σ)

theorem analyse_hasResults (group : Scope) (reference : Reference) (h : state.watched.HasResults) :
    (analyse host group reference state).2.watched.HasResults := by
  have hends : (analyse host group reference).Ends state (fun _ after => after.watched.HasResults)
      fun _ after => after.watched.HasResults := by
    refine (analyse_ends host group reference state).mono ?_ fun _ after hkept => hkept.hasResults h
    rintro done after ⟨-, snippets, -, hsnippets, -⟩
    unfold HasResults
    rw [hsnippets]
    exact insertEntry_ne_nil _ _ _
  exact hends.always

theorem analyseAll_hasResults (group : Scope) (references : List Reference)
    (h : state.watched.HasResults) :
    (analyseAll host group references state).2.watched.HasResults := by
  induction references generalizing state with
  | nil => exact h
  | cons reference rest ih =>
    have hfirst := analyse_hasResults host group reference h
    unfold analyseAll
    rcases hrun : analyse host group reference state with ⟨error | done, after⟩ <;>
      rw [hrun] at hfirst
    · exact ih hfirst
    · have hrest := ih hfirst
      dsimp only at hrest ⊢
      rcases hall : analyseAll host group rest after with ⟨error | others, last⟩ <;>
        rw [hall] at hrest <;> exact hrest

theorem renew_hasResults (task : Task) (h : state.watched.HasResults) :
    (renew host task state).2.watched.HasResults := by
  have hall := analyseAll_hasResults host task.group task.followed h
  unfold renew
  rw [Act.run_bind]
  rcases hrun : analyseAll host task.group task.followed state with ⟨error | done, after⟩ <;>
    rw [hrun] at hall <;> exact hall

theorem update_hasResults (scope : Scope) (h : state.watched.HasResults) :
    (update host scope state).2.watched.HasResults := by
  have hstart := (@findTask_keeps _ host scope state).hasResults h
  rw [update_run]
  rcases hfind : findTask host scope state with ⟨error | _ | task, start⟩ <;> rw [hfind] at hstart
  · exact hstart
  · exact hstart
  · exact renew_hasResults host task hstart

theorem hasResults_of_ne {a b : WatchedRepository} (h : b.snippets ≠ a.snippets)
    (hmono : a.HasResults → b.HasResults) : b.HasResults := by
  obtain ⟨_, _, _, _, ⟨entries, _⟩, _⟩ := a
  obtain ⟨_, _, _, _, ⟨others, _⟩, _⟩ := b
  intro hempty
  have hbefore : entries = [] := by
    by_contra hne
    exact hmono hne hempty
  dsimp only at hempty h
  subst hempty hbefore
  exact h rfl

theorem Rounds.hasResults {repository : Repository} {tracked : TrackedRepository} {remote : String}
    {rounds : List (Round σ)} {last : WatchedRepository}
    (h : Rounds host (new repository tracked remote) rounds last) :
    last.HasResults ↔ ∃ round ∈ rounds, round.Stores host := by
  induction h with
  | nil => simp [HasResults, new, Table.empty]
  | @snoc earlier watched _ scope machine ih =>
    have hmono : watched.HasResults →
        (Round.after host ⟨scope, watched, machine⟩).watched.HasResults :=
      @update_hasResults _ ⟨watched, machine⟩ host scope
    simp only [List.mem_append, List.mem_singleton, or_and_right, exists_or, exists_eq_left, ← ih]
    constructor
    · intro hafter
      by_contra hnot
      obtain ⟨hbefore, hsame⟩ := not_or.mp hnot
      rw [Round.Stores, not_not] at hsame
      unfold HasResults at hafter hbefore
      exact hbefore (hsame ▸ hafter)
    · rintro (hbefore | hstores)
      · exact hmono hbefore
      · exact hasResults_of_ne hstores hmono

end

-- ---------------------------------------------------------------------------
-- What is made up for
-- ---------------------------------------------------------------------------

section
variable (host : Host σ)

/-- Every update that brought new objects recomputed the results, or a later one did. -/
def MadeUp (rounds : List (Round σ)) : Prop :=
  ∀ before fetching since, rounds = before ++ fetching :: since → fetching.Brings host →
    ∃ round ∈ fetching :: since, round.Recomputes host

/-- An update brought new objects and failed, and none has recomputed the results since. -/
def Owes (rounds : List (Round σ)) : Prop :=
  ∃ before failed since, rounds = before ++ failed :: since ∧ failed.Brings host ∧
    ¬failed.Succeeds host ∧ ∀ round ∈ since, ¬round.Recomputes host

theorem madeUp_of_recomputes {history : List (Round σ)} {last : Round σ}
    (h : last.Recomputes host) : MadeUp host (history ++ [last]) := by
  intro before fetching since hsplit _
  have hlast : (before ++ fetching :: since).getLast? = some last := by
    rw [← hsplit]
    exact List.getLast?_concat
  rw [List.getLast?_append_of_ne_nil _ (List.cons_ne_nil fetching since)] at hlast
  exact ⟨last, List.mem_of_getLast? hlast, h⟩

theorem madeUp_iff_not_owes (rounds : List (Round σ)) : MadeUp host rounds ↔ ¬Owes host rounds := by
  constructor
  · rintro hmade ⟨before, failed, since, hsplit, hbrings, hfailed, hsince⟩
    obtain ⟨round, hm, hrecomputes⟩ := hmade before failed since hsplit hbrings
    rcases List.mem_cons.mp hm with rfl | hm
    · exact hfailed hrecomputes.1
    · exact hsince round hm hrecomputes
  · intro hnot before fetching since hsplit hbrings
    by_contra hnone
    have hstale : ∀ round ∈ fetching :: since, ¬round.Recomputes host :=
      fun round hm hrecomputes => hnone ⟨round, hm, hrecomputes⟩
    have hfailed : ¬fetching.Succeeds host := by
      intro hok
      rcases hok.cases with hrecomputes | ⟨hsilent, -⟩
      · exact hstale fetching List.mem_cons_self hrecomputes
      · exact hbrings.not_silent hsilent
    exact hnot ⟨before, fetching, since, hsplit, hbrings, hfailed,
      fun round hm => hstale round (List.mem_cons_of_mem _ hm)⟩

theorem Rounds.of_snoc {first after : WatchedRepository} {history : List (Round σ)} {last : Round σ}
    (h : Rounds host first (history ++ [last]) after) :
    Rounds host first history last.state.watched := by
  generalize hrounds : history ++ [last] = rounds at h
  cases h with
  | nil => simp at hrounds
  | snoc hearlier scope machine =>
    obtain ⟨rfl, hlast⟩ := List.append_inj' hrounds rfl
    cases hlast
    exact hearlier

/-- Let an update succeed. What was fetched until then is made up for, unless something is owed and
the update is silent over results that an earlier one stored. -/
theorem madeUp_iff {repository : Repository} {tracked : TrackedRepository} {remote : String}
    {history : List (Round σ)} {last : Round σ} {after : WatchedRepository}
    (h : Rounds host (new repository tracked remote) (history ++ [last]) after)
    (hok : last.Succeeds host) :
    MadeUp host (history ++ [last]) ↔
      ¬(Owes host (history ++ [last]) ∧ last.IsSilent host ∧
        ∃ round ∈ history, round.Stores host) := by
  rw [madeUp_iff_not_owes]
  refine ⟨fun hnot hboth => hnot hboth.1, fun hnot howes => ?_⟩
  rcases hok.cases with hrecomputes | ⟨hsilent, hresults⟩
  · exact (madeUp_iff_not_owes host _).mp (madeUp_of_recomputes host hrecomputes) howes
  · exact hnot ⟨howes, hsilent, (h.of_snoc.hasResults host).mp hresults⟩

end

end WatchedRepository

namespace Sample

def brokenUpdate : WatchedRepository.Round Desk :=
  ⟨[], (firstUpdate.after still).watched, [], [succeeds "From o/r\n", succeeds "", fails]⟩

def silentUpdate : WatchedRepository.Round Desk :=
  ⟨[], (brokenUpdate.after still).watched, [], []⟩

theorem stale_rounds : WatchedRepository.Rounds still watched
    ([firstUpdate, brokenUpdate] ++ [silentUpdate]) (silentUpdate.after still).watched := by
  have hfirst : WatchedRepository.Rounds still watched ([] ++ [firstUpdate])
      (firstUpdate.after still).watched := .snoc .nil _ _
  have hbroken : WatchedRepository.Rounds still watched ([firstUpdate] ++ [brokenUpdate])
      (brokenUpdate.after still).watched := .snoc hfirst _ _
  exact .snoc hbroken _ _

theorem stale_outcomes : brokenUpdate.Brings still ∧ ¬brokenUpdate.Succeeds still ∧
    silentUpdate.Succeeds still ∧
    (WatchedRepository.findTask still silentUpdate.scope silentUpdate.state).1 = .ok none := by
  unfold WatchedRepository.Round.Brings WatchedRepository.Round.Succeeds
  decide +kernel

end Sample

namespace WatchedRepository

theorem madeUp_iff_stale :
    Rounds Sample.still Sample.watched
        ([Sample.firstUpdate, Sample.brokenUpdate] ++ [Sample.silentUpdate])
        (Sample.silentUpdate.after Sample.still).watched ∧
      Sample.silentUpdate.Succeeds Sample.still ∧
      (MadeUp Sample.still ([Sample.firstUpdate, Sample.brokenUpdate] ++ [Sample.silentUpdate]) ↔
        ¬(Owes Sample.still
            ([Sample.firstUpdate, Sample.brokenUpdate] ++ [Sample.silentUpdate]) ∧
          Sample.silentUpdate.IsSilent Sample.still ∧
          ∃ round ∈ [Sample.firstUpdate, Sample.brokenUpdate], round.Stores Sample.still)) := by
  obtain ⟨-, -, hok, -⟩ := Sample.stale_outcomes
  exact ⟨Sample.stale_rounds, hok, madeUp_iff Sample.still Sample.stale_rounds hok⟩

/-- The silent update after the broken one succeeds with the results of the first. -/
theorem not_forall_madeUp :
    ¬∀ (host : Host Sample.Desk) (repository : Repository) (tracked : TrackedRepository)
      (remote : String) (history : List (Round Sample.Desk)) (last : Round Sample.Desk)
      (after : WatchedRepository),
      Rounds host (new repository tracked remote) (history ++ [last]) after →
      last.Succeeds host → MadeUp host (history ++ [last]) := by
  intro hall
  obtain ⟨hbrings, hbroken, hok, hidle⟩ := Sample.stale_outcomes
  have hmade := hall _ _ _ _ _ _ _ Sample.stale_rounds hok
  obtain ⟨round, hm, hrecomputes⟩ :=
    hmade [Sample.firstUpdate] Sample.brokenUpdate [Sample.silentUpdate] (by simp) hbrings
  rcases List.mem_pair.mp hm with rfl | rfl
  · exact hbroken hrecomputes.1
  · obtain ⟨-, task, htask⟩ := hrecomputes
    cases hidle.symm.trans htask

end WatchedRepository

end SnippetTrail
