import SnippetTrail.Corpus.Sync
import SnippetTrail.Proofs.Interleaving

/-!
# Turns are interleavings

The pollers of a sync take turns. Each turn is a sequence of events that can happen (`turn_leads`),
so a whole sync is one of the interleavings, with the same corpus and the same result
(`sync_interleaves`).
-/

namespace SnippetTrail.Corpus

variable {ρ σ : Type}

-- ---------------------------------------------------------------------------
-- From moment to moment
-- ---------------------------------------------------------------------------

/-- Events lead from one moment to another, and no sync returns among them. -/
def Leads (first last : Moment ρ) : Prop :=
  ∃ events, Run first events last ∧ ∀ result, .returned result ∉ events

section
variable {first middle last : Moment ρ}

theorem Run.trans {earlier later : List (Event ρ)} (h : Run first earlier middle)
    (hl : Run middle later last) : Run first (earlier ++ later) last := by
  induction hl with
  | nil => simpa using h
  | snoc _ hs ih =>
    rw [← List.append_assoc]
    exact .snoc ih hs

theorem Leads.refl (moment : Moment ρ) : Leads moment moment := ⟨[], .nil, by simp⟩

theorem Leads.trans (h : Leads first middle) (hl : Leads middle last) : Leads first last := by
  obtain ⟨earlier, hearlier, hquiet⟩ := h
  obtain ⟨later, hlater, hquieter⟩ := hl
  refine ⟨earlier ++ later, hearlier.trans hlater, fun result hm => ?_⟩
  exact (List.mem_append.mp hm).elim (hquiet result) (hquieter result)

theorem Leads.of_step {event : Event ρ} (hs : Step first event last)
    (he : ∀ result, event ≠ .returned result) : Leads first last :=
  ⟨[event], .cons hs .nil, fun result hm => he result (List.mem_singleton.mp hm).symm⟩

end

-- ---------------------------------------------------------------------------
-- What updates may do
-- ---------------------------------------------------------------------------

/-- Members are added, and nothing else happens to their number or to the queue. -/
inductive Evolves : Corpus ρ → Corpus ρ → Prop where
  | refl (corpus : Corpus ρ) : Evolves corpus corpus
  | add {a b : Corpus ρ} (h : Evolves a b) (member : ρ) : Evolves a (b.add member)
  | change {a b c : Corpus ρ} (h : Evolves a b) (hj : c.joining = b.joining)
      (hl : c.members.length = b.members.length) : Evolves a c

theorem Evolves.leads {a b : Corpus ρ} (h : Evolves a b) (polling : Option Polling) :
    Leads ⟨a, polling⟩ ⟨b, polling⟩ := by
  induction h with
  | refl => exact .refl _
  | add _ member ih => exact ih.trans (.of_step (.added member) nofun)
  | change _ hj hl ih => exact ih.trans (.of_step (.changed hj hl) nofun)

theorem Evolves.isSyncing {a b : Corpus ρ} (h : Evolves a b) (ha : a.isSyncing = true) :
    b.isSyncing = true := by
  induction h with
  | refl => exact ha
  | add _ member ih => simpa [Corpus.isSyncing, Corpus.add] using ih
  | change _ hj _ ih => simpa [Corpus.isSyncing, hj] using ih

structure Orderly (host : Host σ) (group : Scope) (act : CorpusState ρ σ → CorpusState ρ σ) :
    Prop where
  evolves : ∀ state, Evolves state.corpus (act state).corpus
  lasting : ∀ state, host.isCalledOff group state.machine = true →
    host.isCalledOff group (act state).machine = true

/-- What is assumed of the host and of the updates in a sync. An update that fails because it was
called off was called off. -/
structure SyncLaws (host : Host σ) (update : Updater ρ σ) (group : Scope) : Prop where
  orderly : ∀ place, Orderly host group fun state => (update group place state).2
  cancelled : ∀ place state error after, update group place state = (.error error, after) →
    error.isCancelled = true → host.isCalledOff group after.machine = true
  callOff : ∀ machine, host.isCalledOff group (host.callOff group machine) = true

section
variable {host : Host σ} {update : Updater ρ σ} {group : Scope} {state : CorpusState ρ σ}
  {polling : Polling} {place : Nat}

theorem Orderly.leads {act : CorpusState ρ σ → CorpusState ρ σ} (h : Orderly host group act)
    (hp : polling.calledOff = host.isCalledOff group state.machine) :
    Leads ⟨state.corpus, some polling⟩ ⟨(act state).corpus,
      some { polling with calledOff := host.isCalledOff group (act state).machine }⟩ := by
  refine ((h.evolves state).leads (some polling)).trans ?_
  cases hoff : host.isCalledOff group (act state).machine with
  | true => exact .of_step .calledOff nofun
  | false =>
    have hbefore : polling.calledOff = false := by
      rw [hp, Bool.eq_false_iff]
      intro hcalled
      simp [h.lasting state hcalled] at hoff
    rw [← hbefore]
    exact .refl _

-- ---------------------------------------------------------------------------
-- Pollers
-- ---------------------------------------------------------------------------

def Turn.outcome? : Turn → Option (Option ServiceError)
  | .resting => none
  | .ended => some none
  | .failed error => some (some error)

def Polling.settle (polling : Polling) (place : Nat) (turn : Turn) : Polling :=
  match turn.outcome? with
  | none => polling
  | some outcome => { polling with
      running := polling.running.erase place, ended := polling.ended ++ [(place, outcome)] }

theorem poll_leads (laws : SyncLaws host update group) (hm : place ∈ polling.running)
    (hp : polling.calledOff = host.isCalledOff group state.machine) :
    Leads ⟨state.corpus, some polling⟩ ⟨(poll host update group place state).2.corpus,
      some (Polling.settle
        { polling with
          calledOff := host.isCalledOff group (poll host update group place state).2.machine }
        place (poll host update group place state).1)⟩ := by
  have hupdate := (laws.orderly place).leads hp
  unfold poll
  split
  · rename_i hoff
    dsimp only
    rw [← hp]
    exact .of_step (.ended hm fun _ => hp.trans hoff) nofun
  rcases hrun : update group place state with ⟨error | _, after⟩ <;> rw [hrun] at hupdate <;>
    dsimp only at hupdate ⊢
  · cases hc : error.isCancelled with
    | true =>
      have hoff := laws.cancelled place state error after hrun hc
      exact hupdate.trans (.of_step (.ended hm fun _ => hoff) nofun)
    | false => exact hupdate.trans (.of_step (.ended hm nofun) nofun)
  · cases hoff : host.isCalledOff group after.machine with
    | true =>
      rw [hoff] at hupdate
      exact hupdate.trans (.of_step (.ended hm fun _ => rfl) nofun)
    | false =>
      rw [hoff] at hupdate
      exact hupdate

/-- The pollers that are due either rest or end, and those that fail end with their failures. -/
theorem pollAll_leads (laws : SyncLaws host update group) {places others : List Nat}
    (hr : polling.running.Perm (places ++ others))
    (hp : polling.calledOff = host.isCalledOff group state.machine)
    {resting : List Nat} {failures : List ServiceError} {polled : CorpusState ρ σ}
    (h : pollAll host update group places state = ((resting, failures), polled)) :
    ∃ running ended, Leads ⟨state.corpus, some polling⟩ ⟨polled.corpus,
        some { polling with
          running, ended := polling.ended ++ ended
          calledOff := host.isCalledOff group polled.machine }⟩ ∧
      running.Perm (resting ++ others) ∧ ended.filterMap Prod.snd = failures ∧
      ended.length + resting.length = places.length := by
  induction places generalizing state polling resting failures polled others with
  | nil =>
    cases h
    refine ⟨polling.running, [], ?_, hr, rfl, rfl⟩
    rw [List.append_nil, ← hp]
    exact .refl _
  | cons place rest ih =>
    have hm : place ∈ polling.running := hr.symm.subset List.mem_cons_self
    have hpoll := poll_leads laws hm hp
    unfold pollAll at h
    rcases hturn : poll host update group place state with ⟨turn, after⟩
    rw [hturn] at h hpoll
    dsimp only at h hpoll
    rcases hrest : pollAll host update group rest after with ⟨⟨rested, failed⟩, last⟩
    rw [hrest] at h
    unfold Polling.settle at hpoll
    cases houtcome : turn.outcome? with
    | none =>
      rw [houtcome] at hpoll
      have hresult : resting = place :: rested ∧ failures = failed ∧ polled = last := by
        cases turn with
        | resting => cases h; simp
        | ended | failed => cases houtcome
      obtain ⟨rfl, rfl, rfl⟩ := hresult
      have hothers : Polling.running { polling with
          calledOff := host.isCalledOff group after.machine } |>.Perm (rest ++ place :: others) :=
        hr.trans List.perm_middle.symm
      obtain ⟨running, ended, hleads, hrunning, hfailures, hlength⟩ := ih hothers rfl hrest
      refine ⟨running, ended, hpoll.trans hleads, hrunning.trans List.perm_middle, hfailures, ?_⟩
      simp only [List.length_cons]
      omega
    | some outcome =>
      rw [houtcome] at hpoll
      have hresult : resting = rested ∧ failures = outcome.toList ++ failed ∧ polled = last := by
        cases turn with
        | resting => cases houtcome
        | ended | failed => cases houtcome; cases h; simp
      obtain ⟨rfl, rfl, rfl⟩ := hresult
      have hothers : Polling.running { polling with
          running := polling.running.erase place, ended := polling.ended ++ [(place, outcome)]
          calledOff := host.isCalledOff group after.machine } |>.Perm (rest ++ others) := by
        simpa using hr.erase place
      obtain ⟨running, ended, hleads, hrunning, hfailures, hlength⟩ := ih hothers rfl hrest
      refine ⟨running, (place, outcome) :: ended, ?_, hrunning, ?_, ?_⟩
      · simpa using hpoll.trans hleads
      · cases outcome <;> simp [hfailures]
      · simp only [List.length_cons]
        omega

theorem poll_isSyncing (laws : SyncLaws host update group) (h : state.corpus.isSyncing = true) :
    (poll host update group place state).2.corpus.isSyncing = true := by
  have hupdate := ((laws.orderly place).evolves state).isSyncing h
  unfold poll
  split
  · exact h
  · rcases hrun : update group place state with ⟨error | _, after⟩ <;> rw [hrun] at hupdate <;>
      exact hupdate

theorem pollAll_isSyncing (laws : SyncLaws host update group) (places : List Nat)
    (h : state.corpus.isSyncing = true) :
    (pollAll host update group places state).2.corpus.isSyncing = true := by
  induction places generalizing state with
  | nil => exact h
  | cons place rest ih =>
    have hrest := ih (@poll_isSyncing _ _ _ _ _ _ place laws h)
    unfold pollAll
    rcases hturn : poll host update group place state with ⟨turn, after⟩
    rw [hturn] at hrest
    cases turn <;> exact hrest

-- ---------------------------------------------------------------------------
-- What follows a turn
-- ---------------------------------------------------------------------------

/-- The queue is emptied: its members get pollers unless the sync was called off. -/
theorem take_leads (corpus : Corpus ρ) (queue : List Nat) (ha : polling.Attends) :
    Leads ⟨{ corpus with joining := some queue }, some polling⟩
      ⟨{ corpus with joining := some [] }, some { polling with
        running := polling.running ++ if polling.calledOff then [] else queue }⟩ := by
  induction queue generalizing polling with
  | nil =>
    simp only [ite_self, List.append_nil]
    exact .refl _
  | cons place rest ih =>
    obtain ⟨waiting, running, ended, off, error, returned⟩ := polling
    cases off with
    | true =>
      have hs : Step ⟨{ corpus with joining := some (place :: rest) },
            some ⟨waiting, running, ended, true, error, returned⟩⟩ (.dismissed place)
          ⟨{ corpus with joining := some rest },
            some ⟨waiting, running, ended, true, error, returned⟩⟩ := .dismissed ha rfl rfl
      exact (Leads.of_step hs nofun).trans (ih ha)
    | false =>
      have hs : Step ⟨{ corpus with joining := some (place :: rest) },
            some ⟨waiting, running, ended, false, error, returned⟩⟩ (.admitted place)
          ⟨{ corpus with joining := some rest },
            some ⟨waiting, running ++ [place], ended, false, error, returned⟩⟩ :=
        .admitted ha rfl rfl
      have hattends : Polling.Attends
          ⟨waiting, running ++ [place], ended, false, error, returned⟩ := ⟨ha.1, .inl (by simp)⟩
      simpa using (Leads.of_step hs nofun).trans (ih hattends)

theorem join_leads (corpus : Corpus ρ) (hw : polling.waiting = []) :
    Leads ⟨corpus, some polling⟩ ⟨corpus, some { polling with
      ended := []
      calledOff := polling.calledOff || !(polling.ended.filterMap Prod.snd).isEmpty
      firstError := polling.firstError.or (polling.ended.filterMap Prod.snd).head? }⟩ := by
  obtain ⟨waiting, running, ended, off, error, returned⟩ := polling
  induction ended generalizing off error with
  | nil =>
    simp only [List.filterMap_nil, List.isEmpty_nil, Bool.not_true, Bool.or_false, List.head?_nil,
      Option.or_none]
    exact .refl _
  | cons entry rest ih =>
    obtain ⟨place, outcome⟩ := entry
    have hs : Step ⟨corpus, some ⟨waiting, running, (place, outcome) :: rest, off, error, returned⟩⟩
        (.joined place outcome) ⟨corpus, some ⟨waiting, running,
          ((place, outcome) :: rest).erase (place, outcome), off || outcome.isSome,
          error.or outcome, returned⟩⟩ := .joined hw List.mem_cons_self
    rw [List.erase_cons_head] at hs
    have hrest := (Leads.of_step hs nofun).trans (ih (off || outcome.isSome) (error.or outcome) hw)
    cases outcome <;> simpa using hrest

end

-- ---------------------------------------------------------------------------
-- Turns
-- ---------------------------------------------------------------------------

structure Mirrors (host : Host σ) (group : Scope) (session : Session) (state : CorpusState ρ σ)
    (polling : Polling) : Prop where
  isSyncing : state.corpus.isSyncing = true
  waiting : polling.waiting = []
  running : polling.running.Perm (session.due ++ session.resting)
  ended : polling.ended = []
  calledOff : polling.calledOff = host.isCalledOff group state.machine
  firstError : polling.firstError = session.firstError
  hasReturned : polling.hasReturned = false

section
variable {host : Host σ} {update : Updater ρ σ} {tick : CorpusState ρ σ → CorpusState ρ σ}
  {group : Scope} {state : CorpusState ρ σ} {polling : Polling} {session : Session}

theorem turn_leads (laws : SyncLaws host update group)
    (hm : Mirrors host group session state polling) (hdue : session.due ≠ []) :
    ∃ after, Leads ⟨state.corpus, some polling⟩
        ⟨(turn host update group session state).2.corpus, some after⟩ ∧
      Mirrors host group (turn host update group session state).1
        (turn host update group session state).2 after := by
  have hsyncing := pollAll_isSyncing laws session.due hm.isSyncing
  unfold turn
  rcases hpolls : pollAll host update group session.due state with ⟨⟨resting, failures⟩, polled⟩
  obtain ⟨running, ended, hleads, hrunning, hfailures, hlength⟩ :=
    pollAll_leads laws hm.running hm.calledOff hpolls
  rw [hpolls] at hsyncing
  obtain ⟨⟨options, members, isPrepared, _ | queue⟩, machine⟩ := polled
  · cases hsyncing
  rw [hm.ended, List.nil_append] at hleads
  have hattends : Polling.Attends { polling with
      running, ended, calledOff := host.isCalledOff group machine } := by
    refine ⟨hm.waiting, ?_⟩
    by_contra hnone
    obtain ⟨hr, he⟩ := not_or.mp hnone
    rw [not_not] at hr he
    dsimp only at hr he
    subst hr he
    have hlengths := hrunning.length_eq
    have hpositive := List.length_pos_iff.mpr hdue
    simp only [List.length_nil, List.length_append] at hlengths hlength
    omega
  have htake := take_leads ⟨options, members, isPrepared, none⟩ queue hattends
  have hjoin := @join_leads _ { polling with
      running := running ++ if host.isCalledOff group machine then [] else queue
      ended, calledOff := host.isCalledOff group machine }
    ⟨options, members, isPrepared, some []⟩ hm.waiting
  refine ⟨_, (hleads.trans htake).trans hjoin, rfl, hm.waiting, ?_, rfl, ?_, ?_, hm.hasReturned⟩
  · refine (hrunning.append_right _).trans ?_
    dsimp only [takeJoining]
    rw [List.perm_iff_count]
    intro place
    simp only [List.count_append]
    omega
  · dsimp only [takeJoining]
    rw [hfailures]
    cases failures with
    | nil => simp
    | cons error rest => simp [laws.callOff]
  · dsimp only [takeJoining]
    rw [hm.firstError, hfailures]

def settles (host : Host σ) (update : Updater ρ σ) (tick : CorpusState ρ σ → CorpusState ρ σ)
    (group : Scope) : Nat → Session → CorpusState ρ σ → Bool
  | 0, _, _ => false
  | fuel + 1, session, state =>
    match session.due with
    | _ :: _ =>
      let (session, state) := turn host update group session state
      settles host update tick group fuel session state
    | [] =>
      if session.resting.isEmpty || host.isCalledOff group state.machine then true
      else
        let (session, state) := turn host update group ⟨session.resting, [], session.firstError⟩
          (tick state)
        settles host update tick group fuel session state

theorem stop_leads (corpus : Corpus ρ) (hw : polling.waiting = []) (he : polling.ended = [])
    (ho : polling.running = [] ∨ polling.calledOff = true) :
    Leads ⟨corpus, some polling⟩ ⟨corpus, some { polling with running := [] }⟩ := by
  obtain ⟨waiting, running, ended, off, error, returned⟩ := polling
  dsimp only at hw he ho ⊢
  subst hw he
  induction running with
  | nil => exact .refl _
  | cons place rest ih =>
    obtain rfl : off = true := by simpa using ho
    have hended : Step ⟨corpus, some ⟨[], place :: rest, [], true, error, returned⟩⟩
        (.ended place none)
        ⟨corpus, some ⟨[], (place :: rest).erase place, [(place, none)], true, error, returned⟩⟩ :=
      .ended List.mem_cons_self fun _ => rfl
    rw [List.erase_cons_head] at hended
    have hjoin := @join_leads _ ⟨[], rest, [(place, none)], true, error, returned⟩ corpus rfl
    simp only [List.filterMap_cons, List.filterMap_nil, List.isEmpty_nil, Bool.not_true,
      Bool.or_false, List.head?_nil, Option.or_none] at hjoin
    exact ((Leads.of_step hended nofun).trans hjoin).trans (ih (.inr rfl))

theorem turns_leads (laws : SyncLaws host update group) (htick : Orderly host group tick)
    (fuel : Nat) (hm : Mirrors host group session state polling)
    (hsettles : settles host update tick group fuel session state = true)
    {failure : Option ServiceError} {after : CorpusState ρ σ}
    (h : turns host update tick group fuel session state = (failure, after)) :
    ∃ last, Leads ⟨state.corpus, some polling⟩ ⟨after.corpus, some last⟩ ∧ last.waiting = [] ∧
      last.running = [] ∧ last.ended = [] ∧ last.firstError = failure ∧
      last.hasReturned = false := by
  induction fuel generalizing session state polling with
  | zero => cases hsettles
  | succ fuel ih =>
    unfold turns at h
    unfold settles at hsettles
    cases hdue : session.due with
    | cons place rest =>
      rw [hdue] at h hsettles
      obtain ⟨middle, hleads, hmiddle⟩ := turn_leads laws hm (by simp [hdue])
      obtain ⟨last, hlast, hquiet⟩ := ih hmiddle hsettles h
      exact ⟨last, hleads.trans hlast, hquiet⟩
    | nil =>
      rw [hdue] at h hsettles
      dsimp only at h hsettles
      split at h
      · rename_i hstop
        cases h
        have hrunning : polling.running = [] ∨ polling.calledOff = true := by
          rcases Bool.or_eq_true_iff.mp hstop with hresting | hoff
          · left
            have hperm := hm.running
            rw [hdue, List.isEmpty_iff.mp hresting] at hperm
            exact List.perm_nil.mp hperm
          · exact .inr (hm.calledOff.trans hoff)
        exact ⟨_, stop_leads _ hm.waiting hm.ended hrunning, hm.waiting, rfl, hm.ended,
          hm.firstError, hm.hasReturned⟩
      · rename_i hgo
        rw [if_neg hgo] at hsettles
        have hticked : Mirrors host group ⟨session.resting, [], session.firstError⟩ (tick state)
            { polling with calledOff := host.isCalledOff group (tick state).machine } := by
          refine ⟨(htick.evolves state).isSyncing hm.isSyncing, hm.waiting, ?_, hm.ended, rfl,
            hm.firstError, hm.hasReturned⟩
          simpa [hdue] using hm.running
        have hresting : session.resting ≠ [] := by
          intro hempty
          simp [hempty] at hgo
        obtain ⟨middle, hleads, hmiddle⟩ := turn_leads laws hticked hresting
        obtain ⟨last, hlast, hquiet⟩ := ih hmiddle hsettles h
        exact ⟨last, ((htick.leads hm.calledOff).trans hleads).trans hlast, hquiet⟩

end

-- ---------------------------------------------------------------------------
-- A whole sync
-- ---------------------------------------------------------------------------

section
variable {host : Host σ} {update : Updater ρ σ} {tick : CorpusState ρ σ → CorpusState ρ σ}

theorem start_leads (corpus : Corpus ρ) (waiting running : List Nat) :
    Leads ⟨corpus, some ⟨waiting, running, [], false, none, false⟩⟩
      ⟨corpus, some ⟨[], running ++ waiting, [], false, none, false⟩⟩ := by
  induction waiting generalizing running with
  | nil =>
    rw [List.append_nil]
    exact .refl _
  | cons place rest ih =>
    have hs : Step ⟨corpus, some ⟨place :: rest, running, [], false, none, false⟩⟩ (.started place)
        ⟨corpus, some ⟨rest, running ++ [place], [], false, none, false⟩⟩ := .started rfl
    have hrest := ih (running ++ [place])
    rw [List.append_assoc] at hrest
    exact (Leads.of_step hs nofun).trans hrest

/-- A sync whose turns do not run out is one of the interleavings: it leads from the same corpus to
the same corpus, and returns the same result. -/
theorem sync_interleaves (fuel : Nat) (scope : Scope) (state : CorpusState ρ σ)
    (hidle : state.corpus.isSyncing = false) {group : Scope} {machine : σ}
    (hgroup : host.enter scope state.machine = (group, machine))
    (laws : SyncLaws host update group) (htick : Orderly host group tick)
    (hsettles : settles host update tick group fuel
      ⟨List.range state.corpus.members.length, [], none⟩
      ⟨{ state.corpus with joining := some [] }, machine⟩ = true) :
    ∃ opened moment last events result,
      Step ⟨state.corpus, none⟩ .begun opened ∧ Run opened events moment ∧
      (∀ other, .returned other ∉ events) ∧ Step moment (.returned result) last ∧
      Step last .finished ⟨(sync host update tick fuel scope state).2.corpus, none⟩ ∧
      (sync host update tick fuel scope state).1 =
        match result with
        | none => .ok ()
        | some error => .error error := by
  have hbegun : Step ⟨state.corpus, none⟩ .begun
      ⟨{ state.corpus with joining := some [] }, some (.new state.corpus.members.length)⟩ :=
    .begun hidle
  have hstarted := start_leads { state.corpus with joining := some [] }
    (List.range state.corpus.members.length) []
  -- the scope around the sync may have been called off before
  have hcalled : Leads (⟨{ state.corpus with joining := some [] },
        some ⟨[], List.range state.corpus.members.length, [], false, none, false⟩⟩ : Moment ρ)
      ⟨{ state.corpus with joining := some [] }, some ⟨[], List.range state.corpus.members.length,
        [], host.isCalledOff group machine, none, false⟩⟩ := by
    cases host.isCalledOff group machine with
    | true => exact .of_step .calledOff nofun
    | false => exact .refl _
  have hmirrors : Mirrors host group ⟨List.range state.corpus.members.length, [], none⟩
      ⟨{ state.corpus with joining := some [] }, machine⟩
      ⟨[], List.range state.corpus.members.length, [], host.isCalledOff group machine, none,
        false⟩ := ⟨rfl, rfl, by simp, rfl, rfl, rfl, rfl⟩
  rcases hturns : turns host update tick group fuel
    ⟨List.range state.corpus.members.length, [], none⟩
    ⟨{ state.corpus with joining := some [] }, machine⟩ with ⟨failure, after⟩
  obtain ⟨last, hleads, hw, hr, he, rfl, hn⟩ :=
    turns_leads laws htick fuel hmirrors hsettles hturns
  obtain ⟨events, hrun, hquiet⟩ := (hstarted.trans hcalled).trans hleads
  have hsync : sync host update tick fuel scope state =
      (match last.firstError with
        | none => .ok ()
        | some error => .error error,
      { after with corpus := { after.corpus with joining := none } }) := by
    unfold sync
    rw [hidle, hgroup]
    dsimp only
    rw [hturns]
    rfl
  rw [hsync]
  exact ⟨_, _, _, events, _, hbegun, hrun, hquiet, .returned hw hr he hn, .finished rfl, rfl⟩

end

end SnippetTrail.Corpus
