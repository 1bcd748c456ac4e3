import Mathlib.Data.List.Perm.Basic
import Mathlib.Data.List.Nodup
import SnippetTrail.Corpus.Basic

/-!
# Joining a sync

A sync, its pollers and those who add members all act at the same time. An event is what one of them
does while it alone has the lock, or one turn of the loop that waits for joining members and for
pollers that have ended. A turn that takes a member from the queue is one event: nobody else can see
when the member leaves the queue, so it may be said to leave it when the turn looks whether the sync
has been called off.

However the events interleave, no member gets two pollers in a sync, none is left out unless the sync
was called off before its turn, and the sync returns the first error that it sees
(`sync_joins_each_once`).
-/

namespace SnippetTrail.Corpus

variable {ρ : Type}

structure Polling where
  /-- Places that were there at the start and have no poller yet. -/
  waiting : List Nat
  running : List Nat
  /-- The pollers that have ended and were not joined yet, with the errors that ended them. -/
  ended : List (Nat × Option ServiceError)
  calledOff : Bool
  firstError : Option ServiceError
  hasReturned : Bool

structure Moment (ρ : Type) where
  corpus : Corpus ρ
  polling : Option Polling

inductive Event (ρ : Type) where
  | added (member : ρ)
  | changed
  | begun
  /-- A sync is asked for while one runs. -/
  | refused
  | calledOff
  | started (place : Nat)
  /-- A member is taken from the queue and gets a poller. -/
  | admitted (place : Nat)
  /-- A member is taken from the queue after the sync was called off. -/
  | dismissed (place : Nat)
  | ended (place : Nat) (outcome : Option ServiceError)
  | joined (place : Nat) (outcome : Option ServiceError)
  | returned (result : Option ServiceError)
  | finished

def Polling.new (members : Nat) : Polling := ⟨List.range members, [], [], false, none, false⟩

/-- The loop goes on while there are pollers that were not joined. -/
def Polling.Attends (polling : Polling) : Prop :=
  polling.waiting = [] ∧ (polling.running ≠ [] ∨ polling.ended ≠ [])

inductive Step : Moment ρ → Event ρ → Moment ρ → Prop where
  | added {corpus : Corpus ρ} {polling : Option Polling} (member : ρ) :
      Step ⟨corpus, polling⟩ (.added member) ⟨corpus.add member, polling⟩
  | changed {corpus changed : Corpus ρ} {polling : Option Polling}
      (hj : changed.joining = corpus.joining)
      (hl : changed.members.length = corpus.members.length) :
      Step ⟨corpus, polling⟩ .changed ⟨changed, polling⟩
  | begun {corpus : Corpus ρ} (h : corpus.isSyncing = false) :
      Step ⟨corpus, none⟩ .begun
        ⟨{ corpus with joining := some [] }, some (.new corpus.members.length)⟩
  | refused {corpus : Corpus ρ} {polling : Option Polling} (h : corpus.isSyncing = true) :
      Step ⟨corpus, polling⟩ .refused ⟨corpus, polling⟩
  | calledOff {corpus : Corpus ρ} {polling : Polling} :
      Step ⟨corpus, some polling⟩ .calledOff ⟨corpus, some { polling with calledOff := true }⟩
  | started {corpus : Corpus ρ} {polling : Polling} {place : Nat} {rest : List Nat}
      (h : polling.waiting = place :: rest) :
      Step ⟨corpus, some polling⟩ (.started place)
        ⟨corpus, some { polling with waiting := rest, running := polling.running ++ [place] }⟩
  | admitted {corpus : Corpus ρ} {polling : Polling} {place : Nat} {rest : List Nat}
      (ha : polling.Attends) (hj : corpus.joining = some (place :: rest))
      (ho : polling.calledOff = false) :
      Step ⟨corpus, some polling⟩ (.admitted place)
        ⟨{ corpus with joining := some rest },
          some { polling with running := polling.running ++ [place] }⟩
  | dismissed {corpus : Corpus ρ} {polling : Polling} {place : Nat} {rest : List Nat}
      (ha : polling.Attends) (hj : corpus.joining = some (place :: rest))
      (ho : polling.calledOff = true) :
      Step ⟨corpus, some polling⟩ (.dismissed place)
        ⟨{ corpus with joining := some rest }, some polling⟩
  /-- A poller ends well only after the sync was called off. -/
  | ended {corpus : Corpus ρ} {polling : Polling} {place : Nat} {outcome : Option ServiceError}
      (h : place ∈ polling.running) (ho : outcome = none → polling.calledOff = true) :
      Step ⟨corpus, some polling⟩ (.ended place outcome)
        ⟨corpus, some { polling with
          running := polling.running.erase place, ended := polling.ended ++ [(place, outcome)] }⟩
  /-- An error calls off the sync. -/
  | joined {corpus : Corpus ρ} {polling : Polling} {place : Nat} {outcome : Option ServiceError}
      (hw : polling.waiting = []) (h : (place, outcome) ∈ polling.ended) :
      Step ⟨corpus, some polling⟩ (.joined place outcome)
        ⟨corpus, some { polling with
          ended := polling.ended.erase (place, outcome)
          calledOff := polling.calledOff || outcome.isSome
          firstError := polling.firstError.or outcome }⟩
  | returned {corpus : Corpus ρ} {polling : Polling} (hw : polling.waiting = [])
      (hr : polling.running = []) (he : polling.ended = []) (hn : polling.hasReturned = false) :
      Step ⟨corpus, some polling⟩ (.returned polling.firstError)
        ⟨corpus, some { polling with hasReturned := true }⟩
  | finished {corpus : Corpus ρ} {polling : Polling} (h : polling.hasReturned = true) :
      Step ⟨corpus, some polling⟩ .finished ⟨{ corpus with joining := none }, none⟩

inductive Run (first : Moment ρ) : List (Event ρ) → Moment ρ → Prop where
  | nil : Run first [] first
  | snoc {events : List (Event ρ)} {event : Event ρ} {moment next : Moment ρ}
      (h : Run first events moment) (hs : Step moment event next) :
      Run first (events ++ [event]) next

theorem Run.cons {first next last : Moment ρ} {event : Event ρ} {events : List (Event ρ)}
    (hs : Step first event next) (h : Run next events last) : Run first (event :: events) last := by
  induction h with
  | nil => exact .snoc .nil hs
  | snoc _ hlast ih => exact .snoc ih hlast

-- ---------------------------------------------------------------------------
-- What events say
-- ---------------------------------------------------------------------------

namespace Event

def starts? : Event ρ → Option Nat
  | .started place | .admitted place => some place
  | _ => none

def takes? : Event ρ → Option Nat
  | .admitted place | .dismissed place => some place
  | _ => none

def dismisses? : Event ρ → Option Nat
  | .dismissed place => some place
  | _ => none

def ends? : Event ρ → Option (Nat × Option ServiceError)
  | .ended place outcome => some (place, outcome)
  | _ => none

def joins? : Event ρ → Option (Nat × Option ServiceError)
  | .joined place outcome => some (place, outcome)
  | _ => none

def isFailure : Event ρ → Bool
  | .joined _ outcome => outcome.isSome
  | _ => false

def callsOff : Event ρ → Bool
  | .calledOff => true
  | event => event.isFailure

end Event

section
variable (events : List (Event ρ))

def starts : List Nat := events.filterMap Event.starts?

def takes : List Nat := events.filterMap Event.takes?

def dismissals : List Nat := events.filterMap Event.dismisses?

def endings : List (Nat × Option ServiceError) := events.filterMap Event.ends?

def joins : List (Nat × Option ServiceError) := events.filterMap Event.joins?

/-- The sync was called off when the place had not been taken from the queue. -/
def Excused (place : Nat) : Prop :=
  ∃ before after, events = before ++ after ∧ before.any Event.callsOff = true ∧
    place ∉ takes before

end

section
variable {events : List (Event ρ)} {event : Event ρ} {place : Nat}

theorem filterMap_concat {α β : Type} (f : α → Option β) (items : List α) (item : α) :
    (items ++ [item]).filterMap f = items.filterMap f ++ (f item).toList := by
  rw [List.filterMap_append]
  cases h : f item <;> simp [h]

@[simp] theorem starts_concat : starts (events ++ [event]) = starts events ++ event.starts?.toList :=
  filterMap_concat _ _ _

@[simp] theorem dismissals_concat :
    dismissals (events ++ [event]) = dismissals events ++ event.dismisses?.toList :=
  filterMap_concat _ _ _

@[simp] theorem endings_concat :
    endings (events ++ [event]) = endings events ++ event.ends?.toList := filterMap_concat _ _ _

@[simp] theorem joins_concat : joins (events ++ [event]) = joins events ++ event.joins?.toList :=
  filterMap_concat _ _ _

theorem Excused.append (h : Excused events place) (event : Event ρ) :
    Excused (events ++ [event]) place := by
  obtain ⟨before, after, rfl, hoff, hplace⟩ := h
  exact ⟨before, after ++ [event], List.append_assoc _ _ _, hoff, hplace⟩

end

-- ---------------------------------------------------------------------------
-- Places
-- ---------------------------------------------------------------------------

/-- Every place waits, is in the queue, has got a poller, or was dismissed, and only one of these. -/
structure Placed (first : Nat) (events : List (Event ρ)) (corpus : Corpus ρ) (queue : List Nat)
    (polling : Polling) : Prop where
  joining : corpus.joining = some queue
  places : (polling.waiting ++ queue ++ (starts events ++ dismissals events)).Perm
    (List.range corpus.members.length)
  initial : ∀ place < first, place ∈ polling.waiting ∨ place ∈ starts events

/-- Every poller runs or has ended, and every one that has ended is joined or is to be joined. -/
structure Polled (events : List (Event ρ)) (polling : Polling) : Prop where
  pollers : (starts events).Perm (polling.running ++ (endings events).map Prod.fst)
  ends : (endings events).Perm (polling.ended ++ joins events)

structure Informed (events : List (Event ρ)) (polling : Polling) : Prop where
  calledOff : polling.calledOff = events.any Event.callsOff
  firstError : polling.firstError = ((joins events).filterMap Prod.snd).head?
  ended : ∀ entry ∈ endings events, entry.2 = none → polling.calledOff = true
  waiting : polling.waiting ≠ [] → joins events = []

section
variable {first : Nat} {events : List (Event ρ)} {event : Event ρ} {corpus next : Corpus ρ}
  {queue : List Nat} {polling after : Polling}

theorem Placed.keep (h : Placed first events corpus queue polling) (hs : event.starts? = none)
    (hd : event.dismisses? = none) (hw : after.waiting = polling.waiting)
    (hj : next.joining = corpus.joining) (hl : next.members.length = corpus.members.length) :
    Placed first (events ++ [event]) next queue after := by
  obtain ⟨hjoining, hplaces, hinitial⟩ := h
  refine ⟨hj.trans hjoining, ?_, ?_⟩
  · simpa [hs, hd, hw, hl] using hplaces
  · simpa [hs, hw] using hinitial

theorem Placed.step (h : Placed first events corpus queue polling)
    (hs : Step ⟨corpus, some polling⟩ event ⟨next, some after⟩) :
    ∃ queue, Placed first (events ++ [event]) next queue after := by
  cases hs with
  | changed hj hl => exact ⟨queue, h.keep rfl rfl rfl hj hl⟩
  | refused | calledOff | ended | joined | returned => exact ⟨queue, h.keep rfl rfl rfl rfl rfl⟩
  | added member =>
    refine ⟨queue ++ [corpus.members.length], by simp [add, h.joining], ?_, ?_⟩
    · have hplaces := h.places.append_right [corpus.members.length]
      rw [← List.range_succ] at hplaces
      refine List.Perm.trans ?_ (hplaces.trans (by simp [add]))
      rw [List.perm_iff_count]
      intro place
      simp [Event.starts?, Event.dismisses?, List.count_cons]
      omega
    · simpa [Event.starts?] using h.initial
  | @started _ _ place rest hw =>
    refine ⟨queue, h.joining, List.Perm.trans ?_ h.places, fun other hlt => ?_⟩
    · rw [hw, List.perm_iff_count]
      intro other
      simp [Event.starts?, Event.dismisses?, List.count_cons]
      omega
    · have hother := h.initial other hlt
      rw [hw, List.mem_cons] at hother
      simp only [starts_concat, Event.starts?, List.mem_append, Option.mem_toList]
      tauto
  | @admitted _ _ place rest _ hj _ =>
    cases h.joining.symm.trans hj
    refine ⟨rest, rfl, List.Perm.trans ?_ h.places, fun other hlt => ?_⟩
    · rw [List.perm_iff_count]
      intro other
      simp [Event.starts?, Event.dismisses?, List.count_cons]
      omega
    · refine (h.initial other hlt).imp_right fun hm => ?_
      simp [hm]
  | @dismissed _ _ place rest _ hj _ =>
    cases h.joining.symm.trans hj
    refine ⟨rest, rfl, List.Perm.trans ?_ h.places, ?_⟩
    · rw [List.perm_iff_count]
      intro other
      simp [Event.starts?, Event.dismisses?, List.count_cons]
      omega
    · simpa [Event.starts?] using h.initial

theorem Polled.keep (h : Polled events polling) (hs : event.starts? = none)
    (he : event.ends? = none) (hj : event.joins? = none) (hr : after.running = polling.running)
    (hn : after.ended = polling.ended) : Polled (events ++ [event]) after := by
  obtain ⟨hpollers, hends⟩ := h
  refine ⟨?_, ?_⟩
  · simpa [hs, he, hr] using hpollers
  · simpa [he, hj, hn] using hends

theorem Polled.step (h : Polled events polling)
    (hs : Step ⟨corpus, some polling⟩ event ⟨next, some after⟩) :
    Polled (events ++ [event]) after := by
  cases hs with
  | added | changed | refused | calledOff | dismissed | returned =>
    exact h.keep rfl rfl rfl rfl rfl
  | started | admitted =>
    refine ⟨?_, by simpa [Event.ends?, Event.joins?] using h.ends⟩
    rw [List.perm_iff_count]
    intro other
    have hcount := h.pollers.count_eq other
    simp only [List.count_append] at hcount
    simp [Event.starts?, Event.ends?, List.count_cons]
    omega
  | @ended _ _ place outcome hm _ =>
    refine ⟨?_, ?_⟩
    · have hrunning := (List.perm_cons_erase hm).append_right ((endings events).map Prod.fst)
      refine List.Perm.trans (by simpa [Event.starts?] using h.pollers.trans hrunning) ?_
      rw [List.perm_iff_count]
      intro other
      simp [Event.ends?, List.count_cons]
      omega
    · have hends := h.ends.append_right [(place, outcome)]
      refine List.Perm.trans (by simpa [Event.ends?] using hends) ?_
      rw [List.perm_iff_count]
      intro other
      simp [Event.joins?, List.count_cons]
  | @joined _ _ place outcome _ hm =>
    refine ⟨by simpa [Event.starts?, Event.ends?] using h.pollers, ?_⟩
    have hended := (List.perm_cons_erase hm).append_right (joins events)
    refine List.Perm.trans (by simpa [Event.ends?] using h.ends.trans hended) ?_
    rw [List.perm_iff_count]
    intro other
    simp [Event.joins?, List.count_cons]
    omega

theorem Informed.keep (h : Informed events polling) (hc : event.callsOff = false)
    (he : event.ends? = none) (hj : event.joins? = none)
    (ho : after.calledOff = polling.calledOff) (hf : after.firstError = polling.firstError)
    (hw : after.waiting ≠ [] → polling.waiting ≠ []) : Informed (events ++ [event]) after where
  calledOff := by simp [hc, ho, h.calledOff]
  firstError := by simp [hj, hf, h.firstError]
  ended := by simpa [he, ho] using h.ended
  waiting := by
    intro hwaiting
    simp [hj, h.waiting (hw hwaiting)]

theorem Informed.step (h : Informed events polling)
    (hs : Step ⟨corpus, some polling⟩ event ⟨next, some after⟩) :
    Informed (events ++ [event]) after := by
  cases hs with
  | added | changed | refused | admitted | dismissed | returned =>
    exact h.keep rfl rfl rfl rfl rfl id
  | started hw => exact h.keep rfl rfl rfl rfl rfl (by simp [hw])
  | calledOff =>
    refine ⟨by simp [Event.callsOff], ?_, ?_, ?_⟩
    · simpa [Event.joins?] using h.firstError
    · simp
    · simpa [Event.joins?] using h.waiting
  | @ended _ _ place outcome _ ho =>
    refine ⟨by simp [Event.callsOff, Event.isFailure, h.calledOff], ?_, ?_, ?_⟩
    · simpa [Event.joins?] using h.firstError
    · intro entry hm hnone
      simp only [endings_concat, Event.ends?, Option.toList_some, List.mem_append,
        List.mem_singleton] at hm
      rcases hm with hm | rfl
      · exact h.ended entry hm hnone
      · exact ho hnone
    · simpa [Event.joins?] using h.waiting
  | @joined _ _ place outcome hw _ =>
    refine ⟨by simp [Event.callsOff, Event.isFailure, h.calledOff], ?_, ?_, ?_⟩
    · cases outcome <;> simp [Event.joins?, h.firstError, List.head?_append]
    · intro entry hm hnone
      simp only [endings_concat, Event.ends?, Option.toList_none, List.append_nil] at hm
      simp [h.ended entry hm hnone]
    · simp [hw]

end

-- ---------------------------------------------------------------------------
-- A sync until it returns
-- ---------------------------------------------------------------------------

structure InSync (first : Nat) (events : List (Event ρ)) (corpus : Corpus ρ) (queue : List Nat)
    (polling : Polling) : Prop where
  placed : Placed first events corpus queue polling
  polled : Polled events polling
  informed : Informed events polling
  excused : ∀ place ∈ dismissals events, Excused events place
  /-- Nothing is started after an error was joined. -/
  quiet : ∀ before after, events = before ++ after → before.any Event.isFailure = true →
    starts after = []
  hasReturned : polling.hasReturned = false

section
variable {first : Nat} {events : List (Event ρ)} {event : Event ρ} {corpus next : Corpus ρ}
  {queue : List Nat} {polling after : Polling} {place : Nat}

theorem mem_takes (h : place ∈ takes events) : place ∈ starts events ∨ place ∈ dismissals events := by
  obtain ⟨event, hm, ht⟩ := List.mem_filterMap.mp h
  cases event with
  | admitted other => exact .inl (List.mem_filterMap.mpr ⟨_, hm, ht⟩)
  | dismissed other => exact .inr (List.mem_filterMap.mpr ⟨_, hm, ht⟩)
  | _ => cases ht

theorem Placed.nodup (h : Placed first events corpus queue polling) :
    (polling.waiting ++ queue ++ (starts events ++ dismissals events)).Nodup :=
  h.places.nodup_iff.mpr List.nodup_range

theorem Placed.not_mem_takes (h : Placed first events corpus queue polling) (hm : place ∈ queue) :
    place ∉ takes events := by
  intro ht
  have hdisjoint := List.disjoint_of_nodup_append h.nodup
  exact hdisjoint (List.mem_append_right _ hm) (List.mem_append.mpr (mem_takes ht))

theorem joins_ne_nil (h : events.any Event.isFailure = true) : joins events ≠ [] := by
  obtain ⟨event, hm, hf⟩ := List.any_eq_true.mp h
  cases event with
  | joined place outcome =>
    exact List.ne_nil_of_mem (List.mem_filterMap.mpr ⟨_, hm, rfl⟩ : (place, outcome) ∈ joins events)
  | _ => cases hf

theorem Informed.no_failure (h : Informed events polling) (ho : polling.calledOff = false) :
    events.any Event.isFailure = false := by
  have hany := h.calledOff.symm.trans ho
  rw [List.any_eq_false] at hany ⊢
  intro event hm hfailure
  refine hany event hm ?_
  cases event <;> simp_all [Event.callsOff, Event.isFailure]

theorem InSync.excused_step (h : InSync first events corpus queue polling)
    (hs : Step ⟨corpus, some polling⟩ event ⟨next, some after⟩) :
    ∀ place ∈ dismissals (events ++ [event]), Excused (events ++ [event]) place := by
  intro place hm
  rw [dismissals_concat, List.mem_append] at hm
  rcases hm with hm | hm
  · exact (h.excused place hm).append event
  cases hs with
  | @dismissed _ _ other rest _ hj ho =>
    obtain rfl : place = other := by simpa [Event.dismisses?] using hm
    cases h.placed.joining.symm.trans hj
    refine ⟨events, [.dismissed place], rfl, h.informed.calledOff.symm.trans ho, ?_⟩
    exact h.placed.not_mem_takes List.mem_cons_self
  | _ => simp [Event.dismisses?] at hm

theorem InSync.quiet_step (h : InSync first events corpus queue polling)
    (hs : Step ⟨corpus, some polling⟩ event ⟨next, some after⟩) :
    ∀ before later, events ++ [event] = before ++ later → before.any Event.isFailure = true →
      starts later = [] := by
  intro before later hsplit hfailure
  rcases List.eq_nil_or_concat later with rfl | ⟨earlier, last, rfl⟩
  · rfl
  rw [List.concat_eq_append, ← List.append_assoc] at hsplit
  obtain ⟨rfl, hlast⟩ := List.append_inj' hsplit rfl
  cases hlast
  rw [List.concat_eq_append, starts_concat, h.quiet before earlier rfl hfailure, List.nil_append]
  have hevents : (before ++ earlier).any Event.isFailure = true := by
    rw [List.any_append, hfailure, Bool.true_or]
  cases hs with
  | started hw =>
    have hjoins := h.informed.waiting (by simp [hw])
    exact absurd hjoins (joins_ne_nil hevents)
  | admitted _ _ ho =>
    rw [h.informed.no_failure ho] at hevents
    cases hevents
  | _ => rfl

theorem InSync.step (h : InSync first events corpus queue polling) {moment : Moment ρ}
    (hs : Step ⟨corpus, some polling⟩ event moment) (hr : ∀ result, event ≠ .returned result) :
    ∃ next queue after, moment = ⟨next, some after⟩ ∧
      InSync first (events ++ [event]) next queue after := by
  have hnext : ∃ after, moment.polling = some after ∧ after.hasReturned = false := by
    have hopen := h.hasReturned
    cases hs with
    | finished hreturned => simp [hopen] at hreturned
    | returned => exact absurd rfl (hr _)
    | _ => exact ⟨_, rfl, hopen⟩
  obtain ⟨next, _⟩ := moment
  obtain ⟨after, rfl, hopen⟩ := hnext
  obtain ⟨queue, hplaced⟩ := h.placed.step hs
  exact ⟨next, queue, after, rfl, hplaced, h.polled.step hs, h.informed.step hs,
    h.excused_step hs, h.quiet_step hs, hopen⟩

theorem InSync.begun (corpus : Corpus ρ) :
    InSync corpus.members.length [] { corpus with joining := some [] } []
      (.new corpus.members.length) where
  placed := ⟨rfl, by simp [Polling.new, starts, dismissals],
    fun _ hlt => .inl (List.mem_range.mpr hlt)⟩
  polled := ⟨by simp [Polling.new, starts, endings], by simp [Polling.new, endings, joins]⟩
  informed := ⟨rfl, rfl, by simp [endings], by simp [joins]⟩
  excused := by simp [dismissals]
  quiet := by
    intro before after hsplit hfailure
    obtain ⟨rfl, rfl⟩ := List.append_eq_nil_iff.mp hsplit.symm
    cases hfailure
  hasReturned := rfl

theorem Run.inSync {start opened moment : Moment ρ} (hbegun : Step start .begun opened)
    (hrun : Run opened events moment) (hr : ∀ result, .returned result ∉ events) :
    ∃ corpus queue polling, moment = ⟨corpus, some polling⟩ ∧
      InSync start.corpus.members.length events corpus queue polling := by
  induction hrun with
  | nil =>
    cases hbegun
    exact ⟨_, _, _, rfl, .begun _⟩
  | @snoc events event _ _ _ hs ih =>
    obtain ⟨corpus, queue, polling, rfl, hin⟩ :=
      ih fun result hm => hr result (List.mem_append_left _ hm)
    obtain ⟨next, queue, after, rfl, hnext⟩ := hin.step hs fun result he =>
      hr result (List.mem_append_right _ (List.mem_singleton.mpr he.symm))
    exact ⟨next, queue, after, rfl, hnext⟩

-- ---------------------------------------------------------------------------
-- When the sync returns
-- ---------------------------------------------------------------------------

structure Quiescent (polling : Polling) : Prop where
  waiting : polling.waiting = []
  running : polling.running = []
  ended : polling.ended = []

theorem Polled.joined (h : Polled events polling) (hq : Quiescent polling) :
    (endings events).Perm (joins events) := by
  simpa [hq.ended] using h.ends

theorem Polled.all_ended (h : Polled events polling) (hq : Quiescent polling) :
    (starts events).Perm ((endings events).map Prod.fst) := by
  simpa [hq.running] using h.pollers

/-- A sync that had members returns only after it was called off. -/
theorem InSync.calledOff (h : InSync first events corpus queue polling) (hq : Quiescent polling)
    (hf : 0 < first) : polling.calledOff = true := by
  have hstarted : 0 ∈ starts events := by simpa [hq.waiting] using h.placed.initial 0 hf
  obtain ⟨⟨_, outcome⟩, hended, -⟩ := List.mem_map.mp ((h.polled.all_ended hq).subset hstarted)
  cases outcome with
  | none => exact h.informed.ended _ hended rfl
  | some error =>
    have hjoined := (h.polled.joined hq).subset hended
    rw [h.informed.calledOff, List.any_eq_true]
    obtain ⟨event, hm, hj⟩ := List.mem_filterMap.mp hjoined
    refine ⟨event, hm, ?_⟩
    cases event with
    | joined => cases hj; rfl
    | _ => cases hj

theorem InSync.started_or_excused (h : InSync first events corpus queue polling)
    (hq : Quiescent polling) (hf : 0 < first) (hplace : place < corpus.members.length) :
    place ∈ starts events ∨ first ≤ place ∧ Excused events place ∧
      (place ∈ dismissals events ∨ place ∈ queue) := by
  by_cases hstarted : place ∈ starts events
  · exact .inl hstarted
  have hlate : first ≤ place := by
    by_contra hlt
    have hinitial := h.placed.initial place (Nat.lt_of_not_le hlt)
    simp [hq.waiting, hstarted] at hinitial
  have hm := h.placed.places.symm.subset (List.mem_range.mpr hplace)
  simp only [hq.waiting, List.nil_append, List.mem_append, hstarted, false_or] at hm
  refine .inr ⟨hlate, ?_, hm.symm⟩
  rcases hm with hqueue | hdismissed
  · refine ⟨events, [], by simp, ?_, h.placed.not_mem_takes hqueue⟩
    rw [← h.informed.calledOff]
    exact h.calledOff hq hf
  · exact h.excused place hdismissed

theorem mem_endings {outcome : Option ServiceError} :
    (place, outcome) ∈ endings events ↔ .ended place outcome ∈ events := by
  constructor
  · intro h
    obtain ⟨event, hm, he⟩ := List.mem_filterMap.mp h
    cases event with
    | ended => cases he; exact hm
    | _ => cases he
  · exact fun h => List.mem_filterMap.mpr ⟨_, h, rfl⟩

theorem InSync.firstError_none_iff (h : InSync first events corpus queue polling)
    (hq : Quiescent polling) :
    polling.firstError = none ↔ ∀ place error, .ended place (some error) ∉ events := by
  rw [h.informed.firstError, List.head?_eq_none_iff, List.filterMap_eq_nil_iff]
  constructor
  · intro hnone place error hm
    have hjoined := (h.polled.joined hq).subset (mem_endings.mpr hm)
    cases hnone _ hjoined
  · rintro hnone ⟨place, outcome⟩ hm
    have hended := mem_endings.mp ((h.polled.joined hq).symm.subset hm)
    cases outcome with
    | none => rfl
    | some error => exact absurd hended (hnone place error)

end

/-- Let a sync begin with at least one member, and let `events` be what happens until it returns. No
member gets two pollers. Every member that was there or was added has got one, unless the sync was
called off before the member was taken from the queue: then it was dismissed, or it is in the queue
still. No poller is started after an error was joined, and all have ended. The result is the first
error that was joined, and there is none if no poller failed. -/
theorem sync_joins_each_once {start opened moment last : Moment ρ} {events : List (Event ρ)}
    {result : Option ServiceError} (hbegun : Step start .begun opened)
    (hrun : Run opened events moment) (hfirst : ∀ other, .returned other ∉ events)
    (hreturned : Step moment (.returned result) last) (hmembers : start.corpus.members ≠ []) :
    (starts events).Nodup ∧
    (∀ place < last.corpus.members.length, place ∈ starts events ∨
      start.corpus.members.length ≤ place ∧ Excused events place ∧
        (place ∈ dismissals events ∨ place ∈ last.corpus.joining.getD [])) ∧
    (∀ before after, events = before ++ after → before.any Event.isFailure = true →
      starts after = []) ∧
    (∀ place ∈ starts events, ∃ outcome, .ended place outcome ∈ events) ∧
    result = ((joins events).filterMap Prod.snd).head? ∧
    (result = none ↔ ∀ place error, .ended place (some error) ∉ events) := by
  obtain ⟨corpus, queue, polling, rfl, hin⟩ := hrun.inSync hbegun hfirst
  have hpositive : 0 < start.corpus.members.length := List.length_pos_iff.mpr hmembers
  cases hreturned with
  | returned hw hr he hn =>
  have hq : Quiescent polling := ⟨hw, hr, he⟩
  refine ⟨?_, fun place hplace => ?_, hin.quiet, ?_, hin.informed.firstError,
    hin.firstError_none_iff hq⟩
  · exact (List.nodup_append.mp (List.nodup_append.mp hin.placed.nodup).2.1).1
  · rw [hin.placed.joining]
    exact hin.started_or_excused hq hpositive hplace
  · intro place hm
    obtain ⟨⟨_, outcome⟩, hended, rfl⟩ :=
      List.mem_map.mp ((hin.polled.all_ended hq).subset hm)
    exact ⟨outcome, mem_endings.mp hended⟩

end SnippetTrail.Corpus

namespace SnippetTrail

namespace Sample

def alone : Corpus.Moment String :=
  ⟨⟨⟨"clones", 30, Tools.standard, "origin", ""⟩, ["a"], true, none⟩, none⟩

def broke : ServiceError := .other "a broke"

def midway (members : List String) (queue running : List Nat)
    (ended : List (Nat × Option ServiceError)) (error : Option ServiceError) : Corpus.Moment String :=
  ⟨{ alone.corpus with members, joining := some queue },
    some ⟨[], running, ended, error.isSome, error, false⟩⟩

def late : List (Corpus.Event String) :=
  [.started 0, .added "b", .admitted 1, .ended 0 (some broke), .added "c", .joined 0 (some broke),
    .dismissed 2, .ended 1 none, .joined 1 none]

end Sample

namespace Corpus

theorem sync_joins_each_once_late :
    ∃ opened moment last : Moment String, Step Sample.alone .begun opened ∧
      Run opened Sample.late moment ∧ Step moment (.returned (some Sample.broke)) last ∧
      last.corpus.members = ["a", "b", "c"] ∧ starts Sample.late = [0, 1] ∧
      (starts Sample.late).Nodup ∧
      (∀ place < last.corpus.members.length, place ∈ starts Sample.late ∨
        Sample.alone.corpus.members.length ≤ place ∧ Excused Sample.late place ∧
          (place ∈ dismissals Sample.late ∨ place ∈ last.corpus.joining.getD [])) ∧
      (∀ before after, Sample.late = before ++ after → before.any Event.isFailure = true →
        starts after = []) ∧
      (∀ place ∈ starts Sample.late, ∃ outcome, .ended place outcome ∈ Sample.late) ∧
      some Sample.broke = ((joins Sample.late).filterMap Prod.snd).head? ∧
      (some Sample.broke = none ↔
        ∀ place error, .ended place (some error) ∉ Sample.late) := by
  have hbegun : Step Sample.alone .begun
      ⟨{ Sample.alone.corpus with joining := some [] }, some (.new 1)⟩ := .begun rfl
  have hstarted : Step ⟨{ Sample.alone.corpus with joining := some [] }, some (.new 1)⟩ (.started 0)
      (Sample.midway ["a"] [] [0] [] none) := .started rfl
  have hadded : Step (Sample.midway ["a"] [] [0] [] none) (.added "b")
      (Sample.midway ["a", "b"] [1] [0] [] none) := .added "b"
  have hadmitted : Step (Sample.midway ["a", "b"] [1] [0] [] none) (.admitted 1)
      (Sample.midway ["a", "b"] [] [0, 1] [] none) := .admitted ⟨rfl, .inl (by simp)⟩ rfl rfl
  have hended : Step (Sample.midway ["a", "b"] [] [0, 1] [] none) (.ended 0 (some Sample.broke))
      (Sample.midway ["a", "b"] [] [1] [(0, some Sample.broke)] none) := .ended (by simp) (by simp)
  have hcame : Step (Sample.midway ["a", "b"] [] [1] [(0, some Sample.broke)] none) (.added "c")
      (Sample.midway ["a", "b", "c"] [2] [1] [(0, some Sample.broke)] none) := .added "c"
  have hjoined : Step (Sample.midway ["a", "b", "c"] [2] [1] [(0, some Sample.broke)] none)
      (.joined 0 (some Sample.broke))
      (Sample.midway ["a", "b", "c"] [2] [1] [] (some Sample.broke)) := .joined rfl (by simp)
  have hdismissed : Step (Sample.midway ["a", "b", "c"] [2] [1] [] (some Sample.broke))
      (.dismissed 2) (Sample.midway ["a", "b", "c"] [] [1] [] (some Sample.broke)) :=
    .dismissed ⟨rfl, .inl (by simp)⟩ rfl rfl
  have hstopped : Step (Sample.midway ["a", "b", "c"] [] [1] [] (some Sample.broke)) (.ended 1 none)
      (Sample.midway ["a", "b", "c"] [] [] [(1, none)] (some Sample.broke)) :=
    .ended (by simp) fun _ => rfl
  have hlast : Step (Sample.midway ["a", "b", "c"] [] [] [(1, none)] (some Sample.broke))
      (.joined 1 none) (Sample.midway ["a", "b", "c"] [] [] [] (some Sample.broke)) :=
    .joined rfl (by simp)
  have hrun : Run _ Sample.late (Sample.midway ["a", "b", "c"] [] [] [] (some Sample.broke)) :=
    .cons hstarted <| .cons hadded <| .cons hadmitted <| .cons hended <| .cons hcame <|
      .cons hjoined <| .cons hdismissed <| .cons hstopped <| .cons hlast .nil
  have hreturned : Step (Sample.midway ["a", "b", "c"] [] [] [] (some Sample.broke))
      (.returned (some Sample.broke)) _ := .returned rfl rfl rfl rfl
  exact ⟨_, _, _, hbegun, hrun, hreturned, rfl, rfl,
    sync_joins_each_once hbegun hrun (by simp [Sample.late]) hreturned (by simp [Sample.alone])⟩

end Corpus

end SnippetTrail
