import Mathlib.Data.List.Basic
import SnippetTrail.Git.Series

/-!
# Calls on a series

What a series still hands out is the part of its items behind those handed out (`Series.rest`): asking for
the next item takes its first, and closing and visiting empty it. A visit starts from the first item all the
same, and what its visitor is called on is told by where it stops or fails (`Visitor.Visits`). From what one
call does follows what any calls one after another do (`Series.hands_out_once`).
-/

namespace SnippetTrail

section
variable {σ ε α : Type}

-- ---------------------------------------------------------------------------
-- Visits
-- ---------------------------------------------------------------------------

/-- A visitor that may keep a state from one item to the next, and from one visit to the next. -/
abbrev Visitor (σ ε α : Type) := α → σ → Except ε Flow × σ

namespace Visitor

def noting (visitor : Visitor σ ε α) : α → ExceptT ε (StateM (σ × List α)) Flow :=
  fun item (state, called) =>
    let (answer, state) := visitor item state
    (answer, (state, called ++ [item]))

inductive Proceeds (visitor : Visitor σ ε α) : List α → σ → σ → Prop
  | none {state : σ} : Proceeds visitor [] state state
  | one {item : α} {rest : List α} {before between after : σ} :
      visitor item before = (.ok .proceed, between) → Proceeds visitor rest between after →
      Proceeds visitor (item :: rest) before after

/-- A visit of the items, with those that the visitor was called on: it proceeded at all of them, or the
last was the first at which it stopped or failed. -/
inductive Visits (visitor : Visitor σ ε α) (items : List α) (before : σ) :
    List α → Except ε Unit → σ → Prop
  | proceeded {after : σ} : visitor.Proceeds items before after →
      Visits visitor items before items (.ok ()) after
  | stopped {passed rest : List α} {item : α} {between after : σ} :
      items = passed ++ item :: rest → visitor.Proceeds passed before between →
      visitor item between = (.ok .stop, after) →
      Visits visitor items before (passed ++ [item]) (.ok ()) after
  | failed {passed rest : List α} {item : α} {between after : σ} {fault : ε} :
      items = passed ++ item :: rest → visitor.Proceeds passed before between →
      visitor item between = (.error fault, after) →
      Visits visitor items before (passed ++ [item]) (.error fault) after

variable {visitor : Visitor σ ε α} {item : α} {items rest called : List α} {before between after : σ}
  {outcome : Except ε Unit}

theorem Visits.proceed (h : visitor item before = (.ok .proceed, between))
    (hv : visitor.Visits rest between called outcome after) :
    visitor.Visits (item :: rest) before (item :: called) outcome after := by
  cases hv with
  | proceeded hp => exact .proceeded (.one h hp)
  | stopped hitems hp hs => exact .stopped (by rw [hitems]; rfl) (.one h hp) hs
  | failed hitems hp hf => exact .failed (by rw [hitems]; rfl) (.one h hp) hf

theorem Visits.stop (h : visitor item before = (.ok .stop, after)) :
    visitor.Visits (item :: rest) before [item] (.ok ()) after := by
  show visitor.Visits (item :: rest) before ([] ++ [item]) (.ok ()) after
  exact .stopped rfl .none h

theorem Visits.fail {fault : ε} (h : visitor item before = (.error fault, after)) :
    visitor.Visits (item :: rest) before [item] (.error fault) after := by
  show visitor.Visits (item :: rest) before ([] ++ [item]) (.error fault) after
  exact .failed rfl .none h

theorem visitEach_cons (noted : List α) :
    visitEach visitor.noting (item :: rest) (before, noted) =
      match visitor item before with
      | (.ok .proceed, between) => visitEach visitor.noting rest (between, noted ++ [item])
      | (.ok .stop, after) => (.ok (), (after, noted ++ [item]))
      | (.error fault, after) => (.error fault, (after, noted ++ [item])) := by
  simp only [visitEach, bind, ExceptT.bind, ExceptT.mk, StateT.bind, noting]
  rcases visitor item before with ⟨answer, after⟩
  match answer with
  | .ok .proceed => rfl
  | .ok .stop => rfl
  | .error fault => rfl

theorem visitEach_visits (items noted : List α) (before : σ) :
    ∃ called outcome after,
      visitEach visitor.noting items (before, noted) = (outcome, (after, noted ++ called)) ∧
        visitor.Visits items before called outcome after := by
  induction items generalizing before noted with
  | nil => exact ⟨[], .ok (), before, by rw [List.append_nil]; rfl, .proceeded .none⟩
  | cons item rest ih =>
    rw [visitEach_cons]
    cases hv : visitor item before with
    | mk answer between =>
      cases answer with
      | error fault => exact ⟨[item], .error fault, between, rfl, .fail hv⟩
      | ok flow =>
        cases flow with
        | stop => exact ⟨[item], .ok (), between, rfl, .stop hv⟩
        | proceed =>
          obtain ⟨called, outcome, after, he, hvisits⟩ := ih (noted ++ [item]) between
          refine ⟨item :: called, outcome, after, ?_, hvisits.proceed hv⟩
          simp only [he, List.append_assoc, List.singleton_append]

end Visitor

namespace Series

variable {series : Series α}

-- ---------------------------------------------------------------------------
-- What is left
-- ---------------------------------------------------------------------------

def rest (series : Series α) : List α := series.items.drop series.handedOut

theorem rest_close : series.close.rest = [] := List.drop_length

theorem remaining_eq : series.remaining = series.rest.length := List.length_drop.symm

theorem isClosed_iff : series.isClosed = true ↔ series.rest = [] := by
  rw [isClosed, decide_eq_true_iff, rest, List.drop_eq_nil_iff]

theorem next_item : series.next.1 = series.rest.head? := by
  rw [rest, List.head?_drop, next]
  cases series.items[series.handedOut]? <;> rfl

theorem next_rest : series.next.2.rest = series.rest.tail := by
  rw [next]
  cases h : series.items[series.handedOut]? with
  | some item => exact List.tail_drop.symm
  | none =>
    have hle : series.items.length ≤ series.handedOut := List.getElem?_eq_none_iff.mp h
    have hrest : series.rest = [] := List.drop_of_length_le hle
    simp only [hrest, List.tail_nil]

theorem next_items : series.next.2.items = series.items := by
  rw [next]
  cases series.items[series.handedOut]? <;> rfl

-- ---------------------------------------------------------------------------
-- One call
-- ---------------------------------------------------------------------------

inductive Call (σ ε α : Type) where
  | next
  | close
  | visit (visitor : Visitor σ ε α)

inductive Answer (ε α : Type) where
  | handed (item : Option α)
  | closed
  | visited (called : List α) (outcome : Except ε Unit)

def Call.isNext : Call σ ε α → Bool
  | .next => true
  | .close | .visit _ => false

def Answer.handed? : Answer ε α → Option (Option α)
  | .handed item => some item
  | .closed | .visited .. => none

def Call.perform : Call σ ε α → Series α × σ → Answer ε α × Series α × σ
  | .next, (series, state) => (.handed series.next.1, series.next.2, state)
  | .close, (series, state) => (.closed, series.close, state)
  | .visit visitor, (series, state) =>
    let ((outcome, series), (state, called)) := series.visit visitor.noting (state, [])
    (.visited called outcome, series, state)

theorem perform_visit (series : Series α) (visitor : Visitor σ ε α) (before : σ) :
    ∃ called outcome after,
      (Call.visit visitor).perform (series, before) = (.visited called outcome, series.close, after) ∧
        visitor.Visits series.items before called outcome after := by
  obtain ⟨called, outcome, after, he, hvisits⟩ := visitor.visitEach_visits series.items [] before
  refine ⟨called, outcome, after, ?_, hvisits⟩
  have hstep : (Call.visit visitor).perform (series, before) =
      (.visited (visitEach visitor.noting series.items (before, [])).2.2
        (visitEach visitor.noting series.items (before, [])).1, series.close,
        (visitEach visitor.noting series.items (before, [])).2.1) := rfl
  rw [hstep, he]
  rfl

theorem perform_items (call : Call σ ε α) (state : σ) :
    (call.perform (series, state)).2.1.items = series.items := by
  cases call with
  | next => exact next_items
  | close => rfl
  | visit visitor =>
    obtain ⟨called, outcome, after, he, -⟩ := perform_visit series visitor state
    rw [he]
    rfl

-- ---------------------------------------------------------------------------
-- Calls one after another
-- ---------------------------------------------------------------------------

def performAll : List (Call σ ε α) → Series α × σ → List (Answer ε α) × Series α × σ
  | [], place => ([], place)
  | call :: calls, place =>
    let (answer, place) := call.perform place
    let (answers, place) := performAll calls place
    (answer :: answers, place)

def handed (answers : List (Answer ε α)) : List (Option α) := answers.filterMap Answer.handed?

def requests (calls : List (Call σ ε α)) : Nat := calls.countP Call.isNext

/-- How often the next item is asked for before the first close or visit. -/
def leading (calls : List (Call σ ε α)) : Nat := (calls.takeWhile Call.isNext).length

section
variable (calls : List (Call σ ε α)) (visitor : Visitor σ ε α)

@[simp] theorem requests_next : requests (.next :: calls) = requests calls + 1 :=
  List.countP_cons_of_pos rfl

@[simp] theorem requests_close : requests (.close :: calls) = requests calls :=
  List.countP_cons_of_neg Bool.false_ne_true

@[simp] theorem requests_visit : requests (.visit visitor :: calls) = requests calls :=
  List.countP_cons_of_neg Bool.false_ne_true

@[simp] theorem leading_next : leading (.next :: calls) = leading calls + 1 := rfl

@[simp] theorem leading_close : leading (.close :: calls) = 0 := rfl

@[simp] theorem leading_visit : leading (.visit visitor :: calls) = 0 := rfl

theorem leading_replicate (count : Nat) :
    leading (List.replicate count (.next : Call σ ε α)) = count := by
  induction count with
  | zero => rfl
  | succ count ih => rw [List.replicate_succ, leading_next, ih]

end

theorem performAll_items (calls : List (Call σ ε α)) (state : σ) :
    (performAll calls (series, state)).2.1.items = series.items := by
  induction calls generalizing series state with
  | nil => rfl
  | cons call calls ih =>
    rw [performAll]
    simp only [ih, perform_items]

/-- Requests are handed what is left, until something closes the series, and nothing ever after. -/
theorem handed_performAll (calls : List (Call σ ε α)) (series : Series α) (state : σ) :
    handed (performAll calls (series, state)).1 =
      (series.rest.take (leading calls)).map some ++
        List.replicate (requests calls - (series.rest.take (leading calls)).length) none := by
  induction calls generalizing series state with
  | nil => simp [performAll, handed, requests, leading]
  | cons call calls ih =>
    cases call with
    | next =>
      have hstep : handed (performAll (.next :: calls) (series, state)).1 =
          series.rest.head? :: handed (performAll calls (series.next.2, state)).1 := by
        rw [← next_item]
        rfl
      rw [hstep, ih, next_rest]
      cases series.rest with
      | nil => simp [List.replicate_succ]
      | cons item rest => simp
    | close =>
      have hstep : handed (performAll (.close :: calls) (series, state)).1 =
          handed (performAll calls (series.close, state)).1 := rfl
      rw [hstep, ih, rest_close]
      simp
    | visit visitor =>
      obtain ⟨called, outcome, after, he, -⟩ := perform_visit series visitor state
      have hstep : handed (performAll (.visit visitor :: calls) (series, state)).1 =
          handed (performAll calls (series.close, after)).1 := by
        rw [performAll, he]
        rfl
      rw [hstep, ih, rest_close]
      simp

theorem handed_further (count : Nat) (series : Series α) (state : σ) :
    (handed (performAll (List.replicate count (.next : Call σ ε α)) (series, state)).1).countP
      Option.isSome = min count series.remaining := by
  have hsome : ((series.rest.take count).map some).countP Option.isSome =
      (series.rest.take count).length := by
    rw [List.countP_map]
    exact List.countP_eq_length.mpr fun _ _ => rfl
  rw [handed_performAll, leading_replicate, List.countP_append, hsome, List.countP_replicate,
    List.length_take, remaining_eq]
  rfl

/-- What a series of the items has answered to calls, and what it is left as: each item is handed out once,
in order and until the series is closed, and any visit that comes next starts from the first item. -/
structure HandsOut (items : List α) (calls : List (Call σ ε α)) (answers : List (Answer ε α))
    (series : Series α) (state : σ) : Prop where
  handed : handed answers = (items.take (leading calls)).map some ++
    List.replicate (requests calls - (items.take (leading calls)).length) none
  remaining : ∀ count,
    (Series.handed (performAll (List.replicate count (.next : Call σ ε α)) (series, state)).1).countP
      Option.isSome = min count series.remaining
  closed : series.isClosed = true ↔ series.remaining = 0
  visit : ∀ visitor : Visitor σ ε α, ∃ called outcome after,
    (Call.visit visitor).perform (series, state) = (.visited called outcome, series.close, after) ∧
      visitor.Visits items state called outcome after ∧ series.close.isClosed = true
  items : series.items = items

theorem hands_out_once (items : List α) (calls : List (Call σ ε α)) (start : σ) :
    HandsOut items calls (performAll calls (ofList items, start)).1
      (performAll calls (ofList items, start)).2.1 (performAll calls (ofList items, start)).2.2 where
  handed := handed_performAll calls (ofList items) start
  remaining count := handed_further count _ _
  closed := by rw [isClosed_iff, remaining_eq, List.length_eq_zero_iff]
  visit visitor := by
    obtain ⟨called, outcome, after, he, hvisits⟩ := perform_visit _ visitor _
    refine ⟨called, outcome, after, he, ?_, isClosed_iff.mpr rest_close⟩
    rwa [performAll_items] at hvisits
  items := performAll_items calls start

/-- A visit starts from the first item although that is handed out, and closes the series. -/
example : (performAll
      [.next, .visit fun item count => (.ok (if item = 2 then .stop else .proceed), count + 1), .next]
      (ofList [1, 2, 3], 0)).1 =
    [.handed (some 1), .visited [1, 2] (.ok () : Except String Unit), .handed none] := rfl

end Series

end

end SnippetTrail
