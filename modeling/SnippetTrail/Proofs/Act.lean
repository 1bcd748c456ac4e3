import SnippetTrail.Host.Basic

/-!
# How acts end

An act ends well, with a value and a state, or fails, with an error and a state. `Act.Ends` says both
at once: what holds if it ends well, and what holds if it fails. `Ends.bind` puts the ends of two
acts together, so what a sequence of commands leaves behind is read off its commands.
-/

namespace SnippetTrail.Act

variable {σ τ ε ε' α β : Type}

theorem run_bind (act : Act σ ε α) (next : α → Act σ ε β) (state : σ) :
    (act >>= next) state = match act state with
      | (.ok value, after) => next value after
      | (.error error, after) => (.error error, after) := by
  show ExceptT.bindCont next (act state).1 (act state).2 = _
  rcases act state with ⟨error | value, after⟩
  · rfl
  · rfl

theorem run_tryCatch (act : Act σ ε α) (handler : ε → Act σ ε α) (state : σ) :
    tryCatch act handler state = match act state with
      | (.ok value, after) => (.ok value, after)
      | (.error error, after) => handler error after := by
  show (match (act state).1 with
    | .ok value => (pure (.ok value) : StateM σ (Except ε α))
    | .error error => handler error) (act state).2 = _
  rcases act state with ⟨error | value, after⟩
  · rfl
  · rfl

theorem bind_run_eq_ok {act : Act σ ε α} {next : α → Act σ ε β} {state after : σ} {b : β} :
    (act >>= next) state = (.ok b, after) ↔
      ∃ a middle, act state = (.ok a, middle) ∧ next a middle = (.ok b, after) := by
  rw [run_bind]
  rcases act state with ⟨error | value, middle⟩
  · exact ⟨nofun, fun ⟨_, _, h, _⟩ => by cases h⟩
  · exact ⟨fun h => ⟨value, middle, rfl, h⟩, fun ⟨_, _, h, hnext⟩ => by cases h; exact hnext⟩

theorem run_get_bind (next : σ → Act σ ε α) (state : σ) : (get >>= next) state = next state state :=
  rfl

theorem run_ofQuery_map (query : σ → Except ε α) (f : α → β) (state : σ) :
    (ofQuery query >>= fun value => pure (f value)) state = ((query state).map f, state) := by
  rw [run_bind, ofQuery]
  cases query state <;> rfl

theorem exists_after {act : Act σ ε α} {state : σ} {outcome : Except ε α}
    (h : (act state).1 = outcome) : ∃ after, act state = (outcome, after) :=
  ⟨(act state).2, Prod.ext h rfl⟩

/-- From a state, the act ends well with the first property or fails with the second. -/
def Ends (act : Act σ ε α) (state : σ) (Done : α → σ → Prop) (Failed : ε → σ → Prop) : Prop :=
  match act state with
  | (.ok value, after) => Done value after
  | (.error error, after) => Failed error after

section
variable {act : Act σ ε α} {state after : σ} {Done : α → σ → Prop} {Failed : ε → σ → Prop}

theorem ends_iff : act.Ends state Done Failed ↔
    (∀ value after, act state = (.ok value, after) → Done value after) ∧
      ∀ error after, act state = (.error error, after) → Failed error after := by
  unfold Ends
  rcases act state with ⟨error | value, left⟩
  · exact ⟨fun h => ⟨nofun, fun _ _ hrun => by cases hrun; exact h⟩, fun h => h.2 error left rfl⟩
  · exact ⟨fun h => ⟨fun _ _ hrun => by cases hrun; exact h, nofun⟩, fun h => h.1 value left rfl⟩

theorem Ends.done (h : act.Ends state Done Failed) {value : α}
    (hrun : act state = (.ok value, after)) : Done value after := (ends_iff.mp h).1 value after hrun

theorem Ends.always {Left : σ → Prop}
    (h : act.Ends state (fun _ after => Left after) fun _ after => Left after) :
    Left (act state).2 := by
  rcases hrun : act state with ⟨error | value, after⟩
  · exact (ends_iff.mp h).2 error after hrun
  · exact h.done hrun

theorem ends_of_left {Left : σ → Prop} (h : Left (act state).2) :
    act.Ends state (fun _ after => Left after) fun _ after => Left after := by
  unfold Ends
  rcases hrun : act state with ⟨error | value, after⟩ <;> rw [hrun] at h <;> exact h

theorem Ends.mono (h : act.Ends state Done Failed) {Done' : α → σ → Prop}
    {Failed' : ε → σ → Prop} (hd : ∀ value after, Done value after → Done' value after)
    (hf : ∀ error after, Failed error after → Failed' error after) :
    act.Ends state Done' Failed' := by
  obtain ⟨hdone, hfailed⟩ := ends_iff.mp h
  exact ends_iff.mpr ⟨fun value after hrun => hd value after (hdone value after hrun),
    fun error after hrun => hf error after (hfailed error after hrun)⟩

theorem ends_pure {value : α} (h : Done value state) :
    (pure value : Act σ ε α).Ends state Done Failed := h

theorem ends_modify {Done : PUnit → σ → Prop} {change : σ → σ} (h : Done ⟨⟩ (change state)) :
    (modify change : Act σ ε PUnit).Ends state Done Failed := h

theorem ends_throw {error : ε} (h : Failed error state) :
    (throw error : Act σ ε α).Ends state Done Failed := h

theorem ends_ofQuery (query : σ → Except ε α) : (ofQuery query).Ends state
    (fun value after => after = state ∧ query state = .ok value) (fun _ after => after = state) := by
  unfold Ends ofQuery
  cases query state with
  | error error => rfl
  | ok value => exact ⟨rfl, rfl⟩

theorem ends_ofStep (step : σ → Except ε α × σ) : (ofStep step).Ends state
    (fun value after => step state = (.ok value, after))
    (fun error after => step state = (.error error, after)) := by
  unfold Ends ofStep
  rcases hstep : step state with ⟨error | value, after⟩
  · rfl
  · rfl

theorem Ends.mapError {convert : ε → ε'} (h : act.Ends state Done Failed) :
    (Act.mapError convert act).Ends state Done
      fun error after => ∃ inner, error = convert inner ∧ Failed inner after := by
  unfold Ends at h ⊢
  unfold Act.mapError
  rcases hrun : act state with ⟨error | value, after⟩ <;> rw [hrun] at h
  · exact ⟨error, rfl, h⟩
  · exact h

theorem Ends.bind {Middle : α → σ → Prop} {next : α → Act σ ε β} {Last : β → σ → Prop}
    (h : act.Ends state Middle Failed)
    (hnext : ∀ value after, Middle value after → (next value).Ends after Last Failed) :
    (act >>= next).Ends state Last Failed := by
  obtain ⟨hdone, hfailed⟩ := ends_iff.mp h
  unfold Ends
  rw [run_bind]
  rcases hrun : act state with ⟨error | value, after⟩
  · exact hfailed error after hrun
  · exact hnext value after (hdone value after hrun)

theorem ends_get_bind {next : σ → Act σ ε α} (h : (next state).Ends state Done Failed) :
    (get >>= next).Ends state Done Failed := h

theorem ends_modify_bind {next : PUnit → Act σ ε α} {change : σ → σ}
    (h : (next ⟨⟩).Ends (change state) Done Failed) :
    (modify change >>= next).Ends state Done Failed := h

end

end SnippetTrail.Act
