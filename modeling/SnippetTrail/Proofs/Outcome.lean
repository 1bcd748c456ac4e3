import Mathlib.Data.List.Basic

/-!
# Computations that can fail

A sequence of computations ends well if each of them does, and with what they give.
-/

namespace SnippetTrail

variable {ε α β : Type}

theorem bind_eq_ok {result : Except ε α} {next : α → Except ε β} {b : β} :
    result >>= next = .ok b ↔ ∃ a, result = .ok a ∧ next a = .ok b := by
  cases result with
  | error e =>
    constructor
    · intro h; cases h
    · rintro ⟨_, h, -⟩; cases h
  | ok a =>
    constructor
    · intro h; exact ⟨a, rfl, h⟩
    · rintro ⟨_, h, hn⟩; cases h; exact hn

theorem map_eq_ok {result : Except ε α} {f : α → β} {b : β} :
    result.map f = .ok b ↔ ∃ a, result = .ok a ∧ f a = b := by
  cases result with
  | error e => simp [Except.map]
  | ok a => simp [Except.map]

theorem map_isOk {result : Except ε α} {f : α → β} :
    (∃ b, result.map f = .ok b) ↔ ∃ a, result = .ok a := by
  cases result <;> simp [Except.map]

theorem pure_eq_ok {a b : α} : (pure a : Except ε α) = .ok b ↔ a = b :=
  ⟨fun h => by cases h; rfl, fun h => h ▸ rfl⟩

/-- A result that passes a test is there, and need not be written out. -/
theorem ok_of_any {x : Except ε α} {p : α → Bool} (h : x.toOption.any p = true) :
    ∃ a, x = .ok a ∧ p a = true := by
  cases x with
  | error e => simp [Except.toOption] at h
  | ok a => exact ⟨a, rfl, h⟩

theorem error_of_isNone {x : Except ε α} (h : x.toOption.isNone = true) : ∃ e, x = .error e := by
  cases x with
  | error e => exact ⟨e, rfl⟩
  | ok a => simp [Except.toOption] at h

theorem exists_error_iff {result : Except ε α} :
    (∃ fault, result = .error fault) ↔ ¬∃ a, result = .ok a := by
  cases result <;> simp

theorem mapM_ok {f : α → Except ε β} {g : α → β} {items : List α} {results : List β}
    (hg : ∀ a ∈ items, ∀ b, f a = .ok b → b = g a) (h : items.mapM f = .ok results) :
    results = items.map g := by
  induction items generalizing results with
  | nil => exact (pure_eq_ok.mp h).symm
  | cons a rest ih =>
    simp only [List.mapM_cons, bind_eq_ok, pure_eq_ok] at h
    obtain ⟨b, hb, tail, ht, rfl⟩ := h
    rw [hg a (by simp) b hb, ih (fun c hc => hg c (by simp [hc])) ht, List.map_cons]

theorem mapM_isOk {f : α → Except ε β} {items : List α} :
    (∃ results, items.mapM f = .ok results) ↔ ∀ a ∈ items, ∃ b, f a = .ok b := by
  induction items with
  | nil => simp [pure_eq_ok]
  | cons a rest ih =>
    simp only [List.mapM_cons, bind_eq_ok, pure_eq_ok, List.forall_mem_cons, ← ih]
    constructor
    · rintro ⟨_, b, hb, results, hr, -⟩; exact ⟨⟨b, hb⟩, results, hr⟩
    · rintro ⟨⟨b, hb⟩, results, hr⟩; exact ⟨_, b, hb, results, hr, rfl⟩

end SnippetTrail
