import Mathlib.Algebra.GroupWithZero.Nat
import Mathlib.Data.List.Forall2
import SnippetTrail.Shell.Run

/-!
# Calls

What the words of a simple command stand for once they are expanded. A word stands for a text if all of it
is quoted or has no pattern in it, and for the value of a parameter if that value stays in one piece. A
command of such words does nothing but call the first with the others (`calls_simple`).
-/

namespace SnippetTrail.Shell

-- ---------------------------------------------------------------------------
-- Arguments
-- ---------------------------------------------------------------------------

inductive Argument where
  | literal (text : String)
  | parameter (name : String)

instance : Coe String Argument := ⟨.literal⟩

def isPatternChar (c : Char) : Bool := c == '*' || c == '?' || c == '['

/-- What an argument is in a state. The value of a parameter is one only if it stays in one piece. -/
def Argument.value? (state : State) : Argument → Option String
  | .literal text => some text
  | .parameter name => (state.parameter? name).filter fun value => !value.isEmpty &&
      value.toList.all fun c => !state.separators.contains c && !isPatternChar c

/-- In every state the script is a call of the first argument with the others. -/
def Script.Calls (script : Script) (arguments : List Argument) : Prop :=
  ∃ line enough, ∀ fuel streams state program values, enough ≤ fuel → state.isRunning = true →
    arguments.mapM (·.value? state) = some (program :: values) → program :: values ≠ ["exec"] →
    run (fuel + 2) streams script state =
      settled (runDue fuel streams (runNamed fuel streams program values { state with line }))

-- ---------------------------------------------------------------------------
-- Words
-- ---------------------------------------------------------------------------

def Part.literal? : Part → Option (List Char)
  | .plain text => if text.isEmpty || text.any isPatternChar then none else some text
  | .quoted text => some text
  | _ => none

inductive Word.Means : Word → Argument → Prop
  | literal {word : Word} {texts : List (List Char)} {text : String} : word ≠ [] →
      word.mapM Part.literal? = some texts → texts.flatten = text.toList → Means word (.literal text)
  | parameter (name : String) : Means [.parameter ⟨name, .value, []⟩ false] (.parameter name)

theorem Word.Means.exists_texts {word : Word} {text : String} (h : word.Means (.literal text)) :
    ∃ texts, word.mapM Part.literal? = some texts ∧ texts.flatten = text.toList := by
  cases h with
  | literal _ htexts hflat => exact ⟨_, htexts, hflat⟩

-- ---------------------------------------------------------------------------
-- Running a call
-- ---------------------------------------------------------------------------

def Piece.IsWhole (separators : List Char) : Piece → Prop
  | .char c mark => mark = .split → separators.contains c = false
  | .presence => True
  | .boundary => False

section
variable {separators : List Char} {pieces : List Piece} {field : Field} {word : Word}
  {argument : Argument} {state : State} {streams : Streams} {fuel : Nat}

theorem wholeField_append (first second : List Piece) :
    wholeField (first ++ second) = wholeField first ++ wholeField second := List.filterMap_append

theorem wholeField_cons (piece : Piece) (pieces : List Piece) :
    wholeField (piece :: pieces) = wholeField [piece] ++ wholeField pieces :=
  wholeField_append [piece] pieces

theorem fieldsFrom_cons {piece : Piece} {field : Option Field} (h : piece.IsWhole separators) :
    fieldsFrom separators field (piece :: pieces) =
      fieldsFrom separators (some (field.getD [] ++ wholeField [piece])) pieces := by
  cases piece with
  | presence => simp [fieldsFrom, wholeField]
  | boundary => exact h.elim
  | char c mark =>
    have hwhole : ¬(mark == .split && separators.contains c) = true := by
      simpa [Piece.IsWhole] using h
    rw [fieldsFrom, if_neg hwhole]
    rfl

theorem fieldsFrom_some (h : ∀ piece ∈ pieces, piece.IsWhole separators) :
    fieldsFrom separators (some field) pieces = [field ++ wholeField pieces] := by
  induction pieces generalizing field with
  | nil => simp [fieldsFrom, wholeField]
  | cons piece pieces ih =>
    obtain ⟨hpiece, hpieces⟩ := List.forall_mem_cons.mp h
    rw [fieldsFrom_cons hpiece, ih hpieces, wholeField_cons piece pieces,
      Option.getD_some, List.append_assoc]

theorem fieldsFrom_none (hne : pieces ≠ []) (h : ∀ piece ∈ pieces, piece.IsWhole separators) :
    fieldsFrom separators none pieces = [wholeField pieces] := by
  obtain ⟨piece, pieces, rfl⟩ := List.exists_cons_of_ne_nil hne
  obtain ⟨hpiece, hpieces⟩ := List.forall_mem_cons.mp h
  rw [fieldsFrom_cons hpiece, fieldsFrom_some hpieces, wholeField_cons piece pieces]
  rfl

structure OneField (separators : List Char) (pieces : List Piece) (text : List Char) : Prop where
  whole : ∀ piece ∈ pieces, piece.IsWhole separators
  text : (wholeField pieces).map (·.1) = text
  isText : Field.isPattern (wholeField pieces) = false

theorem OneField.nil : OneField separators [] [] := ⟨by simp, rfl, rfl⟩

theorem OneField.append {first second : List Piece} {text other : List Char}
    (hf : OneField separators first text) (hs : OneField separators second other) :
    OneField separators (first ++ second) (text ++ other) where
  whole := List.forall_mem_append.mpr ⟨hf.whole, hs.whole⟩
  text := by rw [wholeField_append, List.map_append, hf.text, hs.text]
  isText := by
    rw [wholeField_append, Field.isPattern, List.any_append, Bool.or_eq_false_iff]
    exact ⟨hf.isText, hs.isText⟩

theorem OneField.presence : OneField separators [.presence] [] := ⟨by simp [Piece.IsWhole], rfl, rfl⟩

theorem OneField.chars {text : List Char} {mark : Mark}
    (hwhole : mark = .split → ∀ c ∈ text, separators.contains c = false)
    (htext : mark ≠ .fixed → text.any isPatternChar = false) :
    OneField separators (text.map (.char · mark)) text := by
  have hfield : wholeField (text.map (.char · mark)) = text.map (·, mark == .fixed) := by
    simp [wholeField, List.filterMap_map]
  refine ⟨?_, ?_, ?_⟩
  · intro piece hm
    obtain ⟨c, hc, rfl⟩ := List.mem_map.mp hm
    exact fun hmark => hwhole hmark c hc
  · simp [hfield, Function.comp_def]
  · rw [hfield, Field.isPattern, List.any_map]
    cases mark with
    | fixed => simp
    | live => simpa [isPatternChar] using htext
    | split => simpa [isPatternChar] using htext

theorem OneField.texts {value : String} (h : OneField state.separators pieces value.toList)
    (hne : pieces ≠ []) :
    (fieldsFrom state.separators none pieces).flatMap (Field.texts state) = [value] := by
  rw [fieldsFrom_none hne h.whole, List.flatMap_singleton, Field.texts, h.isText]
  simp [Field.text, h.text]

theorem expandPart_literal {part : Part} {text : List Char} (h : part.literal? = some text) :
    ∃ pieces, expandPart (fuel + 1) streams part state = (pieces, state) ∧ pieces ≠ [] ∧
      OneField separators pieces text := by
  cases part with
  | plain shown =>
    simp only [Part.literal?] at h
    split at h
    · cases h
    · rename_i hshown
      cases h
      simp only [Bool.or_eq_true, not_or, Bool.not_eq_true] at hshown
      refine ⟨text.map (.char · .live), rfl, ?_, .chars nofun fun _ => hshown.2⟩
      intro hnil
      simp [List.map_eq_nil_iff.mp hnil] at hshown
  | quoted shown =>
    cases h
    exact ⟨.presence :: text.map (.char · .fixed), rfl, by simp,
      OneField.presence.append (.chars nofun fun h => (h rfl).elim)⟩
  | _ => cases h

theorem expandWord_literal {texts : List (List Char)} (h : word.mapM Part.literal? = some texts)
    (hf : word.length < fuel) :
    ∃ pieces, expandWord fuel streams word state = (pieces, state) ∧ (word ≠ [] → pieces ≠ []) ∧
      OneField separators pieces texts.flatten := by
  induction word generalizing fuel texts with
  | nil =>
    obtain ⟨fuel, rfl⟩ := Nat.exists_eq_add_of_lt hf
    cases h
    exact ⟨[], rfl, fun h => (h rfl).elim, .nil⟩
  | cons part word ih =>
    rw [List.length_cons] at hf
    obtain ⟨fuel, rfl⟩ : ∃ k, fuel = k + 2 := ⟨fuel - 2, by omega⟩
    simp only [List.mapM_cons, Option.bind_eq_bind, Option.bind_eq_some_iff] at h
    obtain ⟨text, hpart, texts, hword, h⟩ := h
    cases h
    obtain ⟨first, hfirst, hne, hone⟩ := @expandPart_literal separators state streams fuel part text hpart
    obtain ⟨more, hmore, -, hrest⟩ := @ih (fuel + 1) texts hword (by omega)
    refine ⟨first ++ more, ?_, fun _ => by simp [hne], hone.append hrest⟩
    rw [expandWord]
    simp only [hfirst, hmore]

theorem expandWord_parameter {name value : String}
    (hv : (Argument.parameter name).value? state = some value) :
    expandWord (fuel + 3) streams [.parameter ⟨name, .value, []⟩ false] state =
      (splitPieces value, state) ∧ OneField state.separators (splitPieces value) value.toList ∧
      splitPieces value ≠ [] := by
  obtain ⟨hgiven, hvalue⟩ := Option.filter_eq_some_iff.mp hv
  rw [Bool.and_eq_true, List.all_eq_true] at hvalue
  obtain ⟨hne, hall⟩ := hvalue
  refine ⟨?_, .chars (fun _ c hc => ?_) (fun _ => ?_), ?_⟩
  · simp [expandWord, expandPart, expandParameter, hgiven]
  · simpa using (Bool.and_eq_true_iff.mp (hall c hc)).1
  · simpa using fun c hc => (Bool.and_eq_true_iff.mp (hall c hc)).2
  · intro hnil
    simp [String.toList_eq_nil_iff.mp (List.map_eq_nil_iff.mp hnil)] at hne

theorem expandWord_means {value : String} (h : word.Means argument)
    (hv : argument.value? state = some value) (hf : word.length + 2 ≤ fuel) :
    ∃ pieces, expandWord fuel streams word state = (pieces, state) ∧
      (fieldsFrom state.separators none pieces).flatMap (Field.texts state) = [value] := by
  cases h with
  | literal hne htexts htext =>
    cases hv
    obtain ⟨pieces, hpieces, hsome, hone⟩ :=
      @expandWord_literal state.separators word state streams fuel _ htexts (by omega)
    exact ⟨pieces, hpieces, OneField.texts (htext ▸ hone) (hsome hne)⟩
  | parameter name =>
    obtain ⟨fuel, rfl⟩ : ∃ k, fuel = k + 3 := ⟨fuel - 3, by simp at hf; omega⟩
    obtain ⟨hpieces, hone, hne⟩ := @expandWord_parameter state streams fuel name value hv
    exact ⟨splitPieces value, hpieces, hone.texts hne⟩

theorem expandWords_means {words : List Word} {arguments : List Argument} {values : List String}
    (h : List.Forall₂ Word.Means words arguments)
    (hv : arguments.mapM (·.value? state) = some values)
    (hf : (words.map (·.length + 3)).sum < fuel) :
    expandWords fuel streams words state = (values, state) := by
  induction h generalizing fuel values with
  | nil =>
    obtain ⟨fuel, rfl⟩ := Nat.exists_eq_add_of_lt hf
    cases hv
    rfl
  | @cons word argument words arguments hmeans _ ih =>
    simp only [List.map_cons, List.sum_cons] at hf
    obtain ⟨fuel, rfl⟩ : ∃ k, fuel = k + 1 := ⟨fuel - 1, by omega⟩
    simp only [List.mapM_cons, Option.bind_eq_bind, Option.bind_eq_some_iff] at hv
    obtain ⟨value, hvalue, values, hvalues, hv⟩ := hv
    cases hv
    obtain ⟨pieces, hpieces, hfield⟩ :=
      @expandWord_means word argument state streams fuel value hmeans hvalue (by omega)
    have hrest : expandWords fuel streams words state = (values, state) := ih hvalues (by omega)
    rw [expandWords]
    simp only [hpieces, hrest, hfield]
    rfl

theorem runSimple_call {words : List Word} {program : String} {values : List String}
    (hexpand : expandWords (fuel + 1) streams words state = (program :: values, state))
    (hrunning : state.isRunning = true) (hne : program :: values ≠ ["exec"]) :
    runSimple (fuel + 2) streams [] words [] state =
      runDue (fuel + 1) streams (runNamed (fuel + 1) streams program values state) := by
  have hstill : ¬(!state.isRunning) = true := by simp [hrunning]
  rw [runSimple, hexpand]
  dsimp only
  rw [if_neg hstill]
  simp only [redirect]
  rw [if_neg (by simp)]
  split
  · rename_i hexec
    exact absurd hexec hne
  · rename_i hnil
    cases hnil
  · rename_i name arguments _ hcons
    cases hcons
    rfl

/-- A command of words that stand for arguments, without assignments and redirections, is a call. -/
theorem calls_simple {words : List Word} {arguments : List Argument} (line : Nat)
    (h : List.Forall₂ Word.Means words arguments) :
    (Script.simple line [] words []).Calls arguments := by
  refine ⟨line, (words.map (·.length + 3)).sum + 1, ?_⟩
  intro fuel streams state program values hf hrunning hv hne
  obtain ⟨fuel, rfl⟩ : ∃ k, fuel = k + 1 := ⟨fuel - 1, by omega⟩
  have hexpand : expandWords (fuel + 1) streams words { state with line } =
      (program :: values, { state with line }) := expandWords_means h hv (by omega)
  have hstill : ¬(!state.isRunning) = true := by simp [hrunning]
  rw [run, if_neg hstill]
  exact congrArg settled (runSimple_call hexpand hrunning hne)

end

end SnippetTrail.Shell
