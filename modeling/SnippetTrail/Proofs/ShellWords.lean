import SnippetTrail.Git.History
import SnippetTrail.Proofs.Matching
import SnippetTrail.Shell.Token

/-!
# Written words

The ways to write a word that are used here, and what the shell reads from them
(`Written.readWord`). Words that stand between blanks, semicolons and bars come out as tokens one by
one (`Lexes.written`).
-/

namespace SnippetTrail.Shell

-- ---------------------------------------------------------------------------
-- Writing
-- ---------------------------------------------------------------------------

def opensQuotes (c : Char) : Bool := c == '\\' || c == '\'' || c == '"' || c == '$' || c == '\x60'

def isBare (c : Char) : Bool := !isMeta c && !opensQuotes c

def isBareInQuotes (c : Char) : Bool := c != '\\' && c != '$' && c != '\x60' && c != '"'

def Ends (rest : List Char) : Prop := ∀ c, rest.head? = some c → c = ' ' ∨ c = ';'

inductive Written : List Char → Word → Prop
  | nil : Written [] []
  | bare {run text : List Char} {word : Word} : run ≠ [] → (∀ c ∈ run, isBare c = true) →
      (∀ c, text.head? = some c → opensQuotes c = true) → Written text word →
      Written (run ++ text) (.plain run :: word)
  | single {inner text : List Char} {word : Word} : '\'' ∉ inner → Written text word →
      Written ('\'' :: (inner ++ '\'' :: text)) (.quoted inner :: word)
  | escaped {c : Char} {text : List Char} {word : Word} : c ≠ '\n' → Written text word →
      Written ('\\' :: c :: text) (.quoted [c] :: word)
  | double {inner text : List Char} {word : Word} : inner ≠ [] →
      (∀ c ∈ inner, isBareInQuotes c = true) → Written text word →
      Written ('"' :: (inner ++ '"' :: text)) (.quoted inner :: .quoted [] :: word)
  /-- In double quotes a backslash stays, unless it is in front of a special character. -/
  | backslash {c : Char} {text : List Char} {word : Word} : c ≠ '\n' → isBareInQuotes c = true →
      Written text word →
      Written ('"' :: '\\' :: c :: '"' :: text) (.quoted ['\\', c] :: .quoted [] :: word)
  | parameter {name : List Char} : (∃ c, name.head? = some c ∧ isNameStart c = true) →
      (∀ c ∈ name, isNameChar c = true) →
      Written ('$' :: name) [.parameter ⟨String.ofList name, .value, []⟩ false]

section
variable {text rest run inner name : List Char} {word : Word} {c : Char} {fuel : Nat}

theorem Ends.nil : Ends [] := nofun

theorem Ends.blank : Ends (' ' :: rest) := fun _ h => .inl (Option.some.inj h).symm

theorem Ends.semicolon : Ends (';' :: rest) := fun _ h => .inr (Option.some.inj h).symm

theorem Ends.isMeta (h : Ends rest) (hc : rest.head? = some c) : isMeta c = true := by
  rcases h c hc with rfl | rfl <;> rfl

theorem written_bare (hne : run ≠ []) (hrun : ∀ c ∈ run, isBare c = true) :
    Written run [.plain run] := by
  simpa using Written.bare hne hrun (by simp) .nil

theorem isNameStart_apart (h : isNameStart c = true) :
    isSpecialParameter c = false ∧ Text.isAsciiDigit c = false ∧ c ≠ '(' ∧ c ≠ '\x7b' := by
  have hapart (d : Char) (hd : isNameStart d = false) : c ≠ d := by
    rintro rfl
    exact absurd h (by simp [hd])
  refine ⟨?_, ?_, hapart _ (by decide), hapart _ (by decide)⟩
  · simp only [isSpecialParameter, Bool.or_eq_false_iff, beq_eq_false_iff_ne]
    refine ⟨⟨⟨⟨⟨⟨?_, ?_⟩, ?_⟩, ?_⟩, ?_⟩, ?_⟩, ?_⟩ <;> exact hapart _ (by decide)
  · cases hd : Text.isAsciiDigit c with
    | false => rfl
    | true =>
      simp only [isNameStart, Text.isAsciiUpper, Text.isAsciiLower, Text.isAsciiDigit, Bool.or_eq_true,
        Bool.and_eq_true, decide_eq_true_eq, beq_iff_eq] at h hd
      rcases h with (⟨hlow, -⟩ | ⟨hlow, -⟩) | rfl
      · exact absurd (Char.le_trans hlow hd.2) (by decide)
      · exact absurd (Char.le_trans hlow hd.2) (by decide)
      · exact absurd hd.2 (by decide)

theorem takeWhile_run {belongs : Char → Bool} (hrun : ∀ c ∈ run, belongs c = true)
    (hstop : ∀ c, rest.head? = some c → belongs c = false) : (run ++ rest).takeWhile belongs = run := by
  rw [List.takeWhile_append_of_pos hrun]
  cases rest with
  | nil => simp
  | cons c rest => simp [hstop c rfl]

theorem readQuoted_double (hne : inner ≠ []) (hin : ∀ c ∈ inner, isBareInQuotes c = true) :
    readQuoted (some '"') (fuel + 2) (inner ++ '"' :: rest) = .ok ([.quoted inner, .quoted []], rest) := by
  obtain ⟨c, inner, rfl⟩ := List.exists_cons_of_ne_nil hne
  obtain ⟨hc, hin⟩ := List.forall_mem_cons.mp hin
  simp only [isBareInQuotes, Bool.and_eq_true, bne_iff_ne] at hc
  obtain ⟨⟨⟨hslash, hdollar⟩, htick⟩, hquote⟩ := hc
  have hrun : (inner ++ '"' :: rest).takeWhile
      (fun c => c != '\\' && c != '$' && c != '\x60' && some c != some '"') = inner :=
    takeWhile_run (fun d hd => by simpa [isBareInQuotes] using hin d hd) (by simp)
  have hclose : readQuoted (some '"') (fuel + 1) ('"' :: rest) = .ok ([.quoted []], rest) := rfl
  rw [List.cons_append, readQuoted.eq_7 _ _ _ _ (fun _ h => absurd h hslash)
    (fun _ _ h => absurd h hslash) hdollar htick, if_neg (by simpa using hquote)]
  simp only [hrun, List.length_cons, List.drop_succ_cons, List.drop_left, hclose]
  rfl

theorem readWord_double (hne : inner ≠ []) (hin : ∀ c ∈ inner, isBareInQuotes c = true) :
    readWord isMeta (fuel + 3) ('"' :: (inner ++ '"' :: rest)) =
      (readWord isMeta (fuel + 2) rest).map ([.quoted inner, .quoted []] ++ ·) := by
  rw [readWord.eq_6, readQuoted_double hne hin]
  rfl

theorem readWord_backslash (hc : c ≠ '\n') (hb : isBareInQuotes c = true) :
    readWord isMeta (fuel + 3) ('"' :: '\\' :: c :: '"' :: rest) =
      (readWord isMeta (fuel + 2) rest).map ([.quoted ['\\', c], .quoted []] ++ ·) := by
  simp only [isBareInQuotes, Bool.and_eq_true, bne_iff_ne] at hb
  obtain ⟨⟨⟨hslash, hdollar⟩, htick⟩, hquote⟩ := hb
  have hclose : readQuoted (some '"') (fuel + 1) ('"' :: rest) = .ok ([.quoted []], rest) := rfl
  have hinner : readQuoted (some '"') (fuel + 2) ('\\' :: c :: '"' :: rest) =
      .ok ([.quoted ['\\', c], .quoted []], rest) := by
    rw [readQuoted.eq_4 _ _ _ _ hc, hclose]
    simp [Reading.map, Except.map, hslash, hdollar, htick, hquote]
  rw [readWord.eq_6, hinner]
  rfl

theorem readWord_single (hin : '\'' ∉ inner) :
    readWord isMeta (fuel + 1) ('\'' :: (inner ++ '\'' :: rest)) =
      (readWord isMeta fuel rest).map (.quoted inner :: ·) := by
  rw [readWord.eq_5, Text.splitOnce?_append hin]

theorem readWord_bare (hne : run ≠ []) (hrun : ∀ c ∈ run, isBare c = true)
    (hstop : ∀ c, rest.head? = some c → isBare c = false) :
    readWord isMeta (fuel + 1) (run ++ rest) = (readWord isMeta fuel rest).map (.plain run :: ·) := by
  obtain ⟨c, run, rfl⟩ := List.exists_cons_of_ne_nil hne
  obtain ⟨hc, hrun⟩ := List.forall_mem_cons.mp hrun
  simp only [isBare, opensQuotes, Bool.and_eq_true, Bool.not_eq_true', Bool.or_eq_false_iff,
    beq_eq_false_iff_ne] at hc
  obtain ⟨hmeta, ⟨⟨⟨hslash, hsingle⟩, hdouble⟩, hdollar⟩, htick⟩ := hc
  have hbare : (fun c => !isMeta c && c != '\\' && c != '\'' && c != '"' && c != '$' && c != '\x60') =
      isBare := by
    funext d
    simp [isBare, opensQuotes, bne, Bool.and_assoc]
  rw [List.cons_append, readWord.eq_9 _ _ _ _ (fun _ h => absurd h hslash)
    (fun _ _ h => absurd h hslash) hsingle hdouble hdollar htick, if_neg (by simp [hmeta])]
  simp only [hbare, takeWhile_run hrun hstop, List.length_cons, List.drop_succ_cons, List.drop_left]

theorem readWord_end (hr : Ends rest) : readWord isMeta (fuel + 1) rest = .ok ([], rest) := by
  cases rest with
  | nil => rfl
  | cons c rest => rcases hr c rfl with rfl | rfl <;> rfl

theorem readExpansion_name (hfirst : ∃ c, name.head? = some c ∧ isNameStart c = true)
    (hname : ∀ c ∈ name, isNameChar c = true)
    (hstop : ∀ c, rest.head? = some c → isNameChar c = false) :
    readExpansion false (name ++ rest) =
      .ok (.parameter ⟨String.ofList name, .value, []⟩ false, rest) := by
  obtain ⟨c, hhead, hc⟩ := hfirst
  obtain ⟨name, rfl⟩ := List.head?_eq_some_iff.mp hhead
  have hwhole : parameterName (c :: (name ++ rest)) = c :: name := by
    simp only [parameterName, hc, if_true]
    exact takeWhile_run hname hstop
  obtain ⟨hspecial, hdigit, hparen, hbrace⟩ := isNameStart_apart hc
  rw [List.cons_append, readExpansion.eq_3 _ _ _ hparen hbrace, hwhole]
  simp [hspecial, hdigit]

theorem Written.readWord (h : Written text word) (hr : Ends rest) (hf : text.length < fuel) :
    Shell.readWord isMeta fuel (text ++ rest) = .ok (word, rest) := by
  induction h generalizing fuel with
  | nil =>
    obtain ⟨fuel, rfl⟩ := Nat.exists_eq_add_of_lt hf
    exact readWord_end hr
  | @bare run text word hne hrun hstop _ ih =>
    obtain ⟨fuel, rfl⟩ := Nat.exists_eq_add_of_lt hf
    have hnext (c : Char) (hc : (text ++ rest).head? = some c) : isBare c = false := by
      cases text with
      | nil => simp [isBare, hr.isMeta hc]
      | cons d text => simp [isBare, hstop c hc]
    have hlength : 0 < run.length := List.length_pos_iff.mpr hne
    rw [List.length_append] at *
    rw [List.append_assoc, readWord_bare hne hrun hnext, ih (by omega)]
    rfl
  | @single inner text word hin _ ih =>
    obtain ⟨fuel, rfl⟩ := Nat.exists_eq_add_of_lt hf
    simp only [List.length_cons, List.length_append] at *
    rw [List.cons_append, List.append_assoc, List.cons_append, readWord_single hin, ih (by omega)]
    rfl
  | @escaped c text word hc _ ih =>
    obtain ⟨fuel, rfl⟩ := Nat.exists_eq_add_of_lt hf
    simp only [List.length_cons] at *
    rw [List.cons_append, List.cons_append, readWord.eq_4 _ _ _ _ hc, ih (by omega)]
    rfl
  | @double inner text word hne hin _ ih =>
    simp only [List.length_cons, List.length_append] at *
    obtain ⟨fuel, rfl⟩ : ∃ k, fuel = k + 3 := ⟨fuel - 3, by omega⟩
    rw [List.cons_append, List.append_assoc, List.cons_append, readWord_double hne hin, ih (by omega)]
    rfl
  | @backslash c text word hc hb _ ih =>
    simp only [List.length_cons] at *
    obtain ⟨fuel, rfl⟩ : ∃ k, fuel = k + 3 := ⟨fuel - 3, by omega⟩
    simp only [List.cons_append]
    rw [readWord_backslash hc hb, ih (by omega)]
    rfl
  | @parameter name hfirst hname =>
    simp only [List.length_cons] at *
    obtain ⟨fuel, rfl⟩ : ∃ k, fuel = k + 2 := ⟨fuel - 2, by omega⟩
    have hstop (c : Char) (hc : rest.head? = some c) : isNameChar c = false := by
      rcases hr c hc with rfl | rfl <;> decide
    rw [List.cons_append, readWord.eq_7, readExpansion_name hfirst hname hstop]
    simp only [Reading.andThen, Except.bind, readWord_end hr]
    rfl

end

-- ---------------------------------------------------------------------------
-- Tokens
-- ---------------------------------------------------------------------------

/-- The tokens of a text, on whatever lines they stand. -/
def Lexes (text : List Char) (tokens : List Token) : Prop :=
  ∀ fuel line, text.length < fuel → ∃ lexemes,
    lexemesFrom fuel line [] text = (lexemes, []) ∧ lexemes.map (·.token) = tokens

section
variable {text rest run next : List Char} {word : Word} {tokens : List Token} {c d : Char}

theorem startingOne?_none (h : isMeta c = false) : startingOne? operators (c :: text) = none := by
  simp only [isMeta, Bool.or_eq_false_iff, beq_eq_false_iff_ne] at h
  obtain ⟨⟨⟨⟨⟨⟨⟨-, hsemicolon⟩, hand⟩, hbar⟩, -⟩, -⟩, hopen⟩, hclose⟩ := h
  simp [startingOne?, operators, Text.stripStart?, Ne.symm hsemicolon, Ne.symm hand, Ne.symm hbar,
    Ne.symm hopen, Ne.symm hclose]

theorem not_directed (hrun : ∀ c ∈ run, isMeta c = false)
    (hnext : ∀ c, next.head? = some c → Text.isAsciiDigit c = false ∧ c ≠ '<' ∧ c ≠ '>')
    (hd : ((run ++ next).drop ((run ++ next).takeWhile Text.isAsciiDigit).length).head? = some d) :
    d ≠ '<' ∧ d ≠ '>' := by
  induction run with
  | nil =>
    cases next with
    | nil => simp at hd
    | cons c next =>
      obtain ⟨hdigit, hapart⟩ := hnext c rfl
      simp only [List.nil_append, List.takeWhile_cons, hdigit] at hd
      cases hd
      exact hapart
  | cons c run ih =>
    obtain ⟨hc, hrun⟩ := List.forall_mem_cons.mp hrun
    by_cases hdigit : Text.isAsciiDigit c = true
    · simp only [List.cons_append, List.takeWhile_cons, hdigit, if_true, List.length_cons,
        List.drop_succ_cons] at hd
      exact ih hrun hd
    · simp only [List.cons_append, List.takeWhile_cons, hdigit] at hd
      cases hd
      constructor <;> rintro rfl <;> cases hc

theorem Lexes.nil : Lexes [] [.finish] := by
  intro fuel line hf
  obtain ⟨fuel, rfl⟩ := Nat.exists_eq_add_of_lt hf
  exact ⟨[⟨line, .finish⟩], rfl, rfl⟩

theorem Lexes.blank (h : Lexes text tokens) : Lexes (' ' :: text) tokens := by
  intro fuel line hf
  cases fuel with
  | zero => cases hf
  | succ fuel => exact h fuel line (Nat.lt_of_succ_lt_succ hf)

theorem Lexes.operator (hc : c = ';' ∨ c = '|') (h : Lexes text tokens) :
    Lexes (c :: ' ' :: text) (.operator (String.singleton c) :: tokens) := by
  intro fuel line hf
  cases fuel with
  | zero => cases hf
  | succ fuel =>
    obtain ⟨lexemes, hlexemes, htokens⟩ := h.blank fuel line (Nat.lt_of_succ_lt_succ hf)
    have hfirst : lexemesFrom (fuel + 1) line [] (c :: ' ' :: text) =
        (⟨line, .operator (String.singleton c)⟩ :: (lexemesFrom fuel line [] (' ' :: text)).1,
          (lexemesFrom fuel line [] (' ' :: text)).2) := by
      rcases hc with rfl | rfl <;> rfl
    exact ⟨⟨line, _⟩ :: lexemes, by rw [hfirst, hlexemes], by rw [List.map_cons, htokens]⟩

theorem Written.starts (h : Written (c :: text) word) :
    isMeta c = false ∧ (c = '\\' → ∃ d others, text = d :: others ∧ d ≠ '\n') := by
  generalize hwhole : c :: text = whole at h
  cases h with
  | nil => cases hwhole
  | @bare run text _ hne hrun =>
    obtain ⟨d, run, rfl⟩ := List.exists_cons_of_ne_nil hne
    cases hwhole
    have hbare : isBare c = true := hrun c (by simp)
    simp only [isBare, Bool.and_eq_true, Bool.not_eq_true'] at hbare
    refine ⟨hbare.1, ?_⟩
    rintro rfl
    cases hbare.2
  | @escaped d text _ hd =>
    cases hwhole
    exact ⟨rfl, fun _ => ⟨d, text, rfl, hd⟩⟩
  | _ =>
    cases hwhole
    exact ⟨rfl, nofun⟩

theorem Written.undirected (h : Written text word) (hr : Ends rest)
    (hd : ((text ++ rest).drop ((text ++ rest).takeWhile Text.isAsciiDigit).length).head? = some d) :
    d ≠ '<' ∧ d ≠ '>' := by
  have hend (c : Char) (hc : rest.head? = some c) :
      Text.isAsciiDigit c = false ∧ c ≠ '<' ∧ c ≠ '>' := by
    rcases hr c hc with rfl | rfl <;> decide
  cases h with
  | nil => exact @not_directed [] rest d (by simp) hend hd
  | @bare run text word hne hrun hstop =>
    refine @not_directed run (text ++ rest) d ?_ ?_ (by simpa using hd)
    · intro c hc
      have hbare := hrun c hc
      simp only [isBare, Bool.and_eq_true, Bool.not_eq_true'] at hbare
      exact hbare.1
    · intro c hc
      cases text with
      | nil => exact hend c hc
      | cons e text =>
        have hopens := hstop c hc
        simp only [opensQuotes, Bool.or_eq_true, beq_iff_eq] at hopens
        rcases hopens with (((rfl | rfl) | rfl) | rfl) | rfl <;> decide
  | _ =>
    cases hd
    decide

/-- A word that is no comment is one token. -/
theorem Lexes.written (h : Lexes rest tokens) (hw : Written text word) (hhead : text.head? = some c)
    (hc : c ≠ '#') (hr : Ends rest) : Lexes (text ++ rest) (.word (withHome word) :: tokens) := by
  intro fuel line hf
  obtain ⟨text, rfl⟩ := List.head?_eq_some_iff.mp hhead
  cases fuel with
  | zero => cases hf
  | succ fuel =>
    simp only [List.length_append, List.length_cons] at hf
    obtain ⟨lexemes, hlexemes, htokens⟩ := h fuel
      (line + (newlines (c :: (text ++ rest)) - newlines rest)) (by omega)
    refine ⟨⟨line, .word (withHome word)⟩ :: lexemes, ?_, by rw [List.map_cons, htokens]⟩
    obtain ⟨hmeta, hslash⟩ := hw.starts
    have hnone : startingOne? operators (c :: (text ++ rest)) = none := startingOne?_none hmeta
    have hreads : readWord isMeta ((c :: (text ++ rest)).length + 1) (c :: (text ++ rest)) =
        .ok (word, rest) := hw.readWord hr (by simp only [List.length_cons, List.length_append]; omega)
    have hundirected (d : Char) := @Written.undirected _ _ _ d hw hr
    simp only [isMeta, Bool.or_eq_false_iff, beq_eq_false_iff_ne] at hmeta
    have hjoined (others : List Char) (he : c = '\\') : text ++ rest ≠ '\n' :: others := by
      obtain ⟨d, more, rfl, hd⟩ := hslash he
      simp [hd]
    rw [List.cons_append] at *
    rw [lexemesFrom.eq_5 _ _ _ _ _ (by tauto) hjoined, if_neg (by simp; tauto),
      if_neg (by simpa using hc)]
    simp only []
    rw [if_neg]
    · simp only [hnone, hreads, hlexemes]
    · simp only [Bool.or_eq_true, beq_iff_eq]
      rintro (hd | hd)
      · exact (hundirected _ hd).1 rfl
      · exact (hundirected _ hd).2 rfl

end

end SnippetTrail.Shell
