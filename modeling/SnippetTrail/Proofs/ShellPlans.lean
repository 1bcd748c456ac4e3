import SnippetTrail.Proofs.ShellSpelling

/-!
# Plans of calls

Calls that are put together by pipes, sequences and loops. The text of a plan is read as a script that
makes its calls and is put together as it is (`Plan.IsSound.nextLine`), and running the text is running
that script (`Plan.IsSound.runText`).
-/

namespace SnippetTrail.Shell

-- ---------------------------------------------------------------------------
-- Plans
-- ---------------------------------------------------------------------------

inductive Plan (α : Type) where
  | call (words : List α)
  | pipe (left right : Plan α)
  | sequence (first second : Plan α)
  | loop (condition body : Plan α)

/-- The script makes the calls of the plan, and is put together as the plan is. -/
inductive Script.Follows : Script → Plan Argument → Prop
  | call {line : Nat} {words : List Word} {arguments : List Argument} :
      Calls (.simple line [] words []) arguments →
      Follows (.simple line [] words []) (.call arguments)
  | pipe {left right : Script} {first second : Plan Argument} : Follows left first →
      Follows right second → Follows (.pipe left right) (.pipe first second)
  | sequence {left right : Script} {first second : Plan Argument} : Follows left first →
      Follows right second → Follows (.sequence left right) (.sequence first second)
  | loop {left right : Script} {condition body : Plan Argument} : Follows left condition →
      Follows right body → Follows (.loop false left right) (.loop condition body)

def lineText : List Spelled → List Char
  | [] => []
  | [spelled] => spelled.text
  | spelled :: others => spelled.text ++ ' ' :: lineText others

namespace Plan

variable {α β : Type}

def map (f : α → β) : Plan α → Plan β
  | .call words => .call (words.map f)
  | .pipe left right => .pipe (left.map f) (right.map f)
  | .sequence first second => .sequence (first.map f) (second.map f)
  | .loop condition body => .loop (condition.map f) (body.map f)

def whileText : List Char := ['w', 'h', 'i', 'l', 'e']

def doText : List Char := ['d', 'o']

def doneText : List Char := ['d', 'o', 'n', 'e']

def text : Plan Spelled → List Char
  | .call words => lineText words
  | .pipe left right => left.text ++ ' ' :: '|' :: ' ' :: right.text
  | .sequence first second => first.text ++ ';' :: ' ' :: second.text
  | .loop condition body => whileText ++ ' ' :: (condition.text ++ ';' :: ' ' :: (doText ++ ' ' ::
      (body.text ++ ';' :: ' ' :: doneText)))

def keywordToken (text : List Char) : Token := .word [.plain text]

def tokens : Plan Spelled → List Token
  | .call words => words.map fun spelled => .word spelled.word
  | .pipe left right => left.tokens ++ .operator "|" :: right.tokens
  | .sequence first second => first.tokens ++ .operator ";" :: second.tokens
  | .loop condition body => keywordToken whileText :: (condition.tokens ++ .operator ";" ::
      keywordToken doText :: (body.tokens ++ [.operator ";", keywordToken doneText]))

end Plan

open Plan (keywordToken whileText doText doneText)

-- ---------------------------------------------------------------------------
-- Tokens of a plan
-- ---------------------------------------------------------------------------

section
variable {rest : List Char} {tokens : List Token}

theorem Lexes.spelled (spelled : Spelled) (hr : Ends rest) (h : Lexes rest tokens) :
    Lexes (spelled.text ++ rest) (.word spelled.word :: tokens) := by
  obtain ⟨c, hhead, hc⟩ := spelled.begins
  have hword := h.written spelled.written hhead hc hr
  rwa [spelled.home] at hword

theorem Lexes.line (words : List Spelled) (hr : Ends rest) (h : Lexes rest tokens) :
    Lexes (lineText words ++ rest) (words.map (fun spelled => .word spelled.word) ++ tokens) := by
  fun_induction lineText words with
  | case1 => exact h
  | case2 spelled => exact h.spelled spelled hr
  | case3 spelled others _ ih =>
    rw [List.append_assoc]
    exact ih.blank.spelled spelled .blank

theorem Lexes.keyword (text : List Char) (htext : text ∈ [whileText, doText, doneText])
    (hr : Ends rest) (h : Lexes rest tokens) :
    Lexes (text ++ rest) (keywordToken text :: tokens) := by
  simp only [List.mem_cons, List.not_mem_nil, or_false] at htext
  rcases htext with rfl | rfl | rfl <;>
    exact h.written (written_bare (by decide) (List.all_eq_true.mp rfl)) rfl (by decide) hr

theorem Plan.lexes (plan : Plan Spelled) (hr : Ends rest) (h : Lexes rest tokens) :
    Lexes (plan.text ++ rest) (plan.tokens ++ tokens) := by
  induction plan generalizing rest tokens with
  | call words => exact h.line words hr
  | pipe left right ihl ihr =>
    simp only [Plan.text, Plan.tokens, List.append_assoc, List.cons_append]
    exact ihl .blank ((ihr hr h).operator (.inr rfl)).blank
  | sequence first second ihl ihr =>
    simp only [Plan.text, Plan.tokens, List.append_assoc, List.cons_append]
    exact ihl .semicolon ((ihr hr h).operator (.inl rfl))
  | loop condition body ihc ihb =>
    simp only [Plan.text, Plan.tokens, List.append_assoc, List.cons_append]
    have hdone := h.keyword doneText (by simp) hr
    have hbody := ihb .semicolon (hdone.operator (.inl rfl))
    have hdo := hbody.blank.keyword doText (by simp) .blank
    have hcondition := ihc .semicolon (hdo.operator (.inl rfl))
    exact hcondition.blank.keyword whileText (by simp) .blank

end

-- ---------------------------------------------------------------------------
-- Reading a plan
-- ---------------------------------------------------------------------------

namespace Script

def EndsCommand (rest : List Lexeme) : Prop := ∃ line token tail, rest = ⟨line, token⟩ :: tail ∧
  (token = .operator "|" ∨ token = .operator ";" ∨ token = .finish)

def EndsPipeline (rest : List Lexeme) : Prop := ∃ line token tail, rest = ⟨line, token⟩ :: tail ∧
  (token = .operator ";" ∨ token = .finish)

theorem EndsPipeline.endsCommand {rest : List Lexeme} (h : EndsPipeline rest) : EndsCommand rest := by
  obtain ⟨line, token, tail, rfl, htoken⟩ := h
  exact ⟨line, token, tail, rfl, .inr htoken⟩

def IsCommandWord (word : Word) : Prop :=
  (∀ text ∈ keywords, keyword? (.word word) ≠ some text) ∧ assignment? word = none

instance (word : Word) : Decidable (IsCommandWord word) := inferInstanceAs (Decidable (_ ∧ _))

theorem isCommandWord_quote (text : String) : IsCommandWord (Spelled.quote text).word := by
  obtain ⟨first, others, -, hword, -⟩ := quotedWord_literal [] text.toList
  have hquote : (Spelled.quote text).word = .quoted first :: others := hword
  rw [hquote]
  exact ⟨nofun, rfl⟩

section
variable {rest lexemes : List Lexeme} {bodies : List Word} {fuel line : Nat} {words front : List Word}
  {word : Word}

theorem EndsCommand.redirect? (h : EndsCommand rest) : redirect? ⟨rest, bodies⟩ = none := by
  obtain ⟨line, token, tail, rfl, rfl | rfl | rfl⟩ := h <;> rfl

theorem exists_cons_lexemes {token : Token} {tokens : List Token}
    (h : lexemes.map (·.token) = token :: tokens) :
    ∃ line behind, lexemes = ⟨line, token⟩ :: behind ∧ behind.map (·.token) = tokens := by
  obtain ⟨⟨line, token⟩, behind, rfl, rfl, hbehind⟩ := List.map_eq_cons_iff.mp h
  exact ⟨line, behind, rfl, hbehind⟩

theorem simpleFrom_words (h : lexemes.map (·.token) = words.map .word) (hr : EndsCommand rest)
    (hne : front ≠ []) (hf : lexemes.length < fuel) :
    simpleFrom fuel line [] front [] ⟨lexemes ++ rest, bodies⟩ =
      .ok (.simple line [] (front ++ words) [], ⟨rest, bodies⟩) := by
  obtain ⟨first, front, rfl⟩ := List.exists_cons_of_ne_nil hne
  induction words generalizing fuel lexemes front with
  | nil =>
    obtain rfl := List.map_eq_nil_iff.mp h
    obtain ⟨fuel, rfl⟩ := Nat.exists_eq_add_of_lt hf
    rw [List.append_nil]
    obtain ⟨line, token, tail, rfl, rfl | rfl | rfl⟩ := hr <;> rfl
  | cons word words ih =>
    obtain ⟨place, lexemes, rfl, hlexemes⟩ := exists_cons_lexemes h
    obtain ⟨fuel, rfl⟩ : ∃ k, fuel = k + 1 := ⟨fuel - 1, by simp at hf; omega⟩
    have hstep : simpleFrom (fuel + 1) line [] (first :: front) []
        ⟨⟨place, .word word⟩ :: lexemes ++ rest, bodies⟩ =
        simpleFrom fuel line [] (first :: (front ++ [word])) [] ⟨lexemes ++ rest, bodies⟩ := rfl
    rw [hstep, ih hlexemes (by simpa using hf) (front ++ [word]) (by simp)]
    simp

theorem IsCommandWord.isCloser (h : IsCommandWord word) : isCloser (.word word) = false := by
  cases hkeyword : keyword? (.word word) with
  | none => simp [Script.isCloser, hkeyword]
  | some text =>
    have hclosers : text ∉ closers := fun hm =>
      h.1 text (List.mem_append_right _ hm) hkeyword
    simp [Script.isCloser, hkeyword, hclosers]

theorem definition?_words (h : lexemes.map (·.token) = words.map .word) (hr : EndsCommand rest) :
    definition? ⟨⟨line, .word word⟩ :: lexemes ++ rest, bodies⟩ = none := by
  cases words with
  | nil =>
    obtain rfl := List.map_eq_nil_iff.mp h
    obtain ⟨line, token, tail, rfl, rfl | rfl | rfl⟩ := hr <;> simp [definition?]
  | cons next words =>
    obtain ⟨place, lexemes, rfl, -⟩ := exists_cons_lexemes h
    simp [definition?]

theorem simpleFrom_first (hword : assignment? word = none)
    (h : lexemes.map (·.token) = words.map .word) (hr : EndsCommand rest) :
    simpleFrom ((⟨line, .word word⟩ :: lexemes ++ rest).length + 1) 1 [] [] []
        ⟨⟨line, .word word⟩ :: lexemes ++ rest, bodies⟩ =
      .ok (.simple line [] (word :: words) [], ⟨rest, bodies⟩) := by
  have hnone : redirect? ⟨⟨line, .word word⟩ :: lexemes ++ rest, bodies⟩ = none := rfl
  have htoken : Input.token ⟨⟨line, .word word⟩ :: lexemes ++ rest, bodies⟩ = .word word := rfl
  have hfirst : simpleFrom ((⟨line, .word word⟩ :: lexemes ++ rest).length + 1) 1 [] [] []
      ⟨⟨line, .word word⟩ :: lexemes ++ rest, bodies⟩ =
      simpleFrom (⟨line, .word word⟩ :: lexemes ++ rest).length line [] [word] []
        ⟨lexemes ++ rest, bodies⟩ := by
    rw [simpleFrom]
    simp only [hnone, htoken, hword]
    rfl
  have hlength : lexemes.length < (⟨line, .word word⟩ :: lexemes ++ rest).length := by
    simp only [List.length_append, List.length_cons]
    omega
  rw [hfirst, simpleFrom_words h hr (List.cons_ne_nil _ _) hlength]
  rfl

theorem command_words (hword : IsCommandWord word)
    (h : lexemes.map (·.token) = (word :: words).map .word) (hr : EndsCommand rest) :
    ∃ line, command (fuel + 1) ⟨lexemes ++ rest, bodies⟩ =
      .ok (.simple line [] (word :: words) [], ⟨rest, bodies⟩) := by
  obtain ⟨line, lexemes, rfl, hlexemes⟩ := exists_cons_lexemes h
  refine ⟨line, ?_⟩
  have hsimple := @simpleFrom_first rest lexemes bodies line words word hword.2 hlexemes hr
  have hdefinition := @definition?_words rest lexemes bodies line words word hlexemes hr
  have htoken : Input.token ⟨⟨line, .word word⟩ :: lexemes ++ rest, bodies⟩ = .word word := rfl
  rw [command]
  simp only [htoken, hword.isCloser, hdefinition, hsimple]
  rw [if_neg (by simp)]
  split
  case h_7 => rfl
  all_goals
    rename_i hkeyword
    exact absurd hkeyword (hword.1 _ (by decide))

end

def Opens (token : Token) : Prop :=
  token ≠ .newline ∧ token ≠ .finish ∧ isCloser token = false ∧ keyword? token ≠ some "!"

theorem IsCommandWord.opens {word : Word} (h : IsCommandWord word) : Opens (.word word) :=
  ⟨nofun, nofun, h.isCloser, h.1 _ (by decide)⟩

def IsOpen (plan : Plan Spelled) : Prop := ∃ token tokens, plan.tokens = token :: tokens ∧ Opens token

/-- The tokens of the plan are read as a command that follows it. Between two tokens the parser goes
through six of its functions at most, so that much fuel for each token is enough. -/
def ReadsCommand (plan : Plan Spelled) : Prop :=
  ∀ fuel lexemes rest bodies, lexemes.map (·.token) = plan.tokens → EndsCommand rest →
    6 * lexemes.length ≤ fuel → ∃ script, command fuel ⟨lexemes ++ rest, bodies⟩ =
      .ok (script, ⟨rest, bodies⟩) ∧ script.Follows (plan.map (·.argument))

def ReadsPipeline (plan : Plan Spelled) : Prop :=
  ∀ fuel lexemes rest bodies, lexemes.map (·.token) = plan.tokens → EndsPipeline rest →
    6 * lexemes.length + 1 ≤ fuel → ∃ script, pipeline fuel ⟨lexemes ++ rest, bodies⟩ =
      .ok (script, ⟨rest, bodies⟩) ∧ script.Follows (plan.map (·.argument))

def ReadsList (plan : Plan Spelled) : Prop :=
  ∀ fuel line lexemes closer rest bodies, lexemes.map (·.token) = plan.tokens →
    isCloser closer.token = true → 6 * lexemes.length + 4 ≤ fuel → ∃ script,
      list fuel ⟨lexemes ++ ⟨line, .operator ";"⟩ :: closer :: rest, bodies⟩ =
        .ok (script, ⟨closer :: rest, bodies⟩) ∧ script.Follows (plan.map (·.argument))

section
variable {plan left right : Plan Spelled} {lexeme closer : Lexeme} {rest lexemes : List Lexeme}
  {bodies : List Word} {fuel line : Nat}

theorem skipLines_of_ne (h : lexeme.token ≠ .newline) :
    Input.skipLines ⟨lexeme :: rest, bodies⟩ = ⟨lexeme :: rest, bodies⟩ := by
  simp [Input.skipLines, h]

theorem IsOpen.exists_lexeme (h : IsOpen plan) (ht : lexemes.map (·.token) = plan.tokens) :
    ∃ lexeme more, lexemes = lexeme :: more ∧ Opens lexeme.token := by
  obtain ⟨token, tokens, htokens, hopens⟩ := h
  obtain ⟨line, more, rfl, -⟩ := exists_cons_lexemes (ht.trans htokens)
  exact ⟨_, more, rfl, hopens⟩

theorem ReadsCommand.pipeline (h : ReadsCommand plan) : ReadsPipeline plan := by
  intro fuel lexemes rest bodies ht hr hf
  obtain ⟨fuel, rfl⟩ : ∃ k, fuel = k + 1 := ⟨fuel - 1, by omega⟩
  obtain ⟨script, hscript, hfollows⟩ := h fuel lexemes rest bodies ht hr.endsCommand (by omega)
  refine ⟨script, ?_, hfollows⟩
  rw [Script.pipeline, hscript]
  obtain ⟨line, token, tail, rfl, rfl | rfl⟩ := hr <;> rfl

theorem readsPipeline_pipe (hl : ReadsCommand left) (hr : ReadsPipeline right) (ho : IsOpen right) :
    ReadsPipeline (.pipe left right) := by
  intro fuel lexemes rest bodies ht hrest hf
  obtain ⟨first, behind, rfl, hfirst, hbehind⟩ := List.map_eq_append_iff.mp ht
  obtain ⟨line, second, rfl, hsecond⟩ := exists_cons_lexemes hbehind
  simp only [List.length_append, List.length_cons] at hf
  obtain ⟨fuel, rfl⟩ : ∃ k, fuel = k + 1 := ⟨fuel - 1, by omega⟩
  obtain ⟨one, hone, hfollows⟩ := hl fuel first (⟨line, .operator "|"⟩ :: second ++ rest) bodies
    hfirst ⟨_, _, _, rfl, .inl rfl⟩ (by omega)
  obtain ⟨other, hother, hothers⟩ := hr fuel second rest bodies hsecond hrest (by omega)
  refine ⟨.pipe one other, ?_, .pipe hfollows hothers⟩
  obtain ⟨lexeme, more, rfl, hopens⟩ := ho.exists_lexeme hsecond
  have hskip : Input.skipLines ⟨lexeme :: more ++ rest, bodies⟩ = ⟨lexeme :: more ++ rest, bodies⟩ :=
    skipLines_of_ne hopens.1
  have hbar : Input.skipOperator? "|" ⟨⟨line, .operator "|"⟩ :: (lexeme :: more) ++ rest, bodies⟩ =
      some ⟨lexeme :: more ++ rest, bodies⟩ := rfl
  rw [List.append_assoc, Script.pipeline, hone]
  simp only [bind, Except.bind, hbar, hskip, hother]
  rfl

theorem ReadsPipeline.andOr (h : ReadsPipeline plan) (ho : IsOpen plan)
    (ht : lexemes.map (·.token) = plan.tokens) (hr : EndsPipeline rest)
    (hf : 6 * lexemes.length + 3 ≤ fuel) :
    ∃ script, andOr fuel ⟨lexemes ++ rest, bodies⟩ = .ok (script, ⟨rest, bodies⟩) ∧
      script.Follows (plan.map (·.argument)) := by
  obtain ⟨fuel, rfl⟩ : ∃ k, fuel = k + 2 := ⟨fuel - 2, by omega⟩
  obtain ⟨script, hscript, hfollows⟩ := h fuel lexemes rest bodies ht hr (by omega)
  refine ⟨script, ?_, hfollows⟩
  obtain ⟨lexeme, more, rfl, hopens⟩ := ho.exists_lexeme ht
  have hnegated : negated (fuel + 1) ⟨lexeme :: more ++ rest, bodies⟩ =
      .ok (script, ⟨rest, bodies⟩) := by
    have hnone : Input.skipKeyword? "!" ⟨lexeme :: more ++ rest, bodies⟩ = none :=
      if_neg fun hnot => hopens.2.2.2 (beq_iff_eq.mp hnot)
    rw [negated, hnone, hscript]
  rw [Script.andOr, hnegated]
  obtain ⟨line, token, tail, rfl, rfl | rfl⟩ := hr <;> rfl

theorem Follows.ne_nothing {script : Script} {plan : Plan Argument} (h : script.Follows plan) :
    script ≠ .nothing := by
  rintro rfl
  cases h

theorem readsCommand_call {first : Spelled} {others : List Spelled}
    (hword : IsCommandWord first.word) : ReadsCommand (.call (first :: others)) := by
  intro fuel lexemes rest bodies ht hr hf
  have hwords : lexemes.map (·.token) = (first.word :: others.map (·.word)).map .word := by
    rw [ht, Plan.tokens, ← List.map_cons (f := Spelled.word), List.map_map]
    rfl
  have hlength : lexemes.length = others.length + 1 := by
    simpa using congrArg List.length hwords
  obtain ⟨fuel, rfl⟩ : ∃ k, fuel = k + 1 := ⟨fuel - 1, by omega⟩
  obtain ⟨line, hcommand⟩ := @command_words rest lexemes bodies fuel (others.map (·.word)) first.word
    hword hwords hr
  have hmeans : List.Forall₂ Word.Means ((first :: others).map (·.word))
      ((first :: others).map (·.argument)) :=
    List.forall₂_map_left_iff.mpr (List.forall₂_map_right_iff.mpr
      (List.forall₂_same.mpr fun spelled _ => spelled.means))
  exact ⟨_, hcommand, .call (calls_simple line hmeans)⟩

theorem list_closer (h : isCloser closer.token = true) :
    list (fuel + 1) ⟨closer :: rest, bodies⟩ = .ok (.nothing, ⟨closer :: rest, bodies⟩) := by
  have hskip : Input.skipLines ⟨closer :: rest, bodies⟩ = ⟨closer :: rest, bodies⟩ := by
    refine skipLines_of_ne fun hnewline => ?_
    rw [hnewline] at h
    cases h
  have htoken : Input.token ⟨closer :: rest, bodies⟩ = closer.token := rfl
  rw [Script.list]
  simp only [hskip, htoken]
  rw [if_pos (by simp [h])]

theorem list_opens {first second : Script} {behind : Input} (ho : Opens lexeme.token)
    (hfirst : andOr fuel ⟨lexeme :: lexemes, bodies⟩ =
      .ok (first, ⟨⟨line, .operator ";"⟩ :: rest, bodies⟩))
    (hsecond : list fuel ⟨rest, bodies⟩ = .ok (second, behind)) :
    list (fuel + 1) ⟨lexeme :: lexemes, bodies⟩ =
      .ok (if second matches .nothing then first else .sequence first second, behind) := by
  have htoken : Input.token ⟨lexeme :: lexemes, bodies⟩ = lexeme.token := rfl
  obtain ⟨hnewline, hfinish, hcloser, -⟩ := ho
  rw [Script.list]
  simp only [skipLines_of_ne hnewline, htoken]
  rw [if_neg (by simp [hfinish, hcloser]), hfirst]
  have hand : Input.skipOperator? "&" ⟨⟨line, .operator ";"⟩ :: rest, bodies⟩ = none := rfl
  have hsemicolon : Input.skipOperator? ";" ⟨⟨line, .operator ";"⟩ :: rest, bodies⟩ =
      some ⟨rest, bodies⟩ := rfl
  have hline : (Input.token ⟨⟨line, .operator ";"⟩ :: rest, bodies⟩ == .newline) = false := rfl
  simp only [bind, Except.bind, hand, hsemicolon, hline, Bool.false_eq_true, if_false, hsecond]
  cases second <;> rfl

theorem ReadsPipeline.list (h : ReadsPipeline plan) (ho : IsOpen plan) : ReadsList plan := by
  intro fuel line lexemes closer rest bodies ht hcloser hf
  obtain ⟨fuel, rfl⟩ : ∃ k, fuel = k + 2 := ⟨fuel - 2, by omega⟩
  have hend : EndsPipeline (⟨line, .operator ";"⟩ :: closer :: rest) := ⟨_, _, _, rfl, .inl rfl⟩
  obtain ⟨script, hscript, hfollows⟩ :=
    @ReadsPipeline.andOr plan _ lexemes bodies (fuel + 1) h ho ht hend (by omega)
  refine ⟨script, ?_, hfollows⟩
  obtain ⟨lexeme, more, rfl, hopens⟩ := ho.exists_lexeme ht
  exact list_opens hopens hscript (list_closer hcloser)

theorem readsList_sequence (hl : ReadsPipeline left) (hol : IsOpen left) (hr : ReadsList right) :
    ReadsList (.sequence left right) := by
  intro fuel line lexemes closer rest bodies ht hcloser hf
  obtain ⟨fuel, rfl⟩ : ∃ k, fuel = k + 1 := ⟨fuel - 1, by omega⟩
  obtain ⟨first, behind, rfl, hfirst, hbehind⟩ := List.map_eq_append_iff.mp ht
  obtain ⟨place, second, rfl, hsecond⟩ := exists_cons_lexemes hbehind
  simp only [List.length_append, List.length_cons] at hf
  obtain ⟨other, hother, hothers⟩ := hr fuel line second closer rest bodies hsecond hcloser (by omega)
  have hend : EndsPipeline (⟨place, .operator ";"⟩ :: second ++
      ⟨line, .operator ";"⟩ :: closer :: rest) := ⟨_, _, _, rfl, .inl rfl⟩
  obtain ⟨one, hone, hfollows⟩ :=
    @ReadsPipeline.andOr left _ first bodies fuel hl hol hfirst hend (by omega)
  refine ⟨.sequence one other, ?_, .sequence hfollows hothers⟩
  obtain ⟨lexeme, more, rfl, hopens⟩ := hol.exists_lexeme hfirst
  have hlist := list_opens hopens hone hother
  rw [List.append_assoc]
  refine hlist.trans ?_
  cases other with
  | nothing => exact absurd rfl hothers.ne_nothing
  | _ => rfl

theorem repetition_lists {behind : List Lexeme} {opening closing : Nat} {first second : Script}
    (hfirst : list fuel ⟨lexemes, bodies⟩ =
      .ok (first, ⟨⟨opening, keywordToken doText⟩ :: behind, bodies⟩))
    (hsecond : list fuel ⟨behind, bodies⟩ =
      .ok (second, ⟨⟨closing, keywordToken doneText⟩ :: rest, bodies⟩)) :
    repetition (fuel + 1) false ⟨lexemes, bodies⟩ = .ok (.loop false first second, ⟨rest, bodies⟩) := by
  have hopening : Input.keyword "do" ⟨⟨opening, keywordToken doText⟩ :: behind, bodies⟩ =
      .ok ⟨behind, bodies⟩ := rfl
  have hclosing : Input.keyword "done" ⟨⟨closing, keywordToken doneText⟩ :: rest, bodies⟩ =
      .ok ⟨rest, bodies⟩ := rfl
  rw [repetition, hfirst]
  simp only [bind, Except.bind, hopening, hsecond, hclosing]
  rfl

theorem command_while {script : Script} (hr : EndsCommand rest)
    (h : repetition (fuel + 1) false ⟨lexemes, bodies⟩ = .ok (script, ⟨rest, bodies⟩)) :
    command (fuel + 2) ⟨⟨line, keywordToken whileText⟩ :: lexemes, bodies⟩ =
      .ok (script, ⟨rest, bodies⟩) := by
  have hredirects (count : Nat) : redirects (count + 1) ⟨rest, bodies⟩ = ([], ⟨rest, bodies⟩) := by
    rw [redirects, hr.redirect?]
  have hkeyword : keyword? (Input.token ⟨⟨line, keywordToken whileText⟩ :: lexemes, bodies⟩) =
      some "while" := rfl
  have htail : Input.tail ⟨⟨line, keywordToken whileText⟩ :: lexemes, bodies⟩ = ⟨lexemes, bodies⟩ := rfl
  rw [command, if_neg (by exact Bool.false_ne_true)]
  simp only [hkeyword, htail, h, bind, Except.bind, hredirects]
  rfl

theorem readsCommand_loop (hl : ReadsList left) (hr : ReadsList right) :
    ReadsCommand (.loop left right) := by
  intro fuel lexemes rest bodies ht hend hf
  obtain ⟨line, whole, rfl, hwhole⟩ := exists_cons_lexemes ht
  obtain ⟨condition, tail, rfl, hcondition, htail⟩ := List.map_eq_append_iff.mp hwhole
  obtain ⟨first, tail, rfl, hdo⟩ := exists_cons_lexemes htail
  obtain ⟨opening, tail, rfl, hrepeated⟩ := exists_cons_lexemes hdo
  obtain ⟨body, tail, rfl, hbody, hlast⟩ := List.map_eq_append_iff.mp hrepeated
  obtain ⟨second, tail, rfl, hdone⟩ := exists_cons_lexemes hlast
  obtain ⟨closing, tail, rfl, hnone⟩ := exists_cons_lexemes hdone
  obtain rfl := List.map_eq_nil_iff.mp hnone
  simp only [List.length_append, List.length_cons, List.length_nil] at hf
  obtain ⟨fuel, rfl⟩ : ∃ k, fuel = k + 2 := ⟨fuel - 2, by omega⟩
  obtain ⟨one, hone, hfollows⟩ := hl fuel first condition ⟨opening, keywordToken doText⟩
    (body ++ ⟨second, .operator ";"⟩ :: ⟨closing, keywordToken doneText⟩ :: rest) bodies
    hcondition rfl (by omega)
  obtain ⟨other, hother, hothers⟩ := hr fuel second body ⟨closing, keywordToken doneText⟩ rest
    bodies hbody rfl (by omega)
  refine ⟨.loop false one other, ?_, .loop hfollows hothers⟩
  simpa using command_while hend (repetition_lists hone hother)

end

end Script

-- ---------------------------------------------------------------------------
-- Running a plan
-- ---------------------------------------------------------------------------

namespace Plan

/-- Nothing binds closer than a call or a loop, and pipelines bind closer than sequences. -/
def level {α : Type} : Plan α → Nat
  | .call _ | .loop .. => 0
  | .pipe .. => 1
  | .sequence .. => 2

/-- The plan can be told from its text: its calls begin with words that the shell does not keep for
itself, and nothing stands inside what binds closer, save in a loop. -/
def IsSound : Plan Spelled → Prop
  | .call words => ∃ first others, words = first :: others ∧ Script.IsCommandWord first.word
  | .pipe left right => left.level = 0 ∧ right.level ≤ 1 ∧ left.IsSound ∧ right.IsSound
  | .sequence first second => first.level ≤ 1 ∧ first.IsSound ∧ second.IsSound
  | .loop condition body => condition.IsSound ∧ body.IsSound

variable {plan : Plan Spelled}

theorem IsSound.isOpen (h : plan.IsSound) : Script.IsOpen plan := by
  induction plan with
  | call words =>
    obtain ⟨first, others, rfl, hword⟩ := h
    exact ⟨_, _, rfl, hword.opens⟩
  | pipe left right ih =>
    obtain ⟨token, tokens, htokens, hopens⟩ := ih h.2.2.1
    exact ⟨token, _, by rw [Plan.tokens, htokens]; rfl, hopens⟩
  | sequence first second ih =>
    obtain ⟨token, tokens, htokens, hopens⟩ := ih h.2.1
    exact ⟨token, _, by rw [Plan.tokens, htokens]; rfl, hopens⟩
  | loop condition body => exact ⟨_, _, rfl, nofun, nofun, rfl, by decide⟩

theorem IsSound.reads (h : plan.IsSound) : (plan.level = 0 → Script.ReadsCommand plan) ∧
    (plan.level ≤ 1 → Script.ReadsPipeline plan) ∧ Script.ReadsList plan := by
  have hcommand {plan : Plan Spelled} (hs : plan.IsSound) (hr : Script.ReadsCommand plan) :
      (plan.level = 0 → Script.ReadsCommand plan) ∧
        (plan.level ≤ 1 → Script.ReadsPipeline plan) ∧ Script.ReadsList plan :=
    ⟨fun _ => hr, fun _ => hr.pipeline, hr.pipeline.list hs.isOpen⟩
  induction plan with
  | call words =>
    refine hcommand h ?_
    obtain ⟨first, others, rfl, hword⟩ := h
    exact Script.readsCommand_call hword
  | pipe left right ihl ihr =>
    have ⟨hl, hr, hleft, hright⟩ := h
    have hpipe : Script.ReadsPipeline (.pipe left right) :=
      Script.readsPipeline_pipe ((ihl hleft).1 hl) ((ihr hright).2.1 hr) hright.isOpen
    exact ⟨nofun, fun _ => hpipe, hpipe.list h.isOpen⟩
  | sequence first second ihf ihs =>
    obtain ⟨hl, hfirst, hsecond⟩ := h
    exact ⟨nofun, fun h => absurd h (Nat.not_succ_le_self 1),
      Script.readsList_sequence ((ihf hfirst).2.1 hl) hfirst.isOpen (ihs hsecond).2.2⟩
  | loop condition body ihc ihb =>
    exact hcommand h (Script.readsCommand_loop (ihc h.1).2.2 (ihb h.2).2.2)

theorem IsSound.nextLine (h : plan.IsSound) (hl : plan.level ≤ 1) :
    ∃ script, script.Follows (plan.map (·.argument)) ∧
      Script.nextLine (Script.inputOf plan.text) = .ok (some (script, ⟨[], []⟩)) := by
  have hlexes : Lexes (plan.text ++ []) (plan.tokens ++ [.finish]) := plan.lexes .nil .nil
  rw [List.append_nil] at hlexes
  obtain ⟨whole, hwhole, htokens⟩ := hlexes (plan.text.length + 1) 1 (by omega)
  obtain ⟨lexemes, tail, rfl, hlexemes, htail⟩ := List.map_eq_append_iff.mp htokens
  obtain ⟨line, tail, rfl, hnone⟩ := Script.exists_cons_lexemes htail
  obtain rfl := List.map_eq_nil_iff.mp hnone
  have hinput : Script.inputOf plan.text = ⟨lexemes ++ [⟨line, .finish⟩], []⟩ := by
    rw [Script.inputOf, Shell.lexemes, hwhole]
  have hend : Script.EndsPipeline [⟨line, .finish⟩] := ⟨line, .finish, [], rfl, .inr rfl⟩
  have hfuel : 6 * lexemes.length + 3 ≤ 20 * (lexemes ++ [Lexeme.mk line .finish]).length + 20 := by
    rw [List.length_append]
    omega
  obtain ⟨script, hscript, hfollows⟩ :=
    Script.ReadsPipeline.andOr (h.reads.2.1 hl) h.isOpen hlexemes hend hfuel
  refine ⟨script, hfollows, ?_⟩
  obtain ⟨lexeme, more, rfl, hopens⟩ := h.isOpen.exists_lexeme hlexemes
  obtain ⟨hnewline, hfinish, -⟩ := hopens
  have hskip : Script.Input.skipLines ⟨lexeme :: more ++ [⟨line, .finish⟩], []⟩ =
      ⟨lexeme :: more ++ [⟨line, .finish⟩], []⟩ := Script.skipLines_of_ne hnewline
  have htoken : Script.Input.token ⟨lexeme :: more ++ [⟨line, .finish⟩], []⟩ = lexeme.token := rfl
  rw [hinput, Script.nextLine]
  simp only [hskip, htoken]
  rw [if_neg (by simpa using hfinish), Script.commands, hscript]
  rfl

/-- Running the text of a plan makes the calls of the plan. -/
theorem IsSound.runText (h : plan.IsSound) (hl : plan.level ≤ 1) :
    ∃ script, script.Follows (plan.map (·.argument)) ∧
      ∀ fuel streams state, State.isRunning state = true →
        Shell.runText (fuel + 3) streams plan.text state = run (fuel + 1) streams script state := by
  obtain ⟨script, hfollows, hline⟩ := h.nextLine hl
  refine ⟨script, hfollows, fun fuel streams state hrunning => ?_⟩
  have hend (state : State) : runLines (fuel + 1) streams ⟨[], []⟩ state = state := by
    rw [runLines]
    split <;> rfl
  rw [Shell.runText, runLines, if_neg (by simp [hrunning]), hline]
  exact hend _

end Plan

end SnippetTrail.Shell
