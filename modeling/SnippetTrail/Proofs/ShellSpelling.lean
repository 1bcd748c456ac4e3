import SnippetTrail.Proofs.ShellCalls
import SnippetTrail.Proofs.ShellQuoting
import SnippetTrail.Proofs.ShellWords

/-!
# Spelled words

Words together with the ways to write them: without quotes, in single or in double quotes, with quotes
behind a start that needs none, or as the value of a parameter. A spelled word carries the proofs that it
is read as it is written, and that it then stands for its argument.
-/

namespace SnippetTrail.Shell

/-- A word, the way it is written, and the argument that it stands for. -/
structure Spelled where
  text : List Char
  word : Word
  argument : Argument
  written : Written text word
  /-- Something is written, and it is no comment. -/
  begins : ∃ c, text.head? = some c ∧ c ≠ '#'
  home : withHome word = word
  means : word.Means argument

-- ---------------------------------------------------------------------------
-- Safe starts
-- ---------------------------------------------------------------------------

def isSafe (c : Char) : Bool := isNameChar c || c == '-' || c == '='

def IsRun (belongs : Char → Bool) (text : String) : Prop :=
  text.toList ≠ [] ∧ ∀ c ∈ text.toList, belongs c = true

-- The characters are looked at one by one. The instance for all characters would go through them all.
instance (belongs : Char → Bool) (text : String) : Decidable (IsRun belongs text) :=
  decidable_of_iff (text.toList ≠ [] ∧ text.toList.all belongs = true) (by rw [IsRun, List.all_eq_true])

theorem ne_of_isSafe {c d : Char} (h : isSafe c = true) (hd : isSafe d = false) : c ≠ d := by
  rintro rfl
  rw [hd] at h
  cases h

theorem isBare_of_isSafe {c : Char} (h : isSafe c = true) : isBare c = true := by
  have hapart (d : Char) (hd : isSafe d = false) : c ≠ d := ne_of_isSafe h hd
  simp [isBare, isMeta, opensQuotes, hapart ' ' rfl, hapart '\t' rfl, hapart '\n' rfl, hapart ';' rfl,
    hapart '&' rfl, hapart '|' rfl, hapart '<' rfl, hapart '>' rfl, hapart '(' rfl, hapart ')' rfl,
    hapart '\\' rfl, hapart '\'' rfl, hapart '"' rfl, hapart '$' rfl, hapart '\x60' rfl]

theorem literal?_safe {text : String} (h : IsRun isSafe text) :
    Part.literal? (.plain text.toList) = some text.toList := by
  have hpattern : text.toList.any isPatternChar = false := by
    refine List.any_eq_false.mpr fun c hc => ?_
    have hapart (d : Char) (hd : isSafe d = false) : c ≠ d := ne_of_isSafe (h.2 c hc) hd
    simp [isPatternChar, hapart '*' rfl, hapart '?' rfl, hapart '[' rfl]
  rw [Part.literal?, hpattern]
  simp [h.1]

theorem withHome_safe {text : String} (h : IsRun isSafe text) (word : Word) :
    withHome (.plain text.toList :: word) = .plain text.toList :: word := by
  obtain ⟨c, rest, hwhole⟩ := List.exists_cons_of_ne_nil h.1
  have htilde : c ≠ '~' := ne_of_isSafe (h.2 c (by simp [hwhole])) rfl
  rw [hwhole]
  simp [withHome, htilde]

theorem head_safe {text : String} (h : IsRun isSafe text) (rest : List Char) :
    ∃ c, (text.toList ++ rest).head? = some c ∧ c ≠ '#' := by
  obtain ⟨c, others, hwhole⟩ := List.exists_cons_of_ne_nil h.1
  exact ⟨c, by rw [hwhole]; rfl, ne_of_isSafe (h.2 c (by simp [hwhole])) rfl⟩

-- ---------------------------------------------------------------------------
-- Ways to write a word
-- ---------------------------------------------------------------------------

namespace Spelled

def bare (text : String) (h : IsRun isSafe text) : Spelled where
  text := text.toList
  word := [.plain text.toList]
  argument := .literal text
  written := written_bare h.1 fun c hc => isBare_of_isSafe (h.2 c hc)
  begins := by simpa using head_safe h []
  home := withHome_safe h []
  means := .literal (by simp) (by simp [literal?_safe h]) (List.flatten_singleton)

def double (text : String) (h : IsRun isBareInQuotes text) : Spelled where
  text := '"' :: (text.toList ++ ['"'])
  word := [.quoted text.toList, .quoted []]
  argument := .literal text
  written := .double h.1 h.2 .nil
  begins := ⟨'"', rfl, by decide⟩
  home := rfl
  means := .literal (by simp) rfl (by simp)

def backslash (c : Char) (h : c ≠ '\n' ∧ isBareInQuotes c = true) : Spelled where
  text := ['"', '\\', c, '"']
  word := [.quoted ['\\', c], .quoted []]
  argument := .literal (String.ofList ['\\', c])
  written := .backslash h.1 h.2 .nil
  begins := ⟨'"', rfl, by decide⟩
  home := rfl
  means := .literal (by simp) rfl (by simp)

def parameter (name : String) (hstart : name.toList.head?.any isNameStart = true)
    (hname : IsRun isNameChar name) : Spelled where
  text := '$' :: name.toList
  word := [.parameter ⟨name, .value, []⟩ false]
  argument := .parameter name
  written := by simpa using Written.parameter ((Option.any_eq_true _ _).mp hstart) hname.2
  begins := ⟨'$', rfl, by decide⟩
  home := rfl
  means := .parameter name

def after (start : String) (h : IsRun isSafe start) (spelled : Spelled) (text : String)
    (htext : spelled.argument = .literal text)
    (hopens : ∀ c, spelled.text.head? = some c → opensQuotes c = true) : Spelled where
  text := start.toList ++ spelled.text
  word := .plain start.toList :: spelled.word
  argument := .literal (start ++ text)
  written := .bare h.1 (fun c hc => isBare_of_isSafe (h.2 c hc)) hopens spelled.written
  begins := head_safe h _
  home := withHome_safe h _
  means := by
    obtain ⟨texts, htexts, hflat⟩ := Word.Means.exists_texts (htext ▸ spelled.means)
    have hword : List.mapM Part.literal? (.plain start.toList :: spelled.word) =
        some (start.toList :: texts) := by
      simp [literal?_safe h, htexts]
    exact .literal (by simp) hword (by simp [hflat])

end Spelled

-- ---------------------------------------------------------------------------
-- Quoted texts
-- ---------------------------------------------------------------------------

/-- The parts of a quoted text, behind what was read already: what stands between its quotes, and the
quotes. -/
def quotedWord (run : List Char) : List Char → Word
  | [] => [.quoted run]
  | c :: text =>
    if c == '\'' then .quoted run :: .quoted ['\''] :: quotedWord [] text
    else quotedWord (run ++ [c]) text

theorem written_quotedWord {run : List Char} (hrun : '\'' ∉ run) (text : List Char) :
    Written ('\'' :: (run ++ (text.flatMap Posix.escapeQuote ++ ['\'']))) (quotedWord run text) := by
  induction text generalizing run with
  | nil => exact .single hrun .nil
  | cons c text ih =>
    by_cases hc : c = '\''
    · subst hc
      have hrest : Written ('\'' :: (text.flatMap Posix.escapeQuote ++ ['\''])) (quotedWord [] text) :=
        ih List.not_mem_nil
      exact .single hrun (.escaped (by decide) hrest)
    · have hmore : '\'' ∉ run ++ [c] := by simp [hrun, Ne.symm hc]
      simpa [quotedWord, Posix.escapeQuote, hc] using ih hmore

theorem quotedWord_literal (run text : List Char) : ∃ first others texts,
    quotedWord run text = .quoted first :: others ∧
      (quotedWord run text).mapM Part.literal? = some texts ∧ texts.flatten = run ++ text := by
  induction text generalizing run with
  | nil => exact ⟨run, [], [run], rfl, rfl, by simp⟩
  | cons c text ih =>
    by_cases hc : c = '\''
    · subst hc
      obtain ⟨first, others, texts, -, htexts, hflat⟩ := ih []
      refine ⟨run, _, run :: ['\''] :: texts, rfl, ?_, by simp [hflat]⟩
      simp [quotedWord, Part.literal?, htexts]
    · obtain ⟨first, others, texts, hword, htexts, hflat⟩ := ih (run ++ [c])
      refine ⟨first, others, texts, ?_, ?_, by simp [hflat]⟩
      · simpa [quotedWord, hc] using hword
      · simpa [quotedWord, hc] using htexts

def Spelled.quote (text : String) : Spelled where
  text := (shellQuote text).toList
  word := quotedWord [] text.toList
  argument := .literal text
  written := by
    rw [Posix.shellQuote_toList]
    exact written_quotedWord List.not_mem_nil text.toList
  begins := ⟨'\'', by rw [Posix.shellQuote_toList]; rfl, by decide⟩
  home := by
    obtain ⟨first, others, -, hword, -⟩ := quotedWord_literal [] text.toList
    rw [hword]
    rfl
  means := by
    obtain ⟨first, others, texts, hword, htexts, hflat⟩ := quotedWord_literal [] text.toList
    exact .literal (by simp [hword]) htexts hflat

end SnippetTrail.Shell
