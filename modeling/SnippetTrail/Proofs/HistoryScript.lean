import SnippetTrail.Proofs.HashText
import SnippetTrail.Proofs.ShellPlans

/-!
# The script of the history

The script that prints a history, as the calls that it makes. Its text is that of a plan in which the
program stands quoted in four places. So the script calls the program there with the arguments that stand
behind it, whatever characters are in the path of the program (`shellQuote_reads`).
-/

namespace SnippetTrail

open Shell

-- ---------------------------------------------------------------------------
-- The script of the history
-- ---------------------------------------------------------------------------

/-- What is called to print the history: the list of the commits, and for each of them its head, its
body on one line, and its files. -/
def historyPlan (program : String) (start : Hash) : Plan Argument :=
  .pipe (.call [program, "rev-list", start.hex, "--reverse"]) <|
    .loop (.call ["read", "sha1"]) <|
      .sequence (.call [program, "show", "-s", "--format=" ++ logFormat, .parameter "sha1"]) <|
      .sequence (.pipe (.call [program, "show", "-s", "--format=Body: %B", .parameter "sha1"]) <|
        .pipe (.call ["tr", "\\n", " "]) (.call ["tr", "\\r", " "])) <|
      .sequence (.call ["echo"]) <|
      .sequence (.call ["echo", "Files:"]) <|
      .sequence (.call [program, "show", "--format=", "--name-status", .parameter "sha1"]) <|
      .sequence (.call ["echo"]) (.call ["echo"])

theorem isSafe_hex (hash : Hash) : IsRun isSafe hash.hex := by
  have hdigits : ∀ n < 16, isSafe (Hex.digit n) = true := by decide
  constructor
  · intro hnil
    have hlength := Hash.length_hex hash
    rw [hnil] at hlength
    cases hlength
  · intro c hc
    rw [Hash.hex, String.toList_ofList] at hc
    obtain ⟨n, hn, rfl⟩ := Hex.mem_encode hc
    exact hdigits n hn

section
variable (program : String) (start : Hash)

def sha1Word : Spelled := .parameter "sha1" (by decide) (by decide)

def echoWord : Spelled := .bare "echo" (by decide)

def formatWord (text : String) (h : IsRun isBareInQuotes text) : Spelled :=
  .after "--format=" (by decide) (.double text h) text rfl fun _ hc => by cases hc; rfl

def listingWords : List Spelled :=
  [.quote program, .bare "rev-list" (by decide), .bare start.hex (isSafe_hex start),
    .bare "--reverse" (by decide)]

def headWords : List Spelled :=
  [.quote program, .bare "show" (by decide), .bare "-s" (by decide),
    formatWord logFormat (by decide +kernel), sha1Word]

def bodyWords : List Spelled :=
  [.quote program, .bare "show" (by decide), .bare "-s" (by decide),
    formatWord "Body: %B" (by decide), sha1Word]

def blankWords (c : Char) (h : c ≠ '\n' ∧ isBareInQuotes c = true) : List Spelled :=
  [.bare "tr" (by decide), .backslash c h, .double " " (by decide)]

def filesWords : List Spelled :=
  [.quote program, .bare "show" (by decide),
    .after "--format=" (by decide) (.quote "") "" rfl fun _ hc => by cases hc; rfl,
    .bare "--name-status" (by decide), sha1Word]

def historySpelling : Plan Spelled :=
  .pipe (.call (listingWords program start)) <|
    .loop (.call [.bare "read" (by decide), .bare "sha1" (by decide)]) <|
      .sequence (.call (headWords program)) <|
      .sequence (.pipe (.call (bodyWords program)) <|
        .pipe (.call (blankWords 'n' (by decide))) (.call (blankWords 'r' (by decide)))) <|
      .sequence (.call [echoWord]) <|
      .sequence (.call [echoWord, .double "Files:" (by decide)]) <|
      .sequence (.call (filesWords program)) <|
      .sequence (.call [echoWord]) (.call [echoWord])

theorem listingWords_text : lineText (listingWords program start) =
    (shellQuote program ++ " rev-list " ++ start.hex ++ " --reverse").toList := by
  simp [listingWords, lineText, Spelled.quote, Spelled.bare]

theorem headWords_text : lineText (headWords program) =
    (shellQuote program ++ " show -s --format=\"" ++ logFormat ++ "\" $sha1").toList := by
  simp [headWords, lineText, Spelled.quote, Spelled.bare, formatWord, Spelled.after, Spelled.double,
    sha1Word, Spelled.parameter]

theorem bodyWords_text : lineText (bodyWords program) =
    (shellQuote program ++ " show -s --format=\"Body: %B\" $sha1").toList := by
  simp [bodyWords, lineText, Spelled.quote, Spelled.bare, formatWord, Spelled.after, Spelled.double,
    sha1Word, Spelled.parameter]

theorem filesWords_text : lineText (filesWords program) =
    (shellQuote program ++ " show --format='' --name-status $sha1").toList := by
  have hempty : shellQuote "" = "''" := by decide
  simp [filesWords, lineText, Spelled.quote, Spelled.bare, Spelled.after, sha1Word, Spelled.parameter,
    hempty]

set_option maxRecDepth 2000 in
theorem historySpelling_text : (historySpelling program start).text = (logScript program start).toList := by
  rw [historySpelling]
  simp only [Plan.text, listingWords_text, headWords_text, bodyWords_text, filesWords_text, logScript]
  simp [lineText, Spelled.bare, blankWords, Spelled.backslash, Spelled.double, echoWord, Plan.whileText,
    Plan.doText, Plan.doneText]

theorem historySpelling_argument :
    (historySpelling program start).map (·.argument) = historyPlan program start := rfl

theorem historySpelling_isSound : (historySpelling program start).IsSound := by
  have hquote : Script.IsCommandWord (Spelled.quote program).word := Script.isCommandWord_quote program
  have hread : Script.IsCommandWord (Spelled.bare "read" (by decide)).word := by decide
  have hecho : Script.IsCommandWord echoWord.word := by decide
  have htr : Script.IsCommandWord (Spelled.bare "tr" (by decide)).word := by decide
  have hcall {first : Spelled} (others : List Spelled) (h : Script.IsCommandWord first.word) :
      (Plan.call (first :: others)).IsSound := ⟨first, others, rfl, h⟩
  have hbody : (Plan.pipe (.call (bodyWords program)) (.pipe (.call (blankWords 'n' (by decide)))
      (.call (blankWords 'r' (by decide))))).IsSound :=
    ⟨rfl, Nat.le_refl 1, hcall _ hquote, rfl, Nat.zero_le 1, hcall _ htr, hcall _ htr⟩
  exact ⟨rfl, Nat.zero_le 1, hcall _ hquote, hcall _ hread, Nat.zero_le 1, hcall _ hquote,
    Nat.le_refl 1, hbody, Nat.zero_le 1, hcall _ hecho, Nat.zero_le 1, hcall _ hecho,
    Nat.zero_le 1, hcall _ hquote, Nat.zero_le 1, hcall _ hecho, hcall _ hecho⟩

end

/-- A quoted text is one word and comes out as it went in. So in the script of the history the program is
called in four places, whatever its path, with the arguments that stand there. -/
theorem shellQuote_reads (program : String) :
    Posix.words .outside none (shellQuote program).toList = some [program.toList] ∧
      ∀ start : Hash, ∃ script, script.Follows (historyPlan program start) ∧
        ∀ fuel streams state, State.isRunning state = true →
          runText (fuel + 3) streams (logScript program start).toList state =
            run (fuel + 1) streams script state := by
  constructor
  · have hword := Posix.words_joined [program]
    simpa using hword
  · intro start
    rw [← historySpelling_text, ← historySpelling_argument]
    exact (historySpelling_isSound program start).runText (Nat.le_refl 1)

end SnippetTrail
