import SnippetTrail.Git.History

/-!
# Quoted words

What quotes, backslashes and blanks do to a line. A character between single quotes stands for itself, a
backslash outside quotes takes the meaning from the next character, and a blank outside quotes ends a
word. There are no words here for a line that has anything else outside quotes that could mean more than
itself. Quoted texts on one line are words of their own, each as it was (`words_joined`).
-/

namespace SnippetTrail.Posix

inductive Quoting where
  | outside
  /-- Behind a backslash outside quotes. -/
  | escaped
  | single

def isSpecial (c : Char) : Bool :=
  ['|', '&', ';', '<', '>', '(', ')', '$', '\x60', '"', '*', '?', '[', ']', '#', '~', '=', '%', '!',
    '\x7b', '\x7d'].contains c

/-- The words of a line, given the word that is being read, if one has begun. -/
def words : Quoting → Option (List Char) → List Char → Option (List (List Char))
  | .outside, word, [] => some word.toList
  | .escaped, _, [] | .single, _, [] => none
  | .outside, word, c :: rest =>
    if c == ' ' || c == '\t' || c == '\n' then (words .outside none rest).map (word.toList ++ ·)
    else if c == '\'' then words .single (some (word.getD [])) rest
    else if c == '\\' then words .escaped word rest
    else if isSpecial c then none
    else words .outside (some (word.getD [] ++ [c])) rest
  | .escaped, word, c :: rest =>
    -- a line that ends in a backslash goes on with the next one
    if c == '\n' then words .outside word rest
    else words .outside (some (word.getD [] ++ [c])) rest
  | .single, word, c :: rest =>
    if c == '\'' then words .outside word rest
    else words .single (some (word.getD [] ++ [c])) rest

variable {word : Option (List Char)} {rest : List Char}

def escapeQuote (c : Char) : List Char := if c == '\'' then ['\'', '\\', '\'', '\''] else [c]

theorem shellQuote_toList (text : String) :
    (shellQuote text).toList = '\'' :: (text.toList.flatMap escapeQuote ++ ['\'']) := by
  rw [shellQuote, String.toList_ofList]
  rfl

example : shellQuote "it's" = "'it'\\''s'" := by decide

theorem words_blank : words .outside word (' ' :: rest) =
    (words .outside none rest).map (word.toList ++ ·) := rfl

/-- A quote inside the text closes the quotes, stands escaped for itself and opens them again. -/
theorem words_single (read text : List Char) :
    words .single (some read) (text.flatMap escapeQuote ++ ['\''] ++ rest) =
      words .outside (some (read ++ text)) rest := by
  induction text generalizing read with
  | nil => simp [words]
  | cons c text ih =>
    have happend : read ++ c :: text = read ++ [c] ++ text := by simp
    rw [happend, ← ih]
    by_cases hc : c = '\''
    · subst hc
      rfl
    · simp [escapeQuote, words, hc]

theorem words_shellQuote (text : String) : words .outside word ((shellQuote text).toList ++ rest) =
    words .outside (some (word.getD [] ++ text.toList)) rest := by
  rw [shellQuote_toList, ← words_single]
  rfl

theorem words_joined (texts : List String) :
    words .outside none (" ".intercalate (texts.map shellQuote)).toList =
      some (texts.map String.toList) := by
  induction texts with
  | nil => rfl
  | cons text texts ih =>
    cases texts with
    | nil =>
      have hone := @words_shellQuote none [] text
      simpa [words] using hone
    | cons next texts =>
      have hline : (" ".intercalate ((text :: next :: texts).map shellQuote)).toList =
          (shellQuote text).toList ++ ' ' ::
            (" ".intercalate ((next :: texts).map shellQuote)).toList := by
        simp [String.intercalate_cons_cons]
      rw [hline, words_shellQuote, words_blank, ih]
      rfl

end SnippetTrail.Posix
