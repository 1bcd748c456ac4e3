/-!
# Lines of a text

A newline ends a line, and a carriage return directly before that newline belongs to the ending.
A last line without a newline keeps its carriage return. `unlines` writes lines with a newline
after each.
-/

namespace SnippetTrail.Text

def splitLines : List Char → List (List Char)
  | [] => []
  | '\n' :: rest => [] :: splitLines rest
  | '\r' :: '\n' :: rest => [] :: splitLines rest
  | c :: rest =>
    match splitLines rest with
    | [] => [[c]]
    | line :: lines => (c :: line) :: lines

def unlines (lines : List (List Char)) : List Char := lines.flatMap (· ++ ['\n'])

theorem splitLines_ne_nil {text : List Char} (h : text ≠ []) : splitLines text ≠ [] := by
  match text with
  | [] => exact absurd rfl h
  | c :: rest =>
    unfold splitLines
    split <;> simp_all
    split <;> simp

theorem unlines_append (first second : List (List Char)) :
    unlines (first ++ second) = unlines first ++ unlines second := by
  simp [unlines]

end SnippetTrail.Text
