import SnippetTrail.Text.Word
import SnippetTrail.Text.Blank

/-!
# Repeated matches in a text

A matcher reads something at the start of a text and says what remains. `findAll` tries it at every
position from left to right and goes on behind each match, so matches do not overlap. The matchers
here are the pieces from which the formats of the version control tool are put together.
-/

namespace SnippetTrail.Text

abbrev Matcher (α : Type) := List Char → Option (α × List Char)

/-- All matches in order; the first argument counts the characters that a match has used up. -/
def findAllFrom (matcher : Matcher α) : Nat → List Char → List α
  | _, [] => []
  | skip + 1, _ :: rest => findAllFrom matcher skip rest
  | 0, c :: rest =>
    match matcher (c :: rest) with
    | some (value, after) => value :: findAllFrom matcher (rest.length - after.length) rest
    | none => findAllFrom matcher 0 rest

def findAll (matcher : Matcher α) (text : List Char) : List α := findAllFrom matcher 0 text

theorem findAllFrom_eq_drop (matcher : Matcher α) (skip : Nat) (text : List Char) :
    findAllFrom matcher skip text = findAll matcher (text.drop skip) := by
  induction text generalizing skip with
  | nil => cases skip <;> simp [findAllFrom, findAll]
  | cons c rest ih =>
    cases skip with
    | zero => rfl
    | succ skip => simpa [findAllFrom] using ih skip

theorem findAll_of_match {matcher : Matcher α} {c : Char} {rest after : List Char} {value : α}
    (h : matcher (c :: rest) = some (value, after)) (hs : after <:+ rest) :
    findAll matcher (c :: rest) = value :: findAll matcher after := by
  simp only [findAll, findAllFrom, h]
  rw [findAllFrom_eq_drop, List.suffix_iff_eq_drop.1 hs]
  simp only [List.length_drop]
  rw [Nat.sub_sub_self hs.length_le]
  rfl

theorem findAll_of_no_match {matcher : Matcher α} {c : Char} {rest : List Char}
    (h : matcher (c :: rest) = none) : findAll matcher (c :: rest) = findAll matcher rest := by
  simp [findAll, findAllFrom, h]

def matchRun (belongs : Char → Bool) : Matcher (List Char) := fun text =>
  match text.span belongs with
  | ([], _) => none
  | found => some found

def matchCount (belongs : Char → Bool) (count : Nat) : Matcher (List Char) := fun text =>
  let found := text.take count
  if found.length = count ∧ found.all belongs then some (found, text.drop count) else none

/-- The rest of the line; the newline behind it is required and used up. -/
def matchLine : Matcher (List Char) := fun text =>
  match text.span (· != '\n') with
  | (line, '\n' :: rest) => some (line, rest)
  | _ => none

def isPathChar (c : Char) : Bool := isWord c || c == '/' || c == '.' || c == '-'

end SnippetTrail.Text
