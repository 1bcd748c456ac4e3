/-!
# Searching and replacing in a text
-/

namespace SnippetTrail.Text

def occursIn (pattern : List Char) : List Char → Bool
  | [] => pattern.isEmpty
  | c :: rest => pattern.isPrefixOf (c :: rest) || occursIn pattern rest

def endsWith (text ending : List Char) : Bool := ending.isSuffixOf text

section
variable {α : Type} [BEq α]

def stripStart? : List α → List α → Option (List α)
  | [], text => some text
  | _ :: _, [] => none
  | p :: start, c :: text => if p == c then stripStart? start text else none

def stripEnd? (ending text : List α) : Option (List α) :=
  (stripStart? ending.reverse text.reverse).map (·.reverse)

def splitOnce? (separator : α) (text : List α) : Option (List α × List α) :=
  match text.span (· != separator) with
  | (_, []) => none
  | (before, _ :: after) => some (before, after)

def splitLast? (separator : α) (text : List α) : Option (List α × List α) :=
  (splitOnce? separator text.reverse).map fun (after, before) => (before.reverse, after.reverse)

/-- The pieces between the occurrences of a separator; always one more than these. -/
def splitAt (separator : α) : List α → List (List α)
  | [] => [[]]
  | c :: rest =>
    if c == separator then [] :: splitAt separator rest
    else match splitAt separator rest with
      | [] => [[c]]
      | piece :: pieces => (c :: piece) :: pieces

def join (separator : List α) : List (List α) → List α
  | [] => []
  | [piece] => piece
  | piece :: rest => piece ++ separator ++ join separator rest

theorem splitAt_ne_nil (separator : α) (text : List α) : splitAt separator text ≠ [] := by
  cases text with
  | nil => simp [splitAt]
  | cons c rest =>
    unfold splitAt
    split
    · simp
    · split <;> simp

end

theorem occursIn_iff {pattern text : List Char} : occursIn pattern text = true ↔ pattern <:+: text := by
  induction text with
  | nil => simp [occursIn]
  | cons c rest ih =>
    simp only [occursIn, Bool.or_eq_true, ih, List.isPrefixOf_iff_prefix, List.infix_cons_iff]

end SnippetTrail.Text
