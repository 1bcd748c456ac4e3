/-!
# Ranges of code points

A character property beyond ASCII is a list of closed ranges of code points in increasing order.
-/

namespace SnippetTrail.Text

abbrev CharRanges := List (Nat × Nat)

/-- Whether a range of the list holds the character; the search stops at the first range above it. -/
def CharRanges.contains : CharRanges → Nat → Bool
  | [], _ => false
  | (low, high) :: rest, n => if n < low then false else n ≤ high || CharRanges.contains rest n

end SnippetTrail.Text
