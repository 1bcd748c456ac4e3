/-!
# Blank characters

The white space of all scripts. `trim` strips it from both ends of a text, and `words` splits a
text at it.
-/

namespace SnippetTrail.Text

def isBlank (c : Char) : Bool :=
  (0x09 ≤ c.toNat && c.toNat ≤ 0x0D) || c.toNat == 0x20 || c.toNat == 0x85 || c.toNat == 0xA0 ||
    c.toNat == 0x1680 || (0x2000 ≤ c.toNat && c.toNat ≤ 0x200A) || c.toNat == 0x2028 ||
    c.toNat == 0x2029 || c.toNat == 0x202F || c.toNat == 0x205F || c.toNat == 0x3000

def trimStart (text : List Char) : List Char := text.dropWhile isBlank

def trimEnd (text : List Char) : List Char := (text.reverse.dropWhile isBlank).reverse

def trim (text : List Char) : List Char := trimEnd (trimStart text)

theorem mem_trimStart {c : Char} {text : List Char} (h : c ∈ text) (hc : isBlank c = false) :
    c ∈ trimStart text := by
  induction text with
  | nil => simp at h
  | cons d rest ih =>
    rw [trimStart, List.dropWhile_cons]
    split
    · rename_i hd
      rcases List.mem_cons.mp h with rfl | h
      · simp [hc] at hd
      · exact ih h
    · exact h

theorem mem_trim {c : Char} {text : List Char} (h : c ∈ text) (hc : isBlank c = false) :
    c ∈ trim text := by
  have hs : c ∈ trimStart (trimStart text).reverse :=
    mem_trimStart (List.mem_reverse.mpr (mem_trimStart h hc)) hc
  exact List.mem_reverse.mpr hs

/-- The maximal runs of characters that are not blank; `word` is the run read so far. -/
def wordsFrom (word : List Char) : List Char → List (List Char)
  | [] => if word.isEmpty then [] else [word]
  | c :: rest =>
    if isBlank c then
      if word.isEmpty then wordsFrom [] rest else word :: wordsFrom [] rest
    else wordsFrom (word ++ [c]) rest

def words (text : List Char) : List (List Char) := wordsFrom [] text

end SnippetTrail.Text
