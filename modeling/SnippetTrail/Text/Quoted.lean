import SnippetTrail.Text.Hidden

/-!
# Quoted text

Text between double quotes in which everything that has no visible form is escaped.
-/

namespace SnippetTrail.Text

def escapeShown (c : Char) : List Char :=
  if c == '"' then ['\\', '"']
  else if c == '\\' then ['\\', '\\']
  else if c == '\t' then ['\\', 't']
  else if c == '\r' then ['\\', 'r']
  else if c == '\n' then ['\\', 'n']
  else if c.toNat == 0 then ['\\', '0']
  else if isHidden c then ['\\', 'u', '\x7b'] ++ Nat.toDigits 16 c.toNat ++ ['\x7d']
  else [c]

def quoted (text : List Char) : List Char := ['"'] ++ text.flatMap escapeShown ++ ['"']

end SnippetTrail.Text
