import SnippetTrail.Error
import SnippetTrail.Text.Scan
import SnippetTrail.Text.Search
import SnippetTrail.Tracked.Repository

/-!
# Addresses of tracked repositories

An address is `https://github.com/`, an owner, a slash, a name and one of four endings. The ending
is taken as long as possible, so the name is as short as possible.
-/

namespace SnippetTrail.TrackedRepository

def hostPart : String := "https://github.com/"

def url (tracked : TrackedRepository) : String := hostPart ++ tracked.owner ++ "/" ++ tracked.name

def isNameChar (c : Char) : Bool := Text.isWord c || c == '.' || c == '-'

def isName (text : List Char) : Bool := !text.isEmpty && text.all isNameChar

/-- What may stand behind the name; the longest comes first. -/
def urlEndings : List String := [".git/", ".git", "/", ""]

def nameBefore? (text : List Char) (ending : String) : Option (List Char) :=
  (Text.stripEnd? ending.toList text).filter isName

def ofUrl? (url : String) : Option TrackedRepository := do
  let rest ← Text.stripStart? hostPart.toList url.toList
  let (owner, rest) ← Text.splitOnce? '/' rest
  let name ← urlEndings.findSome? (nameBefore? rest)
  if isName owner then pure (new (String.ofList owner) (String.ofList name)) else none

def ofUrl (url : String) : Except CorpusError TrackedRepository :=
  match ofUrl? url with
  | some tracked => .ok tracked
  | none => .error (.invalidRepositoryUrl url)

end SnippetTrail.TrackedRepository
