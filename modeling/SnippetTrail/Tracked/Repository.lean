import SnippetTrail.Bytes.Sha224
import SnippetTrail.Text.Utf8

/-!
# Tracked repositories

A repository to be followed, and the names that are derived from its owner and name alone.
-/

namespace SnippetTrail

structure TrackedRepository where
  owner : String
  name : String
  tracksIssues : Bool
  tracksSnippets : Bool
  /-- The branch to follow; the empty text leaves the choice to the repository. -/
  branch : String
  deriving DecidableEq

namespace TrackedRepository

def new (owner name : String) : TrackedRepository := ⟨owner, name, false, false, ""⟩

def display (tracked : TrackedRepository) : String := tracked.owner ++ "/" ++ tracked.name

def digest (tracked : TrackedRepository) : String :=
  String.ofList (Hex.encode (Sha224.digest (Text.Utf8.encode tracked.display.toList)))

def issueServiceName (tracked : TrackedRepository) : String := "mtr-s-" ++ tracked.digest

def issueDeploymentName (tracked : TrackedRepository) : String := "mtr-d-" ++ tracked.digest

def snippetServiceName (tracked : TrackedRepository) : String := "smp-s-" ++ tracked.digest

def snippetDeploymentName (tracked : TrackedRepository) : String := "smp-d-" ++ tracked.digest

end TrackedRepository

end SnippetTrail
