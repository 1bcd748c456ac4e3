import SnippetTrail.Snippet.Metadata
import SnippetTrail.Snippet.Region

/-!
# What a file holds

The versions that one file contributes: one for each tag with at least one closed region.
-/

namespace SnippetTrail

def extractTag? (metadata : Option SampleMetadata) (lines : List (List Char)) (tag name : String) :
    Option Version :=
  match Region.closed tag.toList lines with
  | [] => none
  | regions => some {
      name
      file := none
      lines := regions.map Region.range
      content := Region.text regions
      notes := (metadata.map (·.notesFor tag)).getD Notes.empty }

/-- The versions in a text with their tags, in the order of the tags. -/
def extract (content : String) (nameFor : String → String) :
    Except ExtractionError (List (String × Version)) := do
  let metadata ← SampleMetadata.ofSource SampleMetadata.ofYaml? content
  let lines := Text.splitLines content.toList
  pure ((Region.distinctTags content).filterMap fun tag =>
    (extractTag? metadata lines tag (nameFor tag)).map (tag, ·))

end SnippetTrail
