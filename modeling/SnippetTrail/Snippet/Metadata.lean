import SnippetTrail.Error
import SnippetTrail.Snippet.Basic
import SnippetTrail.Yaml.Document

/-!
# Metadata blocks

A comment block that starts with the line `# sample-metadata:` or `// sample-metadata:` describes
the samples of its file. It goes on as long as lines begin with the same comment mark, and what
stands behind the marks is one document.
-/

namespace SnippetTrail

structure TagNotes where
  regionTag : String
  description : String
  usage : String
  deriving DecidableEq

structure SampleMetadata where
  notes : Notes
  tags : List TagNotes
  deriving DecidableEq

namespace SampleMetadata

def empty : SampleMetadata := ⟨Notes.empty, []⟩

-- ---------------------------------------------------------------------------
-- The block in its file

def headerMark? (line : List Char) : Option (List Char) :=
  if line = "# sample-metadata:".toList then some ['#']
  else if line = "// sample-metadata:".toList then some ['/', '/']
  else none

def block? : List (List Char) → Option (List Char)
  | [] => none
  | line :: rest =>
    match headerMark? line with
    | none => block? rest
    | some mark =>
      let lines := (line :: rest).takeWhile mark.isPrefixOf
      some (Text.unlines (lines.map fun line => line.drop mark.length))

-- ---------------------------------------------------------------------------
-- The document in the block

open Yaml Document

def readOptionalText (document : Document) (set : α → String → α) (record : α) : Reader α :=
  fun place => (document.readOptional document.readText place).map fun (value, after) =>
    (set record (value.getD ""), after)

def tagNotesField (document : Document) : String → Option (String × (TagNotes → Reader TagNotes))
  | "region_tag" => some ("region_tag",
      readOptionalText document fun notes text => { notes with regionTag := text })
  | "description" => some ("description",
      readOptionalText document fun notes text => { notes with description := text })
  | "usage" => some ("usage", readOptionalText document fun notes text => { notes with usage := text })
  | _ => none

def readTagNotes (document : Document) : Reader TagNotes :=
  document.readRecord ⟨"", "", ""⟩ (tagNotesField document)

def setNotes (change : Notes → String → Notes) (metadata : SampleMetadata) (text : String) :
    SampleMetadata :=
  { metadata with notes := change metadata.notes text }

def sampleField (document : Document) : String → Option (String × (SampleMetadata → Reader SampleMetadata))
  | "title" => some ("title",
      readOptionalText document (setNotes fun notes text => { notes with title := text }))
  | "description" => some ("description",
      readOptionalText document (setNotes fun notes text => { notes with description := text }))
  | "usage" => some ("usage",
      readOptionalText document (setNotes fun notes text => { notes with usage := text }))
  | "api_version" => some ("api_version",
      readOptionalText document (setNotes fun notes text => { notes with apiVersion := text }))
  | "snippets" => some ("snippets", fun metadata place =>
      (document.readOptional (document.readSequence (readTagNotes document)) place).map
        fun (tags, after) => ({ metadata with tags := tags.getD [] }, after))
  | _ => none

def readSample (document : Document) : Reader SampleMetadata :=
  document.readRecord empty (sampleField document)

def documentField (document : Document) :
    String → Option (String × (SampleMetadata → Reader SampleMetadata))
  | "sample-metadata" => some ("sample-metadata", fun _ place =>
      (document.readOptional (readSample document) place).map fun (metadata, after) =>
        (metadata.getD empty, after))
  | _ => none

/-- Reads the text of a block; nothing for a text that is no such document, and no metadata for the
document that stands for nothing. -/
def ofYaml? (text : String) : Option (Option SampleMetadata) := do
  let document ← Document.ofText? text
  let read := document.readOptional (document.readRecord empty (documentField document))
  match document.items with
  | [] => some none
  | _ => (read document.start).map (·.1)

def ofSource (read : String → Option (Option SampleMetadata)) (content : String) :
    Except ExtractionError (Option SampleMetadata) :=
  match block? (Text.splitLines content.toList) with
  | none => .ok none
  | some text =>
    match read (String.ofList text) with
    | none => .error .malformedMetadata
    | some metadata => .ok (some (metadata.getD empty))

/-- The notes for a tag: what the block says about its region, and about the file otherwise. -/
def notesFor (metadata : SampleMetadata) (tag : String) : Notes :=
  match metadata.tags.find? (·.regionTag == tag) with
  | none => metadata.notes
  | some own =>
    { metadata.notes with
      description := if own.description.isEmpty then metadata.notes.description else own.description
      usage := if own.usage.isEmpty then metadata.notes.usage else own.usage }

end SampleMetadata

end SnippetTrail
