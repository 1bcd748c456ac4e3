import SnippetTrail.Snippet.Extract
import SnippetTrail.Snippet.Language
import SnippetTrail.Snippet.SourceFile

/-!
# The catalog of snippets

Commits are applied in order, each in three passes: snippets leave the files that are deleted, they
leave the files that no longer hold them, and then every version found is appended unless it is
equivalent to the primary. A snippet that leaves a file gets a tombstone, unless some file of the
same commit holds it. Files that a commit does not touch keep their snippets.
-/

namespace SnippetTrail

structure Home where
  path : String
  snippet : String
  deriving DecidableEq

/-- Adds a home to a list in the order of paths, and of snippets within a path. -/
def insertHome (home : Home) : List Home → List Home
  | [] => [home]
  | h :: rest =>
    if home = h then h :: rest
    else if home.path < h.path ∨ (home.path = h.path ∧ home.snippet < h.snippet) then home :: h :: rest
    else h :: insertHome home rest

structure FileReading where
  file : VersionFile
  language : String
  versions : List Version
  deriving DecidableEq

structure Catalog where
  owner : String
  repository : String
  snippets : Table Snippet
  homes : List Home

namespace Catalog

def new (owner repository : String) : Catalog := ⟨owner, repository, Table.empty, []⟩

-- ---------------------------------------------------------------------------
-- Reading a commit

def languageName (file : File) : String :=
  Language.clean ((Language.detect? file.path file.contents).getD "")

def readFile (owner repository : String) (record : CommitRecord) (file : File) :
    Except ExtractionError FileReading := do
  let language := languageName file
  let found ← extract file.contents fun tag => snippetName owner repository tag language
  pure ⟨⟨file.path, record, file.size⟩, language, found.map (·.2)⟩

def holdsRegions (file : File) : Bool := SourceFile.isScanned file.path && !file.isDeleted

def readFiles (owner repository : String) (commit : Commit) :
    Except ExtractionError (List FileReading) :=
  (commit.files.filter holdsRegions).mapM
    (readFile owner repository (CommitRecord.ofCommit owner repository commit))

def deletedPaths (commit : Commit) : List String :=
  (commit.files.filter fun file => SourceFile.isScanned file.path && file.isDeleted).map (·.path)

def produced (readings : List FileReading) : List String :=
  readings.flatMap fun reading => reading.versions.map (·.name)

-- ---------------------------------------------------------------------------
-- Leaving a file

def tombstone (snippet : Snippet) (file : VersionFile) : Version :=
  ⟨snippet.nextName, some file, [], "", Notes.empty⟩

/-- A snippet leaves a file; it dies there unless the commit produces it elsewhere. -/
def leave (catalog : Catalog) (record : CommitRecord) (produced : List String) (home : Home)
    (size : Nat) : Catalog :=
  match catalog.snippets.find? home.snippet with
  | none => catalog
  | some snippet =>
    { catalog with
      homes := catalog.homes.erase home
      snippets :=
        if home.snippet ∈ produced then catalog.snippets
        else catalog.snippets.insert home.snippet
          (snippet.append (tombstone snippet ⟨home.path, record, size⟩)) }

/-- All homes that are lost are left, in their order; a lost home gives the size of its file. -/
def leaveLost (catalog : Catalog) (record : CommitRecord) (produced : List String)
    (lost : Home → Option Nat) : Catalog :=
  catalog.homes.foldl (fun catalog home =>
    match lost home with
    | none => catalog
    | some size => catalog.leave record produced home size) catalog

def lostByDeletion (deleted : List String) (home : Home) : Option Nat :=
  if home.path ∈ deleted then some 0 else none

/-- A home is lost when its file was read and no reading of it has the snippet. -/
def lostByChange (readings : List FileReading) (home : Home) : Option Nat :=
  match readings.filter (·.file.path == home.path) with
  | [] => none
  | first :: rest =>
    if (first :: rest).any fun reading => reading.versions.any (·.name == home.snippet) then none
    else some first.file.size

-- ---------------------------------------------------------------------------
-- Appending versions

def placed (snippet : Snippet) (file : VersionFile) (version : Version) : Version :=
  { version with file := some file, name := snippet.nextName }

/-- Appends a version to its snippet unless it is equivalent to the primary. -/
def record (reading : FileReading) (catalog : Catalog) (version : Version) : Catalog :=
  let snippet := (catalog.snippets.find? version.name).getD (Snippet.new version.name reading.language)
  let candidate := placed snippet reading.file version
  if snippet.primary?.any (·.equivalent candidate) then catalog
  else { catalog with
    snippets := catalog.snippets.insert version.name (snippet.append candidate)
    homes := insertHome ⟨reading.file.path, version.name⟩ catalog.homes }

def recordReading (catalog : Catalog) (reading : FileReading) : Catalog :=
  reading.versions.foldl (record reading) catalog

-- ---------------------------------------------------------------------------
-- Whole commits

def applyReadings (catalog : Catalog) (commit : Commit) (readings : List FileReading) : Catalog :=
  let summary := CommitRecord.ofCommit catalog.owner catalog.repository commit
  let names := produced readings
  let catalog := catalog.leaveLost summary names (lostByDeletion (deletedPaths commit))
  let catalog := catalog.leaveLost summary names (lostByChange readings)
  readings.foldl recordReading catalog

def apply (catalog : Catalog) (commit : Commit) : Except ExtractionError Catalog := do
  let readings ← readFiles catalog.owner catalog.repository commit
  pure (catalog.applyReadings commit readings)

def toList (catalog : Catalog) : List Snippet :=
  catalog.snippets.values.filter fun snippet => !snippet.versions.isEmpty

end Catalog

/-- The snippets of a repository after the given commits, oldest first. -/
def calculateSnippets (owner repository : String) (commits : List Commit) :
    Except ExtractionError (List Snippet) := do
  let catalog ← commits.foldlM Catalog.apply (Catalog.new owner repository)
  pure catalog.toList

end SnippetTrail
