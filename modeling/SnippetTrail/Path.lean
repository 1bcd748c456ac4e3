import SnippetTrail.Text.Search
import SnippetTrail.Text.System

/-!
# Paths of files

A path has components that stand between slashes. Empty components and single dots inside a path mean
nothing; two dots lead up. Paths within a clone are texts, and paths of the system are bytes, so what is
common to them is about lists over any alphabet with a slash and a dot.
-/

namespace SnippetTrail

namespace Path

section
variable {α : Type} [BEq α] (slash dot : α)

/-- A path below a folder; an absolute path stands for itself. -/
def joinOn (folder path : List α) : List α :=
  if path.head? == some slash || folder.isEmpty then path
  else if folder.getLast? == some slash then folder ++ path
  else folder ++ slash :: path

/-- The pieces of a reversed path without those at its end that mean nothing; a single dot that
starts the path has a meaning. -/
def dropEmptyEnd : List (List α) → List (List α)
  | [] => []
  | [piece] => [piece]
  | piece :: rest => if piece.isEmpty || piece == [dot] then dropEmptyEnd rest else piece :: rest

/-- The path without its last component; `none` for the root and the empty path. -/
def parentOn? (path : List α) : Option (List α) :=
  match dropEmptyEnd dot (Text.splitAt slash path).reverse with
  | [] => none
  | [piece] => if piece.isEmpty then none else some []
  | _ :: rest => match dropEmptyEnd dot rest with
    | [[]] => some [slash]
    | kept => some (Text.join [slash] kept.reverse)

def fileNameOn? (path : List α) : Option (List α) :=
  ((Text.splitAt slash path).filter fun piece => !piece.isEmpty && piece != [dot]).getLast?.filter
    (· != [dot, dot])

end

def isAbsolute (path : String) : Bool := path.toList.head? == some '/'

def join (folder path : String) : String := String.ofList (joinOn '/' folder.toList path.toList)

def parent? (path : String) : Option String := (parentOn? '/' '.' path.toList).map String.ofList

def fileName? (path : String) : Option String := (fileNameOn? '/' '.' path.toList).map String.ofList

def extension? (path : String) : Option String := do
  let name ← fileName? path
  let (stem, extension) ← Text.splitLast? '.' name.toList
  if stem.isEmpty then none else some (String.ofList extension)

end Path

abbrev FilePath := SystemText

namespace FilePath

def slash : UInt8 := 0x2F

def dot : UInt8 := 0x2E

def join (folder path : FilePath) : FilePath := ⟨Path.joinOn slash folder.bytes path.bytes⟩

def parent? (path : FilePath) : Option FilePath :=
  (Path.parentOn? slash dot path.bytes).map SystemText.mk

def fileName? (path : FilePath) : Option FilePath :=
  (Path.fileNameOn? slash dot path.bytes).map SystemText.mk

end FilePath

end SnippetTrail
