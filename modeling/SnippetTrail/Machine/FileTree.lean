import SnippetTrail.Host.Basic
import SnippetTrail.Path
import SnippetTrail.Text.Utf8

/-!
# File trees

A file tree holds files, folders, symbolic links and devices under absolute places; the root is
always a folder. A path is walked component by component and links are followed on the way, so every
operation first finds the place that a path leads to.
-/

namespace SnippetTrail

inductive Device where
  | null
  | full
  | zero
  deriving DecidableEq

/-- What is read from a device; of zeros, as many as fill every pipe here. -/
def Device.content : Device → List UInt8
  | .null | .full => []
  | .zero => List.replicate 262144 0

inductive FileNode where
  | file (bytes : List UInt8)
  | folder
  | link (target : String)
  | device (device : Device)
  deriving DecidableEq

abbrev Place := List String

structure FileTree where
  nodes : List (Place × FileNode)

namespace FileTree

def empty : FileTree := ⟨[]⟩

def node? (tree : FileTree) (place : Place) : Option FileNode :=
  if place.isEmpty then some .folder else tree.nodes.lookup place

def isFolder (tree : FileTree) (place : Place) : Bool := tree.node? place == some .folder

def remove (tree : FileTree) (place : Place) : FileTree :=
  ⟨tree.nodes.filter fun entry => entry.1 != place⟩

def put (tree : FileTree) (place : Place) (node : FileNode) : FileTree :=
  if (tree.nodes.lookup place).isSome then
    ⟨tree.nodes.map fun entry => if entry.1 == place then (place, node) else entry⟩
  else ⟨(place, node) :: tree.nodes⟩

def isBelow (place above : Place) : Bool := above.isPrefixOf place && above != place

def children (tree : FileTree) (folder : Place) : List Place :=
  (tree.nodes.map (·.1)).filter fun place => isBelow place folder && place.length == folder.length + 1

def clear (tree : FileTree) (folder : Place) : FileTree :=
  ⟨tree.nodes.filter fun entry => !isBelow entry.1 folder⟩

def insertName (name : String) : List String → List String
  | [] => [name]
  | other :: rest => if name < other then name :: other :: rest else other :: insertName name rest

def names (tree : FileTree) (folder : Place) : List String :=
  ((tree.children folder).filterMap (·.getLast?)).foldl (fun names name => insertName name names) []

-- ---------------------------------------------------------------------------
-- Walking a path

structure Found where
  place : Place
  node : Option FileNode
  wantsFolder : Bool

def nameLimit : Nat := 255

def pathLimit : Nat := 4096

def linkLimit : Nat := 40

/-- More components than the paths that a walk follows can have. -/
def stepLimit : Nat := (linkLimit + 1) * (pathLimit + 1)

def isTrailing (components : List String) : Bool := components.all (·.isEmpty)

/-- Walks components from a folder; `steps` bounds the components and the links on the way. -/
def walk (tree : FileTree) (follow : Bool) : Nat → Nat → Place → List String → Except IoFault Found
  | 0, _, _, _ => .error .tooManyLinks
  | _ + 1, _, at', [] => .ok ⟨at', some .folder, false⟩
  | steps + 1, links, at', name :: rest =>
    if name.isEmpty || name == "." then tree.walk follow steps links at' rest
    else if name == ".." then tree.walk follow steps links at'.dropLast rest
    else if nameLimit < name.utf8ByteSize then .error .nameTooLong
    else
      let place := at' ++ [name]
      match tree.node? place with
      | none => if isTrailing rest then .ok ⟨place, none, !rest.isEmpty⟩ else .error .notFound
      | some .folder => tree.walk follow steps links place rest
      | some (.file bytes) =>
        if rest.isEmpty then .ok ⟨place, some (.file bytes), false⟩ else .error .notDirectory
      | some (.device device) =>
        if rest.isEmpty then .ok ⟨place, some (.device device), false⟩ else .error .notDirectory
      | some (.link target) =>
        if rest.isEmpty && !follow then .ok ⟨place, some (.link target), false⟩
        else match links with
          | 0 => .error .tooManyLinks
          | links + 1 =>
            let start := if Path.isAbsolute target then [] else at'
            let inner := (Text.splitAt '/' target.toList).map String.ofList
            tree.walk follow steps links start (inner ++ rest)

/-- Where a path leads, seen from a folder. The last component may name nothing. -/
def find (tree : FileTree) (base : Place) (follow : Bool) (path : String) : Except IoFault Found :=
  if path.toList.any (·.toNat == 0) then .error .embeddedNul
  else if path.isEmpty then .error .notFound
  else if pathLimit ≤ path.utf8ByteSize then .error .nameTooLong
  else tree.walk follow stepLimit linkLimit (if Path.isAbsolute path then [] else base)
    ((Text.splitAt '/' path.toList).map String.ofList)

-- ---------------------------------------------------------------------------
-- Operations

def kindOf : FileNode → FileKind
  | .file bytes => .file bytes.length
  | .folder => .folder
  | .link _ => .link
  | .device _ => .file 0

def kind (tree : FileTree) (base : Place) (follow : Bool) (path : String) : Except IoFault FileKind :=
  match tree.find base follow path with
  | .error fault => .error fault
  | .ok found => match found.node with
    | some node => .ok (kindOf node)
    | none => .error .notFound

def read (tree : FileTree) (base : Place) (path : String) : Except IoFault (List UInt8) :=
  match tree.find base true path with
  | .error fault => .error fault
  | .ok found => match found.node with
    | some (.file bytes) => .ok bytes
    | some (.device device) => .ok device.content
    | some .folder => .error .isDirectory
    | _ => .error .notFound

/-- Writes a whole file; `extend` keeps what it held in front. -/
def write (tree : FileTree) (base : Place) (extend : Bool) (path : String) (bytes : List UInt8) :
    Except IoFault FileTree :=
  match tree.find base true path with
  | .error fault => .error fault
  | .ok found => match found.node with
    | some (.file old) => .ok (tree.put found.place (.file (if extend then old ++ bytes else bytes)))
    | some .folder => .error .isDirectory
    | some (.device device) =>
      if device == .full && !bytes.isEmpty then .error .noSpace else .ok tree
    | _ => if found.wantsFolder then .error .isDirectory else .ok (tree.put found.place (.file bytes))

def createFolder (tree : FileTree) (base : Place) (path : String) : Except IoFault FileTree :=
  match tree.find base false path with
  | .error fault => .error fault
  | .ok found => match found.node with
    | some _ => .error .alreadyExists
    | none => .ok (tree.put found.place .folder)

def leadsToFolder (tree : FileTree) (base : Place) (path : String) : Bool :=
  match tree.kind base true path with
  | .ok .folder => true
  | _ => false

/-- Makes a folder; where one is missing above it, those are made first. The list holds the path and
the paths above it, the longest first. -/
def createFrom (tree : FileTree) (base : Place) : List String → Except IoFault FileTree
  | [] => .ok tree
  | path :: above =>
    if path.isEmpty then .ok tree
    else match tree.createFolder base path with
      | .ok tree => .ok tree
      | .error .notFound =>
        match tree.createFrom base above with
        | .error fault => .error fault
        | .ok tree => match tree.createFolder base path with
          | .ok tree => .ok tree
          | .error fault => if tree.leadsToFolder base path then .ok tree else .error fault
      | .error fault => if tree.leadsToFolder base path then .ok tree else .error fault

def pathsAbove : Nat → String → List String
  | 0, path => [path]
  | fuel + 1, path => match Path.parent? path with
    | none => [path]
    | some parent => path :: pathsAbove fuel parent

def createFolders (tree : FileTree) (base : Place) (path : String) : Except IoFault FileTree :=
  tree.createFrom base (pathsAbove path.length path)

/-- Removes a folder and all below it; of a link, only the link. -/
def removeFolder (tree : FileTree) (base : Place) (path : String) : Except IoFault FileTree :=
  match tree.find base false path with
  | .error fault => .error fault
  | .ok found => match found.node with
    | none => .error .notFound
    | some (.file _) | some (.device _) => .error .notDirectory
    | some (.link _) => .ok (tree.remove found.place)
    | some .folder => .ok ((tree.clear found.place).remove found.place)

def removeFile (tree : FileTree) (base : Place) (path : String) : Except IoFault FileTree :=
  match tree.find base false path with
  | .error fault => .error fault
  | .ok found => match found.node with
    | none => .error .notFound
    | some .folder => .error .isDirectory
    | some _ => .ok (tree.remove found.place)

def createLink (tree : FileTree) (base : Place) (path target : String) : Except IoFault FileTree :=
  match tree.find base false path with
  | .error fault => .error fault
  | .ok found => match found.node with
    | some _ => .error .alreadyExists
    | none => if found.wantsFolder then .error .notFound else .ok (tree.put found.place (.link target))

-- ---------------------------------------------------------------------------
-- Planting

def makeFolder (tree : FileTree) (place : Place) : FileTree :=
  (List.range place.length).foldl (fun tree n =>
    let above := place.take (n + 1)
    if (tree.node? above).isSome then tree else tree.put above .folder) tree

def plantNode (tree : FileTree) (path : String) (node : FileNode) : Except IoFault FileTree := do
  let tree ← tree.createFolders [] ((Path.parent? path).getD "/")
  match node with
  | .file bytes => tree.write [] false path bytes
  | .folder => tree.createFolders [] path
  | .link target => tree.createLink [] path target
  | .device device => do
    let found ← tree.find [] false path
    pure (tree.put found.place (.device device))

def clearExcept (tree : FileTree) (folder : Place) (kept : String) : FileTree :=
  ⟨tree.nodes.filter fun entry =>
    !isBelow entry.1 folder || (folder ++ [kept]).isPrefixOf entry.1⟩

def keptName : String := ".git"

/-- Puts nodes into a folder in the order of their paths, in place of what is there. A node that does
not fit is left out. -/
def plant (tree : FileTree) (dir : String) (nodes : List (String × FileNode)) : FileTree :=
  let tree := (tree.createFolders [] dir).toOption.getD tree
  let cleared := match tree.find [] true dir with
    | .ok found => tree.clearExcept found.place keptName
    | .error _ => tree
  (nodes.mergeSort fun a b => !decide (b.1 < a.1)).foldl (fun tree entry =>
    (tree.plantNode (Path.join dir entry.1) entry.2).toOption.getD tree) cleared

end FileTree

end SnippetTrail
