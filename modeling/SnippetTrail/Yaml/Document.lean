import SnippetTrail.Yaml.Event

/-!
# Documents

A document is its events, with every alias resolved to the position of the node that it repeats.
The readers take the events from a place on and give what they read with the place behind it. Few
aliases could repeat a document without end, so a reader follows no more than a hundred of them for
each event of the document.
-/

namespace SnippetTrail.Yaml

/-- Anchors seen so far. Each name has a number, and each number the position that it was last
given to; a name that is used again takes the number after all names. -/
structure Anchors where
  numbers : List (String × Nat)
  positions : List (Nat × Nat)

def Anchors.add (anchors : Anchors) (name : String) (position : Nat) : Anchors :=
  let number := anchors.numbers.length
  ⟨(name, number) :: anchors.numbers.filter (·.1 != name), (number, position) :: anchors.positions⟩

inductive Item where
  | alias (number : Nat)
  | scalar (tag : Option (List UInt8)) (text : String) (plain : Bool)
  | sequenceStart
  | sequenceEnd
  | mappingStart
  | mappingEnd
  deriving DecidableEq

structure Document where
  items : List Item
  positions : List (Nat × Nat)

namespace Document

def note (anchors : Anchors) (properties : Properties) (position : Nat) : Anchors :=
  match properties.anchor with
  | some name => anchors.add name position
  | none => anchors

def resolve : List Event → Nat → Anchors → Option (List Item × Anchors)
  | [], _, anchors => some ([], anchors)
  | event :: rest, position, anchors => do
    let (item, anchors) ← match event with
      | .alias name => (anchors.numbers.lookup name).map fun number => (Item.alias number, anchors)
      | .scalar properties text plain =>
        some (.scalar properties.tag text plain, note anchors properties position)
      | .sequenceStart properties => some (.sequenceStart, note anchors properties position)
      | .sequenceEnd => some (.sequenceEnd, anchors)
      | .mappingStart properties => some (.mappingStart, note anchors properties position)
      | .mappingEnd => some (.mappingEnd, anchors)
    let (items, anchors) ← resolve rest (position + 1) anchors
    pure (item :: items, anchors)

def ofText? (text : String) : Option Document := do
  let events ← Event.ofTokens? (← Token.ofText? text.toList)
  let (items, anchors) ← resolve events 0 ⟨[], []⟩
  pure ⟨items, anchors.positions⟩

def target (document : Document) (number : Nat) : List Item :=
  document.items.drop ((document.positions.lookup number).getD 0)

def skipNode : Nat → List Item → Option (List Item)
  | _, [] => none
  | depth, .sequenceStart :: rest | depth, .mappingStart :: rest => skipNode (depth + 1) rest
  | depth, .sequenceEnd :: rest | depth, .mappingEnd :: rest =>
    if depth ≤ 1 then some rest else skipNode (depth - 1) rest
  | depth, _ :: rest => if depth = 0 then some rest else skipNode depth rest

structure Place where
  items : List Item
  follows : Nat

def start (document : Document) : Place := ⟨document.items, 100 * document.items.length⟩

abbrev Reader (α : Type) := Place → Option (α × Place)

/-- Reads a node, or the one that an alias in its place repeats. -/
def followAlias (document : Document) (read : Reader α) : Reader α
  | ⟨.alias number :: rest, follows⟩ =>
    if follows = 0 then none
    else (read ⟨document.target number, follows - 1⟩).map fun (value, after) =>
      (value, ⟨rest, after.follows⟩)
  | place => read place

def isNull (text : String) : Bool := text ∈ ["null", "Null", "NULL", "~"]

def nullTag : List UInt8 := Text.Utf8.encode "tag:yaml.org,2002:null".toList

/-- Whether a scalar stands for nothing; a scalar with the tag of nothing must be one that does. -/
def isAbsent? (tag : Option (List UInt8)) (text : String) (plain : Bool) : Option Bool :=
  if !plain then some false
  else match tag with
    | some tag => if tag = nullTag then if isNull text then some true else none else some false
    | none => some (text.isEmpty || isNull text)

def readOptional (document : Document) (read : Reader α) : Reader (Option α) :=
  document.followAlias fun place => match place with
    | ⟨.scalar tag text plain :: rest, follows⟩ => do
      if ← isAbsent? tag text plain then pure (none, ⟨rest, follows⟩)
      else (read place).map fun (value, after) => (some value, after)
    | _ => (read place).map fun (value, after) => (some value, after)

def readText (document : Document) : Reader String :=
  document.followAlias fun place => match place with
    | ⟨.scalar _ text _ :: rest, follows⟩ => some (text, ⟨rest, follows⟩)
    | _ => none

def readEntries (read : Reader α) : Nat → List α → Reader (List α)
  | 0, _, _ => none
  | _ + 1, entries, ⟨.sequenceEnd :: rest, follows⟩ => some (entries.reverse, ⟨rest, follows⟩)
  | fuel + 1, entries, place => do
    let (entry, after) ← read place
    readEntries read fuel (entry :: entries) after

def readSequence (document : Document) (read : Reader α) : Reader (List α) :=
  document.followAlias fun place => match place with
    | ⟨.sequenceStart :: rest, follows⟩ => readEntries read (rest.length + 1) [] ⟨rest, follows⟩
    | ⟨.scalar _ "" true :: rest, follows⟩ => some ([], ⟨rest, follows⟩)
    | _ => none

/-- The values of a mapping that is read into a record; each key gives the field that it names and
how its value changes the record, and a field may be given once only. -/
def readFields (document : Document) (field : String → Option (String × (α → Reader α))) :
    Nat → List String → α → Reader α
  | 0, _, _, _ => none
  | _ + 1, _, record, ⟨.mappingEnd :: rest, follows⟩ => some (record, ⟨rest, follows⟩)
  | fuel + 1, given, record, place => do
    let (key, after) ← document.readText place
    match field key with
    | none => document.readFields field fuel given record ⟨← skipNode 0 after.items, after.follows⟩
    | some (name, change) =>
      if name ∈ given then none
      else
        let (record, after) ← change record after
        document.readFields field fuel (name :: given) record after

def readRecord (document : Document) (initial : α)
    (field : String → Option (String × (α → Reader α))) : Reader α :=
  document.followAlias fun place => match place with
    | ⟨.mappingStart :: rest, follows⟩ =>
      document.readFields field (rest.length + 1) [] initial ⟨rest, follows⟩
    | ⟨.scalar _ "" true :: rest, follows⟩ => some (initial, ⟨rest, follows⟩)
    | _ => none

end Document

end SnippetTrail.Yaml
