/-!
# Values of configuration files

Tables remember how they came to be, because that decides what may be added to them later: only a
table that so far exists because of the tables below it may still get a header, and only one that
dotted keys made may be extended by dotted keys.
-/

namespace SnippetTrail.Toml

inductive TableKind where
  | declared
  | implied
  | dotted
  deriving DecidableEq

mutual

inductive Value where
  | string (text : String)
  | integer (n : Int)
  | float
  | boolean (value : Bool)
  | dateTime
  | array (items : List Value)
  | inline (table : Table)
  | table (table : Table)
  | tables (earlier : List Table) (last : Table)

inductive Table where
  | mk (kind : TableKind) (entries : List (String × Value))

end

namespace Table

def kind : Table → TableKind
  | .mk kind _ => kind

def entries : Table → List (String × Value)
  | .mk _ entries => entries

def find? (table : Table) (key : String) : Option Value := table.entries.lookup key

/-- Sets a key, in its place if it is there and at the end otherwise. -/
def set (table : Table) (key : String) (value : Value) : Table :=
  if table.entries.any (·.1 == key) then
    .mk table.kind (table.entries.map fun entry => if entry.1 == key then (key, value) else entry)
  else .mk table.kind (table.entries ++ [(key, value)])

/-- Changes the table at a path. Tables on the way are made where there are none; `byDots` tells
whether dotted keys or a header lead there. -/
def modify (byDots : Bool) (change : Table → Option Table) : List String → Table → Option Table
  | [], table => change table
  | key :: path, table => do
    let value ← match table.find? key with
      | none =>
        (modify byDots change path (.mk (if byDots then .dotted else .implied) [])).map Value.table
      | some (.table child) =>
        if byDots && child.kind == .declared then none
        else (modify byDots change path child).map Value.table
      | some (.tables earlier last) => (modify byDots change path last).map (Value.tables earlier)
      | some _ => none
    pure (table.set key value)

def addValue (table : Table) (key : List String) (value : Value) : Option Table := do
  let name ← key.getLast?
  let above := key.dropLast
  table.modify true (fun holder =>
    if (holder.kind == .dotted) == above.isEmpty || (holder.find? name).isSome then none
    else some (holder.set name value)) above

def addBelow (table : Table) (header key : List String) (value : Value) : Option Table :=
  table.modify false (fun current => current.addValue key value) header

/-- Declares the table of a header. -/
def declare (table : Table) (header : List String) : Option Table := do
  let name ← header.getLast?
  table.modify false (fun parent =>
    match parent.find? name with
    | none => some (parent.set name (.table (.mk .declared [])))
    | some (.table child) =>
      if child.kind == .implied then some (parent.set name (.table (.mk .declared child.entries)))
      else none
    | some _ => none) header.dropLast

def declareNext (table : Table) (header : List String) : Option Table := do
  let name ← header.getLast?
  table.modify false (fun parent =>
    match parent.find? name with
    | none => some (parent.set name (.tables [] (.mk .declared [])))
    | some (.tables earlier last) => some (parent.set name (.tables (earlier ++ [last]) (.mk .declared [])))
    | some _ => none) header.dropLast

end Table

end SnippetTrail.Toml
