import SnippetTrail.Shell.State

/-!
# Fields

The words of a command become fields: expanded text is split at separators, and fields with live
pattern characters become the paths that fit them.
-/

namespace SnippetTrail.Shell

inductive Mark where
  | fixed
  | live
  | split
  deriving DecidableEq

inductive Piece where
  | char (c : Char) (mark : Mark)
  /-- Quotes, which make a field even where it is empty. -/
  | presence
  | boundary

/-- Characters of a field, each with whether it stands for itself in a pattern. -/
abbrev Field := List (Char × Bool)

/-- Fields of pieces; blank separators only separate, others end a field even where it is empty. -/
def fieldsFrom (separators : List Char) : Option Field → List Piece → List Field
  | field, [] => field.toList
  | field, .presence :: rest => fieldsFrom separators (some (field.getD [])) rest
  | field, .boundary :: rest => field.toList ++ fieldsFrom separators none rest
  | field, .char c mark :: rest =>
    if mark == .split && separators.contains c then
      if c == ' ' || c == '\t' || c == '\n' then field.toList ++ fieldsFrom separators none rest
      else field.getD [] :: fieldsFrom separators none rest
    else fieldsFrom separators (some (field.getD [] ++ [(c, mark == .fixed)])) rest

def wholeField (pieces : List Piece) : Field :=
  pieces.filterMap fun piece => match piece with
    | .char c mark => some (c, mark == .fixed)
    | _ => none

def Field.text (field : Field) : String := String.ofList (field.map (·.1))

def quotedPieces (text : String) : List Piece := .presence :: text.toList.map (.char · .fixed)

def splitPieces (text : String) : List Piece := text.toList.map (.char · .split)

def Piece.asSplit : Piece → Piece
  | .char c .live => .char c .split
  | piece => piece

def argumentPieces : List String → List Piece
  | [] => []
  | [argument] => quotedPieces argument
  | argument :: rest => quotedPieces argument ++ .boundary :: argumentPieces rest

def outputText (bytes : List UInt8) : String :=
  String.ofList ((Text.Utf8.decodeLossy bytes).reverse.dropWhile (· == '\n')).reverse

-- ---------------------------------------------------------------------------
-- Patterns on values

def Field.isFitted (pattern : Field) (text : List Char) : Bool :=
  fits (pattern.length + text.length + 1) pattern text

def withoutStart (longest : Bool) (pattern : Field) (text : List Char) : List Char :=
  let sizes := List.range (text.length + 1)
  match (if longest then sizes.reverse else sizes).find? fun n => pattern.isFitted (text.take n) with
  | some n => text.drop n
  | none => text

def withoutEnd (longest : Bool) (pattern : Field) (text : List Char) : List Char :=
  let sizes := List.range (text.length + 1)
  match (if longest then sizes else sizes.reverse).find? fun n => pattern.isFitted (text.drop n) with
  | some n => text.take n
  | none => text

-- ---------------------------------------------------------------------------
-- Patterns on paths

def Field.isPattern (field : Field) : Bool :=
  field.any fun (c, isFixed) => !isFixed && (c == '*' || c == '?' || c == '[')

def Field.components : Field → List Field
  | [] => [[]]
  | (c, isFixed) :: rest =>
    if c == '/' then [] :: components rest
    else match components rest with
      | [] => [[(c, isFixed)]]
      | first :: more => ((c, isFixed) :: first) :: more

def namesFitting (state : State) (shown : String) (component : Field) : List String :=
  match state.files.find state.folder true (if shown.isEmpty then "." else shown) with
  | .error _ => []
  | .ok found => (state.files.names found.place).filter fun name =>
    (!name.startsWith "." || component.head?.any (·.1 == '.')) && component.isFitted name.toList

def pathsFitting (state : State) : String → List Field → List String
  | shown, [] => [shown]
  | shown, [component] =>
    if component.isPattern then (namesFitting state shown component).map (shown ++ ·)
    else
      let path := shown ++ Field.text component
      if (state.files.kind state.folder false path).isOk then [path] else []
  | shown, component :: rest =>
    if component.isPattern then
      (namesFitting state shown component).flatMap fun name =>
        if state.files.leadsToFolder state.folder (shown ++ name) then
          pathsFitting state (shown ++ name ++ "/") rest
        else []
    else pathsFitting state (shown ++ Field.text component ++ "/") rest

/-- The texts of a field: the paths that fit it, or itself where there are none. -/
def Field.texts (state : State) (field : Field) : List String :=
  if !field.isPattern then [Field.text field]
  else match pathsFitting state "" field.components with
    | [] => [Field.text field]
    | paths => paths

end SnippetTrail.Shell
