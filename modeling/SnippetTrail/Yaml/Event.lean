import SnippetTrail.Yaml.Token

/-!
# Events of a document

The structure of a document as a flat list: scalars, aliases, and the starts and ends of sequences
and mappings. `Event.ofTokens?` accepts the tokens of a single document and fills in the empty
scalars for what is left out.
-/

namespace SnippetTrail.Yaml

/-- What may be attached to a node. A tag is given as the bytes of its full name. -/
structure Properties where
  anchor : Option String
  tag : Option (List UInt8)
  deriving DecidableEq

inductive Event where
  | alias (name : String)
  | scalar (properties : Properties) (text : String) (plain : Bool)
  | sequenceStart (properties : Properties)
  | sequenceEnd
  | mappingStart (properties : Properties)
  | mappingEnd
  deriving DecidableEq

/-- A tag that is an exclamation mark alone says nothing about a scalar. -/
def Properties.ofScalar (properties : Properties) : Properties :=
  { properties with tag := properties.tag.filter (· != Text.Utf8.encode ['!']) }

namespace Event

def bare : Properties := ⟨none, none⟩

def empty : Event := .scalar bare "" true

/-- The full name of a tag; only the two handles that need no declaration are known. A zero byte
ends the name. -/
def fullTag? (handle : String) (suffix : List UInt8) : Option (List UInt8) :=
  let suffix := suffix.takeWhile (· != 0)
  if handle == "" then some suffix
  else if handle == "!" then some (Text.Utf8.encode ['!'] ++ suffix)
  else if handle == "!!" then some (Text.Utf8.encode "tag:yaml.org,2002:".toList ++ suffix)
  else none

def properties? : List Token → Option (Properties × List Token)
  | .anchor name :: .tag handle suffix :: rest =>
    (fullTag? handle suffix).map fun tag => (⟨some name, some tag⟩, rest)
  | .tag handle suffix :: .anchor name :: rest =>
    (fullTag? handle suffix).map fun tag => (⟨some name, some tag⟩, rest)
  | .anchor name :: rest => some (⟨some name, none⟩, rest)
  | .tag handle suffix :: rest => (fullTag? handle suffix).map fun tag => (⟨none, some tag⟩, rest)
  | tokens => some (bare, tokens)

/-- What the events of an open collection expect next. -/
inductive Expect where
  | node (inBlock : Bool) (indentless : Bool)
  | blockEntry
  | indentlessEntry
  | blockKey
  | blockValue
  | flowEntry (first : Bool)
  | flowPairKey
  | flowPairValue
  | flowPairEnd
  | flowKey (first : Bool)
  | flowValue
  | flowNoValue
  deriving DecidableEq

abbrev Step := Option Event × List Expect × List Token

def nodeStep (inBlock indentless : Bool) (tokens : List Token) : Option Step :=
  match tokens with
  | .alias name :: rest => some (some (.alias name), [], rest)
  | _ => do
    let (properties, rest) ← properties? tokens
    match rest with
    | .blockEntry :: _ =>
      if indentless then some (some (.sequenceStart properties), [.indentlessEntry], rest)
      else if properties = bare then none else some (some (.scalar properties "" true), [], rest)
    | .scalar text plain :: rest => some (some (.scalar properties.ofScalar text plain), [], rest)
    | .flowSequenceStart :: rest => some (some (.sequenceStart properties), [.flowEntry true], rest)
    | .flowMappingStart :: rest => some (some (.mappingStart properties), [.flowKey true], rest)
    | .blockSequenceStart :: behind =>
      if inBlock then some (some (.sequenceStart properties), [.blockEntry], behind)
      else if properties = bare then none else some (some (.scalar properties "" true), [], rest)
    | .blockMappingStart :: behind =>
      if inBlock then some (some (.mappingStart properties), [.blockKey], behind)
      else if properties = bare then none else some (some (.scalar properties "" true), [], rest)
    | _ => if properties = bare then none else some (some (.scalar properties "" true), [], rest)

def emptyStep (expect : List Expect) (tokens : List Token) : Option Step :=
  some (some empty, expect, tokens)

def optionalNode (absent : Token → Bool) (node : Expect) (after : List Expect)
    (tokens : List Token) : Option Step :=
  match tokens with
  | token :: _ => if absent token then emptyStep after tokens else some (none, node :: after, tokens)
  | [] => none

def step : Expect → List Token → Option Step
  | .node inBlock indentless, tokens => nodeStep inBlock indentless tokens
  | .blockEntry, .blockEntry :: rest =>
    optionalNode (fun t => t == .blockEntry || t == .blockEnd) (.node true false) [.blockEntry] rest
  | .blockEntry, .blockEnd :: rest => some (some .sequenceEnd, [], rest)
  | .blockEntry, _ => none
  | .indentlessEntry, .blockEntry :: rest =>
    optionalNode (fun t => t ∈ [.blockEntry, .key, .value, .blockEnd]) (.node true false)
      [.indentlessEntry] rest
  | .indentlessEntry, tokens => some (some .sequenceEnd, [], tokens)
  | .blockKey, .key :: rest =>
    optionalNode (fun t => t ∈ [.key, .value, .blockEnd]) (.node true true) [.blockValue] rest
  | .blockKey, .blockEnd :: rest => some (some .mappingEnd, [], rest)
  | .blockKey, _ => none
  | .blockValue, .value :: rest =>
    optionalNode (fun t => t ∈ [.key, .value, .blockEnd]) (.node true true) [.blockKey] rest
  | .blockValue, tokens => emptyStep [.blockKey] tokens
  | .flowEntry first, tokens => do
    let tokens ← match tokens, first with
      | .flowSequenceEnd :: _, _ => some tokens
      | _, true => some tokens
      | .flowEntry :: rest, false => some rest
      | _, false => none
    match tokens with
    | .flowSequenceEnd :: rest => some (some .sequenceEnd, [], rest)
    | .key :: rest => some (some (.mappingStart bare), [.flowPairKey, .flowEntry false], rest)
    | _ => some (none, [.node false false, .flowEntry false], tokens)
  | .flowPairKey, tokens =>
    match tokens with
    | token :: rest =>
      if token ∈ [.value, .flowEntry, .flowSequenceEnd] then emptyStep [.flowPairValue] rest
      else some (none, [.node false false, .flowPairValue], tokens)
    | [] => none
  | .flowPairValue, .value :: rest =>
    optionalNode (fun t => t ∈ [.flowEntry, .flowSequenceEnd]) (.node false false) [.flowPairEnd] rest
  | .flowPairValue, tokens => emptyStep [.flowPairEnd] tokens
  | .flowPairEnd, tokens => some (some .mappingEnd, [], tokens)
  | .flowKey first, tokens => do
    let tokens ← match tokens, first with
      | .flowMappingEnd :: _, _ => some tokens
      | _, true => some tokens
      | .flowEntry :: rest, false => some rest
      | _, false => none
    match tokens with
    | .flowMappingEnd :: rest => some (some .mappingEnd, [], rest)
    | .key :: rest =>
      optionalNode (fun t => t ∈ [.value, .flowEntry, .flowMappingEnd]) (.node false false)
        [.flowValue] rest
    | _ => some (none, [.node false false, .flowNoValue], tokens)
  | .flowValue, .value :: rest =>
    optionalNode (fun t => t ∈ [.flowEntry, .flowMappingEnd]) (.node false false) [.flowKey false] rest
  | .flowValue, tokens => emptyStep [.flowKey false] tokens
  | .flowNoValue, tokens => emptyStep [.flowKey false] tokens

def run : Nat → List Expect → List Token → List Event → Option (List Event × List Token)
  | _, [], tokens, events => some (events.reverse, tokens)
  | 0, _ :: _, _, _ => none
  | fuel + 1, expect :: expects, tokens, events => do
    let (event, more, rest) ← step expect tokens
    run fuel (more ++ expects) rest (event.toList ++ events)

def ofTokens? (tokens : List Token) : Option (List Event) := do
  let fuel := 8 * tokens.length + 8
  let (events, rest) ← match tokens with
    | [.streamEnd] => some ([], [.streamEnd])
    | .documentStart :: rest =>
      match rest with
      | .documentStart :: _ | .documentEnd :: _ | .streamEnd :: _ => some ([empty], rest)
      | _ => run fuel [.node true false] rest []
    | _ => run fuel [.node true false] tokens []
  if (rest.dropWhile (· == .documentEnd)) == [.streamEnd] then some events else none

end Event

end SnippetTrail.Yaml
