import SnippetTrail.Config.File

/-!
# The command line

What a command line asks for, and the settings that follow from it, from variables, from a file and
from the standard ones, the first of these taking precedence.
-/

namespace SnippetTrail

structure Options where
  configFile : Option FilePath
  owner : Option String
  repository : Option String
  listFile : Option FilePath
  cloneRoot : Option FilePath
  pollInterval : Option Nat
  verbose : Bool
  json : Bool
  deriving DecidableEq

inductive Request where
  | run (options : Options)
  | inform
  | misuse
  deriving DecidableEq

namespace Options

def none : Options := ⟨.none, .none, .none, .none, .none, .none, false, false⟩

def valued : List String :=
  ["config", "owner", "repo", "repos-file", "clone-root", "poll-interval"]

def path? (value : SystemText) : Option FilePath := if value.isEmpty then .none else some value

def once? (given : Option α) (value : Option α) : Option (Option α) :=
  if given.isSome then .none else value.map some

/-- Gives a value to an option; an option takes one value, and only one of its kind. -/
def withValue? (options : Options) (name : String) (value : SystemText) : Option Options :=
  match name with
  | "config" =>
    (once? options.configFile (path? value)).map fun configFile => { options with configFile }
  | "owner" => (once? options.owner value.text?).map fun owner => { options with owner }
  | "repo" =>
    (once? options.repository value.text?).map fun repository => { options with repository }
  | "repos-file" =>
    (once? options.listFile (path? value)).map fun listFile => { options with listFile }
  | "clone-root" =>
    (once? options.cloneRoot (path? value)).map fun cloneRoot => { options with cloneRoot }
  | "poll-interval" =>
    (once? options.pollInterval (value.text?.bind fun text => Text.readNat64? text.toList)).map
      fun pollInterval => { options with pollInterval }
  | _ => .none

def withFlag? (options : Options) (name : String) : Option Options :=
  match name with
  | "verbose" => if options.verbose then .none else some { options with verbose := true }
  | "json" => if options.json then .none else some { options with json := true }
  | _ => .none

def isInformative (name : String) : Bool := name == "help" || name == "version"

def ofLetter? : Char → Option String
  | 'v' => some "verbose"
  | 'h' => some "help"
  | 'V' => some "version"
  | _ => .none

inductive Letters where
  | proceed (options : Options)
  | inform
  | misuse

/-- Reads letters, among which there may be bytes that are no character. -/
def readLetters (options : Options) : List (Option Char) → Letters
  | [] => .proceed options
  | .none :: _ => .misuse
  | some c :: rest =>
    match ofLetter? c with
    | .none => .misuse
    | some name =>
      if isInformative name then .inform
      else match options.withFlag? name with
        | some options => readLetters options rest
        | .none => .misuse

def dash : UInt8 := 0x2D

def equals : UInt8 := 0x3D

def startsOption (argument : SystemText) : Bool :=
  argument.bytes.head? == some dash && argument.bytes != [dash]

/-- The name of an option, if it is a text, and the value that is given with it. -/
def readLong (bytes : List UInt8) : Option String × Option SystemText :=
  match Text.splitOnce? equals bytes with
  | some (name, value) => ((SystemText.mk name).text?, some ⟨value⟩)
  | .none => ((SystemText.mk bytes).text?, .none)

def isComplete (options : Options) : Bool := options.owner.isSome == options.repository.isSome

/-- The request of a whole command line; `configFile` stands in where no file is named. -/
def finish (configFile : Option SystemText) (options : Options) : Request :=
  match options.configFile, configFile.map path? with
  | .none, some .none => .misuse
  | given, stand =>
    if options.isComplete then .run { options with configFile := given.or stand.join } else .misuse

def read (configFile : Option SystemText) (options : Options) : List SystemText → Request
  | [] => finish configFile options
  | argument :: rest =>
    match Text.stripStart? [dash, dash] argument.bytes with
    | some [] => if rest.isEmpty then finish configFile options else .misuse
    | some bytes =>
      match readLong bytes with
      | (.none, _) => .misuse
      | (some name, some value) =>
        match options.withValue? name value with
        | some options => read configFile options rest
        | .none => .misuse
      | (some name, .none) =>
        if isInformative name then .inform
        else if valued.contains name then
          match rest with
          | [] => .misuse
          | value :: rest =>
            if startsOption value then .misuse
            else match options.withValue? name value with
              | some options => read configFile options rest
              | .none => .misuse
        else match options.withFlag? name with
          | some options => read configFile options rest
          | .none => .misuse
    | .none =>
      if startsOption argument then
        match readLetters options (Text.Utf8.scan .none (argument.bytes.drop 1)) with
        | .proceed options => read configFile options rest
        | .inform => .inform
        | .misuse => .misuse
      else .misuse

def ofArguments (environment : Environment) (arguments : List SystemText) : Request :=
  read (environment.value? "SAMPLR_CONFIG") Options.none arguments

def override (options : Options) (config : Config) : Config := { config with
  corpus := { config.corpus with
    cloneRoot := options.cloneRoot.getD config.corpus.cloneRoot
    listFile := options.listFile.or config.corpus.listFile
    pollInterval := options.pollInterval.getD config.corpus.pollInterval }
  logging := ⟨config.logging.verbose || options.verbose, config.logging.json || options.json⟩ }

def config (host : Host σ) (environment : Environment) (options : Options) (machine : σ) :
    Except ConfigError Config := do
  let standard := Config.standard environment
  let config ← match options.configFile with
    | some path => Config.load host standard path machine
    | .none => Config.loadIfThere host standard environment.configFile machine
  let config := options.override (config.override environment)
  config.validate
  pure config

end Options

end SnippetTrail
