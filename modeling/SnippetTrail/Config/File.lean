import SnippetTrail.Config.Basic
import SnippetTrail.Host.Basic
import SnippetTrail.Toml.Document
import SnippetTrail.Toml.Section

/-!
# Settings files

A settings file has a section for each group of settings. What it leaves out keeps its standard
value. `Config.save` writes every setting, except those that may be absent and are.
-/

namespace SnippetTrail.Config

open Toml

-- ---------------------------------------------------------------------------
-- Reading

def gitFields : List (Toml.Field GitSettings) := [
  ⟨"binary", fun git value => value.string?.map fun text => { git with binary := text }⟩,
  ⟨"shell", fun git value => value.string?.map fun text => { git with shell := text }⟩,
  ⟨"remote_name", fun git value => value.string?.map fun text => { git with remote := text }⟩]

def path? (value : Value) : Option FilePath := value.string?.map SystemText.ofText

def corpusFields : List (Toml.Field CorpusSettings) := [
  ⟨"poll_interval_secs", fun corpus value =>
    value.natural?.map fun n => { corpus with pollInterval := n }⟩,
  ⟨"clone_root", fun corpus value => (path? value).map fun path => { corpus with cloneRoot := path }⟩,
  ⟨"repos_file", fun corpus value =>
    (path? value).map fun path => { corpus with listFile := some path }⟩,
  ⟨"default_branch", fun corpus value =>
    value.string?.map fun text => { corpus with branch := some text }⟩]

def loggingFields : List (Toml.Field LoggingSettings) := [
  ⟨"verbose", fun logging value =>
    value.boolean?.map fun flag => { logging with verbose := flag }⟩,
  ⟨"json", fun logging value => value.boolean?.map fun flag => { logging with json := flag }⟩]

def fields : List (Toml.Field Config) := [
  ⟨"git", fun config value =>
    (Toml.Field.readRecord gitFields config.git value).map fun git => { config with git }⟩,
  ⟨"corpus", fun config value =>
    (Toml.Field.readRecord corpusFields config.corpus value).map fun corpus => { config with corpus }⟩,
  ⟨"logging", fun config value =>
    (Toml.Field.readRecord loggingFields config.logging value).map fun logging =>
      { config with logging }⟩]

/-- The settings that the text of a file describes; `standard` holds where it says nothing. -/
def ofText? (standard : Config) (text : String) : Option Config := do
  Toml.Field.setAll fields standard (← Toml.ofText? text).entries

def textOf : Except IoFault (List UInt8) → Except IoFault String
  | .error fault => .error fault
  | .ok bytes =>
    match Text.Utf8.decode? bytes with
    | some text => .ok (String.ofList text)
    | none => .error .invalidText

def ofContents (standard : Config) (contents : Except IoFault (List UInt8)) :
    Except ConfigError Config :=
  match textOf contents with
  | .error fault => .error (.loadFailed ("Failed to read config file: " ++ fault.message))
  | .ok text =>
    match ofText? standard text with
    | none => .error (.parseFailed "Invalid TOML")
    | some config => config.validate.map fun _ => config

def isThere (host : Host σ) (path : FilePath) (machine : σ) : Bool := (host.kind path machine).isOk

def load (host : Host σ) (standard : Config) (path : FilePath) (machine : σ) :
    Except ConfigError Config :=
  if isThere host path machine then ofContents standard (host.read path machine)
  else .error (.fileNotFound path.display)

def loadIfThere (host : Host σ) (standard : Config) (path : FilePath) (machine : σ) :
    Except ConfigError Config :=
  if isThere host path machine then load host standard path machine else .ok standard

def current (host : Host σ) (environment : Environment) (machine : σ) : Except ConfigError Config := do
  let config ← loadIfThere host (standard environment) environment.configFile machine
  let config := config.override environment
  config.validate
  pure config

-- ---------------------------------------------------------------------------
-- Writing

def sections (config : Config) : List Section := [
  ⟨"git", [("binary", .string config.git.binary), ("shell", .string config.git.shell),
    ("remote_name", .string config.git.remote)]⟩,
  ⟨"corpus", [("poll_interval_secs", .integer config.corpus.pollInterval),
    ("clone_root", .path config.corpus.cloneRoot)] ++
    (config.corpus.listFile.map fun file => ("repos_file", Scalar.path file)).toList ++
    (config.corpus.branch.map fun branch => ("default_branch", Scalar.string branch)).toList⟩,
  ⟨"logging", [("verbose", .boolean config.logging.verbose), ("json", .boolean config.logging.json)]⟩]

def render (config : Config) : Except WriteFault String := Section.renderAll config.sections

def save (host : Host σ) (config : Config) (path : FilePath) : Act σ ConfigError Unit := do
  match FilePath.parent? path with
  | none => pure ()
  | some parent =>
    Act.mapError (fun fault =>
        ConfigError.saveFailed ("Failed to create config directory: " ++ fault.message))
      (Act.ofStep (host.createFolders parent))
  match config.render with
  | .error fault => throw (.saveFailed ("Failed to serialize config: " ++ fault.message))
  | .ok text =>
    Act.mapError (fun fault =>
        ConfigError.saveFailed ("Failed to write config file: " ++ fault.message))
      (Act.ofStep (host.write path (Text.Utf8.encode text.toList)))

end SnippetTrail.Config
