import SnippetTrail.Daemon.Options
import SnippetTrail.Proofs.Extraction
import SnippetTrail.Proofs.SettingsFile
import SnippetTrail.Proofs.Utf8Text

/-!
# Which settings are in force

A setting is what the command line gives, or else its variable, or else the file, or else the standard
value (`Options.InForce`). A file has to be in order by itself, whatever is laid over it later
(`Config.Reads`). `Options.config_eq_ok`: these settings are in force, exactly if they are valid.
-/

namespace SnippetTrail

-- ---------------------------------------------------------------------------
-- Files
-- ---------------------------------------------------------------------------

namespace Config

variable {σ : Type} {host : Host σ} {standard config : Config} {path : FilePath} {machine : σ}

/-- A file is there, is text, is well-formed, has values of the right types, and its settings are
valid. This is what it says. -/
inductive Reads (host : Host σ) (standard : Config) (path : FilePath) (machine : σ) : Partial → Prop where
  | intro {text : List Char} {table : Toml.Table}
      (there : isThere host path machine = true)
      (read : host.read path machine = .ok (Text.Utf8.encode text))
      (wellFormed : Toml.ofText? (String.ofList text) = some table)
      (typed : (ofText? standard (String.ofList text)).isSome)
      (valid : ((Partial.ofTable table).onto standard).validate = .ok ()) :
      Reads host standard path machine (Partial.ofTable table)

theorem textOf_eq_ok {contents : Except IoFault (List UInt8)} {text : String} :
    textOf contents = .ok text ↔ contents = .ok (Text.Utf8.encode text.toList) := by
  cases contents with
  | error fault => exact ⟨nofun, nofun⟩
  | ok bytes =>
    rw [textOf, Except.ok.injEq, ← Text.Utf8.decode?_eq_some]
    cases Text.Utf8.decode? bytes with
    | none => exact ⟨nofun, nofun⟩
    | some chars =>
      rw [Except.ok.injEq, Option.some.injEq]
      exact ⟨fun h => h ▸ String.toList_ofList.symm, fun h => h ▸ String.ofList_toList⟩

theorem map_validate_eq_ok {found : Config} :
    (found.validate.map fun _ => found) = .ok config ↔ found = config ∧ config.validate = .ok () := by
  cases hvalid : found.validate with
  | error error =>
    refine ⟨nofun, ?_⟩
    rintro ⟨rfl, h⟩
    rw [hvalid] at h
    cases h
  | ok _ =>
    show Except.ok found = Except.ok config ↔ _
    rw [Except.ok.injEq]
    exact ⟨fun h => ⟨h, h ▸ hvalid⟩, And.left⟩

theorem ofContents_eq_ok {contents : Except IoFault (List UInt8)} :
    ofContents standard contents = .ok config ↔ ∃ text,
      contents = .ok (Text.Utf8.encode text.toList) ∧ ofText? standard text = some config ∧
        config.validate = .ok () := by
  simp only [← textOf_eq_ok]
  rw [ofContents]
  cases textOf contents with
  | error fault => exact ⟨nofun, nofun⟩
  | ok text =>
    simp only [Except.ok.injEq, exists_eq_left']
    cases ofText? standard text with
    | none => exact ⟨nofun, nofun⟩
    | some found =>
      rw [Option.some.injEq]
      exact map_validate_eq_ok

theorem load_eq_ok : load host standard path machine = .ok config ↔
    ∃ said, Reads host standard path machine said ∧ config = said.onto standard := by
  rw [load]
  split
  case isTrue hthere =>
    rw [ofContents_eq_ok]
    constructor
    · rintro ⟨text, hread, hof, hvalid⟩
      obtain ⟨table, htable, rfl⟩ := eq_onto_of_ofText? hof
      rw [← String.ofList_toList (s := text)] at htable hof
      exact ⟨_, .intro hthere hread htable (Option.isSome_of_mem hof) hvalid, rfl⟩
    · rintro ⟨_, ⟨-, hread, htable, htyped, hvalid⟩, rfl⟩
      obtain ⟨found, hfound⟩ := Option.isSome_iff_exists.mp htyped
      obtain ⟨table', htable', rfl⟩ := eq_onto_of_ofText? hfound
      cases htable.symm.trans htable'
      exact ⟨_, by rwa [String.toList_ofList], hfound, hvalid⟩
  case isFalse haway =>
    refine ⟨nofun, ?_⟩
    rintro ⟨_, ⟨hthere, -, -, -, -⟩, -⟩
    exact absurd hthere haway

theorem loadIfThere_eq_ok : loadIfThere host standard path machine = .ok config ↔
    (∃ said, Reads host standard path machine said ∧ config = said.onto standard) ∨
      isThere host path machine = false ∧ config = standard := by
  rw [loadIfThere]
  split
  case isTrue hthere =>
    rw [load_eq_ok, hthere]
    simp
  case isFalse haway =>
    rw [Except.ok.injEq]
    constructor
    · rintro rfl
      exact .inr ⟨Bool.not_eq_true _ ▸ haway, rfl⟩
    · rintro (⟨_, ⟨hthere, -, -, -, -⟩, -⟩ | ⟨-, rfl⟩)
      · exact absurd hthere haway
      · rfl

end Config

-- ---------------------------------------------------------------------------
-- Settings
-- ---------------------------------------------------------------------------

namespace Options

open Config (Partial isThere)

variable {σ : Type} {host : Host σ} {environment : Environment} {options : Options} {machine : σ}
  {file : Partial} {config : Config}

/-- What the settings file says: the named one, which has to be there, or else the one at the usual
place, if it is there. -/
inductive ReadsFile (host : Host σ) (environment : Environment) (options : Options) (machine : σ) :
    Partial → Prop where
  | named {path : FilePath} {file : Partial} (given : options.configFile = some path)
      (reads : Config.Reads host (Config.standard environment) path machine file) :
      ReadsFile host environment options machine file
  | usual {file : Partial} (given : options.configFile = .none)
      (reads : Config.Reads host (Config.standard environment) environment.configFile machine file) :
      ReadsFile host environment options machine file
  | away (given : options.configFile = .none)
      (away : isThere host environment.configFile machine = false) :
      ReadsFile host environment options machine .nothing

/-- Each setting comes from the first of its sources that has it. -/
structure InForce (environment : Environment) (options : Options) (file : Partial)
    (config : Config) : Prop where
  binary : config.git.binary =
    ((environment.text? "SAMPLR_GIT_BINARY").or file.binary).getD Tools.standard.git
  shell : config.git.shell =
    ((environment.text? "SAMPLR_SHELL").or file.shell).getD Tools.standard.shell
  remote : config.git.remote =
    ((environment.text? "SAMPLR_REMOTE_NAME").or file.remote).getD Remote.origin
  pollInterval : config.corpus.pollInterval =
    (options.pollInterval.or
      (((environment.text? "SAMPLR_POLL_INTERVAL_SECS").bind fun text =>
        Text.readNat64? text.toList).or file.pollInterval)).getD 30
  cloneRoot : config.corpus.cloneRoot =
    (options.cloneRoot.or
      ((environment.path? "SAMPLR_CLONE_ROOT").or file.cloneRoot)).getD environment.cloneRoot
  listFile : config.corpus.listFile =
    options.listFile.or ((environment.path? "SAMPLR_REPOS_FILE").or file.listFile)
  branch : config.corpus.branch = (environment.text? "SAMPLR_DEFAULT_BRANCH").or file.branch
  verbose : config.logging.verbose = (file.verbose.getD false || options.verbose)
  json : config.logging.json = (file.json.getD false || options.json)

theorem inForce_override : InForce environment options file
    (options.override ((file.onto (Config.standard environment)).override environment)) where
  binary := by rw [Option.getD_or]; rfl
  shell := by rw [Option.getD_or]; rfl
  remote := by rw [Option.getD_or]; rfl
  pollInterval := by rw [Option.getD_or, Option.getD_or]; rfl
  cloneRoot := by rw [Option.getD_or, Option.getD_or]; rfl
  listFile := by
    show options.listFile.or ((environment.path? "SAMPLR_REPOS_FILE").or (file.listFile.or .none)) = _
    rw [Option.or_none]
  branch := by
    show (environment.text? "SAMPLR_DEFAULT_BRANCH").or (file.branch.or .none) = _
    rw [Option.or_none]
  verbose := rfl
  json := rfl

theorem inForce_iff : InForce environment options file config ↔
    config = options.override ((file.onto (Config.standard environment)).override environment) := by
  constructor
  · intro h
    have hforce : InForce environment options file
        (options.override ((file.onto (Config.standard environment)).override environment)) :=
      inForce_override
    calc config = ⟨⟨config.git.binary, config.git.shell, config.git.remote⟩,
          ⟨config.corpus.pollInterval, config.corpus.cloneRoot, config.corpus.listFile,
            config.corpus.branch⟩,
          ⟨config.logging.verbose, config.logging.json⟩⟩ := rfl
      _ = _ := by
        rw [h.binary, h.shell, h.remote, h.pollInterval, h.cloneRoot, h.listFile, h.branch,
          h.verbose, h.json, ← hforce.binary, ← hforce.shell, ← hforce.remote,
          ← hforce.pollInterval, ← hforce.cloneRoot, ← hforce.listFile, ← hforce.branch,
          ← hforce.verbose, ← hforce.json]
  · rintro rfl
    exact inForce_override

def base (host : Host σ) (environment : Environment) (options : Options) (machine : σ) :
    Except ConfigError Config :=
  match options.configFile with
  | some path => Config.load host (Config.standard environment) path machine
  | .none => Config.loadIfThere host (Config.standard environment) environment.configFile machine

theorem config_eq_bind : options.config host environment machine =
    options.base host environment machine >>= fun base =>
      (options.override (base.override environment)).validate >>= fun _ =>
        pure (options.override (base.override environment)) := by
  rw [Options.config, Options.base]
  cases options.configFile <;> rfl

theorem base_eq_ok : options.base host environment machine = .ok config ↔
    ∃ file, ReadsFile host environment options machine file ∧
      config = file.onto (Config.standard environment) := by
  rw [base]
  cases hgiven : options.configFile with
  | none =>
    rw [Config.loadIfThere_eq_ok]
    constructor
    · rintro (⟨file, hreads, honto⟩ | ⟨haway, honto⟩)
      · exact ⟨file, .usual hgiven hreads, honto⟩
      · exact ⟨.nothing, .away hgiven haway, honto⟩
    · rintro ⟨file, hfile, honto⟩
      cases hfile with
      | named given _ => cases hgiven.symm.trans given
      | usual _ reads => exact .inl ⟨file, reads, honto⟩
      | away _ away => exact .inr ⟨away, honto⟩
  | some path =>
    rw [Config.load_eq_ok]
    constructor
    · rintro ⟨file, hreads, honto⟩
      exact ⟨file, .named hgiven hreads, honto⟩
    · rintro ⟨file, hfile, honto⟩
      cases hfile with
      | named given reads =>
        cases hgiven.symm.trans given
        exact ⟨file, reads, honto⟩
      | usual given _ => cases hgiven.symm.trans given
      | away given _ => cases hgiven.symm.trans given

/-- Settings are in force exactly if the file is in order and each of them, taken from the first source
that has it, is valid. -/
theorem config_eq_ok (host : Host σ) (environment : Environment) (options : Options) (machine : σ)
    (config : Config) : options.config host environment machine = .ok config ↔
      ∃ file, ReadsFile host environment options machine file ∧
        InForce environment options file config ∧ config.validate = .ok () := by
  simp only [config_eq_bind, bind_eq_ok, base_eq_ok, pure_eq_ok, inForce_iff]
  constructor
  · rintro ⟨_, ⟨file, hfile, rfl⟩, ⟨⟩, hvalid, rfl⟩
    exact ⟨file, hfile, rfl, hvalid⟩
  · rintro ⟨file, hfile, rfl, hvalid⟩
    exact ⟨_, ⟨file, hfile, rfl⟩, (), hvalid, rfl⟩

end Options

end SnippetTrail
