import SnippetTrail.Proofs.Act
import SnippetTrail.Proofs.FileStorage
import SnippetTrail.Proofs.Precedence
import SnippetTrail.Proofs.WrittenSections

/-!
# What is saved is loaded again

The text of a settings file describes the settings that it was made from (`Config.ofText?_render`), and
making the folder of a file leaves its contents alone. So settings that have been saved are loaded again,
or refused for the reason that makes them invalid. Settings that cannot be written, which
`Config.render_isError` tells, leave the file as it was (`Config.load_saved`).
-/

namespace SnippetTrail

namespace Config

variable {config : Config}

-- ---------------------------------------------------------------------------
-- The text
-- ---------------------------------------------------------------------------

theorem sections_isPlain (config : Config) : ∀ part ∈ config.sections, part.IsPlain := by
  obtain ⟨git, ⟨pollInterval, cloneRoot, listFile, branch⟩, logging⟩ := config
  simp only [sections, List.forall_mem_cons, List.not_mem_nil, false_implies, implies_true, and_true]
  refine ⟨Toml.Section.isPlain_of_sublist (List.Sublist.refl ["binary", "shell", "remote_name"]) ?_,
    @Toml.Section.isPlain_of_sublist _
      ["poll_interval_secs", "clone_root", "repos_file", "default_branch"] ?_ ?_,
    Toml.Section.isPlain_of_sublist (List.Sublist.refl ["verbose", "json"]) ?_⟩
  · simp [Toml.IsBareKey, Toml.isBareKeyChar]
  · cases listFile <;> cases branch <;> simp
  · simp [Toml.IsBareKey, Toml.isBareKeyChar]
  · simp [Toml.IsBareKey, Toml.isBareKeyChar]

def paths (config : Config) : List FilePath :=
  config.corpus.cloneRoot :: config.corpus.listFile.toList

theorem render_isOk : (∃ text, config.render = .ok text) ↔
    2 * config.corpus.pollInterval < Text.wordCount ∧ ∀ path ∈ config.paths, ∃ text : String, path = text := by
  obtain ⟨git, ⟨pollInterval, cloneRoot, listFile, branch⟩, logging⟩ := config
  rw [render, Toml.renderAll_isOk]
  cases listFile <;> cases branch <;>
    simp only [sections, paths, Option.map_none, Option.map_some, Option.toList_none, Option.toList_some,
      List.cons_append, List.nil_append, List.append_nil, List.forall_mem_cons, List.not_mem_nil,
      Toml.Scalar.IsWritable, false_implies, implies_true, and_true, true_and]

theorem render_isError : (∃ fault, config.render = .error fault) ↔
    Text.wordCount ≤ 2 * config.corpus.pollInterval ∨ ∃ path ∈ config.paths, path.text? = none := by
  simp only [exists_error_iff, render_isOk, SystemText.exists_ofText_iff, Classical.not_and_iff_not_or_not,
    Nat.not_lt, not_forall, Classical.not_not, exists_prop]

/-- A path is read back as the text that is shown of it. -/
theorem setAll_sections (environment : Environment) (config : Config) :
    Toml.Field.setAll fields (standard environment)
      (config.sections.map fun part => (part.name, .table part.table)) =
        some { config with corpus := { config.corpus with
          cloneRoot := config.corpus.cloneRoot.display
          listFile := config.corpus.listFile.map fun file => .ofText file.display } } := by
  obtain ⟨git, ⟨pollInterval, cloneRoot, listFile, branch⟩, logging⟩ := config
  cases listFile <;> cases branch <;> rfl

theorem ofText?_render {text : String} (environment : Environment) (h : config.render = .ok text) :
    ofText? (standard environment) text = some config := by
  have hnames : (config.sections.map (·.name)).Nodup :=
    show ["git", "corpus", "logging"].Nodup by decide
  rw [ofText?, Toml.ofText?_renderAll h (sections_isPlain config) hnames]
  refine (setAll_sections environment config).trans ?_
  obtain ⟨git, ⟨pollInterval, cloneRoot, listFile, branch⟩, logging⟩ := config
  obtain ⟨⟨root, rfl⟩, hfile⟩ := List.forall_mem_cons.mp (render_isOk.mp ⟨text, h⟩).2
  cases listFile with
  | none => simp only [SystemText.display_ofText, Option.map_none]
  | some file =>
    obtain ⟨file, rfl⟩ := hfile file (List.mem_singleton_self file)
    simp only [SystemText.display_ofText, Option.map_some]

-- ---------------------------------------------------------------------------
-- Saving
-- ---------------------------------------------------------------------------

section
variable {σ : Type} {host : Host σ} {path : FilePath} {machine after : σ}

def withFolder (host : Host σ) (path : FilePath) (machine : σ) : σ :=
  match FilePath.parent? path with
  | none => machine
  | some parent => (host.createFolders parent machine).2

/-- The error of settings that cannot be written for this reason. The folder is made first, so it may be
that of the folder. -/
def IsRefusal (fault : Toml.WriteFault) (error : ConfigError) : Prop :=
  error = .saveFailed ("Failed to serialize config: " ++ fault.message) ∨
    ∃ fault : IoFault, error = .saveFailed ("Failed to create config directory: " ++ fault.message)

theorem save_ends : (config.save host path).Ends machine
    (fun _ after => ∃ text, config.render = .ok text ∧
      host.write path (Text.Utf8.encode text.toList) (withFolder host path machine) = (.ok (), after))
    (fun error after => ∀ fault, config.render = .error fault →
      after = withFolder host path machine ∧ IsRefusal fault error) := by
  unfold save withFolder
  generalize config.render = rendered
  have hrefuse {machine : σ} {P : Unit → σ → Prop} (fault : Toml.WriteFault) :
      (throw (.saveFailed ("Failed to serialize config: " ++ fault.message)) : Act σ ConfigError Unit).Ends
        machine P (fun error after => ∀ given, (.error fault : Except _ String) = .error given →
          after = machine ∧ IsRefusal given error) :=
    Act.ends_throw fun given h => by
      cases h
      exact ⟨rfl, .inl rfl⟩
  have hwrite {machine : σ} (text : String) (convert : IoFault → ConfigError) :
      (Act.mapError convert (Act.ofStep (host.write path (Text.Utf8.encode text.toList)))).Ends machine
        (fun _ after => ∃ written, (.ok text : Except Toml.WriteFault _) = .ok written ∧
          host.write path (Text.Utf8.encode written.toList) machine = (.ok (), after))
        (fun error after => ∀ given, (.ok text : Except Toml.WriteFault _) = .error given →
          after = machine ∧ IsRefusal given error) :=
    (Act.ends_ofStep _).mapError.mono (fun _ _ h => ⟨text, rfl, h⟩) fun _ _ _ _ => nofun
  cases FilePath.parent? path with
  | none =>
    cases rendered with
    | error fault => exact hrefuse fault
    | ok text => exact hwrite text _
  | some parent =>
    have hfolder := @Act.ends_ofStep _ _ _ machine (host.createFolders parent)
    refine (hfolder.mapError.mono (fun _ _ h => congrArg Prod.snd h) ?_).bind ?_
    · rintro _ after ⟨fault, rfl, h⟩ _ _
      exact ⟨(congrArg Prod.snd h).symm, .inr ⟨fault, rfl⟩⟩
    rintro _ _ rfl
    cases rendered with
    | error fault => exact hrefuse fault
    | ok text => exact hwrite text _

/-- Settings that have been saved are loaded again, if they are valid. They cannot be written when the poll
interval takes more than 63 bits or a path is no text, and then a file keeps its contents. -/
theorem load_saved (host : Host σ) (environment : Environment) (config : Config) (path : FilePath)
    (machine : σ) (hkeeps : host.Keeps path (withFolder host path machine))
    (hfolders : ∀ folder bytes, host.read path machine = .ok bytes →
      host.read path (host.createFolders folder machine).2 = .ok bytes) :
    (∀ after, config.save host path machine = (.ok (), after) →
      load host (standard environment) path after = config.validate.map fun _ => config) ∧
    ((∃ fault, config.render = .error fault) ↔
      Text.wordCount ≤ 2 * config.corpus.pollInterval ∨ ∃ used ∈ config.paths, used.text? = none) ∧
    ∀ fault, config.render = .error fault →
      (∃ error, (config.save host path machine).1 = .error error ∧ IsRefusal fault error) ∧
      ∀ bytes, host.read path machine = .ok bytes →
        host.read path (config.save host path machine).2 = .ok bytes := by
  obtain ⟨hsaved, hfailed⟩ := Act.ends_iff.mp (@save_ends config σ host path machine)
  refine ⟨?_, render_isError, ?_⟩
  · intro after hsave
    obtain ⟨text, hrender, hwrite⟩ := hsaved () after hsave
    obtain ⟨hread, hthere⟩ := hkeeps _ after hwrite
    have htext := textOf_eq_ok.mpr hread
    rw [load, isThere, if_pos hthere, ofContents, htext]
    simp only [ofText?_render environment hrender]
  · intro fault hrender
    rcases hsave : config.save host path machine with ⟨error | _, after⟩
    · obtain ⟨rfl, hrefusal⟩ := hfailed error after hsave fault hrender
      refine ⟨⟨error, rfl, hrefusal⟩, fun bytes hread => ?_⟩
      rw [withFolder]
      cases FilePath.parent? path with
      | none => exact hread
      | some parent => exact hfolders parent bytes hread
    · obtain ⟨text, htext, -⟩ := hsaved () after hsave
      cases hrender.symm.trans htext

end

-- ---------------------------------------------------------------------------
-- A file and a device
-- ---------------------------------------------------------------------------

namespace Sample

def environment : Environment := ⟨[], "/home/ada"⟩

def machine : Machine := .new ["home", "ada"] []

def settings : Config := { standard environment with
  git := ⟨"git", "/bin/sh", "upstream"⟩
  logging := ⟨true, false⟩ }

def unwritable : Config := { settings with corpus := { settings.corpus with listFile := some ⟨[0xFF]⟩ } }

def saved : Machine := (settings.save Machine.host "conf/samplr.toml" machine).2

theorem saves : settings.save Machine.host "conf/samplr.toml" machine = (.ok (), saved) := by
  have hok : (settings.save Machine.host "conf/samplr.toml" machine).1 = .ok () := by decide +kernel
  obtain ⟨after, hafter⟩ := Act.exists_after hok
  rw [saved, hafter]

theorem keeps {machine : Machine} (hfree : ((machine.files.find machine.folder true
    "conf/samplr.toml").toOption.any fun found => !found.node.any (· matches .device _)) = true) :
    Machine.host.Keeps "conf/samplr.toml" machine := by
  apply Machine.keeps
  intro text found device htext hfound hnode
  rw [SystemText.text?_ofText, Option.some.injEq] at htext
  subst htext
  rw [hfound] at hfree
  simp [Except.toOption, hnode] at hfree

end Sample

theorem load_saved_file :
    Sample.settings.save Machine.host "conf/samplr.toml" Sample.machine = (.ok (), Sample.saved) ∧
      load Machine.host (standard Sample.environment) "conf/samplr.toml" Sample.saved =
        .ok Sample.settings ∧
      (∃ error, (Sample.unwritable.save Machine.host "conf/samplr.toml" Sample.saved).1 = .error error ∧
        IsRefusal .invalidPath error) ∧
      ∀ bytes, Machine.host.read "conf/samplr.toml" Sample.saved = .ok bytes →
        Machine.host.read "conf/samplr.toml"
          (Sample.unwritable.save Machine.host "conf/samplr.toml" Sample.saved).2 = .ok bytes := by
  have hload := (load_saved Machine.host Sample.environment Sample.settings "conf/samplr.toml"
    Sample.machine (Sample.keeps (by decide +kernel)) (fun _ _ => Machine.createFolders_reads)).1 _
    Sample.saves
  have hrefused := (load_saved Machine.host Sample.environment Sample.unwritable "conf/samplr.toml"
    Sample.saved (Sample.keeps (by decide +kernel)) (fun _ _ => Machine.createFolders_reads)).2.2
    .invalidPath (by decide +kernel)
  exact ⟨Sample.saves, hload.trans (by decide +kernel), hrefused⟩

/-- A device takes the settings and holds none of them. -/
theorem not_load_saved_device : ¬∀ (config : Config) (path : FilePath) (machine after : Machine),
    config.save Machine.host path machine = (.ok (), after) →
      load Machine.host (standard Sample.environment) path after =
        config.validate.map fun _ => config := by
  intro h
  have hsave : (Sample.settings.save Machine.host "/dev/null" Sample.machine).1 = .ok () := by
    decide +kernel
  have hload := h Sample.settings "/dev/null" Sample.machine _ (Prod.ext hsave rfl)
  revert hload
  decide +kernel

end Config

end SnippetTrail
