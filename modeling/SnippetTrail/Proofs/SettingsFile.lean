import SnippetTrail.Config.File
import SnippetTrail.Proofs.DistinctKeys

/-!
# What a settings file says

A record in a file says something of those of its fields that have a value there. Reading it gives
these fields their values and leaves all others as they were (`Governs.readRecord`). So the settings
of a file are what the file says, laid over the standard ones (`Config.eq_onto_of_ofText?`).
-/

namespace SnippetTrail

-- ---------------------------------------------------------------------------
-- Records
-- ---------------------------------------------------------------------------

namespace Toml

variable {α β : Type} {fields : List (Field α)} {initial record : α} {name : String}

/-- The entries of a value that stands for a record with fields of these names: those of a table, or
the items of an array in the order of the names. -/
def Value.recordEntries? (names : List String) : Value → Option (List (String × Value))
  | .table child | .inline child => some child.entries
  | .array items => some (names.zip items)
  | .tables earlier last => some (names.zip ((earlier ++ [last]).map Value.table))
  | .dateTime => some []
  | _ => none

def Value.member? (names : List String) (name : String) (value : Value) : Option Value :=
  (value.recordEntries? names).bind fun entries => entries.lookup name

namespace Field

theorem find?_of_mem {field : Field α} (hn : (fields.map (·.name)).Nodup) (hm : field ∈ fields) :
    fields.find? (·.name == field.name) = some field := by
  induction fields with
  | nil => cases hm
  | cons first rest ih =>
    obtain ⟨hfresh, hrest⟩ := List.nodup_cons.mp hn
    rcases List.mem_cons.mp hm with rfl | hm
    · simp
    · have hne : first.name ≠ field.name := by
        intro he
        exact hfresh (List.mem_map.mpr ⟨field, hm, he.symm⟩)
      rw [List.find?_cons_of_neg (by simpa using hne)]
      exact ih hrest hm

def setOne (fields : List (Field α)) (record : α) (name : String) (value : Value) : Option α :=
  match fields.find? (·.name == name) with
  | none => some record
  | some field => field.set record value

theorem setAll_cons (fields : List (Field α)) (initial : α) (name : String) (value : Value)
    (rest : List (String × Value)) :
    setAll fields initial ((name, value) :: rest) =
      (setOne fields initial name value).bind (setAll fields · rest) := rfl

theorem foldlM_zip (hn : (fields.map (·.name)).Nodup) (items : List Value) (initial : α) :
    (fields.zip items).foldlM (fun record (field, value) => field.set record value) initial =
      setAll fields initial ((fields.map (·.name)).zip items) := by
  suffices h : ∀ part ⊆ fields,
      (part.zip items).foldlM (fun record (field, value) => field.set record value) initial =
        setAll fields initial ((part.map (·.name)).zip items) from h fields (List.Subset.refl _)
  intro part hpart
  induction part generalizing items initial with
  | nil => rfl
  | cons field rest ih =>
    obtain ⟨hfield, hrest⟩ := List.cons_subset.mp hpart
    cases items with
    | nil => rfl
    | cons item items =>
      rw [List.map_cons, List.zip_cons_cons, List.zip_cons_cons, setAll_cons, List.foldlM_cons,
        setOne, find?_of_mem hn hfield]
      exact congrArg _ (funext fun next => ih items next hrest)

theorem readRecord_eq (hn : (fields.map (·.name)).Nodup) (initial : α) (value : Value) :
    readRecord fields initial value =
      (value.recordEntries? (fields.map (·.name))).bind (setAll fields initial) := by
  cases value with
  | array items => exact foldlM_zip hn items initial
  | tables earlier last => exact foldlM_zip hn _ initial
  | _ => rfl

theorem nodup_recordEntries {value : Value} {entries : List (String × Value)}
    (hn : (fields.map (·.name)).Nodup) (hd : value.Distinct)
    (h : value.recordEntries? (fields.map (·.name)) = some entries) :
    (entries.map (·.1)).Nodup := by
  have hzip (items : List Value) : (((fields.map (·.name)).zip items).map (·.1)).Nodup := by
    let names := fields.map (·.name)
    have hkeys : (names.zip items).map (·.1) = names.take (min names.length items.length) := by
      rw [List.zip_eq_zip_take_min]
      exact List.map_fst_zip (by simp)
    rw [hkeys]
    exact hn.sublist (List.take_sublist _ _)
  cases value with
  | table child | inline child =>
    cases h
    exact Table.Distinct.nodup (hd child rfl)
  | array items =>
    cases h
    exact hzip _
  | tables earlier last =>
    cases h
    exact hzip _
  | dateTime =>
    cases h
    exact List.nodup_nil
  | _ => cases h

/-- The field of this name, and no other, sets a part of the record, from the part before and the
value. -/
structure Governs (fields : List (Field α)) (name : String) (get : α → β)
    (read : β → Value → Option β) : Prop where
  present : name ∈ fields.map (·.name)
  own : ∀ field ∈ fields, field.name = name → ∀ before value after,
    field.set before value = some after → read (get before) value = some (get after)
  others : ∀ field ∈ fields, field.name ≠ name → ∀ before value after,
    field.set before value = some after → get after = get before

theorem Governs.setOne_own {get : α → β} {read : β → Value → Option β} {value : Value}
    (hg : Governs fields name get read) (h : setOne fields initial name value = some record) :
    read (get initial) value = some (get record) := by
  rw [setOne] at h
  obtain ⟨field, hfield, hname⟩ := List.mem_map.mp hg.present
  cases hfind : fields.find? (·.name == name) with
  | none =>
    have hnone := List.find?_eq_none.mp hfind field hfield
    simp [hname] at hnone
  | some owner =>
    rw [hfind] at h
    have howner : owner.name = name := by simpa using List.find?_some hfind
    exact hg.own owner (List.mem_of_find?_eq_some hfind) howner _ _ _ h

theorem Governs.setOne_other {get : α → β} {read : β → Value → Option β} {key : String}
    {value : Value} (hg : Governs fields name get read) (hk : key ≠ name)
    (h : setOne fields initial key value = some record) : get record = get initial := by
  rw [setOne] at h
  cases hfind : fields.find? (·.name == key) with
  | none =>
    rw [hfind] at h
    cases h
    rfl
  | some other =>
    rw [hfind] at h
    have hother : other.name = key := by simpa using List.find?_some hfind
    exact hg.others other (List.mem_of_find?_eq_some hfind) (hother ▸ hk) _ _ _ h

theorem Governs.setAll {get : α → β} {read : β → Value → Option β}
    {entries : List (String × Value)} (hg : Governs fields name get read)
    (hn : (entries.map (·.1)).Nodup) (h : Field.setAll fields initial entries = some record) :
    (entries.lookup name).elim (some (get initial)) (read (get initial)) = some (get record) := by
  induction entries generalizing initial with
  | nil =>
    cases h
    rfl
  | cons entry rest ih =>
    obtain ⟨key, value⟩ := entry
    obtain ⟨hfresh, hrest⟩ := List.nodup_cons.mp hn
    rw [setAll_cons, Option.bind_eq_some_iff] at h
    obtain ⟨next, hset, h⟩ := h
    have hlater := ih hrest h
    by_cases hk : name = key
    · subst hk
      have habsent : rest.lookup name = none := by
        rw [List.lookup_eq_none_iff]
        intro other ho
        have hne : name ≠ other.1 := fun he => hfresh (List.mem_map.mpr ⟨other, ho, he.symm⟩)
        simpa using hne
      rw [habsent] at hlater
      rw [List.lookup_cons_self, Option.elim_some, hg.setOne_own hset]
      exact hlater
    · rw [hg.setOne_other (Ne.symm hk) hset] at hlater
      rw [List.lookup_cons, beq_eq_false_iff_ne.mpr hk]
      exact hlater

theorem Governs.readRecord {get : α → β} {read : Value → Option β} {value : Value}
    (hg : Governs fields name get fun _ => read) (hn : (fields.map (·.name)).Nodup)
    (hd : value.Distinct) (h : Field.readRecord fields initial value = some record) :
    get record = ((value.member? (fields.map (·.name)) name).bind read).getD (get initial) := by
  rw [readRecord_eq hn, Option.bind_eq_some_iff] at h
  obtain ⟨entries, he, h⟩ := h
  have hset := hg.setAll (nodup_recordEntries hn hd he) h
  rw [Value.member?, he, Option.bind_some]
  cases hlookup : entries.lookup name with
  | none =>
    rw [hlookup] at hset
    exact (Option.some.inj hset).symm
  | some value =>
    rw [hlookup] at hset
    rw [Option.elim_some] at hset
    rw [Option.bind_some, hset, Option.getD_some]

theorem Governs.setting {inner : List (Field β)} {table : Table} {part : α → β} {get : β → γ}
    {read : Value → Option γ} {key : String}
    (hpart : Governs fields key part (Field.readRecord inner))
    (hg : Governs inner name get fun _ => read) (hn : (inner.map (·.name)).Nodup)
    (hd : table.Distinct) (h : Field.setAll fields initial table.entries = some record) :
    get (part record) =
      (((table.find? key).bind (Value.member? (inner.map (·.name)) name)).bind read).getD
        (get (part initial)) := by
  have hset := hpart.setAll hd.nodup h
  cases hfind : table.find? key with
  | none =>
    rw [show table.entries.lookup key = none from hfind] at hset
    rw [Option.some.inj hset]
    rfl
  | some value =>
    rw [show table.entries.lookup key = some value from hfind] at hset
    exact hg.readRecord hn (hd.find? hfind) hset

end Field

end Toml

-- ---------------------------------------------------------------------------
-- Settings
-- ---------------------------------------------------------------------------

namespace Config

open Toml

structure Partial where
  binary : Option String
  shell : Option String
  remote : Option String
  pollInterval : Option Nat
  cloneRoot : Option FilePath
  listFile : Option FilePath
  branch : Option String
  verbose : Option Bool
  json : Option Bool
  deriving DecidableEq

namespace Partial

def nothing : Partial := ⟨none, none, none, none, none, none, none, none, none⟩

def ofTable (table : Toml.Table) : Partial :=
  let git name := (table.find? "git").bind (Value.member? (gitFields.map (·.name)) name)
  let corpus name := (table.find? "corpus").bind (Value.member? (corpusFields.map (·.name)) name)
  let logging name := (table.find? "logging").bind (Value.member? (loggingFields.map (·.name)) name)
  { binary := (git "binary").bind Value.string?
    shell := (git "shell").bind Value.string?
    remote := (git "remote_name").bind Value.string?
    pollInterval := (corpus "poll_interval_secs").bind Value.natural?
    cloneRoot := (corpus "clone_root").bind path?
    listFile := (corpus "repos_file").bind path?
    branch := (corpus "default_branch").bind Value.string?
    verbose := (logging "verbose").bind Value.boolean?
    json := (logging "json").bind Value.boolean? }

def onto (settings : Partial) (standard : Config) : Config where
  git := {
    binary := settings.binary.getD standard.git.binary
    shell := settings.shell.getD standard.git.shell
    remote := settings.remote.getD standard.git.remote }
  corpus := {
    pollInterval := settings.pollInterval.getD standard.corpus.pollInterval
    cloneRoot := settings.cloneRoot.getD standard.corpus.cloneRoot
    listFile := settings.listFile.or standard.corpus.listFile
    branch := settings.branch.or standard.corpus.branch }
  logging := {
    verbose := settings.verbose.getD standard.logging.verbose
    json := settings.json.getD standard.logging.json }

end Partial

theorem governs_git : Field.Governs fields "git" Config.git (Field.readRecord gitFields) :=
  ⟨by decide, by simp [fields], by simp [fields]⟩

theorem governs_corpus :
    Field.Governs fields "corpus" Config.corpus (Field.readRecord corpusFields) :=
  ⟨by decide, by simp [fields], by simp [fields]⟩

theorem governs_logging :
    Field.Governs fields "logging" Config.logging (Field.readRecord loggingFields) :=
  ⟨by decide, by simp [fields], by simp [fields]⟩

theorem getD_bind_map_some (said : Option Value) (read : Value → Option α) (initial : Option α) :
    (said.bind fun value => (read value).map some).getD initial = (said.bind read).or initial := by
  cases said with
  | none => rfl
  | some value =>
    show ((read value).map some).getD initial = (read value).or initial
    cases read value <;> rfl

section
variable {standard config : Config} {table : Toml.Table}

theorem git_of_setAll (hd : table.Distinct)
    (h : Field.setAll fields standard table.entries = some config) :
    config.git = ((Partial.ofTable table).onto standard).git := by
  have hsetting (name : String) (get : GitSettings → String)
      (hg : Field.Governs gitFields name get fun _ => Value.string?) :=
    governs_git.setting hg (by decide) hd h
  have hbinary := hsetting "binary" (·.binary) ⟨by decide, by simp [gitFields], by simp [gitFields]⟩
  have hshell := hsetting "shell" (·.shell) ⟨by decide, by simp [gitFields], by simp [gitFields]⟩
  have hremote := hsetting "remote_name" (·.remote)
    ⟨by decide, by simp [gitFields], by simp [gitFields]⟩
  calc config.git = ⟨config.git.binary, config.git.shell, config.git.remote⟩ := rfl
    _ = ((Partial.ofTable table).onto standard).git := by
      rw [hbinary, hshell, hremote]
      rfl

theorem corpus_of_setAll (hd : table.Distinct)
    (h : Field.setAll fields standard table.entries = some config) :
    config.corpus = ((Partial.ofTable table).onto standard).corpus := by
  have hsetting {α : Type} (name : String) (get : CorpusSettings → α) (read : Value → Option α)
      (hg : Field.Governs corpusFields name get fun _ => read) :=
    governs_corpus.setting hg (by decide) hd h
  have hinterval := hsetting "poll_interval_secs" (·.pollInterval) Value.natural?
    ⟨by decide, by simp [corpusFields], by simp [corpusFields]⟩
  have hroot := hsetting "clone_root" (·.cloneRoot) path?
    ⟨by decide, by simp [corpusFields], by simp [corpusFields]⟩
  have hlist := hsetting "repos_file" (·.listFile) (fun value => (path? value).map some)
    ⟨by decide, by simp [corpusFields], by simp [corpusFields]⟩
  have hbranch := hsetting "default_branch" (·.branch) (fun value => value.string?.map some)
    ⟨by decide, by simp [corpusFields], by simp [corpusFields]⟩
  calc config.corpus = ⟨config.corpus.pollInterval, config.corpus.cloneRoot,
        config.corpus.listFile, config.corpus.branch⟩ := rfl
    _ = ((Partial.ofTable table).onto standard).corpus := by
      rw [hinterval, hroot, hlist, hbranch, getD_bind_map_some, getD_bind_map_some]
      rfl

theorem logging_of_setAll (hd : table.Distinct)
    (h : Field.setAll fields standard table.entries = some config) :
    config.logging = ((Partial.ofTable table).onto standard).logging := by
  have hsetting (name : String) (get : LoggingSettings → Bool)
      (hg : Field.Governs loggingFields name get fun _ => Value.boolean?) :=
    governs_logging.setting hg (by decide) hd h
  have hverbose := hsetting "verbose" (·.verbose)
    ⟨by decide, by simp [loggingFields, -Bool.exists_bool, -Bool.forall_bool],
      by simp [loggingFields, -Bool.exists_bool, -Bool.forall_bool]⟩
  have hjson := hsetting "json" (·.json)
    ⟨by decide, by simp [loggingFields, -Bool.exists_bool, -Bool.forall_bool],
      by simp [loggingFields, -Bool.exists_bool, -Bool.forall_bool]⟩
  calc config.logging = ⟨config.logging.verbose, config.logging.json⟩ := rfl
    _ = ((Partial.ofTable table).onto standard).logging := by
      rw [hverbose, hjson]
      rfl

/-- The settings of a file are what its table says, over the standard ones. -/
theorem eq_onto_of_setAll (hd : table.Distinct)
    (h : Field.setAll fields standard table.entries = some config) :
    config = (Partial.ofTable table).onto standard := by
  calc config = ⟨config.git, config.corpus, config.logging⟩ := rfl
    _ = (Partial.ofTable table).onto standard := by
      rw [git_of_setAll hd h, corpus_of_setAll hd h, logging_of_setAll hd h]

theorem eq_onto_of_ofText? {text : String} (h : ofText? standard text = some config) :
    ∃ table, Toml.ofText? text = some table ∧ config = (Partial.ofTable table).onto standard := by
  obtain ⟨table, htable, hset⟩ := Option.bind_eq_some_iff.mp h
  exact ⟨table, htable, eq_onto_of_setAll (distinct_of_ofText? htable) hset⟩

end

end Config

end SnippetTrail
