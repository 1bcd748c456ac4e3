import Mathlib.Data.List.Forall2
import Mathlib.Data.List.Induction
import SnippetTrail.Proofs.Checkout
import SnippetTrail.Proofs.Matching
import SnippetTrail.Proofs.Utf8Text
import SnippetTrail.Tracked.List

/-!
# Reloading the list

A list follows its file. A call that finds no list of entries fails and changes nothing; any other takes
over the entries that name a repository, in their order. So a list holds what the last of the calls
that succeeded has read, whatever the file went through between them (`RepositoryList.update_follows`).
-/

namespace SnippetTrail

-- ---------------------------------------------------------------------------
-- Entries
-- ---------------------------------------------------------------------------

namespace ListEntry

/-- The text of the entry has one slash, and something on both sides of it. -/
def NamesOne (entry : ListEntry) : Prop :=
  entry.repository.toList.count '/' = 1 ∧ entry.repository.toList.head? ≠ some '/' ∧
    entry.repository.toList.getLast? ≠ some '/'

instance : DecidablePred NamesOne := fun _ => inferInstanceAs (Decidable (_ ∧ _))

/-- The repository shows as the text of the entry, and has its branch and its flags. -/
structure Keeps (entry : ListEntry) (tracked : TrackedRepository) : Prop where
  display : tracked.display = entry.repository
  branch : tracked.branch = entry.branch
  tracksIssues : tracked.tracksIssues = entry.tracksIssues
  tracksSnippets : tracked.tracksSnippets = entry.tracksSnippets

variable {entry : ListEntry} {owner name : List Char}

theorem namesOne_iff (h : entry.repository.toList = owner ++ '/' :: name) (ho : '/' ∉ owner) :
    entry.NamesOne ↔ owner ≠ [] ∧ name ≠ [] ∧ '/' ∉ name := by
  have hcount : entry.repository.toList.count '/' = name.count '/' + 1 := by
    rw [h, List.count_append, List.count_cons_self, List.count_eq_zero_of_not_mem ho, Nat.zero_add]
  have hhead : entry.repository.toList.head? ≠ some '/' ↔ owner ≠ [] := by
    rw [h]
    cases owner with
    | nil => simp
    | cons c owner =>
      obtain ⟨hc, -⟩ := not_or.mp (mt List.mem_cons.mpr ho)
      simpa using Ne.symm hc
  rw [NamesOne, hcount, hhead, Nat.succ_inj, List.count_eq_zero]
  constructor
  · rintro ⟨hname, howner, hlast⟩
    refine ⟨howner, ?_, hname⟩
    rintro rfl
    simp [h] at hlast
  · rintro ⟨howner, hne, hname⟩
    refine ⟨hname, howner, fun hlast => hname ?_⟩
    rw [h, List.getLast?_append_of_ne_nil _ (by simp), List.getLast?_cons_of_ne_nil hne] at hlast
    exact List.mem_of_getLast? hlast

theorem NamesOne.exists_split (h : entry.NamesOne) :
    ∃ owner name, entry.repository.toList = owner ++ '/' :: name ∧ '/' ∉ owner := by
  have hm : '/' ∈ entry.repository.toList := by
    rw [← List.count_pos_iff, h.1]
    exact Nat.one_pos
  obtain ⟨owner, name, htext, ho⟩ := List.eq_append_cons_of_mem hm
  exact ⟨owner, name, htext, ho⟩

theorem tracked?_of_split (h : entry.repository.toList = owner ++ '/' :: name) (ho : '/' ∉ owner) :
    entry.tracked? = if entry.NamesOne then
      some ⟨String.ofList owner, String.ofList name, entry.tracksIssues, entry.tracksSnippets,
        entry.branch⟩ else none := by
  have hcheck : (owner.isEmpty || name.isEmpty || name.contains '/') = true ↔ ¬entry.NamesOne := by
    rw [namesOne_iff h ho]
    simp only [Bool.or_eq_true, List.isEmpty_iff, List.contains_iff_mem]
    tauto
  simp only [tracked?, h, Text.splitOnce?_append ho, Option.bind_eq_bind, Option.bind_some]
  split
  · rename_i hbad
    rw [if_neg (hcheck.mp hbad)]
  · rename_i hgood
    rw [if_pos (not_not.mp (mt hcheck.mpr hgood))]
    rfl

theorem tracked?_eq_none (h : ¬entry.NamesOne) : entry.tracked? = none := by
  cases hsplit : Text.splitOnce? '/' entry.repository.toList with
  | none => simp [tracked?, hsplit]
  | some sides =>
    obtain ⟨htext, ho⟩ := Text.of_splitOnce? hsplit
    rw [tracked?_of_split htext ho, if_neg h]

theorem NamesOne.exists_tracked (h : entry.NamesOne) :
    ∃ tracked, entry.tracked? = some tracked ∧ entry.Keeps tracked := by
  obtain ⟨owner, name, htext, ho⟩ := h.exists_split
  refine ⟨_, (tracked?_of_split htext ho).trans (if_pos h), ?_, rfl, rfl, rfl⟩
  refine String.toList_injective ?_
  simp [TrackedRepository.display, htext]

theorem forall₂_filterMap (entries : List ListEntry) :
    List.Forall₂ Keeps (entries.filter (·.NamesOne)) (entries.filterMap tracked?) := by
  induction entries with
  | nil => exact .nil
  | cons entry entries ih =>
    by_cases h : entry.NamesOne
    · obtain ⟨tracked, htracked, hkeeps⟩ := h.exists_tracked
      rw [List.filter_cons_of_pos (by simpa using h), List.filterMap_cons_some htracked]
      exact .cons hkeeps ih
    · rwa [List.filter_cons_of_neg (by simpa using h), List.filterMap_cons_none (tracked?_eq_none h)]

end ListEntry

-- ---------------------------------------------------------------------------
-- Calls
-- ---------------------------------------------------------------------------

namespace RepositoryList

def Lists (contents : Except IoFault (List UInt8)) (entries : List ListEntry) : Prop :=
  ∃ text, contents = .ok (Text.Utf8.encode text) ∧
    ListEntry.ofFile? (String.ofList text) = some entries

def IsList (contents : Except IoFault (List UInt8)) : Prop := ∃ entries, Lists contents entries

/-- The contents are a list, and these are the repositories that its entries name. -/
def Parsed (contents : Except IoFault (List UInt8)) (repositories : List TrackedRepository) : Prop :=
  ∃ entries, Lists contents entries ∧
    List.Forall₂ ListEntry.Keeps (entries.filter (·.NamesOne)) repositories

theorem parse_of_lists {contents : Except IoFault (List UInt8)} {entries : List ListEntry}
    (h : Lists contents entries) (path : FilePath) :
    parse path contents = .ok (entries.filterMap ListEntry.tracked?) := by
  obtain ⟨text, rfl, hentries⟩ := h
  have htext : Text.Utf8.decode? (Text.Utf8.encode text) = some text :=
    Text.Utf8.decode?_eq_some.mpr rfl
  simp [parse, htext, readRepositories?, hentries]

theorem parse_of_not_isList {contents : Except IoFault (List UInt8)} (h : ¬IsList contents)
    (path : FilePath) : ∃ error, parse path contents = .error error := by
  cases contents with
  | error fault => exact ⟨_, rfl⟩
  | ok bytes =>
    cases htext : Text.Utf8.decode? bytes with
    | none => exact ⟨.repoListFailed path.display IoFault.invalidText.message, by simp [parse, htext]⟩
    | some text =>
      cases hentries : ListEntry.ofFile? (String.ofList text) with
      | none =>
        exact ⟨.repoListFailed path.display "not a list of repositories",
          by simp [parse, htext, readRepositories?, hentries]⟩
      | some entries =>
        obtain rfl := Text.Utf8.decode?_eq_some.mp htext
        exact absurd ⟨entries, text, rfl, hentries⟩ h

instance : DecidablePred IsList := fun contents =>
  decidable_of_iff ((parse "" contents).isOk = true) <| by
    constructor
    · intro hok
      by_contra h
      obtain ⟨error, herror⟩ := parse_of_not_isList h ""
      simp [herror, Except.isOk, Except.toBool] at hok
    · rintro ⟨entries, h⟩
      rw [parse_of_lists h]
      rfl

section
variable {σ : Type} {host : Host σ} {path : FilePath} {list : RepositoryList} {machine : σ}

theorem update_of_isList (hpath : list.path = path) (h : IsList (host.read path machine)) :
    ∃ fresh, Parsed (host.read path machine) fresh ∧
      list.update host machine = (.ok (fresh != list.repositories), ⟨path, fresh⟩) := by
  subst hpath
  obtain ⟨entries, hentries⟩ := h
  refine ⟨_, ⟨entries, hentries, ListEntry.forall₂_filterMap entries⟩, ?_⟩
  simp only [update, accept, parse_of_lists hentries]

theorem update_of_not_isList (hpath : list.path = path) (h : ¬IsList (host.read path machine)) :
    ∃ error, list.update host machine = (.error error, list) := by
  subst hpath
  obtain ⟨error, herror⟩ := parse_of_not_isList h list.path
  exact ⟨error, by simp only [update, accept, herror]⟩

end

-- ---------------------------------------------------------------------------
-- Runs
-- ---------------------------------------------------------------------------

def reloaded (host : Host σ) (list : RepositoryList) (machines : List σ) : RepositoryList :=
  machines.foldl (fun list machine => (list.update host machine).2) list

/-- No call found a list, and there are no repositories; or these are the ones that the last call to
find a list has read. -/
inductive LastRead (host : Host σ) (path : FilePath) : List σ → List TrackedRepository → Prop
  | never {machines : List σ} : (∀ machine ∈ machines, ¬IsList (host.read path machine)) →
      LastRead host path machines []
  | read {machines later : List σ} {machine : σ} {repositories : List TrackedRepository} :
      Parsed (host.read path machine) repositories →
      (∀ machine ∈ later, ¬IsList (host.read path machine)) →
      LastRead host path (machines ++ machine :: later) repositories

section
variable {σ : Type} {host : Host σ} {path : FilePath} {machines : List σ} {machine : σ}

theorem LastRead.snoc {repositories : List TrackedRepository}
    (h : LastRead host path machines repositories) (hm : ¬IsList (host.read path machine)) :
    LastRead host path (machines ++ [machine]) repositories := by
  have hlater {others : List σ} (ho : ∀ other ∈ others, ¬IsList (host.read path other)) :
      ∀ other ∈ others ++ [machine], ¬IsList (host.read path other) :=
    List.forall_mem_append.mpr ⟨ho, List.forall_mem_singleton.mpr hm⟩
  cases h with
  | never hnever => exact .never (hlater hnever)
  | read hparsed hnone =>
    rw [List.append_assoc, List.cons_append]
    exact .read hparsed (hlater hnone)

theorem update_keeps {list : RepositoryList} (hpath : list.path = path)
    (h : LastRead host path machines list.repositories) :
    (list.update host machine).2.path = path ∧
      LastRead host path (machines ++ [machine]) (list.update host machine).2.repositories := by
  by_cases hm : IsList (host.read path machine)
  · obtain ⟨fresh, hfresh, hupdate⟩ := update_of_isList hpath hm
    rw [hupdate]
    exact ⟨rfl, .read hfresh (by simp)⟩
  · obtain ⟨error, hupdate⟩ := update_of_not_isList hpath hm
    rw [hupdate]
    exact ⟨hpath, h.snoc hm⟩

theorem reloaded_keeps : (reloaded host (new path) machines).path = path ∧
    LastRead host path machines (reloaded host (new path) machines).repositories := by
  induction machines using List.reverseRecOn with
  | nil => exact ⟨rfl, .never (by simp)⟩
  | append_singleton machines machine ih =>
    rw [reloaded, List.foldl_append]
    exact update_keeps ih.1 ih.2

end

/-- However the file changes between the calls, a call fails just when it finds no list of entries, and
then it leaves the repositories as they are. Any other call takes over what its entries name, and tells
whether that is anything new. So there are no repositories before the first call that succeeds, and then
those that the last of them has read. -/
theorem update_follows {σ : Type} (host : Host σ) (path : FilePath) (earlier : List σ) (machine : σ) :
    let list := reloaded host (new path) earlier
    LastRead host path earlier list.repositories ∧
      ((∃ error, (list.update host machine).1 = .error error) ↔ ¬IsList (host.read path machine)) ∧
      (¬IsList (host.read path machine) → (list.update host machine).2 = list) ∧
      (IsList (host.read path machine) → ∃ changed fresh, Parsed (host.read path machine) fresh ∧
        list.update host machine = (.ok changed, ⟨path, fresh⟩) ∧
        (changed = true ↔ fresh ≠ list.repositories)) := by
  intro list
  obtain ⟨hpath, hlast⟩ := @reloaded_keeps _ host path earlier
  refine ⟨hlast, ?_, fun hm => ?_, fun hm => ?_⟩
  · by_cases hm : IsList (host.read path machine)
    · obtain ⟨fresh, -, hupdate⟩ := update_of_isList hpath hm
      simp [list, hupdate, hm]
    · obtain ⟨error, hupdate⟩ := update_of_not_isList hpath hm
      simp [list, hupdate, hm]
  · obtain ⟨error, hupdate⟩ := update_of_not_isList hpath hm
    rw [hupdate]
  · obtain ⟨fresh, hfresh, hupdate⟩ := update_of_isList hpath hm
    exact ⟨_, fresh, hfresh, hupdate, bne_iff_ne⟩

end RepositoryList

namespace Sample

def posted (text : String) : Desk := ⟨[("list.json", Text.Utf8.encode text.toList)], []⟩

def postings : List Desk := [⟨[], []⟩,
  posted "\x7b\"repos\": [\x7b\"repo\": \"foo/bar\"\x7d, \x7b\"repo\": \"a/b/c\"\x7d]\x7d",
  ⟨[("list.json", [0xFF])], []⟩, posted "not json"]

def emptied : Desk := posted "\x7b\"repos\": []\x7d"

theorem reloaded_postings : RepositoryList.reloaded Desk.host (.new "list.json") postings =
    ⟨"list.json", [.new "foo" "bar"]⟩ := by decide +kernel

end Sample

namespace RepositoryList

theorem update_follows_emptied :
    LastRead Sample.Desk.host "list.json" Sample.postings [.new "foo" "bar"] ∧
      ∃ fresh, Parsed (Sample.Desk.host.read "list.json" Sample.emptied) fresh ∧
        update Sample.Desk.host ⟨"list.json", [.new "foo" "bar"]⟩ Sample.emptied =
          (.ok true, ⟨"list.json", fresh⟩) := by
  have hlist : IsList (Sample.Desk.host.read "list.json" Sample.emptied) := by decide +kernel
  obtain ⟨hlast, -, -, hreads⟩ :=
    update_follows Sample.Desk.host "list.json" Sample.postings Sample.emptied
  obtain ⟨changed, fresh, hparsed, hupdate, -⟩ := hreads hlist
  rw [Sample.reloaded_postings] at hlast hupdate
  have hchanged : (update Sample.Desk.host ⟨"list.json", [.new "foo" "bar"]⟩ Sample.emptied).1 =
      .ok true := by decide +kernel
  refine ⟨hlast, fresh, hparsed, ?_⟩
  rw [← hchanged, hupdate]

end RepositoryList

end SnippetTrail
