import Mathlib.Data.List.Nodup
import SnippetTrail.Proofs.Provenance
import SnippetTrail.Proofs.Tags
import SnippetTrail.Tracked.List
import SnippetTrail.Tracked.Url

/-!
# Names identify

All names of a repository begin with its owner and its own name. Neither has a slash, however the
repository is tracked (`TrackedRepository.Obtained.no_slash`), and neither has a tag, so that a name can
be taken apart at its slashes (`append_slash_injective`). The number of a version stands behind the last
one (`versionName_injective`).
-/

namespace SnippetTrail

-- ---------------------------------------------------------------------------
-- Texts with slashes
-- ---------------------------------------------------------------------------

section
variable {first second rest other : String}

theorem append_slash_injective (hf : '/' ∉ first.toList) (hs : '/' ∉ second.toList)
    (h : first ++ "/" ++ rest = second ++ "/" ++ other) : first = second ∧ rest = other := by
  have hsplit {first : String} (rest : String) (hf : '/' ∉ first.toList) :
      Text.splitOnce? '/' (first ++ "/" ++ rest).toList = some (first.toList, rest.toList) := by
    rw [← Text.splitOnce?_append hf]
    simp
  have he := (hsplit rest hf).symm.trans (h ▸ hsplit other hs)
  simpa only [Option.some.injEq, Prod.mk.injEq, String.toList_inj] using he

theorem slash_append_injective (hr : '/' ∉ rest.toList) (ho : '/' ∉ other.toList)
    (h : first ++ "/" ++ rest = second ++ "/" ++ other) : first = second ∧ rest = other := by
  have hsplit (first : String) {rest : String} (hr : '/' ∉ rest.toList) :
      Text.splitOnce? '/' (first ++ "/" ++ rest).toList.reverse =
        some (rest.toList.reverse, first.toList.reverse) := by
    rw [← Text.splitOnce?_append (mt List.mem_reverse.mp hr)]
    simp
  have he := (hsplit first hr).symm.trans (h ▸ hsplit second ho)
  simp only [Option.some.injEq, Prod.mk.injEq, List.reverse_inj, String.toList_inj] at he
  exact he.symm

end

theorem versionName_injective {name other : String} {i j : Nat}
    (h : name ++ "/" ++ toString i = other ++ "/" ++ toString j) : name = other ∧ i = j := by
  have hslash (i : Nat) : '/' ∉ (toString i).toList := fun hm =>
    absurd (Text.isDigit_of_mem_toString hm) (by decide)
  obtain ⟨hname, hnumber⟩ := slash_append_injective (hslash i) (hslash j) h
  exact ⟨hname, Text.toString_nat_injective hnumber⟩

-- ---------------------------------------------------------------------------
-- Tracked repositories
-- ---------------------------------------------------------------------------

namespace TrackedRepository

/-- A repository comes from the text of a list or from an address. -/
inductive Obtained : TrackedRepository → Prop
  | listed {text : String} {tracked : TrackedRepository} {repositories : List TrackedRepository} :
      readRepositories? text = some repositories → tracked ∈ repositories → Obtained tracked
  | addressed {url : String} {tracked : TrackedRepository} : ofUrl url = .ok tracked → Obtained tracked

theorem no_slash_of_tracked? {entry : ListEntry} {tracked : TrackedRepository}
    (h : entry.tracked? = some tracked) :
    '/' ∉ tracked.owner.toList ∧ '/' ∉ tracked.name.toList := by
  simp only [ListEntry.tracked?, Option.bind_eq_bind, Option.bind_eq_some_iff] at h
  obtain ⟨⟨owner, name⟩, hsplit, h⟩ := h
  split at h
  · cases h
  · rename_i hcheck
    cases h
    simp only [String.toList_ofList]
    refine ⟨(Text.of_splitOnce? hsplit).2, fun hm => hcheck ?_⟩
    simp [hm]

theorem not_slash_of_isName {text : List Char} (h : isName text = true) : '/' ∉ text := by
  intro hm
  have hchars : text.all isNameChar = true := (Bool.and_eq_true_iff.mp h).2
  exact absurd (List.all_eq_true.mp hchars _ hm) (by decide)

theorem no_slash_of_ofUrl? {url : String} {tracked : TrackedRepository}
    (h : ofUrl? url = some tracked) :
    '/' ∉ tracked.owner.toList ∧ '/' ∉ tracked.name.toList := by
  simp only [ofUrl?, Option.bind_eq_bind, Option.bind_eq_some_iff] at h
  obtain ⟨rest, -, ⟨owner, behind⟩, -, name, hname, h⟩ := h
  split at h
  · rename_i howner
    cases h
    obtain ⟨ending, -, hending⟩ := List.exists_of_findSome?_eq_some hname
    have hchecked : isName name = true := (Option.filter_eq_some_iff.mp hending).2
    simp only [new, String.toList_ofList]
    exact ⟨not_slash_of_isName howner, not_slash_of_isName hchecked⟩
  · cases h

theorem Obtained.no_slash {tracked : TrackedRepository} (h : tracked.Obtained) :
    '/' ∉ tracked.owner.toList ∧ '/' ∉ tracked.name.toList := by
  cases h with
  | listed hread hm =>
    obtain ⟨entries, -, rfl⟩ := Option.map_eq_some_iff.mp hread
    obtain ⟨entry, -, hentry⟩ := List.mem_filterMap.mp hm
    exact no_slash_of_tracked? hentry
  | addressed hurl =>
    unfold ofUrl at hurl
    split at hurl
    · rename_i found hfound
      cases hurl
      exact no_slash_of_ofUrl? hfound
    · cases hurl

end TrackedRepository

-- ---------------------------------------------------------------------------
-- Where names begin
-- ---------------------------------------------------------------------------

section
variable {owner repository tag language : String}

theorem repositoryName_append (rest : String) : repositoryName owner repository ++ "/" ++ rest =
    "owners/" ++ (owner ++ "/" ++ ("repositories/" ++ (repository ++ "/" ++ rest))) := by
  refine String.toList_injective ?_
  simp [repositoryName]

theorem commitName_eq (hash : String) : commitName owner repository hash =
    repositoryName owner repository ++ "/" ++ ("gitCommits/" ++ hash) := by
  refine String.toList_injective ?_
  simp [commitName]

theorem snippetName_eq : snippetName owner repository tag language =
    repositoryName owner repository ++ "/" ++
      ("snippets/" ++ (tag ++ "/" ++ ("languages/" ++ language))) := by
  refine String.toList_injective ?_
  simp [snippetName]

theorem IsTag.no_slash (h : IsTag tag) : '/' ∉ tag.toList :=
  fun hm => absurd (h.2 _ hm) (by decide)

theorem repositoryName_injective {other name rest behind : String} (ho : '/' ∉ owner.toList)
    (hr : '/' ∉ repository.toList) (hother : '/' ∉ other.toList) (hname : '/' ∉ name.toList)
    (h : repositoryName owner repository ++ "/" ++ rest = repositoryName other name ++ "/" ++ behind) :
    owner = other ∧ repository = name := by
  rw [repositoryName_append, repositoryName_append, String.append_right_inj] at h
  obtain ⟨howner, h⟩ := append_slash_injective ho hother h
  rw [String.append_right_inj] at h
  exact ⟨howner, (append_slash_injective hr hname h).1⟩

theorem snippetName_tag_language {other spoken : String} (ht : IsTag tag) (ho : IsTag other)
    (h : snippetName owner repository tag language = snippetName owner repository other spoken) :
    tag = other ∧ language = spoken := by
  rw [snippetName_eq, snippetName_eq, String.append_right_inj, String.append_right_inj] at h
  obtain ⟨htag, h⟩ := append_slash_injective ht.no_slash ho.no_slash h
  exact ⟨htag, (String.append_right_inj _).mp h⟩

end

-- ---------------------------------------------------------------------------
-- The names of a history
-- ---------------------------------------------------------------------------

/-- A region of the tag is found in the file, and its version has the name of its snippet. -/
def Catalog.Finds (owner repository : String) (file : File) (tag : String) (version : Version) : Prop :=
  ∃ entries, extract file.contents (fun tag => snippetName owner repository tag (languageName file)) =
    .ok entries ∧ (tag, version) ∈ entries

/-- What has a name in a repository: its commits, its snippets, their versions, and the commits that
these are from. -/
inductive HistoryName (owner repository : String) (commits : List Commit) (snippets : List Snippet) :
    String → Prop
  | commit {commit : Commit} : commit ∈ commits →
      HistoryName owner repository commits snippets (CommitRecord.ofCommit owner repository commit).name
  | snippet {snippet : Snippet} : snippet ∈ snippets →
      HistoryName owner repository commits snippets snippet.name
  | version {snippet : Snippet} {version : Version} : snippet ∈ snippets →
      version ∈ snippet.versions → HistoryName owner repository commits snippets version.name
  | versionCommit {snippet : Snippet} {version : Version} {file : VersionFile} : snippet ∈ snippets →
      version ∈ snippet.versions → file ∈ version.file →
      HistoryName owner repository commits snippets file.commit.name

section
variable {owner repository name : String} {commits : List Commit} {snippets : List Snippet}

theorem Catalog.Finds.named {file : File} {tag : String} {version : Version}
    (h : Finds owner repository file tag version) :
    IsTag tag ∧ version.name = snippetName owner repository tag (languageName file) := by
  obtain ⟨entries, he, hm⟩ := h
  obtain ⟨ht, _, -, hv⟩ := (mem_extract he).mp hm
  exact ⟨(Region.mem_distinctTags.mp ht).1, (extractTag?_some hv).1⟩

theorem exists_snippetName (h : calculateSnippets owner repository commits = .ok snippets)
    {snippet : Snippet} (hm : snippet ∈ snippets) :
    ∃ tag language, snippet.name = snippetName owner repository tag language := by
  have hwalk := Trail.versions_eq ((mem_calculateSnippets h).mp hm)
  obtain ⟨dated, hd, hj⟩ := @Trail.walk_justified owner repository snippet.name commits
  cases dated with
  | nil =>
    have hempty : snippet.versions = [] := (hd.trans hwalk).symm
    exact absurd hempty ((calculateSnippets_wellFormed h).2 snippet hm).1
  | cons first rest =>
    -- nothing is earlier that the first version could mark the end of
    rcases hj.sourced 0 first rfl with
      ⟨_, -, file, -, -, -, found, hf, hname, -⟩ | ⟨-, home, hhome, -⟩
    · obtain ⟨-, _, -, tag, -, hv⟩ := Catalog.mem_found.mp hf
      exact ⟨tag, Catalog.languageName file, hname.symm.trans (extractTag?_some hv).1⟩
    · simp at hhome

theorem HistoryName.start (h : calculateSnippets owner repository commits = .ok snippets)
    (hn : HistoryName owner repository commits snippets name) :
    ∃ rest, name = repositoryName owner repository ++ "/" ++ rest := by
  have hsnippet {snippet : Snippet} (hm : snippet ∈ snippets) :
      ∃ rest, snippet.name = repositoryName owner repository ++ "/" ++ rest := by
    obtain ⟨tag, language, hname⟩ := exists_snippetName h hm
    exact ⟨_, hname.trans snippetName_eq⟩
  cases hn with
  | commit hm => exact ⟨_, commitName_eq _⟩
  | snippet hm => exact hsnippet hm
  | version hm hv =>
    obtain ⟨rest, hrest⟩ := hsnippet hm
    obtain ⟨i, hi⟩ := List.mem_iff_getElem?.mp hv
    have hplaced := (((calculateSnippets_wellFormed h).2 _ hm).2.placed i _ hi).1
    exact ⟨rest ++ "/" ++ toString i, by rw [hplaced, hrest]; simp only [String.append_assoc]⟩
  | versionCommit hm hv hf =>
    obtain ⟨commit, -, hrecord⟩ :=
      List.mem_map.mp (commit_mem_of_calculateSnippets h hm hv hf)
    rw [← hrecord]
    exact ⟨_, commitName_eq _⟩

theorem Snippet.WellFormed.names {snippet : Snippet} (hw : snippet.WellFormed) :
    snippet.versions.map (·.name) =
      (List.range snippet.versions.length).map fun i => snippet.name ++ "/" ++ toString i := by
  refine List.ext_getElem (by simp) fun i hi _ => ?_
  have hlt : i < snippet.versions.length := by simpa using hi
  simpa using (hw.placed i _ (List.getElem?_eq_getElem hlt)).1

theorem versionNames_nodup (h : calculateSnippets owner repository commits = .ok snippets) :
    (snippets.flatMap fun snippet => snippet.versions.map (·.name)).Nodup := by
  obtain ⟨hsorted, hhistories⟩ := calculateSnippets_wellFormed h
  have hnumbered {snippet : Snippet} (hm : snippet ∈ snippets) {name : String}
      (hname : name ∈ snippet.versions.map (·.name)) :
      ∃ i : Nat, name = snippet.name ++ "/" ++ toString i := by
    rw [(hhistories snippet hm).2.names] at hname
    obtain ⟨i, -, rfl⟩ := List.mem_map.mp hname
    exact ⟨i, rfl⟩
  refine List.nodup_flatMap.mpr ⟨fun snippet hm => ?_, ?_⟩
  · rw [(hhistories snippet hm).2.names]
    exact List.nodup_range.map fun i j he => (versionName_injective he).2
  · refine (List.pairwise_map.mp hsorted).imp_of_mem fun {snippet other} hm ho hlt => ?_
    intro name hname hother
    obtain ⟨i, rfl⟩ := hnumbered hm hname
    obtain ⟨j, he⟩ := hnumbered ho hother
    exact absurd (versionName_injective he).1 (String.ne_of_lt hlt)

end

/-- Of two repositories that are tracked and differ in owner or name, no name of one history is a name of
the other. Within one history, all versions have names of their own, and regions are of one snippet only if
they have one tag and one language. -/
theorem calculateSnippets_names {tracked : TrackedRepository} (ht : tracked.Obtained)
    {commits : List Commit} {snippets : List Snippet}
    (h : calculateSnippets tracked.owner tracked.name commits = .ok snippets) :
    (∀ (other : TrackedRepository) (others : List Commit) (found : List Snippet), other.Obtained →
      (tracked.owner, tracked.name) ≠ (other.owner, other.name) →
      calculateSnippets other.owner other.name others = .ok found →
      ∀ name, HistoryName tracked.owner tracked.name commits snippets name →
        ¬HistoryName other.owner other.name others found name) ∧
    (snippets.flatMap fun snippet => snippet.versions.map (·.name)).Nodup ∧
    ∀ (file other : File) (tag tagged : String) (version found : Version),
      Catalog.Finds tracked.owner tracked.name file tag version →
      Catalog.Finds tracked.owner tracked.name other tagged found → version.name = found.name →
      tag = tagged ∧ Catalog.languageName file = Catalog.languageName other := by
  refine ⟨fun other others found ho hne hf name hn hother => ?_, versionNames_nodup h, ?_⟩
  · obtain ⟨rest, rfl⟩ := hn.start h
    obtain ⟨behind, he⟩ := hother.start hf
    obtain ⟨howner, hname⟩ := repositoryName_injective ht.no_slash.1 ht.no_slash.2
      ho.no_slash.1 ho.no_slash.2 he
    exact hne (by rw [howner, hname])
  · intro file other tag tagged version found hv hf hname
    rw [hv.named.2, hf.named.2] at hname
    exact snippetName_tag_language hv.named.1 hf.named.1 hname

namespace Sample

def listed : TrackedRepository := .new "foo" "bar"

def addressed : TrackedRepository := .new "foo" "bar.io"

theorem listed_obtained : listed.Obtained :=
  @TrackedRepository.Obtained.listed "\x7b\"repos\": [\x7b\"repo\": \"foo/bar\"\x7d]\x7d" listed [listed]
    (by decide +kernel) (by simp)

theorem addressed_obtained : addressed.Obtained :=
  @TrackedRepository.Obtained.addressed "https://github.com/foo/bar.io.git" addressed
    (by decide +kernel)

end Sample

theorem calculateSnippets_names_listed :
    Sample.listed.Obtained ∧ Sample.addressed.Obtained ∧
      ∃ snippets found, calculateSnippets "foo" "bar" Sample.rewritten = .ok snippets ∧
        calculateSnippets "foo" "bar.io" Sample.rewritten = .ok found ∧
        snippets.map (·.versions.length) = [1, 4] ∧
        (∀ name, HistoryName "foo" "bar" Sample.rewritten snippets name →
          ¬HistoryName "foo" "bar.io" Sample.rewritten found name) ∧
        (snippets.flatMap fun snippet => snippet.versions.map (·.name)).Nodup ∧
        ∀ (file other : File) (tag tagged : String) (version found : Version),
          Catalog.Finds "foo" "bar" file tag version → Catalog.Finds "foo" "bar" other tagged found →
          version.name = found.name →
          tag = tagged ∧ Catalog.languageName file = Catalog.languageName other := by
  obtain ⟨snippets, h, hcount⟩ :
      ∃ snippets, calculateSnippets "foo" "bar" Sample.rewritten = .ok snippets ∧
        (snippets.map (·.versions.length) == [1, 4]) = true :=
    ok_of_any (by decide +kernel)
  obtain ⟨found, hf, -⟩ :
      ∃ found, calculateSnippets "foo" "bar.io" Sample.rewritten = .ok found ∧
        (found.map (·.versions.length) == [1, 4]) = true :=
    ok_of_any (by decide +kernel)
  obtain ⟨hnames, hversions, hregions⟩ := calculateSnippets_names Sample.listed_obtained h
  exact ⟨Sample.listed_obtained, Sample.addressed_obtained, snippets, found, h, hf,
    beq_iff_eq.mp hcount, hnames Sample.addressed _ found Sample.addressed_obtained (by decide) hf,
    hversions, hregions⟩

end SnippetTrail
