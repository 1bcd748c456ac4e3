import Mathlib.Data.List.Forall2
import SnippetTrail.Proofs.Separation

/-!
# The order of the files of a commit

A step of a trail looks at the files of a commit in three ways: whether some file has a property, which
file is at a path, and which file holds the snippet. Where each of the last two is one file at most, the
order of the files cannot matter to a step (`step_reordered`), nor to a whole walk.
-/

namespace SnippetTrail

structure Commit.Reordered (commit other : Commit) : Prop where
  hash : other.hash = commit.hash
  author : other.author = commit.author
  committer : other.committer = commit.committer
  message : other.message = commit.message
  files : commit.files.Perm other.files

/-- No path is listed twice, and no snippet is in two of the files. -/
structure Commit.Unambiguous (owner repository : String) (commit : Commit) : Prop where
  paths : (commit.files.map (·.path)).Nodup
  snippets : ∀ name, ∀ file ∈ commit.files, ∀ other ∈ commit.files,
    file.Yields owner repository name → other.Yields owner repository name → file = other

theorem Commit.unambiguous_iff {owner repository : String} {commit : Commit} :
    commit.Unambiguous owner repository ↔ (commit.files.map (·.path)).Nodup ∧
      ∀ file ∈ commit.files, ∀ other ∈ commit.files, ∀ found ∈ Catalog.found owner repository file,
        other.Yields owner repository found.name → file = other := by
  constructor
  · intro hu
    refine ⟨hu.paths, fun file hf other ho found hm hy => ?_⟩
    exact hu.snippets found.name file hf other ho ⟨found, hm, rfl⟩ hy
  · rintro ⟨hp, hs⟩
    refine ⟨hp, ?_⟩
    rintro _ file hf other ho ⟨found, hm, rfl⟩ hy
    exact hs file hf other ho found hm hy

instance (owner repository : String) (commit : Commit) :
    Decidable (commit.Unambiguous owner repository) := decidable_of_iff' _ Commit.unambiguous_iff

-- ---------------------------------------------------------------------------
-- Files that are alone in what they are asked for
-- ---------------------------------------------------------------------------

theorem filter_eq_of_perm {p : α → Bool} {items others : List α} (hp : items.Perm others)
    (hn : items.Nodup) (hone : ∀ a ∈ items, ∀ b ∈ items, p a = true → p b = true → a = b) :
    items.filter p = others.filter p := by
  have hpicked : (items.filter p).Perm (others.filter p) := hp.filter p
  have hsame : ∀ a ∈ items.filter p, ∀ b ∈ items.filter p, a = b := by
    intro a ha b hb
    obtain ⟨ha, hpa⟩ := List.mem_filter.mp ha
    obtain ⟨hb, hpb⟩ := List.mem_filter.mp hb
    exact hone a ha b hb hpa hpb
  cases hf : items.filter p with
  | nil => exact (List.nil_perm.mp (hf ▸ hpicked)).symm
  | cons a rest =>
    have hnodup : (a :: rest).Nodup := hf ▸ hn.filter p
    cases rest with
    | nil => exact (List.singleton_perm.mp (hf ▸ hpicked))
    | cons b rest =>
      rw [hf] at hsame
      have hab : a = b := hsame a (by simp) b (by simp)
      exact absurd (by simp [hab]) (List.nodup_cons.mp hnodup).1

namespace Commit

variable {owner repository name path : String} {commit other : Commit}

theorem Unambiguous.files_nodup (hu : commit.Unambiguous owner repository) : commit.files.Nodup :=
  List.Nodup.of_map _ hu.paths

theorem Unambiguous.filter_path (hu : commit.Unambiguous owner repository)
    (hr : commit.Reordered other) :
    commit.files.filter (·.path == path) = other.files.filter (·.path == path) := by
  refine filter_eq_of_perm hr.files hu.files_nodup fun file hf other ho hp hq => ?_
  exact List.inj_on_of_nodup_map hu.paths hf ho ((beq_iff_eq.mp hp).trans (beq_iff_eq.mp hq).symm)

theorem Unambiguous.filter_yields (hu : commit.Unambiguous owner repository)
    (hr : commit.Reordered other) :
    commit.files.filter (·.Yields owner repository name) =
      other.files.filter (·.Yields owner repository name) := by
  refine filter_eq_of_perm hr.files hu.files_nodup fun file hf other ho hy hz => ?_
  exact hu.snippets name file hf other ho (of_decide_eq_true hy) (of_decide_eq_true hz)

theorem Reordered.record (hr : commit.Reordered other) :
    CommitRecord.ofCommit owner repository other = CommitRecord.ofCommit owner repository commit := by
  simp only [CommitRecord.ofCommit, subject, hr.hash, hr.author, hr.committer, hr.message]

theorem Reordered.reading (hr : commit.Reordered other) :
    Catalog.reading owner repository other = Catalog.reading owner repository commit := by
  funext file
  simp only [Catalog.reading, hr.record]

theorem Reordered.yields (hr : commit.Reordered other) :
    other.Yields owner repository name ↔ commit.Yields owner repository name := by
  simp only [Yields, hr.files.mem_iff]

theorem Reordered.readable (hr : commit.Reordered other) : other.Readable ↔ commit.Readable := by
  simp only [Readable, hr.files.mem_iff]

end Commit

-- ---------------------------------------------------------------------------
-- Steps
-- ---------------------------------------------------------------------------

namespace Catalog

variable {owner repository : String} {commit other : Commit} {home : Home}

theorem lostByDeletion_reordered (hr : commit.Reordered other) :
    lostByDeletion (deletedPaths other) home = lostByDeletion (deletedPaths commit) home := by
  have hd : home.path ∈ deletedPaths other ↔ home.path ∈ deletedPaths commit := by
    simp only [mem_deletedPaths, hr.files.mem_iff]
  simp only [lostByDeletion, hd]

theorem readings_at_reordered (hu : commit.Unambiguous owner repository)
    (hr : commit.Reordered other) (path : String) :
    (readings owner repository other).filter (·.file.path == path) =
      (readings owner repository commit).filter (·.file.path == path) := by
  -- the entries at the path are read, wherever they stand
  have hat (commit : Commit) : (readings owner repository commit).filter (·.file.path == path) =
      ((commit.files.filter (·.path == path)).filter holdsRegions).map
        (reading owner repository commit) := by
    rw [readings, List.filter_map, List.filter_filter, List.filter_filter]
    congr 1
    exact List.filter_congr fun file _ => Bool.and_comm _ _
  rw [hat, hat, hu.filter_path hr, hr.reading]

theorem lostByChange_reordered (hu : commit.Unambiguous owner repository)
    (hr : commit.Reordered other) :
    lostByChange (readings owner repository other) home =
      lostByChange (readings owner repository commit) home := by
  simp only [lostByChange, readings_at_reordered hu hr]

end Catalog

namespace Trail

variable {owner repository name : String} {commit other : Commit} {trail : Trail}

theorem sightings_reordered (hu : commit.Unambiguous owner repository)
    (hr : commit.Reordered other) :
    sightings (Catalog.readings owner repository other) name =
      sightings (Catalog.readings owner repository commit) name := by
  rw [sightings_eq, sightings_eq, hu.filter_yields hr, hr.reading]

theorem step_reordered (hu : commit.Unambiguous owner repository) (hr : commit.Reordered other) :
    trail.step owner repository name other = trail.step owner repository name commit := by
  have hdepart : trail.depart owner repository name other =
      trail.depart owner repository name commit := by
    simp only [depart, hr.record, Catalog.mem_produced, hr.yields,
      Catalog.lostByDeletion_reordered hr, Catalog.lostByChange_reordered hu hr]
  rw [Trail.step, Trail.step, sightings_reordered hu hr, hdepart]

theorem foldl_step_reordered {commits others : List Commit}
    (hu : ∀ commit ∈ commits, commit.Unambiguous owner repository)
    (hr : List.Forall₂ Commit.Reordered commits others) :
    others.foldl (Trail.step owner repository name) trail =
      commits.foldl (Trail.step owner repository name) trail := by
  induction hr generalizing trail with
  | nil => rfl
  | cons hc _ ih =>
    obtain ⟨hcommit, hrest⟩ := List.forall_mem_cons.mp hu
    rw [List.foldl_cons, List.foldl_cons, step_reordered hcommit hc, ih hrest]

end Trail

-- ---------------------------------------------------------------------------
-- The result of a walk
-- ---------------------------------------------------------------------------

section
variable {owner repository : String} {commits others : List Commit} {snippets found : List Snippet}

theorem calculateSnippets_ext (h : calculateSnippets owner repository commits = .ok snippets)
    (ho : calculateSnippets owner repository others = .ok found)
    (hmem : ∀ snippet, snippet ∈ snippets ↔ snippet ∈ found) : snippets = found := by
  have hsnippets := List.pairwise_map.mp (calculateSnippets_wellFormed h).1
  have hfound := List.pairwise_map.mp (calculateSnippets_wellFormed ho).1
  exact eq_of_ordered hsnippets hfound (fun _ => String.lt_irrefl _) (fun _ _ _ => String.lt_trans) hmem

/-- The order in which commits list their files does not matter to a walk, where no commit lists a path
twice or has a snippet in two files: it fails for both orders, or it gives the same snippets with the
same versions. -/
theorem calculateSnippets_reordered
    (hu : ∀ commit ∈ commits, commit.Unambiguous owner repository)
    (hr : List.Forall₂ Commit.Reordered commits others) :
    calculateSnippets owner repository commits = calculateSnippets owner repository others := by
  have hreadable : (∀ other ∈ others, other.Readable) ↔ ∀ commit ∈ commits, commit.Readable := by
    clear hu
    induction hr with
    | nil => simp
    | cons hc _ ih => simp only [List.forall_mem_cons, hc.readable, ih]
  have hok : (∃ found, calculateSnippets owner repository others = .ok found) ↔
      ∃ snippets, calculateSnippets owner repository commits = .ok snippets := by
    rw [calculateSnippets_isOk, calculateSnippets_isOk, hreadable]
  cases h : calculateSnippets owner repository commits with
  | error fault =>
    obtain ⟨other, ho⟩ := exists_error_iff.mpr (mt hok.mp (exists_error_iff.mp ⟨fault, h⟩))
    -- there is one fault only
    cases fault
    cases other
    exact ho.symm
  | ok snippets =>
    obtain ⟨found, ho⟩ := hok.mpr ⟨snippets, h⟩
    rw [ho, calculateSnippets_ext h ho]
    intro snippet
    rw [mem_calculateSnippets h, mem_calculateSnippets ho, Trail.walk, Trail.walk,
      Trail.foldl_step_reordered hu hr]

end

namespace Sample

def backwards : List Commit := busy.map fun commit => { commit with files := commit.files.reverse }

end Sample

theorem calculateSnippets_reordered_backwards :
    (∀ commit ∈ Sample.busy, commit.Unambiguous "o" "r") ∧
      List.Forall₂ Commit.Reordered Sample.busy Sample.backwards ∧
      Sample.busy ≠ Sample.backwards ∧
      (∃ snippets, calculateSnippets "o" "r" Sample.busy = .ok snippets ∧
        snippets.map (·.versions.length) = [3, 3]) ∧
      calculateSnippets "o" "r" Sample.busy = calculateSnippets "o" "r" Sample.backwards := by
  have hu : ∀ commit ∈ Sample.busy, commit.Unambiguous "o" "r" := by decide +kernel
  have hr : List.Forall₂ Commit.Reordered Sample.busy Sample.backwards :=
    List.forall₂_map_right_iff.mpr <| List.forall₂_same.mpr fun commit _ =>
      ⟨rfl, rfl, rfl, rfl, commit.files.reverse_perm.symm⟩
  obtain ⟨snippets, h, hcount⟩ : ∃ snippets, calculateSnippets "o" "r" Sample.busy = .ok snippets ∧
      (snippets.map (·.versions.length) == [3, 3]) = true :=
    ok_of_any (by decide +kernel)
  exact ⟨hu, hr, by decide +kernel, ⟨snippets, h, beq_iff_eq.mp hcount⟩,
    calculateSnippets_reordered hu hr⟩

end SnippetTrail
