import SnippetTrail.Proofs.Presence

/-!
# When a snippet is dead

A snippet is dead after a walk exactly if some file lost it and no later commit holds it
(`isLive_eq_false`). Other files may hold it still: a commit that does not list them does
not hold it, and a tombstone is appended although the region is there.
-/

namespace SnippetTrail

section
variable {owner repository name path : String} {commits : List Commit} {commit : Commit}

/-- A commit took the snippet from the path, and neither it nor a later one holds the snippet. -/
def LostAt (owner repository : String) (commits : List Commit) (path name : String) : Prop :=
  ∃ earlier commit later, commits = earlier ++ commit :: later ∧
    (∀ c ∈ commit :: later, ¬c.Yields owner repository name) ∧
    Holds owner repository earlier path name ∧
    ¬Holds owner repository (earlier ++ [commit]) path name

theorem not_lostAt_nil : ¬LostAt owner repository [] path name := by
  rintro ⟨earlier, commit, later, hsplit, -⟩
  simp at hsplit

theorem lostAt_append :
    LostAt owner repository (commits ++ [commit]) path name ↔
      ¬commit.Yields owner repository name ∧
        (LostAt owner repository commits path name ∨
          Holds owner repository commits path name ∧
            ¬Holds owner repository (commits ++ [commit]) path name) := by
  constructor
  · rintro ⟨earlier, c, later, hsplit, hy, hheld, hlost⟩
    rcases List.eq_nil_or_concat later with rfl | ⟨middle, last, rfl⟩
    · obtain ⟨rfl, hc⟩ := List.append_inj' hsplit rfl
      cases hc
      exact ⟨hy commit (by simp), .inr ⟨hheld, hlost⟩⟩
    · rw [List.concat_eq_append, ← List.cons_append, ← List.append_assoc] at hsplit
      obtain ⟨rfl, hc⟩ := List.append_inj' hsplit rfl
      cases hc
      have hmiddle : ∀ d ∈ c :: middle, ¬d.Yields owner repository name := by
        intro d hd
        refine hy d ?_
        rcases List.mem_cons.mp hd with rfl | hd
        · simp
        · simp [hd]
      exact ⟨hy commit (by simp), .inl ⟨earlier, c, middle, rfl, hmiddle, hheld, hlost⟩⟩
  · rintro ⟨hy, ⟨earlier, c, later, rfl, hall, hheld, hlost⟩ | ⟨hheld, hlost⟩⟩
    · refine ⟨earlier, c, later ++ [commit], by simp, fun d hd => ?_, hheld, hlost⟩
      rw [← List.cons_append, List.mem_append, List.mem_singleton] at hd
      rcases hd with hd | rfl
      · exact hall d hd
      · exact hy
    · refine ⟨commits, commit, [], rfl, fun d hd => ?_, hheld, hlost⟩
      rw [List.mem_singleton.mp hd]
      exact hy

theorem Holds.earlier {earlier later : List Commit}
    (h : Holds owner repository (earlier ++ later) path name) (hu : ∀ c ∈ later, c.Uniform)
    (hy : ∀ c ∈ later, ¬c.Yields owner repository name) :
    Holds owner repository earlier path name := by
  induction later using List.reverseRecOn with
  | nil => simpa using h
  | append_singleton middle last ih =>
    rw [← List.append_assoc, holds_append (hu last (by simp))] at h
    rcases h with ⟨file, hm, -, hf⟩ | ⟨h, -⟩
    · exact absurd ⟨file, hm, hf⟩ (hy last (by simp))
    · exact ih h (fun c hc => hu c (by simp [hc])) fun c hc => hy c (by simp [hc])

end

-- ---------------------------------------------------------------------------
-- Dead trails
-- ---------------------------------------------------------------------------

namespace Trail

variable {owner repository name : String} {earlier commits : List Commit} {commit : Commit}
  {trail : Trail}

def Dead (trail : Trail) : Prop := ∃ snippet, trail.snippet? = some snippet ∧ snippet.isLive = false

/-- A commit that does not hold the snippet adds a tombstone if it takes it from some path. -/
theorem Current.departures_eq_nil (hc : trail.Current owner repository name earlier)
    (hu : commit.Uniform) (hy : ¬commit.Yields owner repository name) :
    departures owner repository name commit trail.paths = [] ↔
      ∀ path, Holds owner repository earlier path name →
        Holds owner repository (earlier ++ [commit]) path name := by
  have hnot (path : String) :
      ¬∃ file ∈ commit.files, file.path = path ∧ file.Yields owner repository name :=
    fun ⟨file, hm, _, hf⟩ => hy ⟨file, hm, hf⟩
  rw [Trail.departures_eq_nil]
  constructor
  · intro h path hp
    have hkept := (lostIn?_uniform hu hp.isScanned).mp (h path ((hc.homes path).mpr hp))
    exact (holds_append hu).mpr (.inr ⟨hp, hkept.resolve_left (hnot path)⟩)
  · intro h path hp
    have hheld := (hc.homes path).mp hp
    have hkept := ((holds_append hu).mp (h path hheld)).resolve_left (hnot path)
    exact (lostIn?_uniform hu hheld.isScanned).mpr (.inr hkept.2)

theorem Current.dead_step (hc : trail.Current owner repository name earlier)
    (hs : trail.Sound name) (hu : commit.Uniform) :
    (trail.step owner repository name commit).Dead ↔
      ¬commit.Yields owner repository name ∧
        (trail.Dead ∨ ∃ path, Holds owner repository earlier path name ∧
          ¬Holds owner repository (earlier ++ [commit]) path name) := by
  by_cases hy : commit.Yields owner repository name
  · obtain ⟨snippet, hk, hr⟩ := hs.step_yields hy
    simp only [hy, not_true_eq_false, false_and, iff_false]
    rintro ⟨dead, hd, hl⟩
    cases hk.symm.trans hd
    simp [hr.live] at hl
  · have hlost : departures owner repository name commit trail.paths ≠ [] ↔
        ∃ path, Holds owner repository earlier path name ∧
          ¬Holds owner repository (earlier ++ [commit]) path name := by
      simp [hc.departures_eq_nil hu hy]
    rw [← hlost, Dead, Dead, hs.step_absent hy]
    cases hk : trail.snippet? with
    | none => simp [hs.known hk, departures, graves]
    | some snippet =>
      simp [hy, Snippet.isLive_bury, imp_iff_not_or, or_comm]

theorem walk_dead (hu : ∀ commit ∈ commits, commit.Uniform) :
    (walk owner repository name commits).Dead ↔
      ∃ path, LostAt owner repository commits path name := by
  induction commits using List.reverseRecOn with
  | nil => simp [walk, empty, Dead, not_lostAt_nil]
  | append_singleton earlier commit ih =>
    have hearlier : ∀ c ∈ earlier, c.Uniform := fun c hm => hu c (by simp [hm])
    rw [walk_append, List.foldl_cons, List.foldl_nil,
      (walk_current hearlier).dead_step (walk_sound earlier) (hu commit (by simp)), ih hearlier]
    simp only [lostAt_append, exists_and_left, exists_or]

end Trail

-- ---------------------------------------------------------------------------
-- Dead snippets
-- ---------------------------------------------------------------------------

section
variable {owner repository name : String} {commits : List Commit} {snippets : List Snippet}

theorem isLive_eq_false (hu : ∀ commit ∈ commits, commit.Uniform)
    (h : calculateSnippets owner repository commits = .ok snippets) {snippet : Snippet}
    (hm : snippet ∈ snippets) :
    snippet.isLive = false ↔ ∃ path, LostAt owner repository commits path snippet.name := by
  have hk := (mem_calculateSnippets h).mp hm
  rw [← Trail.walk_dead hu]
  constructor
  · intro hl
    exact ⟨snippet, hk, hl⟩
  · rintro ⟨dead, hd, hl⟩
    cases hk.symm.trans hd
    exact hl

/-- A snippet is dead exactly if some file lost it and no later commit holds it. So it is dead
although some file holds it exactly if another file lost it after the last commit that holds it. -/
theorem calculateSnippets_isLive (hu : ∀ commit ∈ commits, commit.Uniform)
    (h : calculateSnippets owner repository commits = .ok snippets) {snippet : Snippet}
    (hm : snippet ∈ snippets) :
    (snippet.isLive = false ↔ ∃ path, LostAt owner repository commits path snippet.name) ∧
      ((snippet.isLive = false → ∀ path, ¬Holds owner repository commits path snippet.name) ↔
        ¬∃ lost kept, LostAt owner repository commits lost snippet.name ∧
          Holds owner repository commits kept snippet.name) := by
  have hdead := isLive_eq_false hu h hm
  refine ⟨hdead, ?_⟩
  rw [hdead]
  constructor
  · rintro habsent ⟨lost, kept, hlost, hkept⟩
    exact habsent ⟨lost, hlost⟩ kept hkept
  · rintro hnone ⟨lost, hlost⟩ kept hkept
    exact hnone ⟨lost, kept, hlost, hkept⟩

theorem isLive_iff_holds (hu : ∀ commit ∈ commits, commit.Uniform)
    (h : calculateSnippets owner repository commits = .ok snippets) {snippet : Snippet}
    (hm : snippet ∈ snippets)
    (hone : ∀ earlier later, commits = earlier ++ later → ∀ path other,
      Holds owner repository earlier path snippet.name →
      Holds owner repository earlier other snippet.name → path = other) :
    snippet.isLive = true ↔ ∃ path, Holds owner repository commits path snippet.name := by
  constructor
  · intro hl
    obtain ⟨primary, hp, ht⟩ := (Option.any_eq_true _ _).mp hl
    obtain ⟨path, file, found, hfile, hf, hn, -⟩ := (Trail.walk_current hu).primary snippet primary
      ((mem_calculateSnippets h).mp hm) hp (by simpa using ht)
    exact ⟨path, file, hfile, found, hf, hn⟩
  · rintro ⟨kept, hkept⟩
    by_contra hl
    obtain ⟨lost, earlier, commit, later, rfl, hy, hheld, hlost⟩ :=
      (isLive_eq_false hu h hm).mp (by simpa using hl)
    have hbefore : Holds owner repository earlier kept snippet.name :=
      hkept.earlier (fun c hc => hu c (List.mem_append_right _ hc)) hy
    rw [← List.singleton_append, ← List.append_assoc] at hkept
    have hafter : Holds owner repository (earlier ++ [commit]) kept snippet.name :=
      hkept.earlier (fun c hc => hu c (by simp [hc])) fun c hc => hy c (by simp [hc])
    cases hone earlier (commit :: later) rfl lost kept hheld hbefore
    exact hlost hafter

end

namespace Sample

def copied : List Commit :=
  [write, commit [.ofText "b.py" (text "demo" "x")], commit [.deleted "a.py"]]

end Sample

theorem calculateSnippets_isLive_copied :
    (∀ commit ∈ Sample.copied, commit.Uniform) ∧
      ∃ snippets, calculateSnippets "o" "r" Sample.copied = .ok snippets ∧
        ∃ snippet ∈ snippets,
          (snippet.isLive = false ↔ ∃ path, LostAt "o" "r" Sample.copied path snippet.name) ∧
          ((snippet.isLive = false → ∀ path, ¬Holds "o" "r" Sample.copied path snippet.name) ↔
            ¬∃ lost kept, LostAt "o" "r" Sample.copied lost snippet.name ∧
              Holds "o" "r" Sample.copied kept snippet.name) := by
  have hu : ∀ commit ∈ Sample.copied, commit.Uniform := by decide +kernel
  obtain ⟨snippets, h, hany⟩ : ∃ snippets, calculateSnippets "o" "r" Sample.copied = .ok snippets ∧
      (snippets.any fun snippet => snippet.name == Sample.demo) = true :=
    ok_of_any (by decide +kernel)
  obtain ⟨snippet, hm, -⟩ := List.any_eq_true.mp hany
  exact ⟨hu, snippets, h, snippet, hm, calculateSnippets_isLive hu h hm⟩

/-- A primary can be a tombstone although a file holds the region: the commit that deletes the first
file of `copied` does not list the copy. -/
theorem not_forall_tombstone_absent :
    ¬∀ (owner repository : String) (commits : List Commit) (snippets : List Snippet),
      (∀ commit ∈ commits, commit.Uniform) →
      calculateSnippets owner repository commits = .ok snippets →
      ∀ snippet ∈ snippets, ∀ primary, snippet.primary? = some primary →
        primary.isTombstone = true → ¬∃ path, Holds owner repository commits path snippet.name := by
  intro hclaim
  have hu : ∀ commit ∈ Sample.copied, commit.Uniform := by decide +kernel
  obtain ⟨snippets, h, hany⟩ : ∃ snippets, calculateSnippets "o" "r" Sample.copied = .ok snippets ∧
      (snippets.any fun snippet => snippet.name == Sample.demo &&
        snippet.primary?.any (·.isTombstone)) = true :=
    ok_of_any (by decide +kernel)
  obtain ⟨snippet, hm, hs⟩ := List.any_eq_true.mp hany
  obtain ⟨hname, hdead⟩ := Bool.and_eq_true_iff.mp hs
  obtain ⟨primary, hp, ht⟩ := (Option.any_eq_true _ _).mp hdead
  have hname : snippet.name = Sample.demo := by simpa using hname
  have hlast : lastFile? Sample.copied "b.py" = some (.ofText "b.py" (Sample.text "demo" "x")) := by
    decide +kernel
  have hyields : File.Yields "o" "r" (.ofText "b.py" (Sample.text "demo" "x")) snippet.name := by
    rw [hname]
    decide +kernel
  exact hclaim "o" "r" Sample.copied snippets hu h snippet hm primary hp ht
    ⟨"b.py", _, hlast, hyields⟩

end SnippetTrail
