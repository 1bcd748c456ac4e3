import SnippetTrail.Proofs.Matching
import SnippetTrail.Snippet.Region

/-!
# The tags of a text

A tag is a run of ASCII letters, digits, `_` and `-`. A text has the tags whose start marks stand in it
(`mem_distinctTags`): the search goes on behind each mark, and passes over none, since no tag holds the
bracket that begins a mark.
-/

namespace SnippetTrail

-- ---------------------------------------------------------------------------
-- Matches that do not overlap
-- ---------------------------------------------------------------------------

namespace Text

variable {α : Type} {matcher : Matcher α} {text tail after : List Char} {value : α}

theorem exists_match_of_mem_findAllFrom {skip : Nat} (h : value ∈ findAllFrom matcher skip text) :
    ∃ tail after, tail <:+ text ∧ matcher tail = some (value, after) := by
  induction text generalizing skip with
  | nil => cases skip <;> simp [findAllFrom] at h
  | cons c rest ih =>
    -- a match in the rest is one in the whole
    have hrest {skip : Nat} (h : value ∈ findAllFrom matcher skip rest) :
        ∃ tail after, tail <:+ c :: rest ∧ matcher tail = some (value, after) := by
      obtain ⟨tail, after, ht, hm⟩ := ih h
      exact ⟨tail, after, ht.trans (List.suffix_cons c rest), hm⟩
    cases skip with
    | succ skip => exact hrest h
    | zero =>
      cases hm : matcher (c :: rest) with
      | none =>
        simp only [findAllFrom, hm] at h
        exact hrest h
      | some found =>
        obtain ⟨first, after⟩ := found
        simp only [findAllFrom, hm, List.mem_cons] at h
        rcases h with rfl | h
        · exact ⟨c :: rest, after, List.suffix_rfl, hm⟩
        · exact hrest h

/-- No match of a matcher begins inside another one, and none is empty. -/
structure Apart (matcher : Matcher α) : Prop where
  shorter : ∀ {text value after}, matcher text = some (value, after) →
    after <:+ text ∧ after.length < text.length
  behind : ∀ {text value after tail other}, matcher text = some (value, after) →
    tail <:+ text → tail ≠ text → matcher tail = some other → tail <:+ after

theorem mem_findAll (ha : Apart matcher) (ht : tail <:+ text)
    (hm : matcher tail = some (value, after)) : value ∈ findAll matcher text := by
  induction hn : text.length using Nat.strong_induction_on generalizing text with
  | _ n ih =>
    cases text with
    | nil =>
      have hlt := (ha.shorter hm).2
      rw [List.suffix_nil.mp ht] at hlt
      simp at hlt
    | cons c rest =>
      have hrest : rest.length < n := by simp [← hn]
      cases hc : matcher (c :: rest) with
      | none =>
        have hne : tail ≠ c :: rest := by rintro rfl; simp [hc] at hm
        rw [findAll_of_no_match hc]
        exact ih _ hrest ((List.suffix_cons_iff.mp ht).resolve_left hne) rfl
      | some found =>
        obtain ⟨first, behind⟩ := found
        obtain ⟨hs, hlt⟩ := ha.shorter hc
        have hne : behind ≠ c :: rest := by rintro rfl; exact absurd hlt (Nat.lt_irrefl _)
        have hb : behind <:+ rest := (List.suffix_cons_iff.mp hs).resolve_left hne
        rw [findAll_of_match hc hb]
        by_cases he : tail = c :: rest
        · rw [he, hc] at hm
          cases hm
          exact List.mem_cons_self
        · refine List.mem_cons_of_mem _ (ih _ ?_ (ha.behind hc ht he hm) rfl)
          omega

end Text

-- ---------------------------------------------------------------------------
-- Start marks
-- ---------------------------------------------------------------------------

def IsTag (tag : String) : Prop := tag ≠ "" ∧ ∀ c ∈ tag.toList, isTagChar c = true

instance (tag : String) : Decidable (IsTag tag) :=
  decidable_of_iff (tag ≠ "" ∧ tag.toList.all isTagChar = true) (by simp only [IsTag, List.all_eq_true])

namespace Region

variable {tag text rest : List Char}

theorem startMark_append : startMark tag ++ rest = "[START ".toList ++ (tag ++ ([']'] ++ rest)) := by
  rw [← List.append_assoc, ← List.append_assoc]
  rfl

theorem matchStart_eq_some :
    matchStart text = some (tag, rest) ↔
      tag ≠ [] ∧ (∀ c ∈ tag, isTagChar c = true) ∧ text = startMark tag ++ rest := by
  simp only [matchStart, Option.bind_eq_bind, Option.bind_eq_some_iff, Option.pure_def,
    Option.some.injEq, Prod.mk.injEq, Prod.exists]
  rw [startMark_append]
  constructor
  · rintro ⟨behind, hstart, found, closing, hrun, after, hclose, rfl, rfl⟩
    obtain ⟨hne, hchars, rfl⟩ := Text.of_matchRun hrun
    refine ⟨hne, hchars, ?_⟩
    rw [Text.eq_append_of_stripStart? hstart, Text.eq_append_of_stripStart? hclose]
  · rintro ⟨hne, hchars, rfl⟩
    have hrun : Text.matchRun isTagChar (tag ++ ([']'] ++ rest)) = some (tag, [']'] ++ rest) :=
      Text.matchRun_append hchars hne (by decide)
    exact ⟨_, Text.stripStart?_append _ _, tag, _, hrun, rest, Text.stripStart?_append _ _, rfl, rfl⟩

theorem startMark_cons (hchars : ∀ c ∈ tag, isTagChar c = true) :
    ∃ mark, startMark tag = '[' :: mark ∧ '[' ∉ mark := by
  have hopen : "[START ".toList = '[' :: "START ".toList := by decide
  have htag : '[' ∉ tag := fun hm => absurd (hchars _ hm) (by decide)
  refine ⟨"START ".toList ++ (tag ++ [']']), ?_, ?_⟩
  · rw [← List.append_nil (startMark tag), startMark_append, hopen, List.cons_append, List.append_nil]
  · simp only [List.mem_append, htag, false_or]
    decide

/-- A text that begins with a bracket and does not reach into another without it stands behind that. -/
theorem suffix_of_cons_suffix_append {c : Char} {tail mark : List Char} (hc : c ∉ mark)
    (h : c :: tail <:+ mark ++ rest) : c :: tail <:+ rest := by
  induction mark with
  | nil => exact h
  | cons d mark ih =>
    obtain ⟨hd, hmark⟩ := not_or.mp (mt List.mem_cons.mpr hc)
    refine ih hmark ((List.suffix_cons_iff.mp h).resolve_left fun he => ?_)
    exact hd (List.cons.inj he).1

theorem apart_matchStart : Text.Apart matchStart where
  shorter {text tag after} h := by
    obtain ⟨-, hchars, rfl⟩ := matchStart_eq_some.mp h
    obtain ⟨mark, hmark, -⟩ := startMark_cons hchars
    refine ⟨List.suffix_append _ _, ?_⟩
    rw [hmark, List.length_append, List.length_cons]
    omega
  behind {text tag after tail other} h ht hne ho := by
    obtain ⟨-, hchars, rfl⟩ := matchStart_eq_some.mp h
    obtain ⟨-, hothers, rfl⟩ := matchStart_eq_some.mp ho
    obtain ⟨mark, hmark, hbracket⟩ := startMark_cons hchars
    obtain ⟨next, hnext, -⟩ := startMark_cons hothers
    rw [hmark, hnext, List.cons_append, List.cons_append] at ht hne
    rw [hnext, List.cons_append]
    exact suffix_of_cons_suffix_append hbracket ((List.suffix_cons_iff.mp ht).resolve_left hne)

theorem mem_tags {content tag : String} :
    tag ∈ tags content ↔ IsTag tag ∧ startMark tag.toList <:+: content.toList := by
  simp only [tags, List.mem_map]
  constructor
  · rintro ⟨found, hf, rfl⟩
    obtain ⟨tail, after, ht, hm⟩ := Text.exists_match_of_mem_findAllFrom hf
    obtain ⟨hne, hchars, rfl⟩ := matchStart_eq_some.mp hm
    rw [IsTag, String.toList_ofList]
    exact ⟨⟨by simpa using hne, hchars⟩, (List.prefix_append _ after).isInfix.trans ht.isInfix⟩
  · rintro ⟨⟨hne, hchars⟩, before, after, he⟩
    refine ⟨tag.toList, ?_, String.ofList_toList⟩
    have hm : matchStart (startMark tag.toList ++ after) = some (tag.toList, after) :=
      matchStart_eq_some.mpr ⟨by simpa using hne, hchars, rfl⟩
    exact Text.mem_findAll apart_matchStart ⟨before, by rw [← he, List.append_assoc]⟩ hm

theorem mem_distinctTags {content tag : String} :
    tag ∈ distinctTags content ↔ IsTag tag ∧ startMark tag.toList <:+: content.toList := by
  have hfold (found : List String) (table : Table Unit) :
      tag ∈ (found.foldl (fun table tag => table.insert tag ()) table).keys ↔
        tag ∈ found ∨ tag ∈ table.keys := by
    induction found generalizing table with
    | nil => simp
    | cons first found ih =>
      rw [List.foldl_cons, ih, Table.mem_keys_insert, List.mem_cons]
      exact or_left_comm.trans or_assoc.symm
  rw [distinctTags, hfold, mem_tags]
  simp [Table.keys, Table.empty]

theorem distinctTags_sorted (content : String) : (distinctTags content).Pairwise (· < ·) :=
  Table.keys_sorted _

end Region

end SnippetTrail
