import Mathlib.Data.List.Forall2
import Mathlib.Data.List.Infix
import SnippetTrail.Proofs.Regions

/-!
# Lines that refer to regions

A line with `:start-after:` or `:end-before:` only refers to a region. Each of the two words is looked
for beside one of the two marks, so that a start mark with `:end-before:` is still a start, and an end mark
with `:start-after:` still an end. `referencesIgnored_iff` says when that does no harm, and
`not_forall_referencesIgnored` is a text where it does.
-/

namespace SnippetTrail

namespace Region

-- ---------------------------------------------------------------------------
-- References
-- ---------------------------------------------------------------------------

def IsReference (line : List Char) : Prop :=
  ":start-after:".toList <:+: line ∨ ":end-before:".toList <:+: line

/-- What becomes of a line when the marks of all references are replaced by some text without marks. -/
inductive Masked : List Char → List Char → Prop
  | kept {line : List Char} : ¬IsReference line → Masked line line
  | replaced {line other : List Char} : IsReference line →
      (∀ tag, ¬startMark tag <:+: other ∧ ¬endMark tag <:+: other) → Masked line other

section
variable (tag : List Char) (lines : List (List Char))

def ReferenceAt (number : Nat) : Prop := ∃ line, LineAt lines number line ∧ IsReference line

/-- A reference with the mark, and without the word that is looked for beside it. -/
def Misread (mark word other : List Char) (number : Nat) : Prop :=
  ∃ line, LineAt lines number line ∧ mark <:+: line ∧ other <:+: line ∧ ¬word <:+: line

def MisreadStart (number : Nat) : Prop :=
  Misread lines (startMark tag) ":start-after:".toList ":end-before:".toList number

def MisreadEnd (number : Nat) : Prop :=
  Misread lines (endMark tag) ":end-before:".toList ":start-after:".toList number

/-- A line at which an open region is dropped for a new one. -/
def Discards (number : Nat) : Prop :=
  Starts tag lines number ∧ ∃ first, OpenAfter tag lines (number - 1) first

/-- No reference that is misread meets an open region, and none begins a region that is closed. -/
structure HarmlessReferences : Prop where
  start_idle : ∀ n, MisreadStart tag lines n → ∀ first, ¬OpenAfter tag lines (n - 1) first
  start_unused : ∀ n, MisreadStart tag lines n → ∀ last, ¬Spans tag lines n last
  end_idle : ∀ n, MisreadEnd tag lines n → ∀ first, ¬OpenAfter tag lines (n - 1) first

end

section
variable {tag mark word : List Char} {lines others : List (List Char)} {n first last : Nat}

theorem misread_iff {other : List Char}
    (href : ∀ line, IsReference line ↔ word <:+: line ∨ other <:+: line) :
    Misread lines mark word other n ↔ Delimits mark word lines n ∧ ReferenceAt lines n := by
  constructor
  · rintro ⟨line, hline, hmark, hother, hword⟩
    exact ⟨⟨line, hline, hmark, hword⟩, line, hline, (href line).mpr (.inr hother)⟩
  · rintro ⟨⟨line, hline, hmark, hword⟩, same, hsame, hreference⟩
    cases hline.eq hsame
    exact ⟨line, hline, hmark, ((href line).mp hreference).resolve_left hword, hword⟩

theorem misreadStart_iff : MisreadStart tag lines n ↔ Starts tag lines n ∧ ReferenceAt lines n :=
  misread_iff fun _ => Iff.rfl

theorem misreadEnd_iff : MisreadEnd tag lines n ↔ Ends tag lines n ∧ ReferenceAt lines n :=
  misread_iff fun _ => or_comm

-- ---------------------------------------------------------------------------
-- Masked lines
-- ---------------------------------------------------------------------------

theorem exists_lineAt_of_forall₂ {R : List Char → List Char → Prop} {line : List Char}
    (h : List.Forall₂ R lines others) (hline : LineAt lines n line) :
    ∃ other, LineAt others n other ∧ R line other := by
  obtain ⟨hpos, hget⟩ := hline
  obtain ⟨hlt, rfl⟩ := List.getElem?_eq_some_iff.mp hget
  have hother : n - 1 < others.length := h.length_eq ▸ hlt
  exact ⟨others[n - 1], ⟨hpos, List.getElem?_eq_getElem hother⟩, h.get hlt hother⟩

theorem delimits_masked (hm : List.Forall₂ Masked lines others)
    (hmark : ∀ other, (∀ tag, ¬startMark tag <:+: other ∧ ¬endMark tag <:+: other) →
      ¬mark <:+: other) :
    Delimits mark word others n ↔ Delimits mark word lines n ∧ ¬ReferenceAt lines n := by
  constructor
  · rintro ⟨other, hother, hin, hword⟩
    obtain ⟨line, hline, hmasked⟩ := exists_lineAt_of_forall₂ hm.flip hother
    cases hmasked with
    | kept hnot =>
      refine ⟨⟨other, hline, hin, hword⟩, ?_⟩
      rintro ⟨same, hsame, href⟩
      exact hnot (hline.eq hsame ▸ href)
    | replaced _ hfree => exact absurd hin (hmark other hfree)
  · rintro ⟨⟨line, hline, hin, hword⟩, hnot⟩
    obtain ⟨other, hother, hmasked⟩ := exists_lineAt_of_forall₂ hm hline
    cases hmasked with
    | kept _ => exact ⟨line, hother, hin, hword⟩
    | replaced href _ => exact absurd ⟨line, hline, href⟩ hnot

theorem starts_masked (hm : List.Forall₂ Masked lines others) :
    Starts tag others n ↔ Starts tag lines n ∧ ¬ReferenceAt lines n :=
  delimits_masked hm fun _ hfree => (hfree tag).1

theorem ends_masked (hm : List.Forall₂ Masked lines others) :
    Ends tag others n ↔ Ends tag lines n ∧ ¬ReferenceAt lines n :=
  delimits_masked hm fun _ hfree => (hfree tag).2

namespace HarmlessReferences

variable (hh : HarmlessReferences tag lines)
include hh

theorem start_masked (hm : List.Forall₂ Masked lines others)
    (ho : OpenAfter tag lines n first) (hs : Starts tag lines (n + 1)) : Starts tag others (n + 1) :=
  (starts_masked hm).mpr
    ⟨hs, fun href => hh.start_idle (n + 1) (misreadStart_iff.mpr ⟨hs, href⟩) first ho⟩

theorem end_masked (hm : List.Forall₂ Masked lines others)
    (ho : OpenAfter tag lines n first) (he : Ends tag lines (n + 1)) : Ends tag others (n + 1) :=
  (ends_masked hm).mpr
    ⟨he, fun href => hh.end_idle (n + 1) (misreadEnd_iff.mpr ⟨he, href⟩) first ho⟩

theorem openAfter_of_masked (hm : List.Forall₂ Masked lines others)
    (hs : Spans tag others first last) (hle : first ≤ n) (hlt : n < last) :
    OpenAfter tag lines n first := by
  induction n, hle using Nat.le_induction with
  | base =>
    have hstart : Starts tag lines first := ((starts_masked hm).mp hs.starts).1
    exact ⟨Nat.le_refl _, hstart, fun n hn hle => by omega⟩
  | succ n hle ih =>
    have ho : OpenAfter tag lines n first := ih (by omega)
    have hstart : ¬Starts tag lines (n + 1) := fun hstart =>
      hs.no_start (n + 1) (by omega) (by omega) (hh.start_masked hm ho hstart)
    refine (openAfter_of_not_starts hstart).mpr ⟨ho, fun hend => ?_⟩
    exact hs.no_end (n + 1) (by omega) hlt (hh.end_masked hm ho hend)

theorem spans_masked (hm : List.Forall₂ Masked lines others) :
    Spans tag others first last ↔ Spans tag lines first last := by
  constructor
  · intro hs
    obtain ⟨n, rfl, -⟩ := hs.exists_openAfter
    have ho : OpenAfter tag lines n first :=
      hh.openAfter_of_masked hm hs (Nat.le_of_lt_succ hs.lt) (Nat.lt_succ_self n)
    have hend : Ends tag lines (n + 1) := ((ends_masked hm).mp hs.ends).1
    refine spans_succ.mpr ⟨ho, fun hstart => ?_, hend⟩
    exact hs.no_start (n + 1) hs.lt (Nat.le_refl _) (hh.start_masked hm ho hstart)
  · intro hs
    obtain ⟨n, rfl, ho⟩ := hs.exists_openAfter
    refine ⟨hs.lt, (starts_masked hm).mpr ⟨hs.starts, fun href => ?_⟩,
      hh.end_masked hm ho hs.ends, fun n hn hle => ?_, fun n hn hlt => ?_⟩
    · exact hh.start_unused first (misreadStart_iff.mpr ⟨hs.starts, href⟩) (n + 1) hs
    · exact fun hstart => hs.no_start n hn hle ((starts_masked hm).mp hstart).1
    · exact fun hend => hs.no_end n hn hlt ((ends_masked hm).mp hend).1

end HarmlessReferences

theorem spans_congr (h : ∀ first last, Spans tag others first last ↔ Spans tag lines first last) :
    spans tag others = spans tag lines := by
  have hordered (lines : List (List Char)) :
      (spans tag lines).Pairwise fun a b => a.1 < b.1 := by
    refine spans_ordered.imp_of_mem fun {a b} ha _ hab => ?_
    exact Nat.lt_trans (mem_spans.mp ha).lt hab
  refine eq_of_ordered (hordered others) (hordered lines) (fun _ => Nat.lt_irrefl _)
    (fun _ _ _ => Nat.lt_trans) fun ⟨first, last⟩ => ?_
  rw [mem_spans, mem_spans, h]

end

-- ---------------------------------------------------------------------------
-- Checking a text
-- ---------------------------------------------------------------------------

section
variable {tag : List Char} {lines : List (List Char)} {n first last : Nat}

instance decidableLine {P : List Char → Prop} [DecidablePred P] :
    Decidable (∃ line, LineAt lines n line ∧ P line) :=
  decidable_of_iff (0 < n ∧ (lines[n - 1]?.any fun line => decide (P line)) = true)
    (by simp [LineAt, and_assoc, Option.any_eq_true])

instance : DecidablePred IsReference := fun _ => inferInstanceAs (Decidable (_ ∨ _))

instance : Decidable (ReferenceAt lines n) := decidableLine

instance : Decidable (Starts tag lines n) := decidableLine

instance : Decidable (Ends tag lines n) := decidableLine

instance : Decidable (MisreadStart tag lines n) := decidableLine

instance : Decidable (MisreadEnd tag lines n) := decidableLine

instance : Decidable (OpenAfter tag lines n first) :=
  decidable_of_iff (first ≤ n ∧ Starts tag lines first ∧
      ∀ k ≤ n, first < k → ¬Starts tag lines k ∧ ¬Ends tag lines k)
    ⟨fun ⟨hle, hs, hi⟩ => ⟨hle, hs, fun k hk hle => hi k hle hk⟩,
      fun h => ⟨h.le, h.starts, fun k hle hk => h.idle k hk hle⟩⟩

instance : Decidable (Spans tag lines first last) := decidable_of_iff _ mem_spans

theorem ReferenceAt.le_length (h : ReferenceAt lines n) : n ≤ lines.length := by
  obtain ⟨line, ⟨_, hline⟩, -⟩ := h
  obtain ⟨hlt, -⟩ := List.getElem?_eq_some_iff.mp hline
  omega

theorem harmlessReferences_iff : HarmlessReferences tag lines ↔
    ∀ n ≤ lines.length,
      (MisreadStart tag lines n → (∀ first ≤ n - 1, ¬OpenAfter tag lines (n - 1) first) ∧
        ∀ last ≤ lines.length, ¬Spans tag lines n last) ∧
      (MisreadEnd tag lines n → ∀ first ≤ n - 1, ¬OpenAfter tag lines (n - 1) first) := by
  constructor
  · intro h n _
    refine ⟨fun hm => ⟨fun first _ => ?_, fun last _ => ?_⟩, fun hm first _ => ?_⟩
    · exact h.start_idle n hm first
    · exact h.start_unused n hm last
    · exact h.end_idle n hm first
  · intro h
    refine ⟨fun n hm first ho => ?_, fun n hm last hs => ?_, fun n hm first ho => ?_⟩
    · have hle := (misreadStart_iff.mp hm).2.le_length
      exact ((h n hle).1 hm).1 first ho.le ho
    · have hle := (misreadStart_iff.mp hm).2.le_length
      exact ((h n hle).1 hm).2 last hs.ends.le_length hs
    · have hle := (misreadEnd_iff.mp hm).2.le_length
      exact (h n hle).2 hm first ho.le ho

instance : Decidable (HarmlessReferences tag lines) := decidable_of_iff _ harmlessReferences_iff.symm

end

end Region

-- ---------------------------------------------------------------------------
-- What extraction makes of references
-- ---------------------------------------------------------------------------

section
open Region

variable {content tag : String} {nameFor : String → String} {entries : List (String × Version)}
  {ranges : List String} {first last : Nat}

def HasRanges (tag : String) (entries : List (String × Version)) (ranges : List String) : Prop :=
  ∃ version, (tag, version) ∈ entries ∧ version.lines = ranges

/-- No reference delimits or discards a region of the tag, and there are the same regions when the
references have no marks. -/
structure ReferencesIgnored (tag content : String) (nameFor : String → String)
    (entries : List (String × Version)) : Prop where
  first_line : ∀ ranges first last, HasRanges tag entries ranges →
    rangeText first last ∈ ranges → ¬ReferenceAt (Text.splitLines content.toList) first
  last_line : ∀ ranges first last, HasRanges tag entries ranges →
    rangeText first last ∈ ranges → ¬ReferenceAt (Text.splitLines content.toList) last
  discards : ∀ n, ReferenceAt (Text.splitLines content.toList) n →
    ¬Discards tag.toList (Text.splitLines content.toList) n
  masked : ∀ other others,
    List.Forall₂ Masked (Text.splitLines content.toList) (Text.splitLines other.toList) →
    extract other nameFor = .ok others →
    ∀ ranges, HasRanges tag others ranges ↔ HasRanges tag entries ranges

theorem hasRanges_iff (h : extract content nameFor = .ok entries) (ht : IsTag tag) :
    HasRanges tag entries ranges ↔ ranges ≠ [] ∧
      ranges = (spans tag.toList (Text.splitLines content.toList)).map fun span =>
        rangeText span.1 span.2 := by
  have hlines (version : Version) (hm : (tag, version) ∈ entries) :
      version.lines = (spans tag.toList (Text.splitLines content.toList)).map fun span =>
        rangeText span.1 span.2 := by
    obtain ⟨-, _, -, hv⟩ := (mem_extract h).mp hm
    obtain ⟨-, rfl⟩ := extractTag?_eq_some.mp hv
    exact map_range_closed
  constructor
  · rintro ⟨version, hm, rfl⟩
    obtain ⟨-, _, -, hv⟩ := (mem_extract h).mp hm
    exact ⟨(extractTag?_some hv).2.1, hlines version hm⟩
  · rintro ⟨hne, rfl⟩
    obtain ⟨⟨first, last⟩, hs⟩ := List.exists_mem_of_ne_nil _ (mt List.map_eq_nil_iff.mpr hne)
    obtain ⟨version, hm⟩ := (exists_mem_extract_iff h).mpr ⟨ht, first, last, mem_spans.mp hs⟩
    exact ⟨version, hm, hlines version hm⟩

theorem spans_of_hasRanges (h : extract content nameFor = .ok entries) (ht : IsTag tag)
    (hr : HasRanges tag entries ranges) (hm : rangeText first last ∈ ranges) :
    Spans tag.toList (Text.splitLines content.toList) first last := by
  obtain ⟨-, rfl⟩ := (hasRanges_iff h ht).mp hr
  obtain ⟨⟨other, latest⟩, hs, he⟩ := List.mem_map.mp hm
  obtain ⟨rfl, rfl⟩ := rangeText_injective he
  exact mem_spans.mp hs

theorem exists_hasRanges (h : extract content nameFor = .ok entries) (ht : IsTag tag)
    (hs : Spans tag.toList (Text.splitLines content.toList) first last) :
    ∃ ranges, HasRanges tag entries ranges ∧ rangeText first last ∈ ranges := by
  have hm : rangeText first last ∈ (spans tag.toList (Text.splitLines content.toList)).map
      fun span => rangeText span.1 span.2 := List.mem_map.mpr ⟨_, mem_spans.mpr hs, rfl⟩
  exact ⟨_, (hasRanges_iff h ht).mpr ⟨List.ne_nil_of_mem hm, rfl⟩, hm⟩

/-- References are ignored exactly where they do no harm. -/
theorem referencesIgnored_iff (h : extract content nameFor = .ok entries) (ht : IsTag tag) :
    ReferencesIgnored tag content nameFor entries ↔
      HarmlessReferences tag.toList (Text.splitLines content.toList) := by
  constructor
  · intro hi
    refine ⟨fun n hm first ho => ?_, fun n hm last hs => ?_, fun n hm first ho => ?_⟩
    · obtain ⟨hstart, href⟩ := misreadStart_iff.mp hm
      exact hi.discards n href ⟨hstart, first, ho⟩
    · obtain ⟨ranges, hr, hin⟩ := exists_hasRanges h ht hs
      exact hi.first_line ranges n last hr hin (misreadStart_iff.mp hm).2
    · obtain ⟨hend, href⟩ := misreadEnd_iff.mp hm
      obtain ⟨k, rfl⟩ : ∃ k, n = k + 1 := Nat.exists_eq_add_one.mpr hend.pos
      have hs : Spans tag.toList (Text.splitLines content.toList) first (k + 1) :=
        spans_succ.mpr ⟨ho, fun hstart => hi.discards _ href ⟨hstart, first, ho⟩, hend⟩
      obtain ⟨ranges, hr, hin⟩ := exists_hasRanges h ht hs
      exact hi.last_line ranges first (k + 1) hr hin href
  · intro hh
    refine ⟨fun ranges first last hr hin href => ?_, fun ranges first last hr hin href => ?_,
      fun n href hd => ?_, fun other others hm ho ranges => ?_⟩
    · have hs := spans_of_hasRanges h ht hr hin
      exact hh.start_unused first (misreadStart_iff.mpr ⟨hs.starts, href⟩) last hs
    · have hs := spans_of_hasRanges h ht hr hin
      obtain ⟨k, rfl, ho⟩ := hs.exists_openAfter
      exact hh.end_idle (k + 1) (misreadEnd_iff.mpr ⟨hs.ends, href⟩) first ho
    · obtain ⟨hstart, first, ho⟩ := hd
      exact hh.start_idle n (misreadStart_iff.mpr ⟨hstart, href⟩) first ho
    · rw [hasRanges_iff ho ht, hasRanges_iff h ht, spans_congr fun _ _ => hh.spans_masked hm]

end

namespace Sample

def referred : String := "# [START demo]\nx\n# [END demo]\n#   :end-before: [START demo]\n"

def shown : String :=
  "# [START demo]\n# Shown as\n#   :end-before: [START demo]\nx = 1\n# [END demo]\n"

end Sample

theorem referencesIgnored_iff_referred :
    ∃ entries, extract Sample.referred id = .ok entries ∧ IsTag "demo" ∧
      HasRanges "demo" entries ["L1-L3"] ∧
      Region.MisreadStart "demo".toList (Text.splitLines Sample.referred.toList) 4 ∧
      Region.HarmlessReferences "demo".toList (Text.splitLines Sample.referred.toList) ∧
      (ReferencesIgnored "demo" Sample.referred id entries ↔
        Region.HarmlessReferences "demo".toList (Text.splitLines Sample.referred.toList)) := by
  obtain ⟨entries, h, hlines⟩ : ∃ entries, extract Sample.referred id = .ok entries ∧
      (entries.any fun entry => entry.1 == "demo" && entry.2.lines == ["L1-L3"]) = true :=
    ok_of_any (by decide +kernel)
  obtain ⟨⟨tag, version⟩, hm, hv⟩ := List.any_eq_true.mp hlines
  obtain ⟨rfl, hranges⟩ : tag = "demo" ∧ version.lines = ["L1-L3"] := by simpa using hv
  have ht : IsTag "demo" := by decide +kernel
  exact ⟨entries, h, ht, ⟨version, hm, hranges⟩, by decide +kernel, by decide +kernel,
    referencesIgnored_iff h ht⟩

/-- The region of `shown` begins at the line that only refers to it, and no longer at its start. -/
theorem not_forall_referencesIgnored :
    ¬∀ (content tag : String) (nameFor : String → String) (entries : List (String × Version)),
      IsTag tag → extract content nameFor = .ok entries →
      ReferencesIgnored tag content nameFor entries := by
  intro hclaim
  obtain ⟨entries, h, hlines⟩ : ∃ entries, extract Sample.shown id = .ok entries ∧
      (entries.any fun entry => entry.1 == "demo" && entry.2.lines == ["L3-L5"]) = true :=
    ok_of_any (by decide +kernel)
  obtain ⟨⟨tag, version⟩, hm, hv⟩ := List.any_eq_true.mp hlines
  obtain ⟨rfl, hranges⟩ : tag = "demo" ∧ version.lines = ["L3-L5"] := by simpa using hv
  have hignored := hclaim Sample.shown "demo" id entries (by decide +kernel) h
  have href : Region.ReferenceAt (Text.splitLines Sample.shown.toList) 3 := by decide +kernel
  exact hignored.first_line _ 3 5 ⟨version, hm, hranges⟩ (by decide) href

end SnippetTrail
