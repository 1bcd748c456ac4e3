import SnippetTrail.Proofs.HashText
import SnippetTrail.Proofs.Matching
import SnippetTrail.Proofs.Update

/-!
# Reading the list of references

A name may hold characters that the reader of the list does not know. It reads the name up to the first
of them, and passes over a line whose name begins with one (`ofListing_listing`). So the list is read
back exactly if all names are made of path characters, and an update follows its own branch exactly if
no other name is cut off to the name of the branch (`readBack_iff`).
-/

namespace SnippetTrail

-- ---------------------------------------------------------------------------
-- Names and lines
-- ---------------------------------------------------------------------------

namespace RefName

def isControl (c : Char) : Bool := c.toNat < 0x20 || (0x7F ≤ c.toNat && c.toNat ≤ 0x9F)

def isLegalChar (c : Char) : Bool :=
  !Text.isBlank c && !isControl c && !"~^:?*[\\".toList.contains c

structure IsLegal (name : RefName) : Prop where
  ne_empty : name.text ≠ ""
  chars : ∀ c ∈ name.text.toList, isLegalChar c = true

instance (name : RefName) : Decidable name.IsLegal :=
  decidable_of_iff (name.text ≠ "" ∧ name.text.toList.all isLegalChar = true)
    ⟨fun h => ⟨h.1, List.all_eq_true.mp h.2⟩, fun h => ⟨h.ne_empty, List.all_eq_true.mpr h.chars⟩⟩

/-- The name up to its first character that is no path character. -/
def pathPart (name : RefName) : RefName := ⟨String.ofList (name.text.toList.takeWhile Text.isPathChar)⟩

theorem pathPart_eq_self {name : RefName} :
    name.pathPart = name ↔ ∀ c ∈ name.text.toList, Text.isPathChar c = true := by
  obtain ⟨text⟩ := name
  rw [pathPart, RefName.mk.injEq, ← String.toList_inj, String.toList_ofList, List.takeWhile_eq_self_iff]

theorem pathPart_pathPart (name : RefName) : name.pathPart.pathPart = name.pathPart := by
  rw [pathPart_eq_self, pathPart, String.toList_ofList]
  exact fun c hc => List.mem_takeWhile_imp hc

end RefName

structure RefLine where
  hash : Hash
  name : RefName
  deriving DecidableEq

namespace RefLine

def text (line : RefLine) : String := line.hash.hex ++ " " ++ line.name.text ++ "\n"

def reference (line : RefLine) : Reference := .direct line.name line.hash

/-- What is read of the line; nothing if its name does not begin with a path character. -/
def read? (line : RefLine) : Option Reference :=
  if line.name.pathPart.text = "" then none else some (.direct line.name.pathPart line.hash)

def listing (lines : List RefLine) : String := String.join (lines.map text)

end RefLine

-- ---------------------------------------------------------------------------
-- One line
-- ---------------------------------------------------------------------------

namespace Reference

@[simp] theorem name_direct (name : RefName) (hash : Hash) : (direct name hash).name = name := rfl

variable {text rest name tail : List Char}

theorem of_matchListed {found : Reference × List Char} (h : matchListed text = some found) :
    ∃ digits, digits.length = 40 ∧ (∀ c ∈ digits, isLowerHex c = true) ∧ digits ++ [' '] <+: text := by
  obtain ⟨⟨digits, behind⟩, hcount, h⟩ := Option.bind_eq_some_iff.mp h
  obtain ⟨more, hspace, -⟩ := Option.bind_eq_some_iff.mp h
  obtain ⟨hlength, hdigits, rfl⟩ := Text.matchCount_eq_some.mp hcount
  refine ⟨digits, hlength, hdigits, more, ?_⟩
  rw [Text.eq_append_of_stripStart? hspace, List.append_assoc]

theorem isLowerHex_of_mem_hex {hash : Hash} {c : Char} (h : c ∈ hash.hex.toList) :
    isLowerHex c = true := by
  have hdigit : ∀ n < 16, isLowerHex (Hex.digit n) = true := by decide
  rw [Hash.hex, String.toList_ofList] at h
  obtain ⟨n, hn, rfl⟩ := Hex.mem_encode h
  exact hdigit n hn

theorem matchListed_hash (hash : Hash) (text : List Char) :
    matchListed (hash.hex.toList ++ ' ' :: text) = (Text.matchRun Text.isPathChar text).map
      fun found => (.direct ⟨String.ofList found.1⟩ hash, found.2) := by
  have hcount : Text.matchCount isLowerHex 40 (hash.hex.toList ++ ' ' :: text) =
      some (hash.hex.toList, ' ' :: text) := by
    rw [← Hash.length_hex hash]
    exact Text.matchCount_append fun c hc => isLowerHex_of_mem_hex hc
  have hspace : Text.stripStart? [' '] (' ' :: text) = some text := Text.stripStart?_append [' '] text
  simp only [matchListed, hcount, hspace, Option.bind_eq_bind, Option.bind_some, String.ofList_toList,
    Hash.ofHex?_hex]
  cases Text.matchRun Text.isPathChar text <;> rfl

/-- A match begins nowhere in a line but at its start, since forty digits and a space stand only there. -/
theorem matchListed_tail {hash : Hash} (hname : ' ' ∉ name)
    (htail : tail <:+ hash.hex.toList ++ ' ' :: name) (hne : tail ≠ hash.hex.toList ++ ' ' :: name) :
    matchListed (tail ++ '\n' :: rest) = none := by
  refine Option.eq_none_iff_forall_ne_some.mpr fun found hf => ?_
  obtain ⟨digits, hlength, hdigits, hlisted⟩ := of_matchListed hf
  have hnewline : '\n' ∉ digits ++ [' '] := by
    rintro hm
    rcases List.mem_append.mp hm with hm | hm
    · exact absurd (hdigits _ hm) (by decide)
    · exact absurd hm (by decide)
  obtain ⟨more, rfl⟩ := Text.prefix_of_prefix_line hnewline hlisted
  rw [List.append_assoc, List.singleton_append] at htail hne
  have hdigit (digits : List Char) (hd : ∀ c ∈ digits, isLowerHex c = true) : ' ' ∉ digits :=
    fun hm => absurd (hd _ hm) (by decide)
  obtain ⟨before, he⟩ := htail
  rcases List.append_eq_append_iff.mp he with ⟨others, hhex, hrest⟩ | ⟨front, -, hrest⟩
  · -- the tail begins among the digits of the hash, which are no more than forty
    have hothers : ' ' ∉ others := hdigit others fun c hc =>
      isLowerHex_of_mem_hex (hhex ▸ List.mem_append_right before hc)
    have hsplit : Text.splitOnce? ' ' (digits ++ ' ' :: more) = some (digits, more) :=
      Text.splitOnce?_append (hdigit digits hdigits)
    rw [hrest, Text.splitOnce?_append hothers] at hsplit
    cases hsplit
    have hbefore : before = [] := by
      have hhash := hash.length_hex
      rw [hhex, List.length_append, hlength] at hhash
      exact List.eq_nil_of_length_eq_zero (by omega)
    exact hne (by rw [hhex, hbefore, List.nil_append])
  · -- the tail begins behind them, where there is no second space
    cases front with
    | nil =>
      cases digits with
      | nil => cases hlength
      | cons c digits =>
        obtain ⟨rfl, -⟩ := List.cons.inj hrest
        exact hdigit _ hdigits List.mem_cons_self
    | cons c front =>
      obtain ⟨-, rfl⟩ := List.cons.inj hrest
      exact hname (by simp)

-- ---------------------------------------------------------------------------
-- Whole lists
-- ---------------------------------------------------------------------------

theorem matchRun_name (name rest : List Char) :
    Text.matchRun Text.isPathChar (name ++ '\n' :: rest) =
      if name.takeWhile Text.isPathChar = [] then none
      else some (name.takeWhile Text.isPathChar, name.dropWhile Text.isPathChar ++ '\n' :: rest) := by
  have hnewline : Text.isPathChar '\n' = false := by decide
  have hspan : (name ++ '\n' :: rest).span Text.isPathChar =
      (name.takeWhile Text.isPathChar, name.dropWhile Text.isPathChar ++ '\n' :: rest) := by
    rw [List.span_eq_takeWhile_dropWhile]
    induction name with
    | nil => simp [hnewline]
    | cons c name ih =>
      cases hc : Text.isPathChar c with
      | false => simp [hc]
      | true =>
        obtain ⟨htake, hdrop⟩ := Prod.mk.inj ih
        simp [hc, htake, hdrop]
  rw [Text.matchRun, hspan]
  split
  · rename_i hempty
    rw [if_pos (Prod.mk.inj hempty).1]
  · rename_i hne
    rw [if_neg fun hempty => hne _ (Prod.ext hempty rfl)]

end Reference

namespace RefLine

variable {line : RefLine} {lines : List RefLine}

theorem toList_text (line : RefLine) (rest : List Char) : line.text.toList ++ rest =
    line.hash.hex.toList ++ ' ' :: (line.name.text.toList ++ '\n' :: rest) := by
  simp [text]

theorem matchListed_text (line : RefLine) (rest : List Char) :
    Reference.matchListed (line.text.toList ++ rest) = line.read?.map
      fun reference => (reference, line.name.text.toList.dropWhile Text.isPathChar ++ '\n' :: rest) := by
  rw [toList_text, Reference.matchListed_hash, Reference.matchRun_name, read?, RefName.pathPart]
  by_cases hfront : line.name.text.toList.takeWhile Text.isPathChar = [] <;> simp [hfront]

theorem no_space (hl : line.name.IsLegal) : ' ' ∉ line.name.text.toList := by
  intro hm
  exact absurd (hl.chars ' ' hm) (by decide)

theorem findAll_line (hl : line.name.IsLegal) (rest : List Char) :
    Text.findAll Reference.matchListed (line.text.toList ++ rest) =
      line.read?.toList ++ Text.findAll Reference.matchListed rest := by
  have htext : line.text.toList ++ rest =
      line.hash.hex.toList ++ ' ' :: line.name.text.toList ++ '\n' :: rest := by
    simp [toList_text]
  have htail (tail : List Char) (ht : tail <:+ line.hash.hex.toList ++ ' ' :: line.name.text.toList)
      (hne : tail ≠ line.hash.hex.toList ++ ' ' :: line.name.text.toList) :
      Reference.matchListed (tail ++ '\n' :: rest) = none :=
    Reference.matchListed_tail (no_space hl) ht hne
  have hmatch := line.matchListed_text rest
  cases hread : line.read? with
  | none =>
    rw [hread, Option.map_none, htext] at hmatch
    rw [htext, Option.toList_none, List.nil_append]
    refine Text.findAll_skip fun tail ht => ?_
    by_cases hne : tail = line.hash.hex.toList ++ ' ' :: line.name.text.toList
    · exact hne ▸ hmatch
    · exact htail tail ht hne
  | some reference =>
    have hne : line.hash.hex.toList ≠ [] := by
      intro he
      have hlength := line.hash.length_hex
      rw [he] at hlength
      cases hlength
    obtain ⟨c, digits, hdigits⟩ := List.exists_cons_of_ne_nil hne
    rw [hread, Option.map_some, htext, hdigits] at hmatch
    rw [htext, hdigits]
    rw [hdigits] at htail
    have hname : line.name.text.toList.dropWhile Text.isPathChar <:+ digits ++ ' ' :: line.name.text.toList :=
      (List.dropWhile_suffix _).trans ((List.suffix_cons ' ' _).trans (List.suffix_append digits _))
    simp only [List.cons_append] at hmatch htail ⊢
    rw [Text.findAll_of_match hmatch, Text.findAll_skip]
    · rfl
    · intro tail ht
      refine htail tail ((ht.trans hname).trans (List.suffix_cons c _)) fun he => ?_
      have hshorter := (ht.trans hname).length_le
      rw [he, List.length_cons] at hshorter
      omega
    · obtain ⟨before, he⟩ := hname
      exact ⟨before, by rw [← List.append_assoc, he]⟩

theorem ofListing_listing (hl : ∀ line ∈ lines, line.name.IsLegal) :
    Reference.ofListing (listing lines) = lines.filterMap read? := by
  rw [Reference.ofListing, listing, String.toList_join, List.flatMap_map]
  induction lines with
  | nil => rfl
  | cons line rest ih =>
    obtain ⟨hline, hrest⟩ := List.forall_mem_cons.mp hl
    rw [List.flatMap_cons, findAll_line hline, ih hrest, List.filterMap_cons]
    cases line.read? <;> rfl

-- ---------------------------------------------------------------------------
-- Names that are cut off
-- ---------------------------------------------------------------------------

theorem read?_eq_reference (hl : line.name.IsLegal) :
    line.read? = some line.reference ↔ line.name.pathPart = line.name := by
  unfold read?
  split
  · rename_i hempty
    simp only [reduceCtorEq, false_iff]
    intro hself
    exact hl.ne_empty (hself ▸ hempty)
  · simp [reference]

theorem filter_read? {branch : RefName} (hb : branch.text ≠ "") :
    (lines.filterMap read?).filter (·.name == branch) =
      (lines.filter (·.name.pathPart == branch)).map fun line => .direct branch line.hash := by
  induction lines with
  | nil => rfl
  | cons line rest ih =>
    rw [List.filterMap_cons, read?]
    by_cases hpart : line.name.pathPart = branch
    · rw [if_neg (hpart ▸ hb), List.filter_cons_of_pos (by simpa using hpart),
        List.filter_cons_of_pos (by simpa using hpart), List.map_cons, ih, hpart]
    · rw [List.filter_cons_of_neg (by simpa using hpart), ← ih]
      split
      · rfl
      · rename_i reference hread
        split at hread
        · cases hread
        · cases hread
          exact List.filter_cons_of_neg (by simpa using hpart)

theorem filter_read?_eq_iff {branch : RefName} (hb : branch.text ≠ "") :
    (lines.filterMap read?).filter (·.name == branch) =
        (lines.filter (·.name == branch)).map reference ↔
      ∀ line ∈ lines, line.name.pathPart = branch ↔ line.name = branch := by
  have hown : (lines.filter (·.name == branch)).map reference =
      (lines.filter (·.name == branch)).map fun line => .direct branch line.hash := by
    refine List.map_congr_left fun line hm => ?_
    have hname : line.name = branch := by simpa using (List.mem_filter.mp hm).2
    rw [reference, hname]
  rw [filter_read? hb, hown]
  constructor
  · intro h
    have hlength := congrArg List.length h
    simp only [List.length_map] at hlength
    by_cases hself : branch.pathPart = branch
    · have hsub : (lines.filter (·.name == branch)).Sublist
          (lines.filter (·.name.pathPart == branch)) := by
        refine List.monotone_filter_right lines fun line hname => ?_
        rw [beq_iff_eq] at hname ⊢
        rw [hname, hself]
      intro line hm
      have hsame := congrArg (line ∈ ·) (hsub.eq_of_length hlength.symm)
      simpa [hm] using hsame.to_iff.symm
    · -- no line is cut off to a name that would itself be cut off
      have hcut (line : RefLine) : line.name.pathPart ≠ branch := by
        rintro rfl
        exact hself (RefName.pathPart_pathPart _)
      have hnone : lines.filter (·.name.pathPart == branch) = [] :=
        List.filter_eq_nil_iff.mpr fun line _ => by simpa using hcut line
      rw [hnone] at hlength
      intro line hm
      have hname := List.filter_eq_nil_iff.mp (List.eq_nil_of_length_eq_zero hlength.symm) line hm
      simp only [beq_iff_eq] at hname
      exact iff_of_false (hcut line) hname
  · intro h
    congr 1
    exact List.filter_congr fun line hm => by simp [h line hm]

-- ---------------------------------------------------------------------------
-- Lists that are read back
-- ---------------------------------------------------------------------------

/-- The list is read back as it was written, and an update follows the lines of its branch. -/
structure ReadBack (lines : List RefLine) : Prop where
  listed : Reference.ofListing (listing lines) = lines.map reference
  followed : ∀ task : WatchedRepository.Task, task.listed = Reference.ofListing (listing lines) →
    task.followed = (lines.filter (·.name == task.branch)).map reference

/-- A line is read with its name cut off, and is lost if nothing is left of the name. The whole list is
read back exactly if no name has other than path characters; and an update of a branch follows the
lines of that branch exactly if these are the lines whose names are cut off to it. -/
theorem readBack_iff (hl : ∀ line ∈ lines, line.name.IsLegal) :
    Reference.ofListing (listing lines) = lines.filterMap read? ∧
    (ReadBack lines ↔ ∀ line ∈ lines, ∀ c ∈ line.name.text.toList, Text.isPathChar c = true) ∧
    ∀ task : WatchedRepository.Task, task.listed = Reference.ofListing (listing lines) →
      task.branch.text ≠ "" →
        (task.followed = (lines.filter (·.name == task.branch)).map reference ↔
          ∀ line ∈ lines, line.name.pathPart = task.branch ↔ line.name = task.branch) := by
  have hread := ofListing_listing hl
  have hall : Reference.ofListing (listing lines) = lines.map reference ↔
      ∀ line ∈ lines, ∀ c ∈ line.name.text.toList, Text.isPathChar c = true := by
    rw [hread, List.filterMap_eq_map_iff_forall_eq_some]
    refine forall₂_congr fun line hm => ?_
    rw [read?_eq_reference (hl line hm), RefName.pathPart_eq_self]
  refine ⟨hread, ⟨fun hback => hall.mp hback.listed, fun hchars => ?_⟩, fun task hlisted hb => ?_⟩
  · refine ⟨hall.mpr hchars, fun task hlisted => ?_⟩
    rw [WatchedRepository.Task.followed, hlisted, hall.mpr hchars, List.filter_map]
    rfl
  · rw [WatchedRepository.Task.followed, hlisted, hread]
    exact filter_read?_eq_iff hb

end RefLine

namespace Sample

def main : RefLine := ⟨.zero, .main⟩

def next : RefLine := ⟨.lenient "01", .branch "main+next"⟩

def release : RefLine := ⟨.lenient "02", ⟨"refs/tags/v1.0@x"⟩⟩

def followMain (lines : List RefLine) : WatchedRepository.Task :=
  ⟨.main, Reference.ofListing (RefLine.listing lines), []⟩

theorem listed_followMain (lines : List RefLine) :
    (followMain lines).listed = Reference.ofListing (RefLine.listing lines) := rfl

theorem refs_legal : ∀ line ∈ [main, next, release], line.name.IsLegal := by
  decide +kernel

end Sample

namespace RefLine

theorem readBack_iff_cut_off :
    (∀ line ∈ [Sample.main, Sample.release], line.name.IsLegal) ∧
      (Sample.followMain [Sample.main, Sample.release]).branch.text ≠ "" ∧
      Reference.ofListing (listing [Sample.main, Sample.release]) =
        [Sample.main, Sample.release].filterMap read? ∧
      (ReadBack [Sample.main, Sample.release] ↔ ∀ line ∈ [Sample.main, Sample.release],
        ∀ c ∈ line.name.text.toList, Text.isPathChar c = true) ∧
      ((Sample.followMain [Sample.main, Sample.release]).followed =
          ([Sample.main, Sample.release].filter (·.name == RefName.main)).map reference ↔
        ∀ line ∈ [Sample.main, Sample.release], line.name.pathPart = RefName.main ↔
          line.name = RefName.main) := by
  have hl : ∀ line ∈ [Sample.main, Sample.release], line.name.IsLegal :=
    fun line hm => Sample.refs_legal line (by simp at hm ⊢; tauto)
  have hb : RefName.main.text ≠ "" := by decide
  obtain ⟨hread, hback, hfollowed⟩ := readBack_iff hl
  exact ⟨hl, hb, hread, hback, hfollowed _ (Sample.listed_followMain _) hb⟩

/-- An update of the branch `main` also follows the branch `main+next`. -/
theorem not_forall_readBack :
    ¬∀ lines : List RefLine, (∀ line ∈ lines, line.name.IsLegal) → ReadBack lines := by
  intro hclaim
  have hback := hclaim [Sample.main, Sample.next, Sample.release] Sample.refs_legal
  have hfollowed := hback.followed _ (Sample.listed_followMain _)
  have htwo : (Sample.followMain [Sample.main, Sample.next, Sample.release]).followed.length = 2 := by
    decide +kernel
  rw [hfollowed] at htwo
  exact absurd htwo (by decide +kernel)

end RefLine

end SnippetTrail
