import Mathlib.Data.List.DropRight
import Mathlib.Data.List.Infix
import SnippetTrail.Git.Remote
import SnippetTrail.Proofs.ReferenceList

/-!
# Reading the list of remotes

The reader of the list knows word characters in names, and the characters of paths, `:` and `@` in URLs.
It takes the last word of a name for the whole name, and passes over a line whose name does not end with
a word or whose URL has other characters (`ofListing_groups`). So the list is read as it was printed
exactly if it has no other characters (`readAsPrinted_iff`).
-/

namespace SnippetTrail

open Text (IsRun isBlank isWord)

-- ---------------------------------------------------------------------------
-- Lines
-- ---------------------------------------------------------------------------

structure RemoteUse where
  name : String
  url : String
  pushes : Bool

namespace RemoteUse

def purpose (use : RemoteUse) : String := if use.pushes then "(push)" else "(fetch)"

def text (use : RemoteUse) : String := use.name ++ "\t" ++ use.url ++ " " ++ use.purpose ++ "\n"

def listing (uses : List RemoteUse) : String := String.join (uses.map text)

def isShown (c : Char) : Bool := !isBlank c && !RefName.isControl c

/-- The name and the URL are not empty, and have no blank or control characters. -/
structure IsLegal (use : RemoteUse) : Prop where
  name : IsRun isShown use.name.toList
  url : IsRun isShown use.url.toList

instance (use : RemoteUse) : Decidable use.IsLegal :=
  decidable_of_iff (IsRun isShown use.name.toList ∧ IsRun isShown use.url.toList)
    ⟨fun h => ⟨h.1, h.2⟩, fun h => ⟨h.name, h.url⟩⟩

def lastWord (use : RemoteUse) : List Char := use.name.toList.rtakeWhile isWord

def read? (use : RemoteUse) : Option (String × String) :=
  if use.lastWord ≠ [] ∧ use.url.toList.all Remote.isUrlChar = true then
    some (String.ofList use.lastWord, use.url)
  else none

end RemoteUse

-- ---------------------------------------------------------------------------
-- What a line matches
-- ---------------------------------------------------------------------------

namespace Remote

variable {text rest field : List Char} {belongs : Char → Bool} {c : Char}

def matchUrl (name : List Char) : Text.Matcher (String × String) := fun text =>
  (Text.matchRun isUrlChar text).bind fun url => (Text.matchRun isBlank url.2).bind fun gap =>
    (matchUse gap.2).map fun use => ((String.ofList name, String.ofList url.1), use.2)

theorem matchListed_eq (text : List Char) : matchListed text =
    (Text.matchRun isWord text).bind fun name => (Text.matchRun isBlank name.2).bind fun gap =>
      matchUrl name.1 gap.2 := by
  unfold matchListed matchUrl
  cases Text.matchRun isWord text with
  | none => rfl
  | some name =>
    cases h : Text.matchRun isBlank name.2 with
    | none => simp [h]
    | some gap =>
      simp only [Option.bind_eq_bind, Option.bind_some, h]
      cases Text.matchRun isUrlChar gap.2 with
      | none => rfl
      | some url =>
        cases h : Text.matchRun isBlank url.2 with
        | none => simp [h]
        | some gap =>
          simp only [Option.bind_some, h]
          cases matchUse gap.2 <;> rfl

theorem matchRun_bind_blank (hf : ∀ d ∈ field, isBlank d = false) (hc : belongs c = false)
    (next : List Char → List Char → Option α) :
    ((Text.matchRun belongs (field ++ c :: rest)).bind fun found =>
        (Text.matchRun isBlank found.2).bind fun gap => next found.1 gap.2) =
      if IsRun belongs field then
        (Text.matchRun isBlank (c :: rest)).bind fun gap => next field gap.2
      else none := by
  split
  · rename_i hrun
    rw [Text.matchRun_append hrun.2 hrun.1 hc, Option.bind_some]
  · rename_i hrun
    cases hm : Text.matchRun belongs (field ++ c :: rest) with
    | none => rfl
    | some found =>
      obtain ⟨found, behind⟩ := found
      obtain ⟨hfound, htext, -⟩ := Text.matchRun_eq_some.mp hm
      rcases List.append_eq_append_iff.mp htext with ⟨others, rfl, hothers⟩ | ⟨others, rfl, hothers⟩
      · cases others with
        | nil => exact absurd (by simpa using hfound) hrun
        | cons d others =>
          obtain ⟨rfl, -⟩ := List.cons.inj hothers
          have hd := hfound.2 c (by simp)
          rw [hc] at hd
          cases hd
      · cases others with
        | nil => exact absurd (by simpa using hfound) hrun
        | cons d others =>
          have hd : isBlank d = false := hf d (by simp)
          rw [Option.bind_some, hothers, List.cons_append, Text.matchRun_none hd]
          rfl

section
variable {use : RemoteUse}

theorem not_isBlank_of_isRun {text : List Char} (h : IsRun RemoteUse.isShown text) :
    ∀ c ∈ text, isBlank c = false := by
  intro c hc
  have hshown := h.2 c hc
  simp only [RemoteUse.isShown, Bool.and_eq_true, Bool.not_eq_true'] at hshown
  exact hshown.1

theorem matchUrl_use (hl : use.IsLegal) (name : List Char) :
    matchUrl name (use.url.toList ++ ' ' :: (use.purpose.toList ++ rest)) =
      if use.url.toList.all isUrlChar = true then some ((String.ofList name, use.url), rest)
      else none := by
  have hrun : IsRun isUrlChar use.url.toList ↔ use.url.toList.all isUrlChar = true :=
    (and_iff_right hl.url.1).trans List.all_eq_true.symm
  have hgap : Text.matchRun isBlank (' ' :: (use.purpose.toList ++ rest)) =
      some ([' '], use.purpose.toList ++ rest) := by
    rw [RemoteUse.purpose]
    split <;> exact Text.matchRun_single (by decide) (by decide)
  have huse : matchUse (use.purpose.toList ++ rest) = some ((), rest) := by
    rw [RemoteUse.purpose]
    split <;> rfl
  rw [matchUrl, matchRun_bind_blank (not_isBlank_of_isRun hl.url) (by decide)
    fun url behind => (matchUse behind).map fun use => ((String.ofList name, String.ofList url), use.2)]
  simp only [hrun, hgap, Option.bind_some, huse, Option.map_some, String.ofList_toList]

theorem matchListed_name (hl : use.IsLegal) {name : List Char} (hn : name <:+ use.name.toList) :
    matchListed (name ++ '\t' :: (use.url.toList ++ ' ' :: (use.purpose.toList ++ rest))) =
      if IsRun isWord name ∧ use.url.toList.all isUrlChar = true then
        some ((String.ofList name, use.url), rest)
      else none := by
  have hblank : ∀ c ∈ name, isBlank c = false := fun c hc =>
    not_isBlank_of_isRun hl.name c (hn.subset hc)
  have hgap : Text.matchRun isBlank ('\t' :: (use.url.toList ++ ' ' :: (use.purpose.toList ++ rest))) =
      some (['\t'], use.url.toList ++ ' ' :: (use.purpose.toList ++ rest)) := by
    obtain ⟨c, url, hurl⟩ := List.exists_cons_of_ne_nil hl.url.1
    have hc : isBlank c = false := not_isBlank_of_isRun hl.url c (hurl ▸ List.mem_cons_self)
    rw [hurl]
    exact Text.matchRun_single (by decide) hc
  rw [matchListed_eq, matchRun_bind_blank hblank (by decide), hgap, Option.bind_some, matchUrl_use hl,
    ite_and]

/-- No match begins in a URL, since a bracket and no other URL stands behind it. -/
theorem matchListed_url {url : List Char} (hb : ∀ c ∈ url, isBlank c = false) :
    matchListed (url ++ ' ' :: (use.purpose.toList ++ rest)) = none := by
  have hgap : Text.matchRun isBlank (' ' :: (use.purpose.toList ++ rest)) =
      some ([' '], use.purpose.toList ++ rest) := by
    rw [RemoteUse.purpose]
    split <;> exact Text.matchRun_single (by decide) (by decide)
  have hurl : matchUrl url (use.purpose.toList ++ rest) = none := by
    rw [matchUrl, RemoteUse.purpose]
    split <;> rfl
  rw [matchListed_eq, matchRun_bind_blank hb (by decide), hgap, Option.bind_some, hurl, ite_self]

theorem matchListed_purpose {tail : List Char} (ht : tail <:+ use.purpose.toList) :
    matchListed (tail ++ '\n' :: rest) = none := by
  have hblank : ∀ c ∈ use.purpose.toList, isBlank c = false := by
    have hall : (use.purpose.toList.all fun c => !isBlank c) = true := by
      rw [RemoteUse.purpose]
      split <;> decide
    simpa using hall
  have hword : ∀ tail ∈ use.purpose.toList.tails, ¬IsRun isWord tail := by
    rw [RemoteUse.purpose]
    split <;> decide
  rw [matchListed_eq, matchRun_bind_blank (fun c hc => hblank c (ht.subset hc)) (by decide),
    if_neg (hword tail ((List.mem_tails _ _).mpr ht))]

end

end Remote

-- ---------------------------------------------------------------------------
-- Whole lists
-- ---------------------------------------------------------------------------

namespace RemoteUse

variable {use : RemoteUse} {uses : List RemoteUse}

theorem toList_text (use : RemoteUse) (rest : List Char) : use.text.toList ++ rest =
    use.name.toList ++ '\t' :: (use.url.toList ++ ' ' :: (use.purpose.toList ++ '\n' :: rest)) := by
  simp [text]

/-- The last word is the longest run of word characters that the name ends with. -/
theorem suffix_lastWord {tail : List Char} (ht : tail <:+ use.name.toList)
    (hw : ∀ c ∈ tail, isWord c = true) : tail <:+ use.lastWord := by
  obtain ⟨front, hname⟩ := ht
  rw [lastWord, ← hname, List.rtakeWhile, List.reverse_append,
    List.takeWhile_append_of_pos fun c hc => hw c (List.mem_reverse.mp hc), List.reverse_append,
    List.reverse_reverse]
  exact List.suffix_append _ _

theorem findAll_line (hl : use.IsLegal) (rest : List Char) :
    Text.findAll Remote.matchListed (use.text.toList ++ rest) =
      use.read?.toList ++ Text.findAll Remote.matchListed rest := by
  rw [toList_text, read?]
  split
  · rename_i hread
    obtain ⟨hword, hchars⟩ := hread
    have hname : use.name.toList = use.name.toList.rdropWhile isWord ++ use.lastWord :=
      List.rdropWhile_append_rtakeWhile.symm
    have hrun : IsRun isWord use.lastWord := ⟨hword, fun c hc => List.mem_rtakeWhile_imp hc⟩
    have hsuffix : use.lastWord <:+ use.name.toList := List.rtakeWhile_suffix _ _
    rw [hname, List.append_assoc, Text.findAll_pass]
    · -- the match begins with the last word of the name
      have hmatch : Remote.matchListed (use.lastWord ++ '\t' :: (use.url.toList ++ ' ' ::
          (use.purpose.toList ++ '\n' :: rest))) =
            some ((String.ofList use.lastWord, use.url), '\n' :: rest) := by
        rw [Remote.matchListed_name hl hsuffix, if_pos ⟨hrun, hchars⟩]
      obtain ⟨c, word, hcons⟩ := List.exists_cons_of_ne_nil hword
      rw [hcons, List.cons_append] at hmatch ⊢
      rw [Text.findAll_of_match hmatch]
      · have hnewline : Remote.matchListed ('\n' :: rest) = none :=
          Remote.matchListed_purpose (List.nil_suffix : [] <:+ use.purpose.toList)
        rw [Text.findAll_of_no_match hnewline]
        rfl
      · refine List.IsSuffix.trans ?_ (List.suffix_append word _)
        refine List.IsSuffix.trans ?_ (List.suffix_cons '\t' _)
        refine List.IsSuffix.trans ?_ (List.suffix_append use.url.toList _)
        exact (List.suffix_append use.purpose.toList _).trans (List.suffix_cons ' ' _)
    · intro tail ht hne
      have htail : tail ++ use.lastWord <:+ use.name.toList := by
        obtain ⟨before, hbefore⟩ := ht
        exact ⟨before, by rw [← List.append_assoc, hbefore, ← hname]⟩
      rw [← List.append_assoc, Remote.matchListed_name hl htail, if_neg]
      rintro ⟨⟨-, hall⟩, -⟩
      have hlength := (suffix_lastWord htail hall).length_le
      have hpos := List.length_pos_iff.mpr hne
      rw [List.length_append] at hlength
      omega
  · rename_i hread
    rw [Text.findAll_skip, Text.findAll_skip, Text.findAll_skip]
    · rfl
    · exact fun tail ht => Remote.matchListed_purpose ht
    · exact fun tail ht => Remote.matchListed_url fun c hc =>
        Remote.not_isBlank_of_isRun hl.url c (ht.subset hc)
    · intro tail ht
      rw [Remote.matchListed_name hl ht, if_neg]
      rintro ⟨⟨hne, hword⟩, hchars⟩
      refine hread ⟨fun hnil => hne ?_, hchars⟩
      exact List.suffix_nil.mp (hnil ▸ suffix_lastWord ht hword)

theorem findAll_listing (hl : ∀ use ∈ uses, use.IsLegal) :
    Text.findAll Remote.matchListed (listing uses).toList = uses.filterMap read? := by
  rw [listing, String.toList_join, List.flatMap_map]
  induction uses with
  | nil => rfl
  | cons use rest ih =>
    obtain ⟨huse, hrest⟩ := List.forall_mem_cons.mp hl
    rw [List.flatMap_cons, findAll_line huse, ih hrest, List.filterMap_cons]
    cases use.read? <;> rfl

end RemoteUse

-- ---------------------------------------------------------------------------
-- Grouping
-- ---------------------------------------------------------------------------

namespace Remote

variable {pairs : List (String × String)} {remotes : List Remote}

def urlsOf (name : String) (pairs : List (String × String)) : List String :=
  (pairs.filter (·.1 == name)).map (·.2)

/-- One remote for each name, in the order of the names, with the different URLs of the name in the
order in which they are first listed. -/
structure Groups (pairs : List (String × String)) (remotes : List Remote) : Prop where
  sorted : remotes.Pairwise (·.name < ·.name)
  mem : ∀ remote, remote ∈ remotes ↔
    urlsOf remote.name pairs ≠ [] ∧ remote.urls = (urlsOf remote.name pairs).eraseDups

theorem urlsOf_concat (name : String) (pairs : List (String × String)) (entry : String × String) :
    urlsOf name (pairs ++ [entry]) =
      if name = entry.1 then urlsOf name pairs ++ [entry.2] else urlsOf name pairs := by
  by_cases hn : name = entry.1
  · simp [urlsOf, hn]
  · simp [urlsOf, hn, Ne.symm hn]

theorem eraseDups_concat [DecidableEq α] (items : List α) (item : α) :
    (items ++ [item]).eraseDups =
      if item ∈ items then items.eraseDups else items.eraseDups ++ [item] := by
  rw [List.eraseDups_append]
  by_cases h : item ∈ items <;> simp [List.removeAll, h, List.eraseDups_cons]

theorem find?_addUrl (pairs : List (String × String)) (name : String) :
    (pairs.foldl addUrl Table.empty).find? name =
      if urlsOf name pairs = [] then none else some (urlsOf name pairs).eraseDups := by
  induction pairs using List.reverseRecOn generalizing name with
  | nil => rfl
  | append_singleton pairs entry ih =>
    have hknown : ((pairs.foldl addUrl Table.empty).find? entry.1).getD [] =
        (urlsOf entry.1 pairs).eraseDups := by
      rw [ih]
      split
      · rename_i hnone
        rw [hnone]
        rfl
      · rfl
    rw [List.foldl_append, List.foldl_cons, List.foldl_nil, addUrl, Table.find?_insert, urlsOf_concat]
    split
    · rename_i hn
      subst hn
      have hne : urlsOf entry.1 pairs ++ [entry.2] ≠ [] := by simp
      rw [if_neg hne, eraseDups_concat, hknown]
      simp only [List.mem_eraseDups]
    · exact ih name

theorem groups_foldl (pairs : List (String × String)) :
    Groups pairs ((pairs.foldl addUrl Table.empty).entries.map fun (name, urls) => ⟨name, urls⟩) where
  sorted := List.pairwise_map.mpr (Table.sorted _)
  mem := by
    rintro ⟨name, urls⟩
    have hentry : (⟨name, urls⟩ : Remote) ∈
        ((pairs.foldl addUrl Table.empty).entries.map fun (name, urls) => (⟨name, urls⟩ : Remote)) ↔
          (pairs.foldl addUrl Table.empty).find? name = some urls := by
      rw [Table.find?_eq_some]
      simp
    rw [hentry, find?_addUrl]
    split
    · rename_i hnone
      simp [hnone]
    · rename_i hsome
      simp [hsome, eq_comm]

theorem Groups.mem_pairs (h : Groups pairs remotes) {name url : String} :
    (name, url) ∈ pairs ↔ ∃ remote ∈ remotes, remote.name = name ∧ url ∈ remote.urls := by
  have hurls (name url : String) : url ∈ urlsOf name pairs ↔ (name, url) ∈ pairs := by
    simp [urlsOf]
  constructor
  · intro hp
    have hurl := (hurls name url).mpr hp
    refine ⟨⟨name, (urlsOf name pairs).eraseDups⟩, (h.mem _).mpr ⟨List.ne_nil_of_mem hurl, rfl⟩, rfl, ?_⟩
    exact List.mem_eraseDups.mpr hurl
  · rintro ⟨remote, hm, rfl, hurl⟩
    rw [((h.mem remote).mp hm).2, List.mem_eraseDups, hurls] at hurl
    exact hurl

end Remote

-- ---------------------------------------------------------------------------
-- Lists that are read as they were printed
-- ---------------------------------------------------------------------------

namespace RemoteUse

variable {use : RemoteUse} {uses : List RemoteUse}

def ReadAsPrinted (uses : List RemoteUse) : Prop :=
  Remote.Groups (uses.map fun use => (use.name, use.url)) (Remote.ofListing (listing uses))

theorem read?_eq_self (hl : use.IsLegal) : use.read? = some (use.name, use.url) ↔
    (∀ c ∈ use.name.toList, isWord c = true) ∧ ∀ c ∈ use.url.toList, Remote.isUrlChar c = true := by
  have hself : String.ofList use.lastWord = use.name ↔ ∀ c ∈ use.name.toList, isWord c = true := by
    rw [← String.toList_inj, String.toList_ofList]
    exact List.rtakeWhile_eq_self_iff
  unfold read?
  split
  · rename_i hread
    simp [hself, and_iff_left (List.all_eq_true.mp hread.2)]
  · rename_i hread
    simp only [reduceCtorEq, false_iff]
    rintro ⟨hword, hchars⟩
    refine hread ⟨?_, List.all_eq_true.mpr hchars⟩
    rw [lastWord, List.rtakeWhile_eq_self_iff.mpr hword]
    exact hl.name.1

theorem of_read? {pair : String × String} (h : use.read? = some pair) :
    (∀ c ∈ pair.1.toList, isWord c = true) ∧ ∀ c ∈ pair.2.toList, Remote.isUrlChar c = true := by
  unfold read? at h
  split at h
  · rename_i hread
    cases h
    refine ⟨fun c hc => ?_, List.all_eq_true.mp hread.2⟩
    rw [String.toList_ofList] at hc
    exact List.mem_rtakeWhile_imp hc
  · cases h

/-- A line is read with the last word of its name, and is lost if the name does not end with a word or the
URL has a character that is not known; what is read is grouped by names. So the list is read as it was
printed exactly if its names are words and its URLs have known characters only. -/
theorem readAsPrinted_iff (hl : ∀ use ∈ uses, use.IsLegal) :
    Remote.Groups (uses.filterMap read?) (Remote.ofListing (listing uses)) ∧
    (ReadAsPrinted uses ↔ ∀ use ∈ uses, (∀ c ∈ use.name.toList, isWord c = true) ∧
      ∀ c ∈ use.url.toList, Remote.isUrlChar c = true) := by
  have hread : Remote.Groups (uses.filterMap read?) (Remote.ofListing (listing uses)) := by
    rw [Remote.ofListing, findAll_listing hl]
    exact Remote.groups_foldl _
  refine ⟨hread, fun hprinted use hm => ?_, fun hchars => ?_⟩
  · -- the pair is among those that are read, and such pairs have only known characters
    have hpair : (use.name, use.url) ∈ uses.filterMap read? :=
      hread.mem_pairs.mpr (hprinted.mem_pairs.mp (List.mem_map_of_mem hm))
    obtain ⟨other, -, hother⟩ := List.mem_filterMap.mp hpair
    exact of_read? hother
  · have hall : uses.filterMap read? = uses.map fun use => (use.name, use.url) :=
      List.filterMap_eq_map_iff_forall_eq_some.mpr fun use hm =>
        (read?_eq_self (hl use hm)).mpr (hchars use hm)
    rwa [hall] at hread

end RemoteUse

namespace Sample

def forkFetch : RemoteUse := ⟨"fork", "https://github.com/foo/bar", false⟩

def myForkFetch : RemoteUse := ⟨"my-fork", "https://github.com/baz/bar", false⟩

def mirrorPush : RemoteUse := ⟨"mirror", "https://example.com/~ada/bar", true⟩

theorem uses_legal : ∀ use ∈ [forkFetch, myForkFetch, mirrorPush], use.IsLegal := by decide +kernel

end Sample

namespace RemoteUse

theorem readAsPrinted_iff_mirror :
    (∀ use ∈ [Sample.forkFetch, Sample.mirrorPush], use.IsLegal) ∧
      Remote.Groups ([Sample.forkFetch, Sample.mirrorPush].filterMap read?)
        (Remote.ofListing (listing [Sample.forkFetch, Sample.mirrorPush])) ∧
      (ReadAsPrinted [Sample.forkFetch, Sample.mirrorPush] ↔
        ∀ use ∈ [Sample.forkFetch, Sample.mirrorPush], (∀ c ∈ use.name.toList, isWord c = true) ∧
          ∀ c ∈ use.url.toList, Remote.isUrlChar c = true) := by
  have hl : ∀ use ∈ [Sample.forkFetch, Sample.mirrorPush], use.IsLegal :=
    fun use hm => Sample.uses_legal use (by simp at hm ⊢; tauto)
  exact ⟨hl, readAsPrinted_iff hl⟩

/-- The URL of `my-fork` is read as one of `fork`. -/
theorem not_forall_readAsPrinted :
    ¬∀ uses : List RemoteUse, (∀ use ∈ uses, use.IsLegal) → ReadAsPrinted uses := by
  intro hclaim
  have hprinted := hclaim [Sample.forkFetch, Sample.myForkFetch, Sample.mirrorPush] Sample.uses_legal
  have hread : Remote.ofListing (listing [Sample.forkFetch, Sample.myForkFetch, Sample.mirrorPush]) =
      [⟨"fork", ["https://github.com/foo/bar", "https://github.com/baz/bar"]⟩] := by
    decide +kernel
  obtain ⟨remote, hm, hname, -⟩ :=
    hprinted.mem_pairs.mp (show (Sample.myForkFetch.name, Sample.myForkFetch.url) ∈ _ by simp)
  rw [hread, List.mem_singleton] at hm
  rw [hm] at hname
  exact absurd hname (by decide)

end RemoteUse

end SnippetTrail
