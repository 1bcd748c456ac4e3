import Mathlib.Data.List.Infix
import SnippetTrail.Proofs.Matching
import SnippetTrail.Tracked.Url

/-!
# Spellings of addresses

An address is the host, an owner, a slash, a name and one of four endings, and no other text is taken for
one. The endings are tried from the longest to the shortest, so of several names that an address can be
split into the shortest is taken (`ofUrl?_eq_some`). A name that does not end in `.git` is read back from
all four spellings of its address.
-/

namespace SnippetTrail.TrackedRepository

open Text (IsRun)

-- ---------------------------------------------------------------------------
-- Spellings
-- ---------------------------------------------------------------------------

structure Spells (url owner name ending : String) : Prop where
  address : url = "https://github.com/" ++ owner ++ "/" ++ name ++ ending
  ownerRun : IsRun isNameChar owner.toList
  nameRun : IsRun isNameChar name.toList
  endingListed : ending ∈ ["", "/", ".git", ".git/"]

/-- Every spelling of the address has this owner, and none a shorter name. -/
structure Shortest (url owner name : String) : Prop where
  spelled : ∃ ending, Spells url owner name ending
  sameOwner : ∀ other named ending, Spells url other named ending → other = owner
  shortest : ∀ other named ending, Spells url other named ending → name.length ≤ named.length

variable {url owner name ending : String} {text front behind : List Char} {tracked : TrackedRepository}

theorem isName_iff : isName text = true ↔ IsRun isNameChar text := by
  simp [isName, IsRun]

theorem not_slash (h : IsRun isNameChar text) : '/' ∉ text :=
  fun hm => absurd (h.2 _ hm) (by decide)

-- ---------------------------------------------------------------------------
-- The name in front of an ending
-- ---------------------------------------------------------------------------

theorem nameBefore?_eq_some : nameBefore? text ending = some front ↔
    text = front ++ ending.toList ∧ IsRun isNameChar front := by
  rw [nameBefore?, Option.filter_eq_some_iff, Text.stripEnd?_eq_some, isName_iff]

theorem findSome?_nameBefore? {endings : List String}
    (hsorted : endings.Pairwise fun first second => second.toList.length ≤ first.toList.length)
    (h : endings.findSome? (nameBefore? text) = some front) {other : List Char}
    (hm : ending ∈ endings) (htext : text = other ++ ending.toList) (hother : IsRun isNameChar other) :
    front.length ≤ other.length := by
  obtain ⟨before, found, later, rfl, hfound, hbefore⟩ := List.findSome?_eq_some_iff.mp h
  have hends := congrArg List.length (htext.symm.trans (nameBefore?_eq_some.mp hfound).1)
  rw [List.length_append, List.length_append] at hends
  obtain ⟨-, hlater, -⟩ := List.pairwise_append.mp hsorted
  have hle : ending.toList.length ≤ found.toList.length := by
    rcases List.mem_append.mp hm with hm | hm
    · have hfits := nameBefore?_eq_some.mpr ⟨htext, hother⟩
      rw [hbefore ending hm] at hfits
      cases hfits
    · rcases List.mem_cons.mp hm with rfl | hm
      · exact le_rfl
      · exact (List.pairwise_cons.mp hlater).1 ending hm
  omega

-- ---------------------------------------------------------------------------
-- Whole addresses
-- ---------------------------------------------------------------------------

theorem spells_iff : Spells url owner name ending ↔
    url.toList = hostPart.toList ++ (owner.toList ++ '/' :: (name.toList ++ ending.toList)) ∧
      IsRun isNameChar owner.toList ∧ IsRun isNameChar name.toList ∧ ending ∈ urlEndings := by
  have haddress : url = "https://github.com/" ++ owner ++ "/" ++ name ++ ending ↔
      url.toList = hostPart.toList ++ (owner.toList ++ '/' :: (name.toList ++ ending.toList)) := by
    rw [← String.toList_inj]
    simp [hostPart]
  have hending : ending ∈ ["", "/", ".git", ".git/"] ↔ ending ∈ urlEndings := by
    simp only [urlEndings, List.mem_cons, List.not_mem_nil, or_false]
    tauto
  constructor
  · rintro ⟨htext, howner, hname, hm⟩
    exact ⟨haddress.mp htext, howner, hname, hending.mp hm⟩
  · rintro ⟨htext, howner, hname, hm⟩
    exact ⟨haddress.mpr htext, howner, hname, hending.mpr hm⟩

theorem Spells.split (h : Spells url owner name ending) {found : List Char}
    (hurl : url.toList = hostPart.toList ++ (found ++ '/' :: behind)) (hf : '/' ∉ found) :
    owner.toList = found ∧ name.toList ++ ending.toList = behind := by
  obtain ⟨htext, howner, -, -⟩ := spells_iff.mp h
  have hrest := List.append_cancel_left (htext.symm.trans hurl)
  have hsplit : Text.splitOnce? '/' (found ++ '/' :: behind) = some (found, behind) :=
    Text.splitOnce?_append hf
  rw [← hrest, Text.splitOnce?_append (not_slash howner)] at hsplit
  simpa using hsplit

theorem Spells.exists_front (h : Spells url owner name ending) :
    ∃ front, urlEndings.findSome? (nameBefore? (name.toList ++ ending.toList)) = some front := by
  obtain ⟨-, -, hname, hm⟩ := spells_iff.mp h
  have hfits : nameBefore? (name.toList ++ ending.toList) ending = some name.toList :=
    nameBefore?_eq_some.mpr ⟨rfl, hname⟩
  exact Option.isSome_iff_exists.mp (List.findSome?_isSome_iff.mpr ⟨ending, hm, by rw [hfits]; rfl⟩)

theorem ofUrl?_eq_some_iff_split : ofUrl? url = some tracked ↔
    ∃ owner behind front, url.toList = hostPart.toList ++ (owner ++ '/' :: behind) ∧
      IsRun isNameChar owner ∧ urlEndings.findSome? (nameBefore? behind) = some front ∧
      tracked = ⟨String.ofList owner, String.ofList front, false, false, ""⟩ := by
  simp only [ofUrl?, Option.bind_eq_bind, Option.bind_eq_some_iff]
  constructor
  · rintro ⟨rest, hstart, ⟨owner, behind⟩, hsplit, front, hfront, h⟩
    split at h
    · rename_i howner
      cases h
      refine ⟨owner, behind, front, ?_, isName_iff.mp howner, hfront, rfl⟩
      rw [Text.eq_append_of_stripStart? hstart, (Text.of_splitOnce? hsplit).1]
    · cases h
  · rintro ⟨owner, behind, front, hurl, howner, hfront, rfl⟩
    refine ⟨owner ++ '/' :: behind, ?_, (owner, behind), ?_, front, hfront, ?_⟩
    · rw [hurl, Text.stripStart?_append]
    · exact Text.splitOnce?_append (not_slash howner)
    · rw [if_pos (isName_iff.mpr howner)]
      rfl

theorem ofUrl?_eq_some : ofUrl? url = some tracked ↔
    ∃ owner name, Shortest url owner name ∧ tracked = ⟨owner, name, false, false, ""⟩ := by
  have hsorted : urlEndings.Pairwise fun first second =>
      second.toList.length ≤ first.toList.length := by
    decide
  rw [ofUrl?_eq_some_iff_split]
  constructor
  · rintro ⟨owner, behind, front, hurl, howner, hfront, rfl⟩
    refine ⟨_, _, ⟨?_, ?_, ?_⟩, rfl⟩
    · obtain ⟨ending, hm, hending⟩ := List.exists_of_findSome?_eq_some hfront
      obtain ⟨rfl, hname⟩ := nameBefore?_eq_some.mp hending
      exact ⟨ending, spells_iff.mpr (by simpa using ⟨hurl, howner, hname, hm⟩)⟩
    · intro other named ending h
      obtain ⟨rfl, -⟩ := h.split hurl (not_slash howner)
      exact String.ofList_toList.symm
    · intro other named ending h
      obtain ⟨-, hbehind⟩ := h.split hurl (not_slash howner)
      obtain ⟨-, -, hnamed, hm⟩ := spells_iff.mp h
      have hle := findSome?_nameBefore? hsorted hfront hm hbehind.symm hnamed
      rwa [String.length_ofList, ← String.length_toList]
  · rintro ⟨owner, name, ⟨⟨ending, h⟩, hsame, hshortest⟩, rfl⟩
    obtain ⟨hurl, howner, hname, hm⟩ := spells_iff.mp h
    obtain ⟨front, hfront⟩ := h.exists_front
    obtain ⟨found, hf, hending⟩ := List.exists_of_findSome?_eq_some hfront
    obtain ⟨hbehind, hrun⟩ := nameBefore?_eq_some.mp hending
    -- what is found is spelled too, so neither name is longer
    have hspelled : Spells url owner (String.ofList front) found :=
      spells_iff.mpr (by simpa [← hbehind] using ⟨hurl, howner, hrun, hf⟩)
    have hle := findSome?_nameBefore? hsorted hfront hm rfl hname
    have hge := hshortest _ _ _ hspelled
    rw [String.length_ofList, ← String.length_toList] at hge
    have hfront' : name.toList = front := (List.append_inj hbehind (by omega)).1
    refine ⟨owner.toList, _, front, hurl, howner, hfront, ?_⟩
    rw [String.ofList_toList, ← hfront', String.ofList_toList]

theorem ofUrl_eq_ok : ofUrl url = .ok tracked ↔ ofUrl? url = some tracked := by
  unfold ofUrl
  cases ofUrl? url <;> simp

theorem exists_ofUrl_eq_ok :
    (∃ tracked, ofUrl url = .ok tracked) ↔ ∃ owner name ending, Spells url owner name ending := by
  constructor
  · rintro ⟨tracked, h⟩
    obtain ⟨owner, name, ⟨⟨ending, h⟩, -, -⟩, -⟩ := ofUrl?_eq_some.mp (ofUrl_eq_ok.mp h)
    exact ⟨owner, name, ending, h⟩
  · rintro ⟨owner, name, ending, h⟩
    obtain ⟨hurl, howner, -, -⟩ := spells_iff.mp h
    obtain ⟨front, hfront⟩ := h.exists_front
    exact ⟨_, ofUrl_eq_ok.mpr (ofUrl?_eq_some_iff_split.mpr ⟨_, _, front, hurl, howner, hfront, rfl⟩)⟩

-- ---------------------------------------------------------------------------
-- Reading back
-- ---------------------------------------------------------------------------

/-- What one ending has more than another is the end of a name only if it is `.git`. -/
theorem surplus_cases {longer : String} (hl : longer ∈ urlEndings) (he : ending ∈ urlEndings)
    (h : longer.toList = front ++ ending.toList) : front = [] ∨ '/' ∈ front ∨ front = ".git".toList := by
  have hall : ∀ longer ∈ urlEndings, ∀ ending ∈ urlEndings, ∀ front ∈ longer.toList.inits,
      longer.toList = front ++ ending.toList → front = [] ∨ '/' ∈ front ∨ front = ".git".toList := by
    decide
  refine hall longer hl ending he front ?_ h
  rw [List.mem_inits, h]
  exact List.prefix_append _ _

theorem shortest_url (howner : IsRun isNameChar tracked.owner.toList)
    (hname : IsRun isNameChar tracked.name.toList) (hgit : ¬".git".toList <:+ tracked.name.toList)
    (hm : ending ∈ urlEndings) : Shortest (tracked.url ++ ending) tracked.owner tracked.name := by
  have hspells : Spells (tracked.url ++ ending) tracked.owner tracked.name ending :=
    spells_iff.mpr ⟨by simp [url], howner, hname, hm⟩
  have hurl := (spells_iff.mp hspells).1
  refine ⟨⟨ending, hspells⟩, fun other named ended h => ?_, fun other named ended h => ?_⟩
  · exact String.toList_injective (h.split hurl (not_slash howner)).1
  · have hbehind := (h.split hurl (not_slash howner)).2
    obtain ⟨-, -, -, hended⟩ := spells_iff.mp h
    rw [← String.length_toList, ← String.length_toList]
    rcases List.append_eq_append_iff.mp hbehind with ⟨more, hmore, hsurplus⟩ | ⟨more, hmore, -⟩
    · rcases surplus_cases hended hm hsurplus with rfl | hslash | rfl
      · simp [hmore]
      · exact absurd (hmore ▸ List.mem_append_right _ hslash) (not_slash hname)
      · exact absurd ⟨_, hmore.symm⟩ hgit
    · simp [hmore]

/-- Exactly the texts that spell an address are read, as the owner and the shortest name that they
spell, with nothing else set. A repository whose name does not end in `.git` is read back from its
address with any of the endings. -/
theorem ofUrl_spelled :
    (∀ url, (∃ tracked, ofUrl url = .ok tracked) ↔
      ∃ owner name ending, Spells url owner name ending) ∧
    (∀ url tracked, ofUrl url = .ok tracked ↔
      ∃ owner name, Shortest url owner name ∧ tracked = ⟨owner, name, false, false, ""⟩) ∧
    ∀ tracked : TrackedRepository, IsRun isNameChar tracked.owner.toList →
      IsRun isNameChar tracked.name.toList → ¬".git".toList <:+ tracked.name.toList →
      ∀ ending ∈ ["", "/", ".git", ".git/"],
        ofUrl (tracked.url ++ ending) = .ok ⟨tracked.owner, tracked.name, false, false, ""⟩ := by
  refine ⟨fun _ => exists_ofUrl_eq_ok, fun _ _ => ofUrl_eq_ok.trans ofUrl?_eq_some, ?_⟩
  intro tracked howner hname hgit ending hm
  have hlisted : ending ∈ urlEndings := by
    simp only [List.mem_cons, List.not_mem_nil, or_false] at hm
    simp only [urlEndings, List.mem_cons, List.not_mem_nil, or_false]
    tauto
  exact ofUrl_eq_ok.mpr (ofUrl?_eq_some.mpr ⟨_, _, shortest_url howner hname hgit hlisted, rfl⟩)

theorem ofUrl_spelled_dotted :
    ofUrl "https://github.com/foo/bar.git.io.git/" = .ok ⟨"foo", "bar.git.io", false, false, ""⟩ := by
  obtain ⟨-, -, hread⟩ := ofUrl_spelled
  exact hread ⟨"foo", "bar.git.io", true, true, "main"⟩ (by decide) (by decide) (by decide) ".git/"
    (by decide)

end SnippetTrail.TrackedRepository
