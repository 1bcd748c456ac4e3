import SnippetTrail.Git.FileStatus
import SnippetTrail.Proofs.Matching

/-!
# The grammar of status lines

A status line is a letter, the score of a copy or a rename, and one or two paths with blank characters
before each. `FileStatus.parse?` reads the lines that are written so and no others, and what it returns
is what they say (`parse?_spells`). The letters tell the kinds of status apart, so it does not matter
in which order the kinds are tried.
-/

namespace SnippetTrail.FileStatus

open Text (IsRun isBlank isPathChar isDecimalDigit)

-- ---------------------------------------------------------------------------
-- How a status is written
-- ---------------------------------------------------------------------------

def letter : FileStatus → Char
  | .deleted _ => 'D'
  | .added _ => 'A'
  | .copied _ _ => 'C'
  | .modified _ => 'M'
  | .renamed _ _ => 'R'

def paths : FileStatus → List String
  | .deleted path | .added path | .modified path => [path]
  | .copied source target | .renamed source target => [source, target]

def scoreLength : FileStatus → Nat
  | .copied _ _ | .renamed _ _ => 3
  | _ => 0

def IsScore (length : Nat) (score : List Char) : Prop :=
  score.length = length ∧ ∀ c ∈ score, isDecimalDigit c = true

instance (length : Nat) (score : List Char) : Decidable (IsScore length score) :=
  decidable_of_iff (score.length = length ∧ score.all isDecimalDigit = true)
    (and_congr_right fun _ => List.all_eq_true)

inductive Fields : List Char → List String → Prop
  | nil : Fields [] []
  | cons {gap rest path paths} : IsRun isBlank gap → IsRun isPathChar path.toList →
      Fields rest paths → Fields (gap ++ path.toList ++ rest) (path :: paths)

/-- The line is written as the grammar asks, and says what the status says. -/
def Spells (status : FileStatus) (line : List Char) : Prop :=
  ∃ score fields, line = status.letter :: (score ++ fields) ∧ IsScore status.scoreLength score ∧
    Fields fields status.paths

/-- The line that the version control tool prints; a score is printed only before two paths. -/
def render (status : FileStatus) (score : List Char) : String :=
  String.ofList (status.letter :: ((if status.scoreLength = 0 then [] else score) ++
    status.paths.flatMap fun path => '\t' :: path.toList))

-- ---------------------------------------------------------------------------
-- Reading paths
-- ---------------------------------------------------------------------------

variable {text rest : List Char} {path source target : String}

theorem fields_nil : Fields text [] ↔ text = [] := by
  constructor
  · rintro ⟨⟩
    rfl
  · rintro rfl
    exact .nil

theorem fields_cons {paths : List String} : Fields text (path :: paths) ↔
    ∃ gap rest, text = gap ++ path.toList ++ rest ∧ IsRun isBlank gap ∧ IsRun isPathChar path.toList ∧
      Fields rest paths := by
  constructor
  · intro h
    cases h with
    | cons hgap hpath hrest => exact ⟨_, _, rfl, hgap, hpath, hrest⟩
  · rintro ⟨gap, rest, rfl, hgap, hpath, hrest⟩
    exact .cons hgap hpath hrest

theorem Fields.stops {paths : List String} (h : Fields rest paths) {c : Char}
    (hc : rest.head? = some c) : isPathChar c = false := by
  cases h with
  | nil => cases hc
  | @cons gap _ path _ hgap _ _ =>
    obtain ⟨d, gap, rfl⟩ := List.exists_cons_of_ne_nil hgap.1
    cases hc
    exact Text.not_isPathChar_of_isBlank (hgap.2 _ List.mem_cons_self)

theorem matchPath_eq_some : matchPath text = some (path, rest) ↔
    ∃ gap, text = gap ++ path.toList ++ rest ∧ IsRun isBlank gap ∧ IsRun isPathChar path.toList ∧
      ∀ c, rest.head? = some c → isPathChar c = false := by
  constructor
  · intro h
    obtain ⟨⟨gap, behind⟩, hgap, h⟩ := Option.bind_eq_some_iff.mp h
    obtain ⟨⟨found, after⟩, hpath, h⟩ := Option.bind_eq_some_iff.mp h
    cases h
    obtain ⟨hblank, rfl, -⟩ := Text.matchRun_eq_some.mp hgap
    obtain ⟨hfound, rfl, hstop⟩ := Text.matchRun_eq_some.mp hpath
    exact ⟨gap, by simp, hblank, by simpa using hfound, hstop⟩
  · rintro ⟨gap, rfl, hgap, hpath, hstop⟩
    -- the blank characters end where the path begins
    have hblank : ∀ c, (path.toList ++ rest).head? = some c → isBlank c = false := by
      intro c hc
      obtain ⟨d, found, hd⟩ := List.exists_cons_of_ne_nil hpath.1
      rw [hd] at hc
      cases hc
      by_contra hb
      have hclass := hpath.2 c (hd ▸ List.mem_cons_self)
      rw [Text.not_isPathChar_of_isBlank (by simpa using hb)] at hclass
      cases hclass
    have hfirst : Text.matchRun isBlank (gap ++ path.toList ++ rest) = some (gap, path.toList ++ rest) :=
      Text.matchRun_eq_some.mpr ⟨hgap, List.append_assoc .., hblank⟩
    have hsecond : Text.matchRun isPathChar (path.toList ++ rest) = some (path.toList, rest) :=
      Text.matchRun_eq_some.mpr ⟨hpath, rfl, hstop⟩
    simp only [matchPath, Option.bind_eq_bind, hfirst, Option.bind_some, hsecond, String.ofList_toList]
    rfl

theorem onePath?_eq_some : onePath? text = some path ↔ Fields text [path] := by
  have hend : onePath? text = some path ↔ matchPath text = some (path, []) := by
    unfold onePath?
    split
    · rename_i found hm
      simp [hm]
    · rename_i hne
      simp only [reduceCtorEq, false_iff]
      exact hne path
  simp [hend, matchPath_eq_some, fields_cons, fields_nil]

theorem twoPaths?_eq_some : twoPaths? text = some (source, target) ↔
    ∃ score fields, text = score ++ fields ∧ IsScore 3 score ∧ Fields fields [source, target] := by
  constructor
  · intro h
    obtain ⟨⟨score, fields⟩, hscore, h⟩ := Option.bind_eq_some_iff.mp h
    obtain ⟨⟨first, rest⟩, hfirst, h⟩ := Option.bind_eq_some_iff.mp h
    obtain ⟨second, hsecond, h⟩ := Option.bind_eq_some_iff.mp h
    cases h
    obtain ⟨hlength, hdigits, rfl⟩ := Text.matchCount_eq_some.mp hscore
    obtain ⟨gap, rfl, hgap, hpath, -⟩ := matchPath_eq_some.mp hfirst
    exact ⟨score, _, rfl, ⟨hlength, hdigits⟩, .cons hgap hpath (onePath?_eq_some.mp hsecond)⟩
  · rintro ⟨score, fields, rfl, ⟨hlength, hdigits⟩, hfields⟩
    obtain ⟨gap, rest, rfl, hgap, hpath, hrest⟩ := fields_cons.mp hfields
    have hscore : Text.matchCount isDecimalDigit 3 (score ++ (gap ++ source.toList ++ rest)) =
        some (score, gap ++ source.toList ++ rest) :=
      Text.matchCount_eq_some.mpr ⟨hlength, hdigits, rfl⟩
    have hfirst : matchPath (gap ++ source.toList ++ rest) = some (source, rest) :=
      matchPath_eq_some.mpr ⟨gap, rfl, hgap, hpath, fun c hc => hrest.stops hc⟩
    simp only [twoPaths?, hscore, Option.bind_eq_bind, Option.bind_some, hfirst,
      onePath?_eq_some.mpr hrest]
    rfl

-- ---------------------------------------------------------------------------
-- Reading lines
-- ---------------------------------------------------------------------------

variable {line : String} {status : FileStatus}

theorem isScore_zero {score : List Char} : IsScore 0 score ↔ score = [] := by
  constructor
  · rintro ⟨hlength, -⟩
    exact List.length_eq_zero_iff.mp hlength
  · rintro rfl
    exact ⟨rfl, by simp⟩

theorem parse?_eq_some : parse? line = some status ↔ status.Spells line.toList := by
  constructor
  · intro h
    unfold parse? at h
    split at h
    case h_1 rest hline | h_2 rest hline | h_3 rest hline =>
      obtain ⟨path, hpath, rfl⟩ := Option.map_eq_some_iff.mp h
      exact ⟨[], rest, hline, isScore_zero.mpr rfl, onePath?_eq_some.mp hpath⟩
    case h_4 rest hline | h_5 rest hline =>
      obtain ⟨⟨source, target⟩, hpaths, rfl⟩ := Option.map_eq_some_iff.mp h
      obtain ⟨score, fields, rfl, hscore, hfields⟩ := twoPaths?_eq_some.mp hpaths
      exact ⟨score, fields, hline, hscore, hfields⟩
    case h_6 => cases h
  · rintro ⟨score, fields, hline, hscore, hfields⟩
    unfold parse?
    rw [hline]
    cases status with
    | deleted path | added path | modified path =>
      rw [isScore_zero.mp hscore]
      exact Option.map_eq_some_iff.mpr ⟨path, onePath?_eq_some.mpr hfields, rfl⟩
    | copied source target | renamed source target =>
      have hpaths : twoPaths? (score ++ fields) = some (source, target) :=
        twoPaths?_eq_some.mpr ⟨score, fields, rfl, hscore, hfields⟩
      exact Option.map_eq_some_iff.mpr ⟨(source, target), hpaths, rfl⟩

theorem fields_tabbed {paths : List String} (h : ∀ path ∈ paths, IsRun isPathChar path.toList) :
    Fields (paths.flatMap fun path => '\t' :: path.toList) paths := by
  induction paths with
  | nil => exact .nil
  | cons path rest ih =>
    obtain ⟨hpath, hrest⟩ := List.forall_mem_cons.mp h
    have hgap : IsRun isBlank ['\t'] := by decide
    exact .cons hgap hpath (ih hrest)

theorem spells_render {score : List Char} (hpaths : ∀ path ∈ status.paths, IsRun isPathChar path.toList)
    (hscore : IsScore 3 score) : status.Spells (status.render score).toList := by
  refine ⟨if status.scoreLength = 0 then [] else score, _, String.toList_ofList, ?_,
    fields_tabbed hpaths⟩
  cases status with
  | deleted path | added path | modified path => exact isScore_zero.mpr rfl
  | copied source target | renamed source target => exact hscore

-- ---------------------------------------------------------------------------
-- The kinds of status
-- ---------------------------------------------------------------------------

def kind (letter : Char) (read : List Char → Option FileStatus) (line : String) : Option FileStatus :=
  match line.toList with
  | [] => none
  | c :: rest => if c = letter then read rest else none

def kindOfOne (letter : Char) (make : String → FileStatus) : String → Option FileStatus :=
  kind letter fun rest => (onePath? rest).map make

def kindOfTwo (letter : Char) (make : String → String → FileStatus) : String → Option FileStatus :=
  kind letter fun rest => (twoPaths? rest).map fun (source, target) => make source target

def kinds : List (String → Option FileStatus) :=
  [kindOfOne 'D' deleted, kindOfOne 'A' added, kindOfTwo 'C' copied, kindOfOne 'M' modified,
    kindOfTwo 'R' renamed]

theorem kind_eq_some {letter : Char} {read : List Char → Option FileStatus} :
    kind letter read line = some status ↔
      ∃ rest, line.toList = letter :: rest ∧ read rest = some status := by
  unfold kind
  cases line.toList with
  | nil => simp
  | cons c rest => by_cases hc : c = letter <;> simp [hc]

/-- What a line is read as is what one of the kinds reads, and no kind reads anything else. -/
theorem parse?_eq_some_iff_kind :
    parse? line = some status ↔ ∃ read ∈ kinds, read line = some status := by
  simp only [kinds, List.mem_cons, List.not_mem_nil, or_false, exists_eq_or_imp, exists_eq_left,
    kindOfOne, kindOfTwo, kind_eq_some]
  unfold parse?
  split
  case h_1 rest hline | h_2 rest hline | h_3 rest hline | h_4 rest hline | h_5 rest hline =>
    simp [hline]
  case h_6 hD hA hM hC hR =>
    simp only [reduceCtorEq, false_iff, not_or, not_exists, not_and]
    exact ⟨fun rest hl => (hD rest hl).elim, fun rest hl => (hA rest hl).elim,
      fun rest hl => (hC rest hl).elim, fun rest hl => (hM rest hl).elim,
      fun rest hl => (hR rest hl).elim⟩

theorem findSome?_kinds {order : List (String → Option FileStatus)} (ho : order.Perm kinds)
    (line : String) : order.findSome? (· line) = parse? line := by
  cases hp : parse? line with
  | none =>
    refine List.findSome?_eq_none_iff.mpr fun read hm => Option.eq_none_iff_forall_ne_some.mpr ?_
    intro status hr
    rw [parse?_eq_some_iff_kind.mpr ⟨read, ho.mem_iff.mp hm, hr⟩] at hp
    cases hp
  | some status =>
    obtain ⟨read, hm, hr⟩ := parse?_eq_some_iff_kind.mp hp
    have hfound : (order.findSome? (· line)).isSome :=
      List.findSome?_isSome_iff.mpr ⟨read, ho.mem_iff.mpr hm, by simp [hr]⟩
    obtain ⟨other, hother⟩ := Option.isSome_iff_exists.mp hfound
    obtain ⟨first, hfirst, hread⟩ := List.exists_of_findSome?_eq_some hother
    have hsame := parse?_eq_some_iff_kind.mpr ⟨first, ho.mem_iff.mp hfirst, hread⟩
    rw [hother, ← hsame, hp]

-- ---------------------------------------------------------------------------
-- Reading and rendering
-- ---------------------------------------------------------------------------

/-- Exactly the lines of the grammar are read, each as the status that it spells; a status that is
rendered is read back, whatever its score; and the kinds may be tried in any order. -/
theorem parse?_spells :
    (∀ line status, parse? line = some status ↔ status.Spells line.toList) ∧
    (∀ status score, (∀ path ∈ status.paths, IsRun isPathChar path.toList) → IsScore 3 score →
      parse? (status.render score) = some status) ∧
    ∀ (order : List (String → Option FileStatus)) line, order.Perm kinds → order.findSome? (· line) = parse? line :=
  ⟨fun _ _ => parse?_eq_some,
    fun _ _ hpaths hscore => parse?_eq_some.mpr (spells_render hpaths hscore),
    fun _ line ho => findSome?_kinds ho line⟩

theorem parse?_spells_renamed :
    (∀ path ∈ (renamed "foo.bar" "foo/biz").paths, IsRun isPathChar path.toList) ∧
      IsScore 3 ['0', '8', '7'] ∧
      (renamed "foo.bar" "foo/biz").render ['0', '8', '7'] = "R087\tfoo.bar\tfoo/biz" ∧
      parse? ((renamed "foo.bar" "foo/biz").render ['0', '8', '7']) = some (renamed "foo.bar" "foo/biz") ∧
      (renamed "foo.bar" "foo/biz").Spells "R087\tfoo.bar\tfoo/biz".toList ∧
      kinds.reverse.Perm kinds ∧
      kinds.reverse.findSome? (· "R087\tfoo.bar\tfoo/biz") = parse? "R087\tfoo.bar\tfoo/biz" := by
  obtain ⟨hspells, hrender, horder⟩ := parse?_spells
  have hpaths : ∀ path ∈ (renamed "foo.bar" "foo/biz").paths, IsRun isPathChar path.toList := by decide
  have hscore : IsScore 3 ['0', '8', '7'] := by decide
  have hline : (renamed "foo.bar" "foo/biz").render ['0', '8', '7'] = "R087\tfoo.bar\tfoo/biz" := by
    decide
  have hread := hrender _ _ hpaths hscore
  exact ⟨hpaths, hscore, hline, hread, (hspells _ _).mp (hline ▸ hread), List.reverse_perm kinds,
    horder _ _ (List.reverse_perm kinds)⟩

end SnippetTrail.FileStatus
