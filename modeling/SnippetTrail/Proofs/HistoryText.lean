import Mathlib.Data.List.TakeWhile
import SnippetTrail.Git.History
import SnippetTrail.Proofs.Matching

/-!
# The history text is read back

`HistoryEntry.text` is what the pipeline prints for one commit. A field ends at the first newline and
has none of its own, so whatever a field says, the block that starts at an entry ends behind its
status lines (`matchBlock_entry`), and no block starts in what is left of the entry. Hence the
entries of a history are read back one by one (`ofText_printed`).
-/

namespace SnippetTrail

def IsStatus (line : List Char) : Prop :=
  ∃ letter digits text, line = letter :: (digits ++ '\t' :: text) ∧
    Text.isAsciiUpper letter = true ∧ ∀ c ∈ digits, Text.isDecimalDigit c = true

/-- What the pipeline prints for a commit: its fields and status lines, and what stands around the
status lines. -/
structure HistoryEntry where
  block : LogBlock
  /-- A blank line stands before the status lines. -/
  blank : Bool
  /-- The lines behind the status lines. -/
  others : List String

namespace HistoryEntry

def header (entry : HistoryEntry) : List String :=
  let block := entry.block
  ["Commit: " ++ block.hash, "Author: " ++ block.author, "Author Email: " ++ block.authorEmail,
    "Author Date: " ++ block.authorDate, "Committer: " ++ block.committer,
    "Committer Email: " ++ block.committerEmail, "Committer Date: " ++ block.committerDate,
    "Subject: " ++ block.subject, "Body:" ++ block.body, "Files:"]

def lines (entry : HistoryEntry) : List String :=
  entry.header ++ (if entry.blank then [""] else []) ++ entry.block.statusLines ++ entry.others ++
    ["", ""]

def text (entry : HistoryEntry) : String := String.join (entry.lines.map (· ++ "\n"))

/-- The values are such as the pipeline prints: a whole hash, fields of one line, status lines, and
other lines that do not have the label of a commit. -/
structure Printed (entry : HistoryEntry) : Prop where
  hash : entry.block.hash.length = 40 ∧
    ∀ c ∈ entry.block.hash.toList, LogBlock.isLowerHex c = true
  fields : ∀ field ∈ [entry.block.author, entry.block.authorEmail, entry.block.authorDate,
    entry.block.committer, entry.block.committerEmail, entry.block.committerDate,
    entry.block.subject, entry.block.body], '\n' ∉ field.toList
  status : ∀ line ∈ entry.block.statusLines,
    IsStatus line.toList ∧ '\n' ∉ line.toList ∧ line.toList.getLast? ≠ some '\r'
  others : ∀ line ∈ entry.others,
    ¬IsStatus line.toList ∧ '\n' ∉ line.toList ∧ ¬"Commit: ".toList <:+: line.toList

end HistoryEntry

-- ---------------------------------------------------------------------------
-- Status lines
-- ---------------------------------------------------------------------------

namespace LogBlock

variable {rest : List Char}

theorem isStatusLine_iff {line : List Char} : isStatusLine line = true ↔ IsStatus line := by
  cases line with
  | nil => simp [isStatusLine, IsStatus]
  | cons letter line =>
    simp only [isStatusLine, Bool.and_eq_true, beq_iff_eq]
    constructor
    · rintro ⟨hl, ht⟩
      obtain ⟨text, ht⟩ := List.head?_eq_some_iff.mp ht
      refine ⟨letter, line.takeWhile Text.isDecimalDigit, text, ?_, hl, fun c hc => ?_⟩
      · rw [← ht, List.takeWhile_append_dropWhile]
      · exact List.mem_takeWhile_imp hc
    · rintro ⟨_, digits, text, he, hl, hd⟩
      cases he
      have htab : Text.isDecimalDigit '\t' = false := by decide
      refine ⟨hl, ?_⟩
      rw [List.dropWhile_append_of_pos hd, List.dropWhile_cons_of_neg (by simp [htab])]
      rfl

instance : DecidablePred IsStatus := fun _ => decidable_of_iff _ isStatusLine_iff

theorem isStatusLine_nil : isStatusLine [] = false := rfl

theorem statusRun_unlines {status others : List (List Char)} {other : List Char}
    (hn : ∀ line ∈ status ++ other :: others, '\n' ∉ line)
    (hs : ∀ line ∈ status, isStatusLine line = true) (ho : isStatusLine other = false) :
    statusRun (Text.unlines (status ++ other :: others) ++ rest) =
      (status, Text.unlines (other :: others) ++ rest) := by
  have hlines : (Text.splitAt '\n' (Text.unlines (status ++ other :: others) ++ rest)).dropLast.takeWhile
      isStatusLine = status := by
    rw [Text.splitAt_unlines hn, List.dropLast_append_of_ne_nil (Text.splitAt_ne_nil _ _),
      List.append_assoc, List.takeWhile_append_of_pos hs, List.cons_append,
      List.takeWhile_cons_of_neg (by simp [ho]), List.append_nil]
  have hdrop : (Text.unlines (status ++ other :: others) ++ rest).drop (Text.unlines status).length =
      Text.unlines (other :: others) ++ rest := by
    rw [Text.unlines_append, List.append_assoc, List.drop_left]
  simp only [statusRun, hlines]
  exact Prod.ext rfl hdrop

theorem statusText_of_getLast? {line : String} (h : line.toList.getLast? ≠ some '\r') :
    statusText line.toList = line := by
  rw [statusText, if_neg (by simpa using h), String.ofList_toList]

-- ---------------------------------------------------------------------------
-- One block
-- ---------------------------------------------------------------------------

theorem matchField_line {label value : String} (h : '\n' ∉ value.toList) :
    matchField label (label.toList ++ (value.toList ++ '\n' :: rest)) = some (value, rest) := by
  simp [matchField, Text.matchLine_append h]

theorem prefix_of_matchBlock {text : List Char} {found : LogBlock × List Char}
    (h : matchBlock text = some found) : "Commit: ".toList <+: text := by
  obtain ⟨rest, hs, -⟩ := Option.bind_eq_some_iff.mp h
  exact ⟨rest, (Text.eq_append_of_stripStart? hs).symm⟩

def afterBlank (text : List Char) : List Char := (Text.stripStart? ['\n'] text).getD text

theorem matchBlock_header {entry : HistoryEntry} (hp : entry.Printed) :
    matchBlock (Text.unlines (entry.header.map String.toList) ++ rest) =
      some ({ entry.block with statusLines := (statusRun (afterBlank rest)).1.map statusText },
        (statusRun (afterBlank rest)).2) := by
  obtain ⟨⟨hash, author, authorEmail, authorDate, committer, committerEmail, committerDate, subject,
    body, status⟩, blank, others⟩ := entry
  obtain ⟨⟨hlength, hhex⟩, hfields, -, -⟩ := hp
  simp only [List.forall_mem_cons] at hfields hlength hhex
  obtain ⟨hauthor, hemail, hdate, hcommitter, hcommitterEmail, hcommitterDate, hsubject, hbody, -⟩ :=
    hfields
  have htext : Text.unlines (HistoryEntry.header ⟨⟨hash, author, authorEmail, authorDate, committer,
      committerEmail, committerDate, subject, body, status⟩, blank, others⟩ |>.map String.toList) ++ rest =
      "Commit: ".toList ++ (hash.toList ++ (['\n'] ++ ("Author: ".toList ++ (author.toList ++ '\n' ::
      ("Author Email: ".toList ++ (authorEmail.toList ++ '\n' ::
      ("Author Date: ".toList ++ (authorDate.toList ++ '\n' ::
      ("Committer: ".toList ++ (committer.toList ++ '\n' ::
      ("Committer Email: ".toList ++ (committerEmail.toList ++ '\n' ::
      ("Committer Date: ".toList ++ (committerDate.toList ++ '\n' ::
      ("Subject: ".toList ++ (subject.toList ++ '\n' ::
      ("Body:".toList ++ (body.toList ++ '\n' :: ("Files:\n".toList ++ rest))))))))))))))))))) := by
    simp [HistoryEntry.header]
  have hcount (more : List Char) :
      Text.matchCount isLowerHex 40 (hash.toList ++ more) = some (hash.toList, more) := by
    rw [← hlength]
    exact Text.matchCount_append hhex
  rw [htext, matchBlock, Text.stripStart?_append]
  simp only [Option.bind_eq_bind, Option.bind_some]
  rw [hcount, Option.bind_some, Text.stripStart?_append, Option.bind_some, matchField_line hauthor,
    Option.bind_some, matchField_line hemail, Option.bind_some, matchField_line hdate,
    Option.bind_some, matchField_line hcommitter, Option.bind_some, matchField_line hcommitterEmail,
    Option.bind_some, matchField_line hcommitterDate, Option.bind_some, matchField_line hsubject,
    Option.bind_some, matchField_line hbody, Option.bind_some, Text.stripStart?_append,
    Option.bind_some, String.ofList_toList]
  rfl

theorem afterBlank_line {line : List Char} (hl : line ≠ []) (hn : '\n' ∉ line) :
    afterBlank (line ++ rest) = line ++ rest := by
  cases line with
  | nil => exact absurd rfl hl
  | cons c line =>
    have hc : '\n' ≠ c := fun he => hn (he ▸ List.mem_cons_self)
    simp [afterBlank, Text.stripStart?, hc]

/-- Where neither a blank line nor a status line follows the header, the first of the other lines can
be taken for the blank one. There are two more lines at least, so some are left. -/
theorem afterBlank_unlines (blank : Bool) {status others : List (List Char)}
    (hs : ∀ line ∈ status, isStatusLine line = true) (hn : ∀ line ∈ status ++ others, '\n' ∉ line)
    (ho : 2 ≤ others.length) :
    ∃ before left, others = before ++ left ∧ left ≠ [] ∧
      afterBlank (Text.unlines ((if blank then [[]] else []) ++ status ++ others) ++ rest) =
        Text.unlines (status ++ left) ++ rest := by
  have hne : others ≠ [] := List.ne_nil_of_length_pos (by omega)
  cases blank with
  | true => exact ⟨[], others, rfl, hne, rfl⟩
  | false =>
    simp only [Bool.false_eq_true, ↓reduceIte, List.nil_append]
    cases status with
    | cons line status =>
      have hline : line ≠ [] := by
        rintro rfl
        exact absurd (hs [] (by simp)) (by simp [isStatusLine_nil])
      refine ⟨[], others, rfl, hne, ?_⟩
      rw [List.cons_append, Text.unlines_cons, List.append_assoc]
      exact afterBlank_line hline (hn line (by simp))
    | nil =>
      obtain ⟨line, others, rfl⟩ := List.exists_cons_of_ne_nil hne
      by_cases hline : line = []
      · subst hline
        refine ⟨[[]], others, rfl, ?_, rfl⟩
        exact List.ne_nil_of_length_pos (Nat.le_of_succ_le_succ ho)
      · refine ⟨[], line :: others, rfl, hne, ?_⟩
        rw [List.nil_append, Text.unlines_cons, List.append_assoc]
        exact afterBlank_line hline (hn line (by simp))

end LogBlock

-- ---------------------------------------------------------------------------
-- One entry
-- ---------------------------------------------------------------------------

namespace HistoryEntry

open LogBlock

variable {entry : HistoryEntry} {rest : List Char}

def trailer (entry : HistoryEntry) : List (List Char) := entry.others.map String.toList ++ [[], []]

theorem toList_text (entry : HistoryEntry) :
    entry.text.toList = Text.unlines (entry.header.map String.toList) ++
      Text.unlines ((if entry.blank then [[]] else []) ++ entry.block.statusLines.map String.toList ++
        entry.trailer) := by
  have hlines : entry.text.toList = Text.unlines (entry.lines.map String.toList) := by
    simp [text, Text.unlines, List.flatMap_map, String.toList_append]
  have hblank : (if entry.blank then [""] else []).map String.toList =
      if entry.blank then [[]] else [] := by
    cases entry.blank <;> rfl
  rw [hlines, ← Text.unlines_append]
  simp [lines, trailer, hblank]

theorem Printed.trailer_clean (hp : entry.Printed) {line : List Char} (hm : line ∈ entry.trailer) :
    isStatusLine line = false ∧ '\n' ∉ line ∧ ¬"Commit: ".toList <:+: line := by
  rcases List.mem_append.mp hm with hm | hm
  · obtain ⟨line, hl, rfl⟩ := List.mem_map.mp hm
    obtain ⟨hs, hrest⟩ := hp.others line hl
    exact ⟨Bool.eq_false_iff.mpr (mt isStatusLine_iff.mp hs), hrest⟩
  · have he : line = [] := by simpa using hm
    subst he
    exact ⟨rfl, by simp, by simp [List.infix_nil]⟩

theorem Printed.status_clean (hp : entry.Printed) {line : List Char}
    (hm : line ∈ entry.block.statusLines.map String.toList) :
    isStatusLine line = true ∧ '\n' ∉ line := by
  obtain ⟨line, hl, rfl⟩ := List.mem_map.mp hm
  obtain ⟨hs, hn, -⟩ := hp.status line hl
  exact ⟨isStatusLine_iff.mpr hs, hn⟩

theorem Printed.status_texts (hp : entry.Printed) :
    (entry.block.statusLines.map String.toList).map statusText = entry.block.statusLines := by
  rw [List.map_map]
  refine (List.map_congr_left fun line hm => ?_).trans (List.map_id _)
  exact statusText_of_getLast? (hp.status line hm).2.2

theorem Printed.matchBlock_entry (hp : entry.Printed) (rest : List Char) :
    ∃ front left, front ≠ [] ∧ entry.text.toList = front ++ Text.unlines left ∧
      (∀ line ∈ left, ¬"Commit: ".toList <:+: line) ∧
      matchBlock (entry.text.toList ++ rest) = some (entry.block, Text.unlines left ++ rest) := by
  have hstatus : ∀ line ∈ entry.block.statusLines.map String.toList, isStatusLine line = true :=
    fun line hm => (hp.status_clean hm).1
  have hnewline : ∀ others : List (List Char), (∀ line ∈ others, line ∈ entry.trailer) →
      ∀ line ∈ entry.block.statusLines.map String.toList ++ others, '\n' ∉ line :=
    fun others ho => List.forall_mem_append.mpr
      ⟨fun line hm => (hp.status_clean hm).2, fun line hm => (hp.trailer_clean (ho line hm)).2.1⟩
  obtain ⟨before, left, hsplit, hne, hafter⟩ := @afterBlank_unlines rest entry.blank _ _ hstatus
    (hnewline entry.trailer fun line hm => hm) (by simp [trailer])
  have hleft : ∀ line ∈ left, line ∈ entry.trailer := fun line hm =>
    hsplit ▸ List.mem_append_right before hm
  refine ⟨Text.unlines (entry.header.map String.toList ++ ((if entry.blank then [[]] else []) ++
    entry.block.statusLines.map String.toList ++ before)), left, ?_, ?_,
    fun line hm => (hp.trailer_clean (hleft line hm)).2.2, ?_⟩
  · simp [header]
  · rw [toList_text, hsplit, ← Text.unlines_append, ← Text.unlines_append]
    simp only [List.append_assoc]
  · obtain ⟨first, others, rfl⟩ := List.exists_cons_of_ne_nil hne
    have hfirst := (hp.trailer_clean (hleft first (by simp))).1
    rw [toList_text, List.append_assoc, matchBlock_header hp, hafter,
      statusRun_unlines (hnewline _ hleft) hstatus hfirst, hp.status_texts]

theorem Printed.findAll_entry (hp : entry.Printed) (rest : List Char) :
    Text.findAll matchBlock (entry.text.toList ++ rest) =
      entry.block :: Text.findAll matchBlock rest := by
  obtain ⟨front, left, hne, htext, hleft, hmatch⟩ := hp.matchBlock_entry rest
  obtain ⟨c, front, rfl⟩ := List.exists_cons_of_ne_nil hne
  have hcons : entry.text.toList ++ rest = c :: (front ++ (Text.unlines left ++ rest)) := by
    rw [htext]
    simp
  rw [hcons] at hmatch ⊢
  rw [Text.findAll_of_match hmatch (List.suffix_append _ _)]
  have hmark : ∀ text found, matchBlock text = some found → "Commit: ".toList <+: text :=
    fun _ _ hf => prefix_of_matchBlock hf
  rw [Text.findAll_unlines hmark (by decide) hleft]

end HistoryEntry

-- ---------------------------------------------------------------------------
-- Whole histories
-- ---------------------------------------------------------------------------

/-- The text that the pipeline prints is read back as one block an entry, in order and with every
field as it was, although the fields are free to look like labels and whole blocks. -/
theorem LogBlock.ofText_printed {entries : List HistoryEntry} (hp : ∀ entry ∈ entries, entry.Printed) :
    LogBlock.ofText (String.join (entries.map (·.text))) = entries.map (·.block) := by
  rw [LogBlock.ofText, String.toList_join, List.flatMap_map]
  induction entries with
  | nil => rfl
  | cons entry rest ih =>
    obtain ⟨hentry, hrest⟩ := List.forall_mem_cons.mp hp
    rw [List.flatMap_cons, hentry.findAll_entry, ih hrest, List.map_cons]

namespace Sample

def sha : String := "0123456789abcdef0123456789abcdef01234567"

def forged : HistoryEntry where
  block := ⟨sha, "Author Email: eve@example.com", "Files:", "Commit: " ++ sha, "\r", "", "Body:",
    "Commit: " ++ sha, " Files: A\tx.py", ["A\ta.py", "R100\ta.py\tCommit: " ++ sha]⟩
  blank := true
  others := ["", "warning: A\tb.py", "Commit:"]

def merge : HistoryEntry :=
  ⟨⟨sha, "Ada", "ada@example.com", "1", "Bob", "bob@example.com", "2", "Merge", "", []⟩, false, []⟩

end Sample

theorem LogBlock.ofText_printed_forged :
    (∀ entry ∈ [Sample.forged, Sample.merge, Sample.forged], entry.Printed) ∧
      LogBlock.ofText (String.join ([Sample.forged, Sample.merge, Sample.forged].map (·.text))) =
        [Sample.forged.block, Sample.merge.block, Sample.forged.block] := by
  have hhash : Sample.sha.length = 40 ∧ ∀ c ∈ Sample.sha.toList, LogBlock.isLowerHex c = true :=
    ⟨rfl, List.all_eq_true.mp (by decide +kernel)⟩
  have hforged : Sample.forged.Printed :=
    ⟨hhash, by decide +kernel, by decide +kernel, by decide +kernel⟩
  have hmerge : Sample.merge.Printed :=
    ⟨hhash, by decide +kernel, by decide +kernel, by decide +kernel⟩
  have hp : ∀ entry ∈ [Sample.forged, Sample.merge, Sample.forged], entry.Printed := by
    simp [hforged, hmerge]
  exact ⟨hp, LogBlock.ofText_printed hp⟩

end SnippetTrail
