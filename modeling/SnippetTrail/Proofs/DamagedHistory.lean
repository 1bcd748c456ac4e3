import SnippetTrail.Proofs.Checkout
import SnippetTrail.Proofs.HistoryText
import SnippetTrail.Proofs.StatusGrammar

/-!
# A damaged entry costs only its own commit

A date that is no time loses the commit of its entry, and a status line that says no status is passed
over. Skipping a commit also skips its checkout, so two runs over a history and its damaged copy do not
go through the same states; but before the files of a commit are read, both hold its tree
(`commitOfBlock_dated`). Hence the commits of the other entries are the same (`log_damaged`).
-/

namespace SnippetTrail

-- ---------------------------------------------------------------------------
-- Times
-- ---------------------------------------------------------------------------

namespace Text

inductive Numeral : List Char → Int → Prop
  | unsigned {digits} : IsRun isAsciiDigit digits → Numeral digits (digitsValue digits)
  | plus {digits} : IsRun isAsciiDigit digits → Numeral ('+' :: digits) (digitsValue digits)
  | minus {digits} : IsRun isAsciiDigit digits → Numeral ('-' :: digits) (-digitsValue digits)

variable {text : List Char}

theorem readNat?_eq_some {n : Nat} :
    readNat? text = some n ↔ IsRun isAsciiDigit text ∧ digitsValue text = n := by
  simp [readNat?, IsRun, and_assoc]

theorem readInt?_eq_some {n : Int} : readInt? text = some n ↔ Numeral text n := by
  constructor
  · intro h
    unfold readInt? at h
    split at h
    all_goals
      obtain ⟨m, hm, rfl⟩ := Option.map_eq_some_iff.mp h
      obtain ⟨hrun, rfl⟩ := readNat?_eq_some.mp hm
    · exact .plus hrun
    · exact .minus hrun
    · exact .unsigned hrun
  · intro h
    cases h with
    | unsigned hrun =>
      -- a text that starts with a digit does not start with a sign
      have hsign (c : Char) (hc : isAsciiDigit c = false) (rest : List Char) : text ≠ c :: rest := by
        rintro rfl
        have hdigit := hrun.2 c List.mem_cons_self
        rw [hc] at hdigit
        cases hdigit
      rw [readInt?, readNat?_eq_some.mpr ⟨hrun, rfl⟩]
      · rfl
      · exact hsign '+' rfl
      · exact hsign '-' rfl
    | plus hrun => rw [readInt?, readNat?_eq_some.mpr ⟨hrun, rfl⟩]; rfl
    | minus hrun => rw [readInt?, readNat?_eq_some.mpr ⟨hrun, rfl⟩]; rfl

theorem isSigned64_iff {n : Int} :
    isSigned64 n = true ↔ -0x8000_0000_0000_0000 ≤ n ∧ n < 0x8000_0000_0000_0000 := by
  simp only [isSigned64, Bool.and_eq_true, decide_eq_true_eq]
  simp only [wordCount]
  omega

end Text

/-- A number of seconds, of 64 bits and in the reach of the calendar. -/
structure IsTime (text : String) (seconds : Int) : Prop where
  numeral : Text.Numeral (Text.trim text.toList) seconds
  word : -0x8000_0000_0000_0000 ≤ seconds ∧ seconds < 0x8000_0000_0000_0000
  calendar : Timestamp.earliest ≤ seconds ∧ seconds ≤ Timestamp.latest

theorem readTime?_eq_some {text : String} {seconds : Int} :
    readTime? text = some seconds ↔ IsTime text seconds := by
  simp only [readTime?, Text.readInt64?, Option.filter_eq_some_iff, Text.readInt?_eq_some,
    Text.isSigned64_iff, Timestamp.inRange, Bool.and_eq_true, decide_eq_true_eq]
  constructor
  · rintro ⟨⟨hn, hw⟩, hc⟩
    exact ⟨hn, hw, hc⟩
  · rintro ⟨hn, hw, hc⟩
    exact ⟨⟨hn, hw⟩, hc⟩

instance (text : String) : Decidable (∃ seconds, IsTime text seconds) :=
  decidable_of_iff ((readTime? text).isSome = true) (by simp only [Option.isSome_iff_exists, readTime?_eq_some])

-- ---------------------------------------------------------------------------
-- Damaged entries
-- ---------------------------------------------------------------------------

def IsRefused (line : String) : Prop :=
  IsStatus line.toList ∧ '\n' ∉ line.toList ∧ '\r' ∉ line.toList ∧ FileStatus.parse? line = none

instance : DecidablePred IsRefused := fun _ => inferInstanceAs (Decidable (_ ∧ _))

/-- The second lines are the first with refused ones anywhere among them. -/
inductive Padded : List String → List String → Prop
  | nil : Padded [] []
  | kept {line lines padded} : Padded lines padded → Padded (line :: lines) (line :: padded)
  | refused {line lines padded} : IsRefused line → Padded lines padded → Padded lines (line :: padded)

section
variable {lines padded : List String}

theorem Padded.mem_or_refused {line : String} (h : Padded lines padded) (hm : line ∈ padded) :
    line ∈ lines ∨ IsRefused line := by
  induction h with
  | nil => cases hm
  | kept _ ih =>
    rcases List.mem_cons.mp hm with rfl | hm
    · exact .inl List.mem_cons_self
    · exact (ih hm).imp_left (List.mem_cons_of_mem _)
  | refused hr _ ih =>
    rcases List.mem_cons.mp hm with rfl | hm
    · exact .inr hr
    · exact ih hm

theorem Padded.eq_nil (h : Padded lines []) : lines = [] := by
  cases h
  rfl

end

/-- An entry of a history, the dates that are written over its own, and its status lines with refused
ones among them. -/
structure DamagedEntry where
  entry : HistoryEntry
  authorDate : Option String
  committerDate : Option String
  statusLines : List String
  printed : entry.Printed
  dates : ∀ date ∈ authorDate.toList ++ committerDate.toList,
    '\n' ∉ date.toList ∧ ¬∃ seconds, IsTime date seconds
  padded : Padded entry.block.statusLines statusLines

namespace DamagedEntry

def damaged (record : DamagedEntry) : HistoryEntry :=
  { record.entry with
    block := { record.entry.block with
      authorDate := record.authorDate.getD record.entry.block.authorDate
      committerDate := record.committerDate.getD record.entry.block.committerDate
      statusLines := record.statusLines } }

def isSpoiled (record : DamagedEntry) : Bool :=
  record.authorDate.isSome || record.committerDate.isSome

def originalText (records : List DamagedEntry) : String := String.join (records.map (·.entry.text))

def damagedText (records : List DamagedEntry) : String := String.join (records.map (·.damaged.text))

def dated (records : List DamagedEntry) : List DamagedEntry := records.filter (·.entry.block.isDated)

def unspoiled (records : List DamagedEntry) (commits : List Commit) : List Commit :=
  (((dated records).zip commits).filter (!·.1.isSpoiled)).map (·.2)

variable {record : DamagedEntry}

theorem printed_damaged (record : DamagedEntry) : record.damaged.Printed where
  hash := record.printed.hash
  fields := by
    have hdate (date : Option String) (old : String) (ho : '\n' ∉ old.toList)
        (hm : ∀ new ∈ date, new ∈ record.authorDate.toList ++ record.committerDate.toList) :
        '\n' ∉ (date.getD old).toList := by
      cases date with
      | none => exact ho
      | some new => exact (record.dates new (hm new rfl)).1
    have hold := record.printed.fields
    simp only [List.forall_mem_cons] at hold ⊢
    obtain ⟨hauthor, hemail, hauthored, hcommitter, hcommitterEmail, hcommitted, hrest⟩ := hold
    exact ⟨hauthor, hemail, hdate _ _ hauthored (by simp +contextual), hcommitter, hcommitterEmail,
      hdate _ _ hcommitted (by simp +contextual), hrest⟩
  status := by
    intro line hm
    rcases record.padded.mem_or_refused hm with hm | ⟨hs, hn, hr, -⟩
    · exact record.printed.status line hm
    · exact ⟨hs, hn, fun he => hr (List.mem_of_getLast? he)⟩
  others := record.printed.others

theorem isDated_damaged (record : DamagedEntry) :
    record.damaged.block.isDated = (record.entry.block.isDated && !record.isSpoiled) := by
  obtain ⟨entry, author, committer, lines, printed, dates, padded⟩ := record
  have hnone (date : String) (hm : date ∈ author.toList ++ committer.toList) : readTime? date = none := by
    rw [Option.eq_none_iff_forall_ne_some]
    intro seconds hs
    exact (dates date hm).2 ⟨seconds, readTime?_eq_some.mp hs⟩
  cases author with
  | some date => simp [damaged, isSpoiled, LogBlock.isDated, hnone date (by simp)]
  | none =>
    cases committer with
    | some date => simp [damaged, isSpoiled, LogBlock.isDated, hnone date (by simp)]
    | none => simp [damaged, isSpoiled, LogBlock.isDated]

theorem ofText_join {read : DamagedEntry → HistoryEntry} {records : List DamagedEntry}
    (hp : ∀ record ∈ records, (read record).Printed) :
    LogBlock.ofText (String.join (records.map fun record => (read record).text)) =
      records.map fun record => (read record).block := by
  rw [LogBlock.ofText, String.toList_join, List.flatMap_map]
  induction records with
  | nil => rfl
  | cons record rest ih =>
    obtain ⟨hrecord, hrest⟩ := List.forall_mem_cons.mp hp
    rw [List.flatMap_cons, hrecord.findAll_entry, ih hrest, List.map_cons]

end DamagedEntry

-- ---------------------------------------------------------------------------
-- Reading files
-- ---------------------------------------------------------------------------

namespace Repository

section
variable {σ σ' : Type} {host : Host σ} {host' : Host σ'} {repository : Repository} {machine : σ}
  {machine' : σ'} {path line : String} {lines padded : List String}

theorem readFile_congr
    (h : repository.contents host machine path = repository.contents host' machine' path) :
    repository.readFile host path machine = repository.readFile host' path machine' := by
  obtain ⟨hkind, hbytes⟩ := Held.mk.inj h
  simp only [readFile, hkind, hbytes]

theorem readFileIfThere_congr
    (h : repository.contents host machine path = repository.contents host' machine' path) :
    repository.readFileIfThere host path machine = repository.readFileIfThere host' path machine' := by
  simp only [readFileIfThere, readFile_congr h]

theorem filesOfStatus_congr (h : ∀ status ∈ FileStatus.parse? line, ∀ path ∈ status.paths,
      repository.contents host machine path = repository.contents host' machine' path) :
    repository.filesOfStatus host line machine = repository.filesOfStatus host' line machine' := by
  unfold filesOfStatus
  cases hp : FileStatus.parse? line with
  | none => rfl
  | some status =>
    have hpaths := h status hp
    cases status with
    | deleted path => rfl
    | added path | modified path | renamed _ path =>
      simp only [readFile_congr (hpaths path (by simp [FileStatus.paths]))]
    | copied source target =>
      simp only [readFileIfThere_congr (hpaths source (by simp [FileStatus.paths])),
        readFileIfThere_congr (hpaths target (by simp [FileStatus.paths]))]

theorem filesOfStatuses_cons : repository.filesOfStatuses host (line :: lines) machine =
    (repository.filesOfStatus host line machine).bind fun files =>
      (repository.filesOfStatuses host lines machine).map (files ++ ·) := by
  unfold filesOfStatuses
  rw [List.mapM_cons]
  cases repository.filesOfStatus host line machine with
  | error error => rfl
  | ok files => cases lines.mapM fun line => repository.filesOfStatus host line machine <;> rfl

theorem filesOfStatuses_congr
    (h : ∀ line ∈ lines, ∀ status ∈ FileStatus.parse? line, ∀ path ∈ status.paths,
      repository.contents host machine path = repository.contents host' machine' path) :
    repository.filesOfStatuses host lines machine = repository.filesOfStatuses host' lines machine' := by
  induction lines with
  | nil => rfl
  | cons line lines ih =>
    obtain ⟨hline, hlines⟩ := List.forall_mem_cons.mp h
    rw [filesOfStatuses_cons, filesOfStatuses_cons, filesOfStatus_congr hline, ih hlines]

theorem filesOfStatuses_padded (h : Padded lines padded) :
    repository.filesOfStatuses host padded machine = repository.filesOfStatuses host lines machine := by
  induction h with
  | nil => rfl
  | kept _ ih => rw [filesOfStatuses_cons, filesOfStatuses_cons, ih]
  | @refused line lines _ hr _ ih =>
    have hnone : repository.filesOfStatus host line machine = .ok [] := by
      rw [filesOfStatus, hr.2.2.2]
    rw [filesOfStatuses_cons, hnone, ih]
    cases repository.filesOfStatuses host lines machine <;> rfl

end

end Repository

-- ---------------------------------------------------------------------------
-- Commits
-- ---------------------------------------------------------------------------

theorem LogBlock.isDated_iff {block : LogBlock} : block.isDated = true ↔
    (∃ authored, readTime? block.authorDate = some authored) ∧
      ∃ committed, readTime? block.committerDate = some committed := by
  rw [isDated, Bool.and_eq_true, Option.isSome_iff_exists, Option.isSome_iff_exists]

def LogBlock.toCommit (block : LogBlock) (hash : Hash) (authored committed : Int)
    (files : List File) : Commit :=
  ⟨hash, ⟨block.author, block.authorEmail, authored⟩,
    ⟨block.committer, block.committerEmail, committed⟩, block.message, files⟩

namespace Repository

/-- A clone whose checkouts all succeed, each with the tree of its commit as the result, and whose
history from a commit is the given text. -/
structure Serves {σ : Type} (host : Host σ) (repository : Repository) (scope : Scope)
    (tracked : String → Prop) (tree : Hash → Contents) (start : Hash) (history : String) : Prop where
  checkout : ∀ hash machine, ∃ output after,
    host.run scope (repository.command ["checkout", hash.hex, "--force"]) machine = (.ok output, after) ∧
      output.isSuccess = true ∧ (repository.contents host after).SameOn tracked (tree hash)
  pipeline : ∀ machine, (repository.contents host machine).SameOn tracked (tree start) →
    ∃ output after, host.run scope (repository.pipeline start) machine = (.ok output, after) ∧
      output.isSuccess = true ∧ output.stdout = history ∧
      (repository.contents host after).SameOn tracked (tree start)

section
variable {σ : Type} {host : Host σ} {repository : Repository} {scope : Scope}
  {tracked : String → Prop} {tree : Hash → Contents} {start hash : Hash} {history : String}
  {work : WorkTree σ}

theorem onMachine_run {command : Command} {output : ProcessOutput} {machine : σ}
    (hrun : host.run scope command work.machine = (.ok output, machine))
    (hs : output.isSuccess = true) :
    onMachine (runChecked host scope command) work = (.ok output, { work with machine }) := by
  have hchecked : runChecked host scope command work.machine = (.ok output, machine) := by
    rw [runChecked, Act.run_bind, Act.ofStep, hrun]
    simp only [hs]
    rfl
  simp only [onMachine, Act.onPart, hchecked]

theorem Serves.checkout_run (hserves : Serves host repository scope tracked tree start history)
    (hf : work.Faithful host repository tracked tree) (hash : Hash) :
    ∃ after, repository.checkout host scope hash work = (.ok (), after) ∧
      after.Faithful host repository tracked tree ∧ after.head = some hash := by
  rw [Repository.checkout, Act.run_get_bind]
  by_cases hk : work.head = some hash
  · rw [if_pos (beq_iff_eq.mpr hk)]
    exact ⟨work, rfl, hf, hk⟩
  · obtain ⟨output, machine, hrun, hs, hsame⟩ := hserves.checkout hash work.machine
    have hgit : repository.git host scope ["checkout", hash.hex, "--force"] work =
        (.ok output, { work with machine }) := onMachine_run hrun hs
    rw [if_neg (by simpa using hk), Act.run_bind, hgit]
    refine ⟨⟨some hash, machine⟩, rfl, ?_, rfl⟩
    rintro other ⟨⟩
    exact hsame

theorem commitOfBlock_undated {block : LogBlock} (h : block.isDated = false) :
    repository.commitOfBlock host scope block work = (.ok none, work) := by
  unfold commitOfBlock
  cases ha : readTime? block.authorDate with
  | none => rfl
  | some authored =>
    cases hc : readTime? block.committerDate with
    | none => rfl
    | some committed => simp [LogBlock.isDated, ha, hc] at h

theorem Serves.commitOfBlock_dated (hserves : Serves host repository scope tracked tree start history)
    (hf : work.Faithful host repository tracked tree) (block : LogBlock) {authored committed : Int}
    (ha : readTime? block.authorDate = some authored)
    (hc : readTime? block.committerDate = some committed) (hh : Hash.ofHex? block.hash = some hash) :
    ∃ after, after.Faithful host repository tracked tree ∧
      (block.statusLines ≠ [] →
        (repository.contents host after.machine).SameOn tracked (tree hash)) ∧
      repository.commitOfBlock host scope block work =
        ((repository.filesOfStatuses host block.statusLines after.machine).map fun files =>
          some (block.toCommit hash authored committed files), after) := by
  unfold commitOfBlock
  simp only [ha, hc, hh]
  by_cases hl : block.statusLines = []
  · rw [if_neg (by simp [hl])]
    exact ⟨work, hf, fun hne => absurd hl hne, Act.run_ofQuery_map _ _ _⟩
  · obtain ⟨after, hrun, hafter, hhead⟩ := hserves.checkout_run hf hash
    rw [if_pos (by simp [hl]), Act.run_bind, hrun]
    exact ⟨after, hafter, fun _ => hafter hash hhead, Act.run_ofQuery_map _ _ _⟩

theorem Serves.commitOfBlock_ok (hserves : Serves host repository scope tracked tree start history)
    (hf : work.Faithful host repository tracked tree) {block : LogBlock} (hd : block.isDated = true)
    {found : Option Commit} {after : WorkTree σ}
    (h : repository.commitOfBlock host scope block work = (.ok found, after)) :
    ∃ hash authored committed files, Hash.ofHex? block.hash = some hash ∧
      readTime? block.authorDate = some authored ∧ readTime? block.committerDate = some committed ∧
      after.Faithful host repository tracked tree ∧
      (block.statusLines ≠ [] →
        (repository.contents host after.machine).SameOn tracked (tree hash)) ∧
      repository.filesOfStatuses host block.statusLines after.machine = .ok files ∧
      found = some (block.toCommit hash authored committed files) := by
  obtain ⟨⟨authored, ha⟩, committed, hc⟩ := LogBlock.isDated_iff.mp hd
  cases hh : Hash.ofHex? block.hash with
  | none =>
    simp only [commitOfBlock, ha, hc, hh] at h
    cases h
  | some hash =>
    obtain ⟨seen, hseen, hsame, hrun⟩ := hserves.commitOfBlock_dated hf block ha hc hh
    obtain ⟨hfound, rfl⟩ := Prod.mk.inj (hrun.symm.trans h)
    cases hfiles : repository.filesOfStatuses host block.statusLines seen.machine with
    | error error =>
      rw [hfiles] at hfound
      cases hfound
    | ok files =>
      rw [hfiles] at hfound
      cases hfound
      exact ⟨hash, authored, committed, files, rfl, ha, hc, hseen, hsame, rfl, rfl⟩

theorem Serves.log_run (hserves : Serves host repository scope tracked tree start history)
    (hf : work.Faithful host repository tracked tree) :
    ∃ after, after.Faithful host repository tracked tree ∧ repository.log host scope start work =
      repository.commitsOfBlocks host scope (LogBlock.ofText history) after := by
  obtain ⟨before, hrun, hbefore, hhead⟩ := hserves.checkout_run hf start
  obtain ⟨output, machine, hprint, hs, rfl, hsame⟩ :=
    hserves.pipeline before.machine (hbefore start hhead)
  refine ⟨{ before with machine }, ?_, ?_⟩
  · intro hash hh
    cases hhead.symm.trans hh
    exact hsame
  · have hmachine : onMachine (runChecked host scope (repository.pipeline start)) before =
        (.ok output, { before with machine }) := onMachine_run hprint hs
    rw [Repository.pipeline] at hmachine
    simp only [Repository.log, Act.run_bind, hrun, hmachine]

end

end Repository

structure Commit.IsOf (block : LogBlock) (commit : Commit) : Prop where
  hash : Hash.ofHex? block.hash = some commit.hash
  author : commit.author.name = block.author ∧ commit.author.email = block.authorEmail ∧
    IsTime block.authorDate commit.author.time
  committer : commit.committer.name = block.committer ∧
    commit.committer.email = block.committerEmail ∧ IsTime block.committerDate commit.committer.time
  message : commit.message = block.message

-- ---------------------------------------------------------------------------
-- Two runs
-- ---------------------------------------------------------------------------

namespace DamagedEntry

def Tracks (tracked : String → Prop) (record : DamagedEntry) : Prop :=
  ∀ line ∈ record.entry.block.statusLines, ∀ status ∈ FileStatus.parse? line, ∀ path ∈ status.paths,
    tracked path

theorem unspoiled_append {first rest : List DamagedEntry} {commits more : List Commit}
    (h : (dated first).length = commits.length) :
    unspoiled (first ++ rest) (commits ++ more) = unspoiled first commits ++ unspoiled rest more := by
  have hzip : (dated (first ++ rest)).zip (commits ++ more) =
      (dated first).zip commits ++ (dated rest).zip more := by
    rw [← List.zip_append h, dated, List.filter_append]
    rfl
  rw [unspoiled, hzip, List.filter_append, List.map_append]
  rfl

theorem unspoiled_singleton {record : DamagedEntry} (h : record.entry.block.isDated = true)
    (commit : Commit) : unspoiled [record] [commit] = if record.isSpoiled then [] else [commit] := by
  cases hs : record.isSpoiled <;> simp [unspoiled, dated, h, hs]

section
variable {σ σ' : Type} {host : Host σ} {host' : Host σ'} {repository : Repository} {scope : Scope}
  {tracked : String → Prop} {tree : Hash → Contents} {start : Hash} {history history' : String}
  {work after : WorkTree σ} {work' : WorkTree σ'} {record : DamagedEntry}
  {records : List DamagedEntry}

open Repository

theorem filesOfStatuses_damaged {machine : σ} {machine' : σ'} (ht : record.Tracks tracked)
    (hs : record.entry.block.statusLines ≠ [] →
      (repository.contents host machine).SameOn tracked (tree start))
    (hs' : record.statusLines ≠ [] →
      (repository.contents host' machine').SameOn tracked (tree start)) :
    repository.filesOfStatuses host' record.statusLines machine' =
      repository.filesOfStatuses host record.entry.block.statusLines machine := by
  rw [filesOfStatuses_padded record.padded]
  refine filesOfStatuses_congr fun line hl status hp path hpath => ?_
  have htracked : tracked path := ht line hl status hp path hpath
  have hne : record.entry.block.statusLines ≠ [] := List.ne_nil_of_mem hl
  have hne' : record.statusLines ≠ [] := fun he => hne (he ▸ record.padded).eq_nil
  rw [hs hne path htracked, hs' hne' path htracked]

theorem damaged_block_of_not_spoiled (h : record.isSpoiled = false) :
    record.damaged.block = { record.entry.block with statusLines := record.statusLines } := by
  obtain ⟨hauthor, hcommitter⟩ : record.authorDate = none ∧ record.committerDate = none := by
    simpa [isSpoiled] using h
  simp [damaged, hauthor, hcommitter]

theorem commitOfBlock_damaged
    (hserves : Serves host repository scope tracked tree start history)
    (hserves' : Serves host' repository scope tracked tree start history')
    (hf : work.Faithful host repository tracked tree)
    (hf' : work'.Faithful host' repository tracked tree) (ht : record.Tracks tracked)
    {found : Option Commit}
    (h : repository.commitOfBlock host scope record.entry.block work = (.ok found, after)) :
    after.Faithful host repository tracked tree ∧
      List.Forall₂ (fun record commit => commit.IsOf record.entry.block) (dated [record])
        found.toList ∧
      ∃ kept after', after'.Faithful host' repository tracked tree ∧
        kept.toList = unspoiled [record] found.toList ∧
        repository.commitOfBlock host' scope record.damaged.block work' = (.ok kept, after') := by
  have hdamaged := record.isDated_damaged
  cases hd : record.entry.block.isDated with
  | false =>
    rw [commitOfBlock_undated hd] at h
    cases h
    refine ⟨hf, by simp [dated, hd], none, work', hf', by simp [unspoiled, dated, hd], ?_⟩
    exact commitOfBlock_undated (by simp [hdamaged, hd])
  | true =>
    obtain ⟨hash, authored, committed, files, hh, ha, hc, hafter, hsame, hfiles, rfl⟩ :=
      hserves.commitOfBlock_ok hf hd h
    refine ⟨hafter, ?_, ?_⟩
    · have hone : dated [record] = [record] := by simp [dated, hd]
      rw [hone]
      exact .cons ⟨hh, ⟨rfl, rfl, readTime?_eq_some.mp ha⟩, ⟨rfl, rfl, readTime?_eq_some.mp hc⟩, rfl⟩
        .nil
    rw [Option.toList_some, unspoiled_singleton hd]
    cases hs : record.isSpoiled with
    | true =>
      refine ⟨none, work', hf', rfl, ?_⟩
      exact commitOfBlock_undated (by simp [hdamaged, hs])
    | false =>
      rw [damaged_block_of_not_spoiled hs]
      obtain ⟨after', hafter', hsame', hrun⟩ := hserves'.commitOfBlock_dated hf'
        { record.entry.block with statusLines := record.statusLines } ha hc hh
      have hread := filesOfStatuses_damaged ht hsame hsame'
      refine ⟨some (record.entry.block.toCommit hash authored committed files), after', hafter', rfl,
        hrun.trans ?_⟩
      rw [hread, hfiles]
      rfl

theorem commitsOfBlocks_damaged
    (hserves : Serves host repository scope tracked tree start history)
    (hserves' : Serves host' repository scope tracked tree start history')
    (hf : work.Faithful host repository tracked tree)
    (hf' : work'.Faithful host' repository tracked tree)
    (ht : ∀ record ∈ records, record.Tracks tracked) {commits : List Commit}
    (h : repository.commitsOfBlocks host scope (records.map (·.entry.block)) work =
      (.ok commits, after)) :
    List.Forall₂ (fun record commit => commit.IsOf record.entry.block) (dated records) commits ∧
      ∃ after', repository.commitsOfBlocks host' scope (records.map (·.damaged.block)) work' =
        (.ok (unspoiled records commits), after') := by
  induction records generalizing work work' commits with
  | nil =>
    cases h
    exact ⟨.nil, work', rfl⟩
  | cons record rest ih =>
    obtain ⟨hrecord, hrest⟩ := List.forall_mem_cons.mp ht
    obtain ⟨found, middle, hfirst, h⟩ := Act.bind_run_eq_ok.mp h
    obtain ⟨others, last, hothers, h⟩ := Act.bind_run_eq_ok.mp h
    cases h
    obtain ⟨hmiddle, hof, kept, middle', hmiddle', hkept, hrun⟩ :=
      commitOfBlock_damaged hserves hserves' hf hf' hrecord hfirst
    obtain ⟨hofs, after', hruns⟩ := ih hmiddle hmiddle' hrest hothers
    have hdated : dated (record :: rest) = dated [record] ++ dated rest := List.filter_append [record] rest
    refine ⟨?_, after', ?_⟩
    · rw [hdated]
      exact List.rel_append hof hofs
    · rw [← List.singleton_append, unspoiled_append hof.length_eq, ← hkept]
      exact Act.bind_run_eq_ok.mpr ⟨kept, middle', hrun,
        Act.bind_run_eq_ok.mpr ⟨_, after', hruns, rfl⟩⟩

/-- Dates that are written over with what is no time, and added status lines that say no status, lose
the commits of the entries with such a date and nothing else: where every checkout succeeds and the
history is read, the damaged history is read too, and has the other commits as they were. -/
theorem log_damaged
    (hserves : Serves host repository scope tracked tree start (originalText records))
    (hserves' : Serves host' repository scope tracked tree start (damagedText records))
    (hf : work.Faithful host repository tracked tree)
    (hf' : work'.Faithful host' repository tracked tree)
    (ht : ∀ record ∈ records, record.Tracks tracked) {commits : List Commit}
    (h : repository.log host scope start work = (.ok commits, after)) :
    List.Forall₂ (fun record commit => commit.IsOf record.entry.block) (dated records) commits ∧
      ∃ after', repository.log host' scope start work' =
        (.ok (unspoiled records commits), after') := by
  obtain ⟨ready, hready, hlog⟩ := hserves.log_run hf
  obtain ⟨ready', hready', hlog'⟩ := hserves'.log_run hf'
  rw [hlog, originalText, ofText_join fun record _ => record.printed] at h
  rw [hlog', damagedText, ofText_join fun record _ => record.printed_damaged]
  exact commitsOfBlocks_damaged hserves hserves' hready hready' ht h

end

end DamagedEntry

namespace Sample

def printer (history : String) : Host Desk :=
  { Desk.host with run := fun _ command desk =>
      (.ok (succeeds (if command.program == "bash" then history else "")),
        ⟨filesAfter desk.files command.arguments, desk.answers⟩) }

theorem printer_serves (history : String) :
    Repository.Serves (printer history) repository [] (fun _ => True) tree hash history where
  checkout := fun _ _ => ⟨_, _, rfl, rfl, fun _ _ => rfl⟩
  pipeline := fun _ h => ⟨_, _, rfl, rfl, rfl, h⟩

def dated (sha date : String) (status : List String) : HistoryEntry :=
  ⟨⟨sha, "Ada", "ada@example.com", date, "Bob", "bob@example.com", "2", "Move", " Move", status⟩, true, []⟩

/-- The first entry loses its date, and the others, of which one has no files and one no readable date,
get status lines that say nothing. -/
def records : List DamagedEntry := [
  { entry := dated "0100000000000000000000000000000000000000" "1" ["A\ta.py"]
    authorDate := some "soon"
    committerDate := none
    statusLines := ["A\ta.py"]
    printed := ⟨⟨rfl, List.all_eq_true.mp (by decide +kernel)⟩, by decide +kernel,
      by decide +kernel, nofun⟩
    dates := by decide +kernel
    padded := .kept .nil },
  { entry := dated sha " +3 " ["M\ta.py", "D\tb.py"]
    authorDate := none
    committerDate := none
    statusLines := ["T\ta.py", "M\ta.py", "A\ta b.py", "D\tb.py"]
    printed := ⟨⟨rfl, List.all_eq_true.mp (by decide +kernel)⟩, by decide +kernel,
      by decide +kernel, nofun⟩
    dates := by decide +kernel
    padded := .refused (by decide +kernel) (.kept (.refused (by decide +kernel) (.kept .nil))) },
  { entry := dated sha "4" []
    authorDate := none
    committerDate := none
    statusLines := ["U2\ta.py"]
    printed := ⟨⟨rfl, List.all_eq_true.mp (by decide +kernel)⟩, by decide +kernel,
      by decide +kernel, nofun⟩
    dates := by decide +kernel
    padded := .refused (by decide +kernel) .nil },
  { entry := dated sha "never" ["A\ta.py"]
    authorDate := none
    committerDate := some "9999999999999999999"
    statusLines := ["A\ta.py"]
    printed := ⟨⟨rfl, List.all_eq_true.mp (by decide +kernel)⟩, by decide +kernel,
      by decide +kernel, nofun⟩
    dates := by decide +kernel
    padded := .kept .nil }]

theorem log_printer (history : String) : repository.log (printer history) [] hash ⟨none, desk⟩ =
    repository.commitsOfBlocks (printer history) [] (LogBlock.ofText history)
      ⟨some hash, ⟨treeOf hash.hex, desk.answers⟩⟩ := rfl

end Sample

theorem DamagedEntry.log_damaged_records :
    ∃ commits after, Sample.repository.log (Sample.printer (originalText Sample.records)) [] Sample.hash
        ⟨none, Sample.desk⟩ = (.ok commits, after) ∧
      commits.map (fun commit => (commit.author.time, commit.files.map (·.contents))) =
        [(1, ["x\uFFFD"]), (3, ["w", ""]), (4, [])] ∧
      (unspoiled Sample.records commits).map (·.author.time) = [3, 4] ∧
      ∃ after', Sample.repository.log (Sample.printer (damagedText Sample.records)) [] Sample.hash
        ⟨none, Sample.desk⟩ = (.ok (unspoiled Sample.records commits), after') := by
  have hread : ((Sample.repository.log (Sample.printer (originalText Sample.records)) [] Sample.hash
      ⟨none, Sample.desk⟩).1.toOption.any fun commits =>
        commits.map (fun commit => (commit.author.time, commit.files.map (·.contents))) ==
            [(1, ["x\uFFFD"]), (3, ["w", ""]), (4, [])] &&
          (unspoiled Sample.records commits).map (·.author.time) == [3, 4]) = true := by
    rw [Sample.log_printer, originalText, ofText_join fun record _ => record.printed]
    decide +kernel
  obtain ⟨commits, hok, hcommits⟩ := ok_of_any hread
  obtain ⟨hall, hkept⟩ := Bool.and_eq_true_iff.mp hcommits
  obtain ⟨after, hrun⟩ := Act.exists_after hok
  have hfresh (history : String) : WorkTree.Faithful (Sample.printer history) Sample.repository
      (fun _ => True) Sample.tree ⟨none, Sample.desk⟩ := .of_none rfl
  exact ⟨commits, after, hrun, beq_iff_eq.mp hall, beq_iff_eq.mp hkept,
    (log_damaged (Sample.printer_serves (originalText Sample.records))
      (Sample.printer_serves (damagedText Sample.records)) (hfresh _) (hfresh _)
      (fun _ _ _ _ _ _ _ _ => trivial) hrun).2⟩

end SnippetTrail
