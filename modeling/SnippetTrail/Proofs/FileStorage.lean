import Mathlib.Tactic.SplitIfs
import SnippetTrail.Machine.Basic

/-!
# Files keep what is written

A file that has been written is read back (`Machine.keeps`), unless its path leads to a device, which
takes everything and holds nothing of it. Making folders only adds to a tree (`FileTree.Extends`), so
files keep what they hold (`Machine.createFolders_reads`).
-/

namespace SnippetTrail

namespace FileTree

variable {tree after : FileTree} {place other : Place} {node : FileNode} {found : Found}
  {bytes : List UInt8} {base start : Place} {path : String} {follow : Bool} {steps links : Nat}
  {names : List String}

-- ---------------------------------------------------------------------------
-- Putting
-- ---------------------------------------------------------------------------

theorem node?_of_ne_nil (hplace : place ≠ []) : tree.node? place = tree.nodes.lookup place :=
  if_neg (by simpa using hplace)

theorem lookup_replaced (nodes : List (Place × FileNode)) :
    (nodes.map fun entry => if entry.1 == place then (place, node) else entry).lookup other =
      if other = place then (nodes.lookup place).map fun _ => node else nodes.lookup other := by
  induction nodes with
  | nil => simp
  | cons entry rest ih =>
    rw [List.map_cons, List.lookup_cons, List.lookup_cons, List.lookup_cons, ih]
    by_cases hentry : entry.1 = place
    · by_cases hother : other = place
      · simp [hentry, hother]
      · simp [hentry, hother, beq_eq_false_iff_ne.mpr hother]
    · by_cases hother : other = place
      · simp [hentry, hother, beq_eq_false_iff_ne.mpr (Ne.symm hentry)]
      · simp [hentry, hother]

theorem lookup_put : (tree.put place node).nodes.lookup other =
    if other = place then some node else tree.nodes.lookup other := by
  rw [put]
  split
  case isTrue hthere =>
    obtain ⟨held, hheld⟩ := Option.isSome_iff_exists.mp hthere
    rw [lookup_replaced, hheld]
    rfl
  case isFalse =>
    rw [List.lookup_cons]
    by_cases h : other = place
    · simp [h]
    · simp [h, beq_eq_false_iff_ne.mpr h]

theorem node?_put_self (hplace : place ≠ []) : (tree.put place node).node? place = some node := by
  rw [node?_of_ne_nil hplace, lookup_put, if_pos rfl]

theorem node?_put_of_ne (hne : other ≠ place) : (tree.put place node).node? other = tree.node? other := by
  rw [node?, node?, lookup_put, if_neg hne]

-- ---------------------------------------------------------------------------
-- Walking
-- ---------------------------------------------------------------------------

def isOnWay : FileNode → Bool
  | .folder | .link _ => true
  | _ => false

/-- The end of a path that does not lead to a folder: a name, with what stands there. -/
structure EndsAtName (tree : FileTree) (follow : Bool) (found : Found) : Prop where
  named : found.place ≠ []
  held : tree.node? found.place = found.node
  noSlash : found.node.isSome = true → found.wantsFolder = false
  followed : follow = true → ∀ target, found.node ≠ some (.link target)

theorem walk_ends (hw : tree.walk follow steps links start names = .ok found)
    (hn : found.node ≠ some .folder) : tree.EndsAtName follow found := by
  have hnamed (place : Place) (name : String) : place ++ [name] ≠ [] :=
    List.append_ne_nil_of_right_ne_nil _ (List.cons_ne_nil _ _)
  fun_induction FileTree.walk tree follow steps links start names with
  | case1 | case5 | case7 | case10 | case12 | case14 => cases hw
  | case2 =>
    cases hw
    exact absurd rfl hn
  | case3 _ _ _ _ _ _ ih | case4 _ _ _ _ _ _ _ ih => exact ih hw
  | case8 _ _ _ _ _ _ _ _ _ _ ih => exact ih hw
  | case15 _ _ _ _ _ _ _ _ _ _ _ _ _ _ ih => exact ih hw
  | case6 _ _ _ _ _ _ _ _ _ hnode =>
    cases hw
    exact ⟨hnamed _ _, hnode, nofun, nofun⟩
  | case9 _ _ _ _ _ _ _ _ _ _ hnode | case11 _ _ _ _ _ _ _ _ _ _ hnode =>
    cases hw
    exact ⟨hnamed _ _, hnode, fun _ => rfl, nofun⟩
  | case13 _ _ _ _ _ _ _ _ _ _ hnode hrest =>
    cases hw
    refine ⟨hnamed _ _, hnode, fun _ => rfl, ?_⟩
    rintro rfl
    simp at hrest

theorem walk_last {name : String} (hskip : ¬(name.isEmpty || name == ".") = true)
    (hup : ¬(name == "..") = true) (hlong : ¬nameLimit < name.utf8ByteSize)
    (hlast : tree.node? (start ++ [name]) = some node) (hnode : isOnWay node = false) :
    tree.walk follow (steps + 1) links start [name] = .ok ⟨start ++ [name], some node, false⟩ := by
  rw [FileTree.walk, if_neg hskip, if_neg hup, if_neg hlong]
  simp only [hlast]
  cases node with
  | file | device => rfl
  | folder | link => cases hnode

theorem walk_agrees (hw : tree.walk true steps links start names = .ok found)
    (hn : found.node ≠ some .folder) (hend : found.wantsFolder = false)
    (hway : ∀ place node, isOnWay node = true → tree.node? place = some node →
      after.node? place = some node)
    (hlast : after.node? found.place = some node) (hnode : isOnWay node = false) :
    after.walk true steps links start names = .ok ⟨found.place, some node, false⟩ := by
  fun_induction FileTree.walk tree true steps links start names with
  | case1 | case5 | case7 | case10 | case12 | case14 => cases hw
  | case2 =>
    cases hw
    exact absurd rfl hn
  | case3 _ _ _ _ _ hskip ih =>
    rw [FileTree.walk, if_pos hskip]
    exact ih hw
  | case4 _ _ _ _ _ hskip hup ih =>
    rw [FileTree.walk, if_neg hskip, if_pos hup]
    exact ih hw
  | case6 _ _ _ _ rest hskip hup hlong =>
    cases hw
    have hrest : rest = [] := by simpa using hend
    subst hrest
    exact walk_last hskip hup hlong hlast hnode
  | case9 _ _ _ _ rest hskip hup hlong _ _ _ hrest | case11 _ _ _ _ rest hskip hup hlong _ _ _ hrest =>
    cases hw
    rw [List.isEmpty_iff] at hrest
    subst hrest
    exact walk_last hskip hup hlong hlast hnode
  | case8 _ _ _ _ _ hskip hup hlong place hfolder ih =>
    have hnext := hway _ _ rfl hfolder
    simp only [place] at hnext
    simp only [FileTree.walk, hskip, hup, hlong, hnext]
    exact ih hw
  | case13 _ _ _ _ _ _ _ _ _ _ _ hrest => simp at hrest
  | case15 _ _ _ rest hskip hup hlong place target hlink hrest links start inner ih => 
    have hnext := hway _ _ rfl hlink
    simp only [place] at hnext
    simp only [FileTree.walk, hskip, hup, hlong, hnext, hrest]
    exact ih hw

-- ---------------------------------------------------------------------------
-- Writing
-- ---------------------------------------------------------------------------

/-- A path is the same walk in every tree. -/
theorem find_eq_walk (h : tree.find base follow path = .ok found) : ∃ start names,
    ∀ tree : FileTree, tree.find base follow path = tree.walk follow stepLimit linkLimit start names := by
  rw [find] at h
  split_ifs at h with hnul hempty hlong
  all_goals exact ⟨_, _, fun tree => by rw [find, if_neg hnul, if_neg hempty, if_neg hlong]⟩

theorem find_ends (hf : tree.find base follow path = .ok found) (hn : found.node ≠ some .folder) :
    tree.EndsAtName follow found := by
  obtain ⟨start, names, hwalk⟩ := find_eq_walk hf
  rw [hwalk] at hf
  exact walk_ends hf hn

theorem find_agrees (hf : tree.find base true path = .ok found) (hn : found.node ≠ some .folder)
    (hend : found.wantsFolder = false)
    (hway : ∀ place node, isOnWay node = true → tree.node? place = some node →
      after.node? place = some node)
    (hlast : after.node? found.place = some node) (hnode : isOnWay node = false) :
    after.find base true path = .ok ⟨found.place, some node, false⟩ := by
  obtain ⟨start, names, hwalk⟩ := find_eq_walk hf
  rw [hwalk] at hf ⊢
  exact walk_agrees hf hn hend hway hlast hnode

theorem find_put (hf : tree.find base true path = .ok found) (hn : found.node ≠ some .folder)
    (hend : found.wantsFolder = false) : (tree.put found.place (.file bytes)).find base true path =
      .ok ⟨found.place, some (.file bytes), false⟩ := by
  have hends := find_ends hf hn
  refine find_agrees hf hn hend (fun place node hway hheld => ?_) (node?_put_self hends.named) rfl
  refine (node?_put_of_ne ?_).trans hheld
  rintro rfl
  have hfound : found.node = some node := hends.held.symm.trans hheld
  cases node with
  | folder => exact hn hfound
  | link target => exact hends.followed rfl target hfound
  | file | device => cases hway

theorem read_of_find (h : tree.find base true path = .ok ⟨place, some (.file bytes), false⟩) :
    tree.read base path = .ok bytes ∧ tree.kind base true path = .ok (.file bytes.length) := by
  rw [read, kind, h]
  exact ⟨rfl, rfl⟩

theorem read_write (h : tree.write base false path bytes = .ok after)
    (hdevice : ∀ found device, tree.find base true path = .ok found →
      found.node ≠ some (.device device)) :
    after.read base path = .ok bytes ∧ after.kind base true path = .ok (.file bytes.length) := by
  rw [write] at h
  cases hf : tree.find base true path with
  | error fault =>
    rw [hf] at h
    cases h
  | ok found =>
    rw [hf] at h
    have hput (hn : found.node ≠ some .folder) (hend : found.wantsFolder = false)
        (hafter : tree.put found.place (.file bytes) = after) :
        after.read base path = .ok bytes ∧ after.kind base true path = .ok (.file bytes.length) := by
      rw [← hafter]
      exact read_of_find (find_put hf hn hend)
    cases hnode : found.node with
    | none =>
      simp only [hnode] at h
      split at h
      case isTrue => cases h
      case isFalse hend => exact hput (by simp [hnode]) (by simpa using hend) (Except.ok.inj h)
    | some node =>
      simp only [hnode] at h
      cases node with
      | file old =>
        have hn : found.node ≠ some .folder := by simp [hnode]
        exact hput hn ((find_ends hf hn).noSlash (by rw [hnode]; rfl)) (Except.ok.inj h)
      | folder => cases h
      | device device => exact absurd hnode (hdevice found device hf)
      | link target => exact absurd hnode ((find_ends hf (by simp [hnode])).followed rfl target)

-- ---------------------------------------------------------------------------
-- Making folders
-- ---------------------------------------------------------------------------

def Extends (tree larger : FileTree) : Prop :=
  ∀ place node, tree.node? place = some node → larger.node? place = some node

theorem Extends.refl (tree : FileTree) : tree.Extends tree := fun _ _ h => h

theorem Extends.trans {largest : FileTree} (h : tree.Extends after) (hl : after.Extends largest) :
    tree.Extends largest := fun place node hn => hl place node (h place node hn)

theorem createFolder_extends (h : tree.createFolder base path = .ok after) : tree.Extends after := by
  rw [createFolder] at h
  cases hf : tree.find base false path with
  | error fault =>
    rw [hf] at h
    cases h
  | ok found =>
    rw [hf] at h
    cases hnode : found.node with
    | some node =>
      simp only [hnode] at h
      cases h
    | none =>
      simp only [hnode] at h
      cases h
      have hends := find_ends hf (by simp [hnode])
      intro other held hheld
      refine (node?_put_of_ne ?_).trans hheld
      rintro rfl
      cases (hends.held.symm.trans hheld).symm.trans hnode

theorem createFrom_extends {paths : List String} (h : tree.createFrom base paths = .ok after) :
    tree.Extends after := by
  induction paths generalizing after with
  | nil =>
    cases h
    exact .refl tree
  | cons path above ih =>
    rw [createFrom] at h
    split at h
    case isTrue =>
      cases h
      exact .refl tree
    case isFalse =>
      split at h
      case h_1 made hmade =>
        cases h
        exact createFolder_extends hmade
      case h_2 =>
        split at h
        case h_1 => cases h
        case h_2 made hmade =>
          split at h
          case h_1 last hlast =>
            cases h
            exact (ih hmade).trans (createFolder_extends hlast)
          case h_2 =>
            split at h
            case isTrue =>
              cases h
              exact ih hmade
            case isFalse => cases h
      case h_3 =>
        split at h
        case isTrue =>
          cases h
          exact .refl tree
        case isFalse => cases h

theorem Extends.read (h : tree.Extends after) (hr : tree.read base path = .ok bytes) :
    after.read base path = .ok bytes := by
  rw [FileTree.read] at hr
  cases hf : tree.find base true path with
  | error fault =>
    rw [hf] at hr
    cases hr
  | ok found =>
    rw [hf] at hr
    cases hnode : found.node with
    | none =>
      simp only [hnode] at hr
      cases hr
    | some node =>
      simp only [hnode] at hr
      have hfound (hn : node ≠ .folder) (hway : isOnWay node = false) :
          after.find base true path = .ok ⟨found.place, some node, false⟩ := by
        have hn' : found.node ≠ some .folder := by simpa [hnode] using hn
        have hends := find_ends hf hn'
        exact find_agrees hf hn' (hends.noSlash (by rw [hnode]; rfl)) (fun place node _ => h place node)
          (h _ _ (hends.held.trans hnode)) hway
      cases node with
      | file | device =>
        rw [FileTree.read, hfound (by simp) rfl]
        exact hr
      | folder | link => cases hr

end FileTree

-- ---------------------------------------------------------------------------
-- The host
-- ---------------------------------------------------------------------------

/-- What is written at a path from here on can be read there. -/
def Host.Keeps {σ : Type} (host : Host σ) (path : FilePath) (machine : σ) : Prop :=
  ∀ bytes after, host.write path bytes machine = (.ok (), after) →
    host.read path after = .ok bytes ∧ (host.kind path after).isOk = true

namespace Machine

variable {machine : Machine} {path : FilePath}

theorem atText_eq_ok {α : Type} {find : String → Except IoFault α} {value : α} :
    atText path find = .ok value ↔ ∃ text, path.text? = some text ∧ find text = .ok value := by
  rw [atText]
  cases path.text? with
  | none => simp
  | some text => simp

theorem change_eq_ok {outcome : Except IoFault FileTree} {after : Machine}
    (h : change outcome machine = (.ok (), after)) :
    ∃ files, outcome = .ok files ∧ after = { machine with files } := by
  cases outcome with
  | error fault => cases h
  | ok files =>
    cases h
    exact ⟨files, rfl, rfl⟩

theorem keeps (h : ∀ text found device, path.text? = some text →
    machine.files.find machine.folder true text = .ok found → found.node ≠ some (.device device)) :
    Machine.host.Keeps path machine := by
  intro bytes after hwrite
  obtain ⟨files, hfiles, rfl⟩ := change_eq_ok hwrite
  obtain ⟨text, htext, hwritten⟩ := atText_eq_ok.mp hfiles
  obtain ⟨hread, hkind⟩ := FileTree.read_write hwritten fun found device => h text found device htext
  have hthere := atText_eq_ok.mpr ⟨text, htext, hkind⟩
  refine ⟨atText_eq_ok.mpr ⟨text, htext, hread⟩, ?_⟩
  show (atText path (files.kind machine.folder true)).isOk = true
  rw [hthere]
  rfl

theorem createFolders_reads {folder : FilePath} {bytes : List UInt8}
    (h : Machine.host.read path machine = .ok bytes) :
    Machine.host.read path (Machine.host.createFolders folder machine).2 = .ok bytes := by
  obtain ⟨text, htext, hread⟩ := atText_eq_ok.mp h
  show Machine.host.read path
    (change (atText folder (machine.files.createFolders machine.folder)) machine).2 = _
  cases hmade : atText folder (machine.files.createFolders machine.folder) with
  | error fault => exact h
  | ok files =>
    obtain ⟨above, -, hmade⟩ := atText_eq_ok.mp hmade
    exact atText_eq_ok.mpr ⟨text, htext, (FileTree.createFrom_extends hmade).read hread⟩

end Machine

end SnippetTrail
