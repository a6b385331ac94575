import Mathlib.Logic.Function.Basic
import TestingSystem.Storage.Handlers
import TestingSystem.Storage.RemoveFile

/-!
# Disks with contents

What the storage relies on: a disk keeps a tree of directories and files, and every file has its contents
(`FileDisk.Holds`). Any call may fail. On a disk that is also `Reliable` a call fails only for a reason
that can be read off the tree. `memoryDisk` is such a disk.
-/

set_option autoImplicit false

namespace TestingSystem

open FilePath (Proper Path parse)

section Holds

variable {σ : Type}

/-- The disk keeps its files in a tree, with their contents. Calls may fail at any time: then `os.Remove`
changes nothing, `os.MkdirAll` has made some of the directories, and the writing of a file concerns this
file only. -/
structure FileDisk.Holds (disk : FileDisk σ) (cwd : List String) (tree : σ → FileTree)
    (content : σ → List String → Option Bytes) : Prop where
  isFile : ∀ s path, (content s path).isSome = true ↔ (path, false) ∈ (tree s).nodes
  onTree : disk.toDisk.OnTree cwd tree
  remove_content : ∀ path s s', disk.remove path s = (.ok (), s') →
    ∀ p, p ≠ absolute cwd (parse path) → content s' p = content s p
  remove_failed : ∀ path s s' err, disk.remove path s = (.error err, s') →
    tree s' = tree s ∧ content s' = content s
  mkdirAll_content : ∀ path s result s', disk.mkdirAll path s = (result, s') → content s' = content s
  mkdirAll_keeps : ∀ path s result s', disk.mkdirAll path s = (result, s') →
    ∀ node ∈ (tree s).nodes, node ∈ (tree s').nodes
  mkdirAll_adds : ∀ path s result s', disk.mkdirAll path s = (result, s') →
    ∀ node ∈ (tree s').nodes, node ∈ (tree s).nodes ∨
      node.2 = true ∧ node.1 <+: absolute cwd (parse path)
  write_content : ∀ path file s result s', disk.write path file s = (result, s') →
    ∀ p, p ≠ absolute cwd (parse path) → content s' p = content s p
  write_nodes : ∀ path file s result s', disk.write path file s = (result, s') →
    ∀ node, node ≠ (absolute cwd (parse path), false) →
      (node ∈ (tree s').nodes ↔ node ∈ (tree s).nodes)
  write_ok : ∀ path file s s', disk.write path file s = (.ok (), s') →
    content s' (absolute cwd (parse path)) = some file
  read_ok : ∀ path s file, disk.read path s = .ok file →
    content s (absolute cwd (parse path)) = some file

/-- Calls fail only for a reason that the tree gives. -/
structure FileDisk.Reliable (disk : FileDisk σ) (cwd : List String) (tree : σ → FileTree)
    (content : σ → List String → Option Bytes) : Prop where
  readDir : ∀ path s, (absolute cwd (parse path), true) ∈ (tree s).nodes →
    ∃ entries, disk.readDir path s = .ok entries
  stat : ∀ path s isDir, (absolute cwd (parse path), isDir) ∈ (tree s).nodes →
    disk.stat path s = .ok ()
  /-- Nothing is there, and no file is in the way. -/
  stat_missing : ∀ path s, absolute cwd (parse path) ≠ [] →
    (∀ isDir, (absolute cwd (parse path), isDir) ∉ (tree s).nodes) →
    (∀ p, p <+: absolute cwd (parse path) → (p, false) ∉ (tree s).nodes) →
    ∃ err, disk.stat path s = .error err ∧ disk.isNotExist err = true
  mkdirAll : ∀ path s, (∀ p, p <+: absolute cwd (parse path) → (p, false) ∉ (tree s).nodes) →
    ∃ s', disk.mkdirAll path s = (.ok (), s') ∧
      ∀ p, p <+: absolute cwd (parse path) → p ≠ [] → (p, true) ∈ (tree s').nodes
  write : ∀ path file s, (parse path).names ≠ [] →
    ((absolute cwd (parse path)).dropLast = [] ∨
      ((absolute cwd (parse path)).dropLast, true) ∈ (tree s).nodes) →
    (absolute cwd (parse path), true) ∉ (tree s).nodes →
    ∃ s', disk.write path file s = (.ok (), s')
  read : ∀ path s file, content s (absolute cwd (parse path)) = some file →
    disk.read path s = .ok file
  remove : ∀ path s isDir, (parse path).names ≠ [] →
    (absolute cwd (parse path), isDir) ∈ (tree s).nodes →
    (tree s).children (absolute cwd (parse path)) = [] →
    ∃ s', disk.remove path s = (.ok (), s')

end Holds

/-! ## A disk in memory -/

/-- The state of the disk in memory. -/
structure FileState where
  tree : FileTree
  content : List String → Option Bytes
  isFile : ∀ path, (content path).isSome = true ↔ (path, false) ∈ tree.nodes

section Lookup

-- looking for a node compares paths
local instance lawfulPath : LawfulBEq (List String) := inferInstance

local instance lawfulNode : LawfulBEq (List String × Bool) := inferInstance

namespace FileState

def empty : FileState where
  tree := { nodes := [], nodup := by decide, valid := by decide, not_root := by decide
            parent := by decide }
  content _ := none
  isFile _ := by simp

variable (state : FileState) (path : List String)

def addDir (h : state.tree.Room path) : FileState where
  tree := state.tree.insert path true h
  content := state.content
  isFile p := by rw [state.isFile, DirTree.mem_insert, Prod.mk.injEq]; simp

def addFile (file : Bytes) (h : state.tree.Room path) : FileState where
  tree := state.tree.insert path false h
  content := Function.update state.content path (some file)
  isFile p := by
    rw [DirTree.mem_insert, Prod.mk.injEq]
    by_cases heq : p = path
    · simp [heq]
    · rw [Function.update_of_ne heq, state.isFile]
      simp [heq]

def setFile (file : Bytes) (h : (path, false) ∈ state.tree.nodes) : FileState where
  tree := state.tree
  content := Function.update state.content path (some file)
  isFile p := by
    by_cases heq : p = path
    · simp [heq, h]
    · rw [Function.update_of_ne heq, state.isFile]

def erase (h : state.tree.children path = []) : FileState where
  tree := state.tree.remove path h
  content := Function.update state.content path none
  isFile p := by
    rw [DirTree.remove, List.mem_filter]
    by_cases heq : p = path
    · simp [heq]
    · rw [Function.update_of_ne heq, state.isFile]
      simp [heq]

/-- `os.MkdirAll`: the directories from `above` on. -/
def makeDirs (state : FileState) (above : List String) : List String → Except String Unit × FileState
  | [] => (.ok (), state)
  | name :: names =>
    if (above ++ [name], true) ∈ state.tree.nodes then state.makeDirs (above ++ [name]) names
    else if h : state.tree.Room (above ++ [name]) then
      (state.addDir (above ++ [name]) h).makeDirs (above ++ [name]) names
    else (.error "not a directory", state)

/-- Writing a file at a path. -/
def writeFile (file : Bytes) : Except String Unit × FileState :=
  if h : (path, false) ∈ state.tree.nodes then (.ok (), state.setFile path file h)
  else if h : state.tree.Room path then (.ok (), state.addFile path file h)
  else (.error "is a directory", state)

def removeNode : Except String Unit × FileState :=
  if path ∈ state.tree.nodes.map Prod.fst then
    if h : state.tree.children path = [] then (.ok (), state.erase path h)
    else (.error "directory not empty", state)
  else (.error "no such file or directory", state)

end FileState

/-- A disk that fails only for reasons that its tree gives. -/
def memoryDisk (cwd : List String) : FileDisk FileState where
  readDir path state :=
    let dir := absolute cwd (parse path)
    if dir = [] ∨ (dir, true) ∈ state.tree.nodes then
      .ok ((state.tree.children dir).pmap (fun child hname => ⟨child.1, child.2, hname⟩)
        fun _ => DirTree.valid_of_mem_children)
    else .error "not a directory"
  stat path state :=
    let node := absolute cwd (parse path)
    if node = [] ∨ node ∈ state.tree.nodes.map Prod.fst then .ok ()
    else .error "no such file or directory"
  mkdirAll path state := state.makeDirs [] (absolute cwd (parse path))
  saveUploadedFile path state := state.writeFile (absolute cwd (parse path)) []
  remove path state :=
    if (parse path).names = [] then (.error "invalid argument", state)
    else state.removeNode (absolute cwd (parse path))
  write path file state := state.writeFile (absolute cwd (parse path)) file
  read path state :=
    match state.content (absolute cwd (parse path)) with
    | some file => .ok file
    | none => .error "no such file or directory"
  isNotExist err := err = "no such file or directory"

end Lookup

namespace FileState

variable {state state' : FileState} {above path names : List String} {result : Except String Unit}

@[simp] theorem mem_addDir {h : state.tree.Room path} {node : List String × Bool} :
    node ∈ (state.addDir path h).tree.nodes ↔ node = (path, true) ∨ node ∈ state.tree.nodes :=
  DirTree.mem_insert (h := h)

@[simp] theorem mem_addFile {file : Bytes} {h : state.tree.Room path} {node : List String × Bool} :
    node ∈ (state.addFile path file h).tree.nodes ↔ node = (path, false) ∨ node ∈ state.tree.nodes :=
  DirTree.mem_insert (h := h)

theorem makeDirs_content (h : state.makeDirs above names = (result, state')) :
    state'.content = state.content := by
  induction names generalizing state above with
  | nil =>
    cases h
    rfl
  | cons name names ih =>
    rw [makeDirs] at h
    split at h
    · exact ih h
    · split at h
      · exact (ih h).trans rfl
      · cases h
        rfl

theorem makeDirs_keeps (h : state.makeDirs above names = (result, state'))
    {node : List String × Bool} (hnode : node ∈ state.tree.nodes) : node ∈ state'.tree.nodes := by
  induction names generalizing state above with
  | nil =>
    cases h
    exact hnode
  | cons name names ih =>
    rw [makeDirs] at h
    split at h
    · exact ih h hnode
    · split at h
      · exact ih h (mem_addDir.2 (.inr hnode))
      · cases h
        exact hnode

theorem makeDirs_adds (h : state.makeDirs above names = (result, state'))
    {node : List String × Bool} (hnode : node ∈ state'.tree.nodes) :
    node ∈ state.tree.nodes ∨ node.2 = true ∧ node.1 <+: above ++ names := by
  induction names generalizing state above with
  | nil =>
    cases h
    exact .inl hnode
  | cons name names ih =>
    rw [makeDirs] at h
    have hsplit : above ++ [name] ++ names = above ++ name :: names := by simp
    split at h
    · rw [← hsplit]
      exact ih h
    · split at h
      · rcases ih h with hnode | hnode
        · rcases mem_addDir.1 hnode with rfl | hnode
          · refine .inr ⟨rfl, ?_⟩
            rw [← hsplit]
            exact List.prefix_append _ _
          · exact .inl hnode
        · rw [← hsplit]
          exact .inr hnode
      · cases h
        exact .inl hnode

variable (state) in
/-- All directories are made when no file is in the way. -/
theorem makeDirs_ok (habove : above = [] ∨ (above, true) ∈ state.tree.nodes)
    (hvalid : ∀ n ∈ above ++ names, Proper n)
    (hway : ∀ p, p <+: above ++ names → (p, false) ∉ state.tree.nodes) :
    ∃ state', state.makeDirs above names = (.ok (), state') ∧
      ∀ p, Below above p → p <+: above ++ names → (p, true) ∈ state'.tree.nodes := by
  induction names generalizing state above with
  | nil =>
    refine ⟨state, rfl, ?_⟩
    intro p hbelow hle
    rw [List.append_nil] at hle
    exact absurd (hbelow.trans_le hle) (Below.irrefl _)
  | cons name names ih =>
    have hsplit : above ++ name :: names = above ++ [name] ++ names := by simp
    rw [hsplit] at hvalid hway ⊢
    -- of the directories below `above`, the next one is made in this turn
    have hnext : ∀ p, Below above p → p <+: above ++ [name] ++ names →
        p = above ++ [name] ∨ Below (above ++ [name]) p := by
      intro p hbelow hle
      rcases Below.total hle (List.prefix_append (above ++ [name]) names) with hup | hdown
      · exact .inl (hbelow.eq_concat hup.1)
      · by_cases heq : p = above ++ [name]
        · exact .inl heq
        · exact .inr ⟨hdown, Ne.symm heq⟩
    have hturn : ∀ state₁ : FileState, (above ++ [name], true) ∈ state₁.tree.nodes →
        (∀ p, p <+: above ++ [name] ++ names → (p, false) ∉ state₁.tree.nodes) →
        ∃ state', state₁.makeDirs (above ++ [name]) names = (.ok (), state') ∧
          ∀ p, Below above p → p <+: above ++ [name] ++ names → (p, true) ∈ state'.tree.nodes := by
      intro state₁ hmade hway₁
      obtain ⟨state', hrest, hall⟩ := ih state₁ (.inr hmade) hvalid hway₁
      refine ⟨state', hrest, ?_⟩
      intro p hbelow hle
      rcases hnext p hbelow hle with rfl | hbelow
      · exact makeDirs_keeps hrest hmade
      · exact hall p hbelow hle
    rw [makeDirs]
    split
    · next hmade => exact hturn state hmade hway
    · next hnew =>
      have hroom : state.tree.Room (above ++ [name]) := by
        refine ⟨fun n hn => hvalid n (List.mem_append_left _ hn), by simp, by simpa using habove, ?_⟩
        intro hnode
        obtain ⟨⟨p, isDir⟩, hnode, rfl⟩ := List.mem_map.1 hnode
        cases isDir with
        | true => exact hnew hnode
        | false => exact hway _ (List.prefix_append _ _) hnode
      rw [dif_pos hroom]
      apply hturn
      · exact mem_addDir.2 (.inl rfl)
      · intro p hle hnode
        rcases mem_addDir.1 hnode with heq | hnode
        · cases (Prod.mk.inj heq).2
        · exact hway p hle hnode

theorem writeFile_content {file : Bytes} (h : state.writeFile path file = (result, state'))
    {p : List String} (hp : p ≠ path) : state'.content p = state.content p := by
  unfold writeFile at h
  split at h
  · cases h
    exact Function.update_of_ne hp _ _
  · split at h
    · cases h
      exact Function.update_of_ne hp _ _
    · cases h
      rfl

theorem writeFile_nodes {file : Bytes} (h : state.writeFile path file = (result, state'))
    {node : List String × Bool} (hnode : node ≠ (path, false)) :
    node ∈ state'.tree.nodes ↔ node ∈ state.tree.nodes := by
  unfold writeFile at h
  split at h
  · cases h
    exact Iff.rfl
  · split at h
    · cases h
      rw [mem_addFile, or_iff_right hnode]
    · cases h
      exact Iff.rfl

theorem writeFile_ok {file : Bytes} (h : state.writeFile path file = (.ok (), state')) :
    state'.content path = some file := by
  unfold writeFile at h
  split at h
  · cases h
    exact Function.update_self _ _ _
  · split at h
    · cases h
      exact Function.update_self _ _ _
    · cases h

theorem removeNode_ok (h : state.removeNode path = (.ok (), state')) :
    state.tree.Removes path state'.tree ∧ ∀ p, p ≠ path → state'.content p = state.content p := by
  unfold removeNode at h
  split at h
  · next hnode =>
    obtain ⟨⟨node, isDir⟩, hmem, rfl⟩ := List.mem_map.1 hnode
    split at h
    · next hempty =>
      cases h
      refine ⟨state.tree.removes_remove hmem hempty, ?_⟩
      intro p hp
      exact Function.update_of_ne hp _ _
    · cases h
  · cases h

theorem removeNode_failed {err : String} (h : state.removeNode path = (.error err, state')) :
    state' = state := by
  unfold removeNode at h
  split at h
  · split at h
    · cases h
    · cases h
      rfl
  · cases h
    rfl

end FileState

theorem memoryDisk_holds (cwd : List String) :
    (memoryDisk cwd).Holds cwd FileState.tree FileState.content where
  isFile state path := state.isFile path
  onTree :=
    { readDir_ok := by
        intro path state entries h
        unfold memoryDisk at h
        dsimp only at h
        split at h
        · rw [← Except.ok.inj h, List.map_pmap]
          simp
        · cases h
      remove_ok := by
        intro path state state' h
        unfold memoryDisk at h
        dsimp only at h
        split at h
        · cases h
        · next hnames => exact ⟨hnames, (FileState.removeNode_ok h).1⟩ }
  remove_content := by
    intro path state state' h
    unfold memoryDisk at h
    dsimp only at h
    split at h
    · cases h
    · exact (FileState.removeNode_ok h).2
  remove_failed := by
    intro path state state' err h
    unfold memoryDisk at h
    dsimp only at h
    split at h
    · cases h
      exact ⟨rfl, rfl⟩
    · obtain rfl := FileState.removeNode_failed h
      exact ⟨rfl, rfl⟩
  mkdirAll_content path state result state' h := FileState.makeDirs_content h
  mkdirAll_keeps path state result state' h node hnode := FileState.makeDirs_keeps h hnode
  mkdirAll_adds path state result state' h node hnode := FileState.makeDirs_adds h hnode
  write_content path file state result state' h p hp := FileState.writeFile_content h hp
  write_nodes path file state result state' h node hnode := FileState.writeFile_nodes h hnode
  write_ok path file state state' h := FileState.writeFile_ok h
  read_ok := by
    intro path state file h
    unfold memoryDisk at h
    dsimp only at h
    split at h
    · next hfile => rw [hfile, Except.ok.inj h]
    · cases h

/-- Names on the way to a place of a valid path are valid. -/
theorem proper_absolute {cwd : List String} (hcwd : ∀ n ∈ cwd, Proper n) {path : Path}
    (hpath : path.Valid) : ∀ n ∈ absolute cwd path, Proper n := by
  intro n hn
  unfold absolute at hn
  split at hn
  · exact hpath.names n hn
  · rcases List.mem_append.1 hn with hn | hn
    · exact hcwd n (List.mem_of_mem_take hn)
    · exact hpath.names n hn

theorem absolute_ne_nil {cwd : List String} {path : Path} (h : path.names ≠ []) :
    absolute cwd path ≠ [] := by
  unfold absolute
  split
  · exact h
  · exact List.append_ne_nil_of_right_ne_nil _ h

theorem memoryDisk_reliable {cwd : List String} (hcwd : ∀ n ∈ cwd, Proper n) :
    (memoryDisk cwd).Reliable cwd FileState.tree FileState.content where
  readDir := by
    intro path state hdir
    unfold memoryDisk
    dsimp only
    rw [if_pos (.inr hdir)]
    exact ⟨_, rfl⟩
  stat := by
    intro path state isDir hnode
    unfold memoryDisk
    dsimp only
    rw [if_pos (.inr (List.mem_map_of_mem (f := Prod.fst) hnode))]
  stat_missing := by
    intro path state hroot hmissing _
    unfold memoryDisk
    dsimp only
    refine ⟨_, if_neg ?_, decide_eq_true rfl⟩
    rintro (hnil | hnode)
    · exact hroot hnil
    · obtain ⟨⟨p, isDir⟩, hnode, rfl⟩ := List.mem_map.1 hnode
      exact hmissing isDir hnode
  mkdirAll := by
    intro path state hway
    obtain ⟨state', hmade, hall⟩ := state.makeDirs_ok (.inl rfl)
      (proper_absolute hcwd (FilePath.valid_parse path)) hway
    refine ⟨state', hmade, ?_⟩
    intro p hle hne
    exact hall p ⟨List.nil_prefix, Ne.symm hne⟩ hle
  write := by
    intro path file state hnames hparent hdir
    unfold memoryDisk
    dsimp only
    unfold FileState.writeFile
    split
    · exact ⟨_, rfl⟩
    · next hfile =>
      have hroom : state.tree.Room (absolute cwd (parse path)) := by
        refine ⟨proper_absolute hcwd (FilePath.valid_parse path), absolute_ne_nil hnames, hparent, ?_⟩
        intro hnode
        obtain ⟨⟨p, isDir⟩, hnode, heq⟩ := List.mem_map.1 hnode
        obtain rfl : p = _ := heq
        cases isDir with
        | true => exact hdir hnode
        | false => exact hfile hnode
      rw [dif_pos hroom]
      exact ⟨_, rfl⟩
  read := by
    intro path state file hfile
    unfold memoryDisk
    dsimp only
    rw [hfile]
  remove := by
    intro path state isDir hnames hnode hempty
    unfold memoryDisk
    dsimp only
    rw [if_neg hnames, FileState.removeNode,
      if_pos (List.mem_map_of_mem (f := Prod.fst) hnode), dif_pos hempty]
    exact ⟨_, rfl⟩

end TestingSystem
