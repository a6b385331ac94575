import Mathlib.Data.List.Infix
import Mathlib.Data.List.Induction
import Mathlib.Data.List.Nodup

/-!
# Trees of directories

A tree is the list of its nodes, each one with its path from the root and whether it is a directory.
The root itself is no node. Only a node without children is removed.

`Pruned` is the state of a walk that starts at a node, removes it, and then removes the directories
above it as long as they are empty. `CleansUp` says what such a walk should have removed when it ends.
The two meet at the directory where the walk stops (`Pruned.cleansUp`).
-/

set_option autoImplicit false

namespace TestingSystem

variable {α : Type}

/-- `q` is strictly below `p`. -/
def Below (p q : List α) : Prop := p <+: q ∧ p ≠ q

/-- Nodes have different paths and valid names, and each one is in a directory. -/
structure DirTree (α : Type) (Valid : α → Prop) where
  nodes : List (List α × Bool)
  nodup : (nodes.map Prod.fst).Nodup
  valid : ∀ node ∈ nodes, ∀ name ∈ node.1, Valid name
  not_root : ∀ node ∈ nodes, node.1 ≠ []
  parent : ∀ node ∈ nodes, node.1.dropLast = [] ∨ (node.1.dropLast, true) ∈ nodes

/-! ## Paths -/

namespace Below

variable {p q r : List α}

theorem le (h : Below p q) : p <+: q := h.1

theorem irrefl (p : List α) : ¬ Below p p := fun h => h.2 rfl

theorem concat (p : List α) (name : α) : Below p (p ++ [name]) :=
  ⟨List.prefix_append p [name], by simp⟩

theorem dropLast (h : p ≠ []) : Below p.dropLast p := by
  obtain ⟨above, name, rfl⟩ := (List.eq_nil_or_concat' p).resolve_left h
  rw [List.dropLast_concat]
  exact .concat above name

theorem trans_le (h : Below p q) (hr : q <+: r) : Below p r := by
  refine ⟨h.1.trans hr, fun heq => ?_⟩
  subst heq
  exact h.2 (h.1.eq_of_length_le hr.length_le)

theorem of_le (h : p <+: q) (hr : Below q r) : Below p r := by
  refine ⟨h.trans hr.1, fun heq => ?_⟩
  subst heq
  exact hr.2 (hr.1.eq_of_length_le h.length_le)

/-- Nothing is strictly between a directory and its entries. -/
theorem eq_concat {name : α} (h : Below p q) (hq : q <+: p ++ [name]) : q = p ++ [name] :=
  (List.prefix_concat_iff.1 hq).resolve_right fun hup => irrefl p (h.trans_le hup)

/-- Of two paths above a third one, the first one is above the second one, or the other way round. -/
theorem total (hp : p <+: r) (hq : q <+: r) : Below p q ∨ q <+: p := by
  by_cases hqp : q <+: p
  · exact .inr hqp
  · have hpq := (List.prefix_or_prefix_of_prefix hp hq).resolve_right hqp
    exact .inl ⟨hpq, fun heq => hqp (heq ▸ List.prefix_rfl)⟩

end Below

namespace DirTree

variable {Valid : α → Prop}

theorem parent_of_mem (tree : DirTree α Valid) {path : List α} {name : α} {isDir : Bool}
    (hnode : (path ++ [name], isDir) ∈ tree.nodes) : path = [] ∨ (path, true) ∈ tree.nodes := by
  simpa using tree.parent _ hnode

/-! ## Entries of a directory -/

section Entries

variable [DecidableEq α]

/-- The entries of a directory, with their kinds. -/
def children (tree : DirTree α Valid) (dir : List α) : List (α × Bool) :=
  tree.nodes.filterMap fun node =>
    node.1.getLast?.bind fun name => if node.1 = dir ++ [name] then some (name, node.2) else none

variable {tree : DirTree α Valid} {dir : List α}

theorem mem_children {name : α} {isDir : Bool} :
    (name, isDir) ∈ tree.children dir ↔ (dir ++ [name], isDir) ∈ tree.nodes := by
  rw [children, List.mem_filterMap]
  constructor
  · rintro ⟨⟨path, isDir'⟩, hnode, h⟩
    obtain ⟨name', -, h⟩ := Option.bind_eq_some_iff.1 h
    split at h
    · next heq =>
      obtain ⟨rfl, rfl⟩ := Prod.mk.inj (Option.some.inj h)
      exact heq ▸ hnode
    · cases h
  · intro hnode
    exact ⟨_, hnode, by simp⟩

theorem valid_of_mem_children {child : α × Bool} (h : child ∈ tree.children dir) : Valid child.1 :=
  tree.valid _ (mem_children.1 h) child.1 (by simp)

theorem nodup_children (tree : DirTree α Valid) (dir : List α) : (tree.children dir).Nodup := by
  refine List.Nodup.filterMap ?_ (List.Nodup.of_map _ tree.nodup)
  rintro ⟨path, isDir⟩ ⟨path', isDir'⟩ ⟨name, kind⟩ h h'
  obtain ⟨last, -, h⟩ := Option.bind_eq_some_iff.1 h
  obtain ⟨last', -, h'⟩ := Option.bind_eq_some_iff.1 h'
  simp only [Option.ite_none_right_eq_some, Option.some.injEq, Prod.mk.injEq] at h h'
  obtain ⟨rfl, rfl, rfl⟩ := h
  obtain ⟨rfl, rfl, rfl⟩ := h'
  rfl

/-- The way down to a node goes through an entry of each directory above it. -/
theorem exists_child {node : List α × Bool} (hnode : node ∈ tree.nodes) (h : Below dir node.1) :
    ∃ child ∈ tree.children dir, dir ++ [child.1] <+: node.1 := by
  obtain ⟨⟨rest, hrest⟩, hne⟩ := h
  -- from the node upwards; every directory on the way is a node
  induction rest using List.reverseRecOn generalizing node with
  | nil => exact absurd (by simpa using hrest) hne
  | append_singleton rest name ih =>
    obtain ⟨path, isDir⟩ := node
    dsimp only at hrest hne ⊢
    by_cases hnil : rest = []
    · subst hnil
      subst hrest
      exact ⟨(name, isDir), mem_children.2 hnode, List.prefix_rfl⟩
    · rw [← List.append_assoc] at hrest
      subst hrest
      have hpath : dir ++ rest ≠ [] := by simp [hnil]
      have hparent : (dir ++ rest, true) ∈ tree.nodes :=
        (tree.parent_of_mem hnode).resolve_left hpath
      obtain ⟨child, hchild, hway⟩ := ih hparent (by simpa using hnil) rfl
      exact ⟨child, hchild, hway.trans (List.prefix_append _ _)⟩

theorem children_ne_nil {node : List α × Bool} (hnode : node ∈ tree.nodes) (h : Below dir node.1) :
    tree.children dir ≠ [] := by
  obtain ⟨child, hchild, -⟩ := exists_child hnode h
  exact List.ne_nil_of_mem hchild

/-! ## Removing a node -/

/-- The tree without a node that has no children. -/
def remove (tree : DirTree α Valid) (path : List α) (h : tree.children path = []) :
    DirTree α Valid where
  nodes := tree.nodes.filter fun node => node.1 ≠ path
  nodup := tree.nodup.sublist ((List.filter_sublist).map Prod.fst)
  valid node hnode := tree.valid node (List.mem_of_mem_filter hnode)
  not_root node hnode := tree.not_root node (List.mem_of_mem_filter hnode)
  parent := by
    intro node hnode
    have hold := List.mem_of_mem_filter hnode
    refine (tree.parent node hold).imp_right fun hparent => List.mem_filter.2 ⟨hparent, ?_⟩
    have hne : node.1.dropLast ≠ path := by
      rintro rfl
      exact children_ne_nil hold (.dropLast (tree.not_root node hold)) h
    simpa using hne

/-- One call that removes the node at `path`. -/
structure Removes (tree : DirTree α Valid) (path : List α) (tree' : DirTree α Valid) : Prop where
  exists_node : ∃ isDir, (path, isDir) ∈ tree.nodes
  no_children : tree.children path = []
  mem_iff : ∀ node, node ∈ tree'.nodes ↔ node ∈ tree.nodes ∧ node.1 ≠ path

theorem removes_remove (tree : DirTree α Valid) {path : List α} {isDir : Bool}
    (hnode : (path, isDir) ∈ tree.nodes) (h : tree.children path = []) :
    tree.Removes path (tree.remove path h) where
  exists_node := ⟨isDir, hnode⟩
  no_children := h
  mem_iff node := by rw [remove, List.mem_filter, decide_eq_true_iff]

end Entries

/-! ## Adding a node -/

/-- A node can be added at the path. -/
structure Room (tree : DirTree α Valid) (path : List α) : Prop where
  valid : ∀ name ∈ path, Valid name
  not_root : path ≠ []
  parent : path.dropLast = [] ∨ (path.dropLast, true) ∈ tree.nodes
  new : path ∉ tree.nodes.map Prod.fst

instance [DecidableEq α] [DecidablePred Valid] (tree : DirTree α Valid) (path : List α) :
    Decidable (tree.Room path) :=
  decidable_of_iff ((∀ name ∈ path, Valid name) ∧ path ≠ [] ∧
      (path.dropLast = [] ∨ (path.dropLast, true) ∈ tree.nodes) ∧ path ∉ tree.nodes.map Prod.fst)
    ⟨fun h => ⟨h.1, h.2.1, h.2.2.1, h.2.2.2⟩, fun h => ⟨h.1, h.2, h.3, h.4⟩⟩

/-- The tree with one more node. -/
def insert (tree : DirTree α Valid) (path : List α) (isDir : Bool) (h : tree.Room path) :
    DirTree α Valid where
  nodes := (path, isDir) :: tree.nodes
  nodup := List.nodup_cons.2 ⟨h.new, tree.nodup⟩
  valid := by
    intro node hnode
    rcases List.mem_cons.1 hnode with rfl | hnode
    · exact h.valid
    · exact tree.valid node hnode
  not_root := by
    intro node hnode
    rcases List.mem_cons.1 hnode with rfl | hnode
    · exact h.not_root
    · exact tree.not_root node hnode
  parent := by
    intro node hnode
    rcases List.mem_cons.1 hnode with rfl | hnode
    · exact h.parent.imp_right (List.mem_cons_of_mem _)
    · exact (tree.parent node hnode).imp_right (List.mem_cons_of_mem _)

@[simp] theorem mem_insert {tree : DirTree α Valid} {path : List α} {isDir : Bool}
    {h : tree.Room path} {node : List α × Bool} :
    node ∈ (tree.insert path isDir h).nodes ↔ node = (path, isDir) ∨ node ∈ tree.nodes :=
  List.mem_cons

/-- A path is that of a file or that of a directory. -/
theorem eq_of_mem {tree : DirTree α Valid} {path : List α} {isDir isDir' : Bool}
    (h : (path, isDir) ∈ tree.nodes) (h' : (path, isDir') ∈ tree.nodes) : isDir = isDir' :=
  congrArg Prod.snd (List.inj_on_of_nodup_map tree.nodup h h' rfl)

/-! ## Cleaning up above a node -/

/-- Below `dir` there is nothing but the way to the target. -/
def OnlyTo (tree : DirTree α Valid) (target dir : List α) : Prop :=
  ∀ node ∈ tree.nodes, Below dir node.1 → node.1 <+: target

/-- From `tree` to `tree'`, the target is removed with the directories strictly below `base` that it
leaves empty, and nothing else. -/
def CleansUp (tree : DirTree α Valid) (base target : List α) (tree' : DirTree α Valid) : Prop :=
  ∀ node, node ∈ tree'.nodes ↔
    node ∈ tree.nodes ∧ node.1 ≠ target ∧
      ¬ (Below base node.1 ∧ Below node.1 target ∧ tree.OnlyTo target node.1)

/-- What a walk that has come up to `dir` has removed: all nodes between `dir` and the target, and each
directory among them held nothing else. -/
structure Pruned (tree : DirTree α Valid) (target dir : List α) (tree' : DirTree α Valid) : Prop where
  above : Below dir target
  mem_iff : ∀ node, node ∈ tree'.nodes ↔ node ∈ tree.nodes ∧ ¬ (Below dir node.1 ∧ node.1 <+: target)
  onlyTo : ∀ path, Below dir path → path <+: target → tree.OnlyTo target path

variable {tree tree' tree'' : DirTree α Valid} {base target dir path : List α}

theorem OnlyTo.mono (h : tree.OnlyTo target dir) (hpath : dir <+: path) : tree.OnlyTo target path :=
  fun node hnode hbelow => h node hnode (.of_le hpath hbelow)

namespace Pruned

variable [DecidableEq α] {name : α}

/-- The walk starts with the target. -/
theorem start (h : tree.Removes (dir ++ [name]) tree') : tree.Pruned (dir ++ [name]) dir tree' where
  above := .concat dir name
  mem_iff node := by
    rw [h.mem_iff]
    refine and_congr_right fun _ => not_congr ⟨?_, ?_⟩
    · rintro heq
      rw [heq]
      exact ⟨.concat dir name, List.prefix_rfl⟩
    · rintro ⟨hbelow, hway⟩
      exact hbelow.eq_concat hway
  onlyTo := by
    intro path hpath hway node hnode hbelow
    rw [hpath.eq_concat hway] at hbelow
    exact absurd h.no_children (children_ne_nil hnode hbelow)

/-- A directory of the walk is empty exactly when it held nothing but the way to the target. -/
theorem children_eq_nil_iff (h : tree.Pruned target dir tree') :
    tree'.children dir = [] ↔ tree.OnlyTo target dir := by
  constructor
  · intro hempty node hnode hbelow
    by_contra hway
    have hleft : node ∈ tree'.nodes := (h.mem_iff node).2 ⟨hnode, fun hgone => hway hgone.2⟩
    exact children_ne_nil hleft hbelow hempty
  · intro honly
    refine List.eq_nil_iff_forall_not_mem.2 fun child hchild => ?_
    obtain ⟨hnode, hleft⟩ := (h.mem_iff _).1 (mem_children.1 hchild)
    exact hleft ⟨.concat dir child.1, honly _ hnode (.concat dir child.1)⟩

/-- The walk goes one directory up. -/
theorem step (h : tree.Pruned target (dir ++ [name]) tree')
    (hremove : tree'.Removes (dir ++ [name]) tree'') : tree.Pruned target dir tree'' := by
  have honly := h.children_eq_nil_iff.1 hremove.no_children
  have hsplit : ∀ path, path <+: target → Below dir path →
      path = dir ++ [name] ∨ Below (dir ++ [name]) path := by
    intro path hway hbelow
    exact (Below.total h.above.le hway).symm.imp_left hbelow.eq_concat
  refine ⟨.of_le (List.prefix_append _ _) h.above, fun node => ?_, ?_⟩
  · rw [hremove.mem_iff, h.mem_iff, and_assoc, ← not_or]
    refine and_congr_right fun _ => not_congr ⟨?_, ?_⟩
    · rintro (⟨hbelow, hway⟩ | heq)
      · exact ⟨.of_le (List.prefix_append _ _) hbelow, hway⟩
      · rw [heq]
        exact ⟨.concat dir name, h.above.le⟩
    · rintro ⟨hbelow, hway⟩
      exact (hsplit node.1 hway hbelow).symm.imp_left fun hbelow => ⟨hbelow, hway⟩
  · intro path hbelow hway
    rcases hsplit path hway hbelow with rfl | hbelow
    · exact honly
    · exact h.onlyTo path hbelow hway

/-- The walk should end at the base, or at the first directory that holds something else. -/
theorem cleansUp (h : tree.Pruned target dir tree') (hbase : base <+: dir)
    (hend : dir = base ∨ ¬ tree.OnlyTo target dir) : tree.CleansUp base target tree' := by
  intro node
  rw [h.mem_iff, ← not_or]
  refine and_congr_right fun _ => not_congr ⟨?_, ?_⟩
  · rintro ⟨hbelow, hway⟩
    by_cases heq : node.1 = target
    · exact .inl heq
    · exact .inr ⟨.of_le hbase hbelow, ⟨hway, heq⟩, h.onlyTo node.1 hbelow hway⟩
  · rintro (heq | ⟨hbelow, habove, honly⟩)
    · rw [heq]
      exact ⟨h.above, List.prefix_rfl⟩
    · refine ⟨?_, habove.le⟩
      rcases hend with rfl | hother
      · exact hbelow
      · -- a directory above `dir` holds what `dir` holds
        refine (Below.total h.above.le habove.le).resolve_right fun hup => ?_
        exact hother (honly.mono hup)

end Pruned

end DirTree

end TestingSystem
