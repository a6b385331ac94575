import TestingSystem.Lib.DirTree
import TestingSystem.Storage.Paths

/-!
# What `RemoveFile` removes

`RemoveFile` removes the file and goes up from its folder. It removes empty folders until it comes to one
that is not empty, or to `Basepath`. The folders are written by `filepath.Dir`, which cleans them, and
`Basepath` is compared as it is configured. When it is not clean no folder is equal to it: the loop then
also removes `Basepath`, if the file was all that it held (`removeFile_cleansUp_iff`).

A disk keeps its files in a tree (`Disk.OnTree`), and a loop that succeeds is a walk in this tree (`Walk`).
-/

set_option autoImplicit false

namespace TestingSystem

open FilePath (Proper Path parse)

/-- The files and directories of a machine. -/
abbrev FileTree := DirTree String Proper

/-- Where a path leads from the working directory `cwd`. Nothing is above the root. -/
def absolute (cwd : List String) (path : Path) : List String :=
  if path.rooted then path.names else cwd.take (cwd.length - path.ups) ++ path.names

theorem absolute_down (cwd : List String) (path : Path) (names : List String) :
    absolute cwd (path.down names) = absolute cwd path ++ names := by
  unfold absolute Path.down
  split
  · rfl
  · exact (List.append_assoc _ _ _).symm

/-! ## Files in a tree -/

section OnTree

variable {σ : Type}

/-- The disk keeps its files in a tree. `os.ReadDir` lists a directory. `os.Remove` removes a file or an
empty directory, and no directory that is only named by `/`, `.` or `..`. Both may fail at any time. -/
structure Disk.OnTree (disk : Disk σ) (cwd : List String) (tree : σ → FileTree) : Prop where
  readDir_ok : ∀ path s entries, disk.readDir path s = .ok entries →
    (entries.map fun entry => (entry.name, entry.isDir)).Perm
      ((tree s).children (absolute cwd (parse path)))
  remove_ok : ∀ path s s', disk.remove path s = (.ok (), s') →
    (parse path).names ≠ [] ∧ (tree s).Removes (absolute cwd (parse path)) (tree s')

/-- A disk that refuses every call. -/
def Disk.refusing : Disk σ where
  readDir _ _ := .error "operation not permitted"
  stat _ _ := .error "operation not permitted"
  mkdirAll _ s := (.error "operation not permitted", s)
  saveUploadedFile _ s := (.error "operation not permitted", s)
  remove _ s := (.error "operation not permitted", s)

/-- A disk on which the two calls only fail for a reason that the tree gives. The other calls are left as
they are. -/
def treeDisk (cwd : List String) (other : Disk FileTree) : Disk FileTree :=
  { other with
    readDir := fun path tree =>
      let dir := absolute cwd (parse path)
      if dir = [] ∨ (dir, true) ∈ tree.nodes then
        .ok ((tree.children dir).pmap (fun child hname => ⟨child.1, child.2, hname⟩)
          fun _ => DirTree.valid_of_mem_children)
      else .error "not a directory"
    remove := fun path tree =>
      let node := absolute cwd (parse path)
      if (parse path).names = [] then (.error "invalid argument", tree)
      else if node ∈ tree.nodes.map Prod.fst then
        if h : tree.children node = [] then (.ok (), tree.remove node h)
        else (.error "directory not empty", tree)
      else (.error "no such file or directory", tree) }

theorem treeDisk_onTree (cwd : List String) (other : Disk FileTree) :
    (treeDisk cwd other).OnTree cwd id where
  readDir_ok := by
    intro path tree entries h
    unfold treeDisk at h
    dsimp only at h
    split at h
    · rw [← Except.ok.inj h, List.map_pmap]
      simp
    · cases h
  remove_ok := by
    intro path tree tree' h
    unfold treeDisk at h
    dsimp only at h
    split at h
    · cases h
    · next hnames =>
      split at h
      · next hnode =>
        obtain ⟨⟨node, isDir⟩, hmem, rfl⟩ := List.mem_map.1 hnode
        split at h
        · next hempty =>
          obtain rfl := (Prod.mk.inj h).2
          exact ⟨hnames, tree.removes_remove hmem hempty⟩
        · cases h
      · cases h

end OnTree

/-! ## The loop as a walk -/

/-- The loop of `RemoveFile` on a tree, from the folder `dir` on, when no call fails. -/
inductive Walk (cwd : List String) (basepath : String) : String → FileTree → FileTree → Prop where
  | base {dir : String} {tree : FileTree} (hbase : dir = basepath) : Walk cwd basepath dir tree tree
  | other {dir : String} {tree : FileTree} (hne : dir ≠ basepath)
      (hother : tree.children (absolute cwd (parse dir)) ≠ []) : Walk cwd basepath dir tree tree
  | up {dir : String} {tree tree₁ tree' : FileTree} (hne : dir ≠ basepath)
      (hremove : tree.Removes (absolute cwd (parse dir)) tree₁)
      (hrest : Walk cwd basepath (FilePath.dir dir) tree₁ tree') : Walk cwd basepath dir tree tree'

namespace Walk

variable {cwd : List String} {basepath : String}

/-- A walk only removes nodes. -/
theorem mem_of_mem {dir : String} {tree tree' : FileTree} (h : Walk cwd basepath dir tree tree')
    {node : List String × Bool} (hnode : node ∈ tree'.nodes) : node ∈ tree.nodes := by
  induction h with
  | base hbase => exact hnode
  | other hne hother => exact hnode
  | up hne hremove hrest ih => exact ((hremove.mem_iff node).1 (ih hnode)).1

variable {tree tree₁ tree' : FileTree} {target names : List String}

/-- A walk from a folder below `Basepath` stops on its way to `Basepath`, for one of the two reasons, or it
removes `Basepath` too. -/
theorem ends (hnames : ∀ name ∈ names, Proper name)
    (hpruned : tree.Pruned target (absolute cwd (parse basepath) ++ names) tree₁)
    (h : Walk cwd basepath ((parse basepath).down names).text tree₁ tree') :
    (∃ above, tree.Pruned target (absolute cwd (parse basepath) ++ above) tree' ∧
        (above = [] ∧ FilePath.clean basepath = basepath ∨
          ¬ tree.OnlyTo target (absolute cwd (parse basepath) ++ above))) ∨
      FilePath.clean basepath ≠ basepath ∧ tree.OnlyTo target (absolute cwd (parse basepath)) ∧
        ∃ node ∈ tree.nodes, node.1 = absolute cwd (parse basepath) ∧ node ∉ tree'.nodes := by
  induction names using List.reverseRecOn generalizing tree₁ with
  | nil =>
    rw [Path.down_nil] at h
    rw [List.append_nil] at hpruned
    cases h with
    | base hbase => exact .inl ⟨[], by rwa [List.append_nil], .inl ⟨rfl, hbase⟩⟩
    | other hne hother =>
      rw [Path.parse_text (FilePath.valid_parse basepath), Ne, hpruned.children_eq_nil_iff] at hother
      exact .inl ⟨[], by rwa [List.append_nil], .inr (by rwa [List.append_nil])⟩
    | up hne hremove hrest =>
      rw [Path.parse_text (FilePath.valid_parse basepath)] at hremove
      obtain ⟨isDir, hnode⟩ := hremove.exists_node
      refine .inr ⟨hne, hpruned.children_eq_nil_iff.1 hremove.no_children, _,
        ((hpruned.mem_iff _).1 hnode).1, rfl, fun hleft => ?_⟩
      exact ((hremove.mem_iff _).1 (hrest.mem_of_mem hleft)).2 rfl
  | append_singleton names name ih =>
    have habove : ∀ n ∈ names, Proper n := fun n hn => hnames n (List.mem_append_left _ hn)
    have hname : Proper name := hnames name (by simp)
    have hvalid := (FilePath.valid_parse basepath).down hnames
    cases h with
    | base hbase =>
      -- a text below `Basepath` is another one
      have hparse := congrArg parse hbase
      rw [Path.parse_text hvalid] at hparse
      have hself := congrArg Path.names hparse
      simp [Path.down] at hself
    | other hne hother =>
      rw [Path.parse_text hvalid, absolute_down, Ne, hpruned.children_eq_nil_iff] at hother
      exact .inl ⟨names ++ [name], hpruned, .inr hother⟩
    | up hne hremove hrest =>
      rw [Path.parse_text hvalid, absolute_down, ← List.append_assoc] at hremove
      rw [← List.append_assoc] at hpruned
      rw [← Path.down_down, FilePath.dir_text ((FilePath.valid_parse basepath).down habove) hname]
        at hrest
      exact ih habove (hpruned.step hremove) hrest

/-- When the target is removed and the walk above it has ended. -/
theorem cleansUp_iff {name : String} (hnames : ∀ name ∈ names, Proper name)
    (hremove : tree.Removes (absolute cwd (parse basepath) ++ names ++ [name]) tree₁)
    (h : Walk cwd basepath ((parse basepath).down names).text tree₁ tree') :
    tree.CleansUp (absolute cwd (parse basepath)) (absolute cwd (parse basepath) ++ names ++ [name])
        tree' ↔
      FilePath.clean basepath = basepath ∨
        ¬ tree.OnlyTo (absolute cwd (parse basepath) ++ names ++ [name])
          (absolute cwd (parse basepath)) := by
  rcases ends hnames (.start hremove) h with
    ⟨above, hpruned, hend⟩ | ⟨hclean, honly, node, hnode, hbase, hgone⟩
  · refine iff_of_true (hpruned.cleansUp (List.prefix_append _ _) ?_) ?_
    · exact hend.imp_left fun hbase => by rw [hbase.1, List.append_nil]
    · exact hend.imp And.right fun hother honly => hother (honly.mono (List.prefix_append _ _))
  · refine iff_of_false (fun hcleans => hgone ?_) (not_or.2 ⟨hclean, not_not.2 honly⟩)
    refine (hcleans node).2 ⟨hnode, ?_, fun hbelow => ?_⟩
    · rw [hbase]
      simp
    · exact Below.irrefl _ (hbase ▸ hbelow.1)

end Walk

/-! ## The loop of the code -/

namespace Filesystem

variable {σ : Type} {filesystem : Filesystem} {disk : Disk σ} {cwd : List String} {tree : σ → FileTree}

/-- A loop that succeeds is a walk. -/
theorem walk_of_removeFolders (hdisk : disk.OnTree cwd tree) {fuel : Nat} {dir : String} {s s' : σ}
    (h : filesystem.removeFolders disk fuel dir s = some (.ok (), s')) :
    Walk cwd filesystem.basepath dir (tree s) (tree s') := by
  induction fuel generalizing dir s with
  | zero => cases h
  | succ fuel ih =>
    rw [removeFolders] at h
    split at h
    · next hbase =>
      obtain rfl := (Prod.mk.inj (Option.some.inj h)).2
      exact .base hbase
    · next hne =>
      split at h
      · cases h
      · next entry entries hread =>
        obtain rfl := (Prod.mk.inj (Option.some.inj h)).2
        have hperm := hdisk.readDir_ok dir s _ hread
        refine .other hne fun hempty => ?_
        rw [hempty] at hperm
        exact absurd hperm.eq_nil (List.cons_ne_nil _ _)
      · split at h
        · cases h
        · next s₁ hremove => exact .up hne (hdisk.remove_ok dir s s₁ hremove).2 (ih h)

/-- The loop comes to an end: each turn that removes a folder takes a name away, and the last call to
`Remove` fails. -/
theorem removeFolders_returns (hdisk : disk.OnTree cwd tree) {path : Path} (hpath : path.Valid)
    {fuel : Nat} (hfuel : path.names.length < fuel) (s : σ) :
    filesystem.removeFolders disk fuel path.text s ≠ none := by
  induction fuel generalizing path s with
  | zero => exact absurd hfuel (Nat.not_lt_zero _)
  | succ fuel ih =>
    rw [removeFolders]
    split
    · exact Option.some_ne_none _
    · split
      · exact Option.some_ne_none _
      · exact Option.some_ne_none _
      · split
        · exact Option.some_ne_none _
        · next s₁ hremove =>
          have hne := (hdisk.remove_ok path.text s s₁ hremove).1
          rw [Path.parse_text hpath] at hne
          obtain ⟨names, name, hnames⟩ := (List.eq_nil_or_concat' path.names).resolve_left hne
          let above : Path := { path with names := names }
          have hdown : path = above.down [name] := FilePath.Path.ext rfl rfl hnames
          have habove : above.Valid :=
            ⟨fun n hn => hpath.names n (hnames ▸ List.mem_append_left _ hn), hpath.root⟩
          have hname : Proper name := hpath.names name (hnames ▸ by simp)
          rw [hdown, FilePath.dir_text habove hname]
          refine ih habove ?_ s₁
          rw [hnames, List.length_append, List.length_singleton] at hfuel
          exact Nat.lt_of_succ_lt_succ hfuel

/-! ## `RemoveFile` -/

variable {info : ResourceInfo} {request : StorageRequest}

/-- The file of a request is below `Basepath`, when the name that the request gives is a plain one. -/
theorem buildFilePath_below (h : getInfoFromRequest (.ok request) = .ok info)
    (hplain : request.NamesFile → request.storageFilename ≠ "" → Proper request.storageFilename)
    {readDir : String → Except String (List DirEntry)} {fullPath : String}
    (hpath : filesystem.buildFilePath readDir info = .ok (.ok fullPath)) :
    ∃ names name, (∀ n ∈ names, Proper n) ∧ Proper name ∧
      fullPath = (((parse filesystem.basepath).down names).down [name]).text := by
  obtain ⟨rfl, kind, name, hparsed⟩ := ResourceInfo.parsed_of_accepted h
  have hproper : ∀ n ∈ info.dataType.toString :: (filesystem.parts info.id ++ folderNames kind),
      Proper n := by
    intro n hn
    rcases List.mem_cons.1 hn with rfl | hn
    · exact info.dataType.proper_toString
    · exact (List.mem_append.1 hn).elim (filesystem.proper_parts info.id n)
        (proper_folderNames kind n)
  have hfolder : filesystem.resourceFolder info = _ := resourceFolder_eq hparsed
  obtain ⟨hgiven, rfl⟩ | ⟨-, entry, hentry, rfl⟩ := buildFilePath_text hparsed hpath
  · have hname : Proper name := by
      by_cases hnamed : info.request.NamesFile
      · obtain ⟨rfl, hempty⟩ := hparsed.name_of_named hnamed
        exact hplain hnamed (of_decide_eq_false (hempty.symm.trans hgiven))
      · exact hparsed.proper_name fun hn => absurd hn hnamed
    exact ⟨_, name, hproper, hname, by rw [Path.resolve_proper _ hname, hfolder]⟩
  · exact ⟨_, entry, hproper, hentry, by rw [hfolder]⟩

/-- `RemoveFile` comes to an end. -/
theorem removeFile_returns (hdisk : disk.OnTree cwd tree)
    (haccepted : getInfoFromRequest (.ok request) = .ok info)
    (hplain : request.NamesFile → request.storageFilename ≠ "" → Proper request.storageFilename)
    (s : σ) : ∃ turns, ∀ fuel, turns ≤ fuel → filesystem.removeFile disk fuel info s ≠ .ok none := by
  cases hbuild : filesystem.buildFilePath (disk.readDir · s) info with
  | error panic =>
    refine ⟨0, fun fuel _ h => ?_⟩
    obtain ⟨result, hok, -⟩ := bind_eq_ok.1 h
    rw [hbuild] at hok
    cases hok
  | ok result =>
    cases result with
    | error err =>
      refine ⟨0, fun fuel _ h => ?_⟩
      rw [removeFile, hbuild] at h
      cases h
    | ok fullPath =>
      obtain ⟨names, name, hnames, hname, rfl⟩ := buildFilePath_below haccepted hplain hbuild
      have hfolder := (FilePath.valid_parse filesystem.basepath).down hnames
      let folder := (parse filesystem.basepath).down names
      refine ⟨folder.names.length + 1, fun fuel hfuel h => ?_⟩
      obtain ⟨result, hok, h⟩ := bind_eq_ok.1 h
      obtain rfl := Except.ok.inj (hbuild.symm.trans hok)
      dsimp only at h
      split at h
      · cases h
      · next s₁ hremove =>
        have hnone := Option.map_eq_none_iff.1 (Except.ok.inj h)
        rw [FilePath.dir_text hfolder hname] at hnone
        exact removeFolders_returns hdisk hfolder (Nat.lt_of_succ_le hfuel) s₁ hnone

variable (filesystem)

/-- `RemoveFile` comes to an end. When it succeeds it has removed the file and the folders below
`Basepath` that this left empty, and nothing else, exactly if `Basepath` is clean or there is something
else below it. -/
theorem removeFile_cleansUp_iff (hdisk : disk.OnTree cwd tree)
    (haccepted : getInfoFromRequest (.ok request) = .ok info)
    (hplain : request.NamesFile → request.storageFilename ≠ "" → Proper request.storageFilename)
    (s : σ) :
    (∃ turns, ∀ fuel, turns ≤ fuel → filesystem.removeFile disk fuel info s ≠ .ok none) ∧
      ∀ fuel path s', filesystem.removeFile disk fuel info s = .ok (some (.ok path, s')) →
        ((tree s).CleansUp (absolute cwd (parse filesystem.basepath)) (absolute cwd (parse path))
            (tree s') ↔
          FilePath.clean filesystem.basepath = filesystem.basepath ∨
            ¬ (tree s).OnlyTo (absolute cwd (parse path))
              (absolute cwd (parse filesystem.basepath))) := by
  have hbase := FilePath.valid_parse filesystem.basepath
  refine ⟨removeFile_returns hdisk haccepted hplain s, ?_⟩
  · intro fuel path s' h
    obtain ⟨result, hbuild, h⟩ := bind_eq_ok.1 h
    split at h
    · cases h
    · next fullPath =>
      split at h
      · cases h
      · next s₁ hremove =>
        obtain ⟨⟨err, s₂⟩, hfolders, heq⟩ := Option.map_eq_some_iff.1 (Except.ok.inj h)
        obtain ⟨herr, rfl⟩ := Prod.mk.inj heq
        obtain ⟨⟨⟩, rfl, rfl⟩ := map_eq_ok.1 herr
        obtain ⟨names, name, hnames, hname, rfl⟩ := buildFilePath_below haccepted hplain hbuild
        have habove := hbase.down hnames
        have hone : ∀ n ∈ [name], Proper n := by simpa using hname
        have hremoved := (hdisk.remove_ok _ s s₁ hremove).2
        rw [FilePath.dir_text habove hname] at hfolders
        rw [Path.parse_text (habove.down hone), absolute_down, absolute_down] at hremoved ⊢
        exact (walk_of_removeFolders hdisk hfolders).cleansUp_iff hnames hremoved

/-- A clean `Basepath` stays, also when it becomes empty. -/
theorem removeFile_cleansUp_iff_clean :
    ∃ (filesystem : Filesystem) (info : ResourceInfo) (tree tree' : FileTree),
      filesystem.removeFile (treeDisk [] .refusing) 8 info tree =
          .ok (some (.ok "/data/Submission/5/source/a.cpp", tree')) ∧
        tree.CleansUp ["data"] ["data", "Submission", "5", "source", "a.cpp"] tree' ∧
        (["data"], true) ∈ tree'.nodes := by
  let filesystem : Filesystem := ⟨"/data", 3, by decide, by decide⟩
  let source : ResourceInfo :=
    { request := { resource := 0, submitID := 5, storageFilename := "a.cpp" }, id := 5
      filepath := "source/a.cpp", dataType := .submission }
  let tree : FileTree :=
    { nodes :=
        [(["data"], true), (["data", "Submission"], true), (["data", "Submission", "5"], true),
          (["data", "Submission", "5", "source"], true),
          (["data", "Submission", "5", "source", "a.cpp"], false)]
      nodup := by decide
      valid := by decide
      not_root := by decide
      parent := by decide }
  have hdisk := treeDisk_onTree [] .refusing
  have haccepted : getInfoFromRequest (.ok source.request) = .ok source := by decide +kernel
  have hname : Proper "a.cpp" := by decide
  have hrun : (filesystem.removeFile (treeDisk [] .refusing) 8 source tree).map
      (Option.map fun result => (result.1, result.2.nodes)) =
        .ok (some (.ok "/data/Submission/5/source/a.cpp", [(["data"], true)])) := by decide +kernel
  obtain ⟨result, hremove, hresult⟩ := map_eq_ok.1 hrun
  obtain ⟨⟨path, tree'⟩, rfl, heq⟩ := Option.map_eq_some_iff.1 hresult
  obtain ⟨rfl, hnodes⟩ := Prod.mk.inj heq
  have hcleans := (filesystem.removeFile_cleansUp_iff hdisk haccepted (fun _ _ => hname) tree).2
    8 _ tree' hremove
  have hbase : absolute [] (parse filesystem.basepath) = ["data"] := by decide +kernel
  have hfile : absolute [] (parse "/data/Submission/5/source/a.cpp") =
      ["data", "Submission", "5", "source", "a.cpp"] := by decide +kernel
  rw [hbase, hfile] at hcleans
  dsimp only at hnodes
  refine ⟨filesystem, source, tree, tree', hremove, hcleans.2 (.inl (by decide +kernel)), ?_⟩
  rw [hnodes]
  decide

/-- With a separator at its end `Basepath` is removed together with the last file. -/
theorem removeFile_basepath :
    ¬ ∀ (filesystem : Filesystem) (disk : Disk FileTree) (cwd : List String) (request : StorageRequest)
        (info : ResourceInfo) (fuel : Nat) (path : String) (tree tree' : FileTree),
      disk.OnTree cwd id → filesystem.basepath ≠ "" →
      getInfoFromRequest (.ok request) = .ok info →
      (request.NamesFile → Proper request.storageFilename) →
      filesystem.removeFile disk fuel info tree = .ok (some (.ok path, tree')) →
        tree.CleansUp (absolute cwd (parse filesystem.basepath)) (absolute cwd (parse path)) tree' := by
  intro h
  let filesystem : Filesystem := ⟨"/data/", 3, by decide, by decide⟩
  let source : ResourceInfo :=
    { request := { resource := 0, submitID := 5, storageFilename := "a.cpp" }, id := 5
      filepath := "source/a.cpp", dataType := .submission }
  let tree : FileTree :=
    { nodes :=
        [(["home"], true), (["data"], true), (["data", "Submission"], true),
          (["data", "Submission", "5"], true), (["data", "Submission", "5", "source"], true),
          (["data", "Submission", "5", "source", "a.cpp"], false)]
      nodup := by decide
      valid := by decide
      not_root := by decide
      parent := by decide }
  have haccepted : getInfoFromRequest (.ok source.request) = .ok source := by decide +kernel
  have hname : Proper "a.cpp" := by decide
  have hrun : (filesystem.removeFile (treeDisk [] .refusing) 8 source tree).map
      (Option.map fun result => (result.1, result.2.nodes)) =
        .ok (some (.ok "/data/Submission/5/source/a.cpp", [(["home"], true)])) := by decide +kernel
  obtain ⟨result, hremove, hresult⟩ := map_eq_ok.1 hrun
  obtain ⟨⟨path, tree'⟩, rfl, heq⟩ := Option.map_eq_some_iff.1 hresult
  obtain ⟨rfl, hnodes⟩ := Prod.mk.inj heq
  dsimp only at hnodes
  have hcleans := h filesystem _ [] source.request source 8 _ tree tree' (treeDisk_onTree [] .refusing)
    (by decide) haccepted (fun _ => hname) hremove
  have hbase : absolute [] (parse filesystem.basepath) = ["data"] := by decide +kernel
  have hfile : absolute [] (parse "/data/Submission/5/source/a.cpp") =
      ["data", "Submission", "5", "source", "a.cpp"] := by decide +kernel
  rw [hbase, hfile] at hcleans
  have hkept : (["data"], true) ∈ tree'.nodes :=
    (hcleans (["data"], true)).2 ⟨by decide, by decide, fun hbelow => Below.irrefl _ hbelow.1⟩
  rw [hnodes] at hkept
  exact absurd hkept (by decide)

end Filesystem

end TestingSystem
