import TestingSystem.Storage.FileStore

/-!
# What the storage answers on a reliable disk

A disk may fail at any time, and then so does the storage. On a disk that fails only for reasons in its
tree the answers are determined by the stored files (`FileReply`): an upload that says where its file goes
succeeds, a stored file is sent and removed, a download of a missing file is answered with 404, and every
other failure is the bare 500 of `HandleUpload`, `HandleRemove` and `HandleGet`.
-/

set_option autoImplicit false

namespace TestingSystem

open FilePath (Proper Path parse)

/-- A call about the request. A removal has at least the given number of turns. -/
inductive StorageCall.Asks (request : StorageRequest) (turns : Nat) : StorageCall → Prop where
  | upload (file : Bytes) : Asks request turns (.upload (.ok request) (.ok file))
  | remove (more : Nat) (hturns : turns ≤ more) : Asks request turns (.remove (.ok request) more)
  | get (downloadHead : Option Int) : Asks request turns (.get (.ok request) downloadHead)

/-- The answer that the stored files determine. -/
inductive FileReply (files : Files) (request : StorageRequest) : StorageCall → StorageReply → Prop where
  | uploaded {key : FileKey} {file : Bytes} (hpicks : files.Picks request key) :
      FileReply files request (.upload (.ok request) (.ok file)) .respOK
  | removed {key : FileKey} {turns : Nat} (hpicks : files.Picks request key)
      (hstored : (files key).isSome = true) :
      FileReply files request (.remove (.ok request) turns) .respOK
  | nothingToRemove {key : FileKey} {turns : Nat} (hpicks : files.Picks request key)
      (hmissing : files key = none) :
      FileReply files request (.remove (.ok request) turns) (.respErr 500 "Server error")
  | got {key : FileKey} {downloadHead : Option Int} {file : Bytes}
      (hpicks : files.Picks request key) (hstored : files key = some file) :
      FileReply files request (.get (.ok request) downloadHead)
        (.file key.name (headOf downloadHead file))
  | notFound {key : FileKey} {downloadHead : Option Int} {text : String}
      (hpicks : files.Picks request key) (hmissing : files key = none) :
      FileReply files request (.get (.ok request) downloadHead) (.respErr 404 text)
  /-- The request gives no name, and its folder does not hold exactly one file. -/
  | noFile {call : StorageCall} (hnone : ∀ key, ¬ files.Picks request key) :
      FileReply files request call (.respErr 500 "Server error")

section Replies

variable {σ : Type} {filesystem : Filesystem} {cwd : List String} {tree : σ → FileTree}
  {content : σ → List String → Option Bytes} {disk : FileDisk σ} {s s' : σ} {files : Files}
  {key key' : FileKey} {info : ResourceInfo} {request : StorageRequest} {path : String}

/-- A request is about one file at most. -/
theorem Files.Picks.unique (h : files.Picks request key) (h' : files.Picks request key') :
    key = key' := by
  obtain ⟨info, haccepted, hdata, hid, hfolder, hname⟩ := h
  obtain ⟨info', haccepted', hdata', hid', hfolder', hname'⟩ := h'
  obtain rfl := Except.ok.inj (haccepted.symm.trans haccepted')
  obtain ⟨dataType, id, folder, name⟩ := key
  obtain ⟨dataType', id', folder', name'⟩ := key'
  obtain rfl : dataType = dataType' := hdata.symm.trans hdata'
  obtain rfl : id = id' := hid.symm.trans hid'
  obtain rfl : folder = folder' := Except.ok.inj (hfolder.symm.trans hfolder')
  rcases hname with ⟨hnamed, hname⟩ | ⟨hempty, honly⟩
  · rcases hname' with ⟨-, hname'⟩ | ⟨hempty', -⟩
    · obtain rfl := (Prod.mk.inj (Except.ok.inj (hname.symm.trans hname'))).1
      rfl
    · rw [hnamed] at hempty'
      cases hempty'
  · rcases hname' with ⟨hnamed', -⟩ | ⟨-, honly'⟩
    · rw [hempty] at hnamed'
      cases hnamed'
    · obtain rfl : name = name' := (honly' name).1 ((honly name).2 rfl)
      rfl

/-! ## Places of files -/

/-- No file is in the way to the place of another one. -/
theorem Represents.no_file_above (h : Represents filesystem cwd tree content s files)
    (hkey : key.Valid) {p : List String} (hle : p <+: filesystem.location cwd key)
    (hfile : (p, false) ∈ (tree s).nodes) : p = filesystem.location cwd key := by
  rcases Below.total (base_below_location filesystem cwd key).1 hle with hbelow | habove
  · obtain ⟨key', hkey', -, hself⟩ := h.below _ hfile hbelow
    obtain rfl : p = _ := hself.2 rfl
    rw [Filesystem.location_prefix hkey' hkey hle]
  · cases h.above _ hfile habove

/-- The place of a file is no directory. -/
theorem Represents.no_dir_at (h : Represents filesystem cwd tree content s files)
    (hkey : key.Valid) : (filesystem.location cwd key, true) ∉ (tree s).nodes := by
  intro hdir
  obtain ⟨key', hkey', hle, hself⟩ := h.below _ hdir (base_below_location filesystem cwd key)
  obtain rfl := Filesystem.location_prefix hkey hkey' hle
  cases hself.1 rfl

theorem Represents.missing (h : Represents filesystem cwd tree content s files)
    (hdisk : disk.Holds cwd tree content) (hkey : key.Valid) (hmissing : files key = none)
    (isDir : Bool) : (filesystem.location cwd key, isDir) ∉ (tree s).nodes := by
  intro hnode
  cases isDir with
  | true => exact h.no_dir_at hkey hnode
  | false =>
    have hsome := (hdisk.isFile s _).2 hnode
    rw [h.stored key hkey, hmissing] at hsome
    cases hsome

theorem Represents.node (h : Represents filesystem cwd tree content s files)
    (hdisk : disk.Holds cwd tree content) (hkey : key.Valid) (hstored : (files key).isSome = true) :
    (filesystem.location cwd key, false) ∈ (tree s).nodes := by
  rw [← hdisk.isFile s, h.stored key hkey]
  exact hstored

/-! ## The path of a request -/

theorem Filesystem.generatePathFromID_eq (hblock : filesystem.blockSize < 2 ^ 63) (id : Nat) :
    filesystem.generatePathFromID id = .ok (FilePath.join (filesystem.parts id)) :=
  if_pos hblock

/-- The only file of a folder is found. -/
theorem Represents.only_entry (h : Represents filesystem cwd tree content s files)
    (hdisk : disk.Holds cwd tree content) (hreliable : disk.Reliable cwd tree content)
    {kind : ResourceType} {name : String} (hparsed : info.Parsed kind name)
    (hnamed : info.request.NamesFile) (hdata : info.dataType = key.dataType)
    (hid : info.id = key.id) (hfolder : filepathFolderMapping kind = key.folder)
    (honly : ∀ n, (files { key with name := n }).isSome = true ↔ n = key.name) :
    ∃ hname, disk.readDir (filesystem.resourceFolder info).text s =
      .ok [⟨key.name, false, hname⟩] := by
  have hvalid : ∀ n, Proper n → FileKey.Valid { key with name := n } := fun n hn =>
    ⟨hn, _, kind, hparsed.rename hnamed hn, hdata, hid, hfolder⟩
  have hstored : (files key).isSome = true := (honly key.name).2 rfl
  have hkey : key.Valid := by
    by_contra hno
    rw [h.invalid key hno] at hstored
    cases hstored
  -- the folder of the resource
  have hresource : filesystem.resourceFolder info =
      (parse filesystem.basepath).down (filesystem.folderOf key) := by
    rw [Filesystem.resourceFolder_eq hparsed, Filesystem.folderOf_eq hdata hid hfolder]
  have hplace : absolute cwd (parse (filesystem.resourceFolder info).text) =
      absolute cwd (parse filesystem.basepath) ++ filesystem.folderOf key := by
    rw [Path.parse_text (Filesystem.proper_resourceFolder hparsed), hresource, absolute_down]
  have hnode := h.node hdisk hkey hstored
  rw [Filesystem.location, ← List.append_assoc, ← hplace] at hnode
  have hdir : (absolute cwd (parse (filesystem.resourceFolder info).text), true) ∈ (tree s).nodes := by
    refine ((tree s).parent_of_mem hnode).resolve_left ?_
    rw [hplace]
    exact List.append_ne_nil_of_right_ne_nil _ (List.cons_ne_nil _ _)
  have hchildren : (tree s).children (absolute cwd (parse (filesystem.resourceFolder info).text)) =
      [(key.name, false)] := by
    apply List.perm_singleton.1
    apply (List.perm_ext_iff_of_nodup ((tree s).nodup_children _) (List.nodup_singleton _)).2
    rintro ⟨n, isDir⟩
    rw [DirTree.mem_children, List.mem_singleton]
    constructor
    · intro hentry
      have hn : Proper n := (tree s).valid _ hentry n (by simp)
      rw [hplace, List.append_assoc] at hentry
      have hentry : (filesystem.location cwd { key with name := n }, isDir) ∈ (tree s).nodes := hentry
      cases isDir with
      | true => exact absurd hentry (h.no_dir_at (hvalid n hn))
      | false =>
        have hsome := (hdisk.isFile s _).2 hentry
        rw [h.stored _ (hvalid n hn)] at hsome
        rw [(honly n).1 hsome]
    · intro heq
      rw [(Prod.mk.inj heq).1, (Prod.mk.inj heq).2]
      exact hnode
  obtain ⟨entries, hread⟩ := hreliable.readDir _ s hdir
  have hperm := hdisk.onTree.readDir_ok _ s _ hread
  rw [hchildren] at hperm
  obtain ⟨⟨n, isDir, hname⟩, rfl, hentry⟩ := List.map_eq_singleton_iff.1 (List.perm_singleton.1 hperm)
  obtain ⟨rfl, rfl⟩ := Prod.mk.inj hentry
  exact ⟨hname, hread⟩

/-- `BuildFilePath` finds the file that a request is about. -/
theorem Represents.buildFilePath (h : Represents filesystem cwd tree content s files)
    (hdisk : disk.Holds cwd tree content) (hreliable : disk.Reliable cwd tree content)
    (hblock : filesystem.blockSize < 2 ^ 63) (haccepted : getInfoFromRequest (.ok request) = .ok info)
    (hplain : request.Plain) (hpicks : files.Picks request key) :
    ∃ path, filesystem.buildFilePath (disk.readDir · s) info = .ok (.ok path) ∧ key.Valid ∧
      path = (((parse filesystem.basepath).down (filesystem.folderOf key)).down [key.name]).text := by
  suffices hok : ∃ path, filesystem.buildFilePath (disk.readDir · s) info = .ok (.ok path) by
    obtain ⟨path, hok⟩ := hok
    obtain ⟨key', hkey', hpicks', hpath⟩ := h.picks hdisk haccepted hplain hok
    obtain rfl := hpicks.unique hpicks'
    exact ⟨path, hok, hkey', hpath⟩
  obtain ⟨info', haccepted', hdata, hid, hfolder, hname⟩ := hpicks
  obtain rfl := Except.ok.inj (haccepted.symm.trans haccepted')
  obtain ⟨rfl, kind, name, hparsed⟩ := ResourceInfo.parsed_of_accepted haccepted
  unfold Filesystem.buildFilePath
  rw [Filesystem.generatePathFromID_eq hblock]
  rcases hname with ⟨hempty, -⟩ | ⟨hempty, honly⟩
  · rw [ok_bind, hempty, if_neg Bool.false_ne_true]
    exact ⟨_, rfl⟩
  · have hnamed : info.request.NamesFile := by
      by_contra hfixed
      rw [(hparsed.name_of_fixed hfixed).1] at hempty
      cases hempty
    have hkind := Except.ok.inj (hparsed.folder_eq.symm.trans hfolder)
    obtain ⟨hentry, hread⟩ := h.only_entry hdisk hreliable hparsed hnamed hdata hid hkind honly
    obtain ⟨rfl, hdecide⟩ := hparsed.name_of_named hnamed
    have hnone : info.request.storageFilename = "" := of_decide_eq_true (hdecide.symm.trans hempty)
    have hself : (filesystem.resourceFolder info).resolve "" = filesystem.resourceFolder info := rfl
    rw [ok_bind, Filesystem.join_filepath hparsed, hnone, hself, hempty, if_pos rfl]
    dsimp only
    rw [hread]
    exact ⟨_, rfl⟩

/-- Without such a file `BuildFilePath` fails. -/
theorem Represents.buildFilePath_none (h : Represents filesystem cwd tree content s files)
    (hdisk : disk.Holds cwd tree content) (hblock : filesystem.blockSize < 2 ^ 63)
    (haccepted : getInfoFromRequest (.ok request) = .ok info) (hplain : request.Plain)
    (hnone : ∀ key, ¬ files.Picks request key) :
    ∃ err, filesystem.buildFilePath (disk.readDir · s) info = .ok (.error err) := by
  cases hbuild : filesystem.buildFilePath (disk.readDir · s) info with
  | error panic =>
    unfold Filesystem.buildFilePath at hbuild
    rw [Filesystem.generatePathFromID_eq hblock, ok_bind] at hbuild
    dsimp only at hbuild
    split at hbuild
    · split at hbuild <;> cases hbuild
    · cases hbuild
  | ok result =>
    cases result with
    | error err => exact ⟨err, rfl⟩
    | ok path =>
      obtain ⟨key, -, hpicks, -⟩ := h.picks hdisk haccepted hplain hbuild
      exact absurd hpicks (hnone key)

/-! ## The three functions -/

/-- The path of a file, where it leads and where the one of its folder leads. -/
structure PathOf (filesystem : Filesystem) (cwd : List String) (key : FileKey) (path : String) :
    Prop where
  place : absolute cwd (parse path) = filesystem.location cwd key
  names : (parse path).names ≠ []
  base : FilePath.base path = key.name
  dir : FilePath.dir path = ((parse filesystem.basepath).down (filesystem.folderOf key)).text
  dir_place : absolute cwd (parse (FilePath.dir path)) =
    absolute cwd (parse filesystem.basepath) ++ filesystem.folderOf key

theorem PathOf.of_eq (hkey : key.Valid)
    (hpath : path =
      (((parse filesystem.basepath).down (filesystem.folderOf key)).down [key.name]).text) :
    PathOf filesystem cwd key path := by
  have hfolder : ∀ n ∈ filesystem.folderOf key, Proper n := Filesystem.proper_folderOf hkey
  have hone : ∀ n ∈ [key.name], Proper n := by simpa using hkey.1
  have hvalid := (FilePath.valid_parse filesystem.basepath).down hfolder
  have hdir := (absolute_dir cwd hkey hpath).1
  refine ⟨Filesystem.absolute_location hkey hpath, ?_, ?_, hdir, ?_⟩
  · rw [hpath, Path.parse_text (hvalid.down hone)]
    simp [Path.down]
  · rw [hpath, FilePath.base_text hvalid hkey.1]
  · rw [hdir, Path.parse_text hvalid, absolute_down]

theorem Represents.saveFile_ok (h : Represents filesystem cwd tree content s files)
    (hdisk : disk.Holds cwd tree content) (hreliable : disk.Reliable cwd tree content)
    (hkey : key.Valid) (hpath : PathOf filesystem cwd key path)
    (hbuild : filesystem.buildFilePath (disk.readDir · s) info = .ok (.ok path)) (file : Bytes) :
    ∃ s', filesystem.saveFile (disk.uploading file) info s = .ok (.ok path, s') := by
  have hbelow : Below (absolute cwd (parse (FilePath.dir path))) (filesystem.location cwd key) := by
    rw [hpath.dir_place, Filesystem.location, ← List.append_assoc]
    exact .concat _ _
  obtain ⟨s₁, hmkdir, hdirs⟩ := hreliable.mkdirAll (FilePath.dir path) s <| by
    intro p hle hfile
    have hp := Below.of_le hle hbelow
    exact hp.2 (h.no_file_above hkey hp.1 hfile)
  have hnodir : (absolute cwd (parse path), true) ∉ (tree s₁).nodes := by
    rw [hpath.place]
    intro hnode
    rcases hdisk.mkdirAll_adds _ _ _ _ hmkdir _ hnode with hold | ⟨-, hle⟩
    · exact h.no_dir_at hkey hold
    · exact Below.irrefl _ (hbelow.trans_le hle)
  have hparent : ((absolute cwd (parse path)).dropLast, true) ∈ (tree s₁).nodes := by
    apply hdirs
    · rw [hpath.place, hpath.dir_place, Filesystem.location, ← List.append_assoc,
        List.dropLast_concat]
    · rw [hpath.place, Filesystem.location, ← List.append_assoc, List.dropLast_concat]
      exact List.append_ne_nil_of_right_ne_nil _ (List.cons_ne_nil _ _)
  obtain ⟨s₂, hwrite⟩ := hreliable.write path file s₁ hpath.names (.inr hparent) hnodir
  have hcall : (disk.uploading file).mkdirAll (FilePath.dir path) s = (.ok (), s₁) := hmkdir
  have hbuilt : filesystem.buildFilePath ((disk.uploading file).readDir · s) info =
      .ok (.ok path) := hbuild
  refine ⟨s₂, ?_⟩
  unfold Filesystem.saveFile
  rw [hbuilt, ok_bind]
  dsimp only
  rw [hcall]
  dsimp only
  change Except.ok ((disk.write path file s₁).1.map fun _ => path, (disk.write path file s₁).2) = _
  rw [hwrite]
  rfl

/-- The loop of `RemoveFile` succeeds from a directory below `Basepath`. -/
theorem Filesystem.removeFolders_ok (hdisk : disk.Holds cwd tree content)
    (hreliable : disk.Reliable cwd tree content)
    (hclean : FilePath.clean filesystem.basepath = filesystem.basepath) {names : List String}
    (hnames : ∀ n ∈ names, Proper n)
    (hdir : names ≠ [] → (absolute cwd ((parse filesystem.basepath).down names), true) ∈ (tree s).nodes)
    {turns : Nat} (hturns : names.length < turns) :
    ∃ s', filesystem.removeFolders disk.toDisk turns ((parse filesystem.basepath).down names).text s =
      some (.ok (), s') := by
  induction names using List.reverseRecOn generalizing s turns with
  | nil =>
    cases turns with
    | zero => exact absurd hturns (Nat.not_lt_zero _)
    | succ turns =>
      refine ⟨s, ?_⟩
      rw [removeFolders, if_pos]
      rw [Path.down_nil]
      exact hclean
  | append_singleton names name ih =>
    cases turns with
    | zero => exact absurd hturns (Nat.not_lt_zero _)
    | succ turns =>
      have habove : ∀ n ∈ names, Proper n := fun n hn => hnames n (List.mem_append_left _ hn)
      have hname : Proper name := hnames name (by simp)
      have hvalid := (FilePath.valid_parse filesystem.basepath).down hnames
      have hnode := hdir (by simp)
      have hparse := Path.parse_text hvalid
      have hne : ((parse filesystem.basepath).down (names ++ [name])).names ≠ [] := by
        simp [Path.down]
      obtain ⟨entries, hread⟩ := hreliable.readDir _ s (by rwa [← hparse] at hnode)
      have hperm := hdisk.onTree.readDir_ok _ s _ hread
      rw [hparse] at hperm
      rw [removeFolders, if_neg, hread]
      · cases entries with
        | cons entry entries => exact ⟨s, rfl⟩
        | nil =>
          -- the empty directory is removed, and the loop goes on above it
          obtain ⟨s₁, hremove⟩ := hreliable.remove
            ((parse filesystem.basepath).down (names ++ [name])).text s true (by rwa [hparse])
            (by rwa [hparse]) (by rw [hparse]; exact hperm.symm.eq_nil)
          have hremoves := (hdisk.onTree.remove_ok _ s s₁ hremove).2
          rw [hparse] at hremoves
          dsimp only
          rw [hremove]
          dsimp only
          rw [← Path.down_down, FilePath.dir_text ((FilePath.valid_parse _).down habove) hname]
          apply ih habove
          · intro hnonempty
            rw [absolute_down] at hnode ⊢
            apply (hremoves.mem_iff _).2
            rw [absolute_down, ← List.append_assoc] at *
            refine ⟨((tree s).parent_of_mem hnode).resolve_left ?_, ?_⟩
            · exact List.append_ne_nil_of_right_ne_nil _ hnonempty
            · simp
          · rw [List.length_append, List.length_singleton] at hturns
            exact Nat.lt_of_succ_lt_succ hturns
      · intro hbase
        have hsame := congrArg parse hbase
        rw [hparse] at hsame
        have hself := congrArg Path.names hsame
        simp [Path.down] at hself

theorem Represents.removeFile_ok (h : Represents filesystem cwd tree content s files)
    (hdisk : disk.Holds cwd tree content) (hreliable : disk.Reliable cwd tree content)
    (hclean : FilePath.clean filesystem.basepath = filesystem.basepath)
    (hkey : key.Valid) (hpath : PathOf filesystem cwd key path)
    (hbuild : filesystem.buildFilePath (disk.readDir · s) info = .ok (.ok path))
    (hstored : (files key).isSome = true) {turns : Nat}
    (hturns : (filesystem.folderOf key).length < turns) :
    ∃ s', filesystem.removeFile disk.toDisk turns info s = .ok (some (.ok path, s')) := by
  have hnode := h.node hdisk hkey hstored
  rw [← hpath.place] at hnode
  have hempty : (tree s).children (absolute cwd (parse path)) = [] := by
    -- nothing lies below a file
    apply List.eq_nil_iff_forall_not_mem.2
    rintro ⟨name, isDir⟩ hchild
    have hdir := ((tree s).parent_of_mem (DirTree.mem_children.1 hchild)).resolve_left
      (absolute_ne_nil hpath.names)
    cases DirTree.eq_of_mem hnode hdir
  obtain ⟨s₁, hremove⟩ := hreliable.remove path s false hpath.names hnode hempty
  have hremoves := (hdisk.onTree.remove_ok _ s s₁ hremove).2
  obtain ⟨s₂, hfolders⟩ := Filesystem.removeFolders_ok (s := s₁) hdisk hreliable hclean
    (Filesystem.proper_folderOf hkey) (by
      intro _
      rw [absolute_down]
      have hplace := hpath.place
      rw [Filesystem.location, ← List.append_assoc] at hplace
      rw [hplace] at hnode
      apply (hremoves.mem_iff _).2
      refine ⟨((tree s).parent_of_mem hnode).resolve_left ?_, ?_⟩
      · exact List.append_ne_nil_of_right_ne_nil _ (List.cons_ne_nil _ _)
      · rw [hplace]
        simp) hturns
  refine ⟨s₂, ?_⟩
  unfold Filesystem.removeFile
  rw [hbuild, ok_bind]
  dsimp only
  rw [hremove]
  dsimp only
  rw [hpath.dir, hfolders]
  rfl

/-! ## The handlers -/

namespace Filesystem

variable {call : Except String StorageRequest} {err : String}

theorem handleUpload_saved (haccepted : getInfoFromRequest call = .ok info) {file : Bytes}
    (hsave : filesystem.saveFile (disk.uploading file) info s = .ok (.ok path, s')) :
    filesystem.handleUpload disk call (.ok file) s = .ok (.respOK, s') := by
  unfold handleUpload
  rw [haccepted]
  dsimp only
  rw [hsave]
  rfl

theorem handleRemove_removed (haccepted : getInfoFromRequest call = .ok info) {turns : Nat}
    (hremove : filesystem.removeFile disk.toDisk turns info s = .ok (some (.ok path, s'))) :
    filesystem.handleRemove disk call turns s = .ok (.respOK, s') := by
  unfold handleRemove
  rw [haccepted]
  dsimp only
  rw [hremove]
  rfl

theorem handleRemove_failed (haccepted : getInfoFromRequest call = .ok info) {turns : Nat}
    (hremove : filesystem.removeFile disk.toDisk turns info s = .ok (some (.error err, s'))) :
    filesystem.handleRemove disk call turns s = .ok (.respErr 500 "Server error", s') := by
  unfold handleRemove
  rw [haccepted]
  dsimp only
  rw [hremove]
  rfl

theorem getFile_found (hbuild : filesystem.buildFilePath (disk.readDir · s) info = .ok (.ok path)) :
    filesystem.getFile disk.toDisk info s = .ok ((disk.stat path s).map fun _ => path) := by
  unfold getFile
  rw [hbuild]
  rfl

theorem handleGet_sent (haccepted : getInfoFromRequest call = .ok info)
    (hbuild : filesystem.buildFilePath (disk.readDir · s) info = .ok (.ok path))
    (hstat : disk.stat path s = .ok ()) {file : Bytes} (hread : disk.read path s = .ok file)
    (downloadHead : Option Int) :
    filesystem.handleGet disk call downloadHead s =
      .ok (.file (FilePath.base path) (headOf downloadHead file), s) := by
  unfold handleGet
  rw [haccepted]
  dsimp only
  rw [getFile_found hbuild, hstat]
  dsimp only [Except.map]
  rw [hread]
  rfl

theorem handleGet_missing (haccepted : getInfoFromRequest call = .ok info)
    (hbuild : filesystem.buildFilePath (disk.readDir · s) info = .ok (.ok path))
    (hstat : disk.stat path s = .error err) (hmissing : disk.isNotExist err = true)
    (downloadHead : Option Int) :
    filesystem.handleGet disk call downloadHead s =
      .ok (.respErr 404 ("File doesn't exist: " ++ err), s) := by
  have hnot : filesystem.getNotExist disk info s = true := by
    unfold getNotExist
    rw [hbuild]
    dsimp only
    rw [hstat]
    exact hmissing
  unfold handleGet
  rw [haccepted]
  dsimp only
  rw [getFile_found hbuild, hstat]
  dsimp only [Except.map]
  rw [if_pos hnot]
  rfl

/-- When there is no path, every handler answers with a server error. -/
theorem answer_no_path (haccepted : getInfoFromRequest (.ok request) = .ok info)
    (hbuild : filesystem.buildFilePath (disk.readDir · s) info = .ok (.error err)) {init : σ → Prop}
    {turns : Nat} {call : StorageCall} (hcall : call.Asks request turns) :
    (filesystem.server disk init).answer s call = .ok (.respErr 500 "Server error", s) := by
  cases hcall with
  | upload file =>
    have hbuilt : filesystem.buildFilePath ((disk.uploading file).readDir · s) info =
        .ok (.error err) := hbuild
    unfold server handleUpload saveFile
    dsimp only
    rw [haccepted]
    dsimp only
    rw [hbuilt]
    rfl
  | remove more hturns =>
    unfold server handleRemove removeFile
    dsimp only
    rw [haccepted]
    dsimp only
    rw [hbuild]
    rfl
  | get downloadHead =>
    have hnot : filesystem.getNotExist disk info s = false := by
      unfold getNotExist
      rw [hbuild]
    have hget : filesystem.getFile disk.toDisk info s = .ok (.error err) := by
      unfold getFile
      rw [hbuild]
      rfl
    unfold server handleGet
    dsimp only
    rw [haccepted]
    dsimp only
    rw [hget]
    dsimp only
    rw [hnot]
    rfl

end Filesystem

theorem Represents.handleRemove_answers (h : Represents filesystem cwd tree content s files)
    (hdisk : disk.Holds cwd tree content) (hreliable : disk.Reliable cwd tree content)
    (hclean : FilePath.clean filesystem.basepath = filesystem.basepath)
    (haccepted : getInfoFromRequest (.ok request) = .ok info) (hpicks : files.Picks request key)
    (hkey : key.Valid) (hpath : PathOf filesystem cwd key path)
    (hbuild : filesystem.buildFilePath (disk.readDir · s) info = .ok (.ok path)) {turns : Nat}
    (hturns : (filesystem.folderOf key).length < turns) :
    ∃ reply s', filesystem.handleRemove disk (.ok request) turns s = .ok (reply, s') ∧
      FileReply files request (.remove (.ok request) turns) reply := by
  cases hstored : files key with
  | some file =>
    have hsome : (files key).isSome = true := by rw [hstored]; rfl
    obtain ⟨s', hremove⟩ :=
      h.removeFile_ok hdisk hreliable hclean hkey hpath hbuild hsome hturns
    exact ⟨_, s', Filesystem.handleRemove_removed haccepted hremove, .removed hpicks hsome⟩
  | none =>
    cases hcall : disk.remove path s with
    | mk result s' =>
      cases result with
      | ok _ =>
        obtain ⟨isDir, hnode⟩ := (hdisk.onTree.remove_ok _ _ _ hcall).2.exists_node
        rw [hpath.place] at hnode
        exact absurd hnode (h.missing hdisk hkey hstored isDir)
      | error err =>
        have hremove : filesystem.removeFile disk.toDisk turns info s =
            .ok (some (.error ("failed to remove file " ++ path ++ ": " ++ err), s')) := by
          unfold Filesystem.removeFile
          rw [hbuild, ok_bind]
          dsimp only
          rw [hcall]
          rfl
        exact ⟨_, s', Filesystem.handleRemove_failed haccepted hremove,
          .nothingToRemove hpicks hstored⟩

theorem Represents.handleGet_answers (h : Represents filesystem cwd tree content s files)
    (hdisk : disk.Holds cwd tree content) (hreliable : disk.Reliable cwd tree content)
    (haccepted : getInfoFromRequest (.ok request) = .ok info) (hpicks : files.Picks request key)
    (hkey : key.Valid) (hpath : PathOf filesystem cwd key path)
    (hbuild : filesystem.buildFilePath (disk.readDir · s) info = .ok (.ok path))
    (downloadHead : Option Int) :
    ∃ reply, filesystem.handleGet disk (.ok request) downloadHead s = .ok (reply, s) ∧
      FileReply files request (.get (.ok request) downloadHead) reply := by
  cases hstored : files key with
  | some file =>
    have hnode := h.node hdisk hkey (by rw [hstored]; rfl)
    rw [← hpath.place] at hnode
    have hread : disk.read path s = .ok file := by
      apply hreliable.read
      rw [hpath.place, h.stored key hkey, hstored]
    refine ⟨_, Filesystem.handleGet_sent haccepted hbuild (hreliable.stat path s false hnode) hread
      downloadHead, ?_⟩
    rw [hpath.base]
    exact .got hpicks hstored
  | none =>
    have hnothing : ∀ isDir, (absolute cwd (parse path), isDir) ∉ (tree s).nodes := by
      intro isDir
      rw [hpath.place]
      exact h.missing hdisk hkey hstored isDir
    obtain ⟨err, hstat, hmissing⟩ :=
      hreliable.stat_missing path s (absolute_ne_nil hpath.names) hnothing <| by
        intro p hle hfile
        rw [hpath.place] at hle
        obtain rfl := h.no_file_above hkey hle hfile
        exact h.missing hdisk hkey hstored false hfile
    exact ⟨_, Filesystem.handleGet_missing haccepted hbuild hstat hmissing downloadHead,
      .notFound hpicks hstored⟩

/-- Every request is answered, as the stored files determine. -/
theorem Represents.answers (h : Represents filesystem cwd tree content s files)
    (hdisk : disk.Holds cwd tree content) (hreliable : disk.Reliable cwd tree content)
    (hblock : filesystem.blockSize < 2 ^ 63)
    (hclean : FilePath.clean filesystem.basepath = filesystem.basepath) {init : σ → Prop}
    (haccepted : getInfoFromRequest (.ok request) = .ok info) (hplain : request.Plain) :
    ∃ turns, ∀ call, StorageCall.Asks request turns call →
      ∃ reply s', (filesystem.server disk init).answer s call = .ok (reply, s') ∧
        FileReply files request call reply := by
  by_cases hpicks : ∃ key, files.Picks request key
  · obtain ⟨key, hpicks⟩ := hpicks
    obtain ⟨path, hbuild, hkey, htext⟩ :=
      h.buildFilePath hdisk hreliable hblock haccepted hplain hpicks
    have hpath : PathOf filesystem cwd key path := .of_eq hkey htext
    refine ⟨(filesystem.folderOf key).length + 1, ?_⟩
    intro call hcall
    cases hcall with
    | upload file =>
      obtain ⟨s', hsave⟩ := h.saveFile_ok hdisk hreliable hkey hpath hbuild file
      exact ⟨.respOK, s', Filesystem.handleUpload_saved haccepted hsave, .uploaded hpicks⟩
    | remove more hturns =>
      exact h.handleRemove_answers hdisk hreliable hclean haccepted hpicks hkey hpath hbuild
        (Nat.lt_of_succ_le hturns)
    | get downloadHead =>
      obtain ⟨reply, hanswer, hreply⟩ :=
        h.handleGet_answers hdisk hreliable haccepted hpicks hkey hpath hbuild downloadHead
      exact ⟨reply, s, hanswer, hreply⟩
  · have hnone : ∀ key, ¬ files.Picks request key := fun key hkey => hpicks ⟨key, hkey⟩
    obtain ⟨err, hbuild⟩ := h.buildFilePath_none hdisk hblock haccepted hplain hnone
    refine ⟨0, ?_⟩
    intro call hcall
    exact ⟨_, s, Filesystem.answer_no_path haccepted hbuild hcall, .noFile hnone⟩

/-- In every run on a reliable disk without overlapping requests, whatever happened before, the answer to
an accepted request is the one that the stored files determine. A block size from `2 ^ 63` on panics, and with a `Basepath` that is
not clean a removal may end above it. -/
theorem Filesystem.replies_determined (hdisk : disk.Holds cwd tree content)
    (hreliable : disk.Reliable cwd tree content) (hblock : filesystem.blockSize < 2 ^ 63)
    (hclean : FilePath.clean filesystem.basepath = filesystem.basepath) {init : σ → Prop}
    {start : Files} (hinit : ∀ s, init s → Represents filesystem cwd tree content s start)
    {served : Served σ StorageCall StorageReply}
    (h : (filesystem.server disk init).machine.Reachable Machine.always served) :
    ∃ files, FileService.Explains start served.answered files ∧
      ∀ request info, getInfoFromRequest (.ok request) = .ok info → request.Plain →
        ∃ turns, ∀ call, StorageCall.Asks request turns call →
          ∃ reply s', (filesystem.server disk init).answer served.state call = .ok (reply, s') ∧
            FileReply files request call reply := by
  obtain ⟨files, hexplains, hrep⟩ : ∃ files, FileService.Explains start served.answered files ∧
      Represents filesystem cwd tree content served.state files := by
    refine Server.offers hinit ?_ h
    intro s files call reply s' hrep hplain hanswer
    exact hrep.answer hdisk hplain hanswer
  refine ⟨files, hexplains, ?_⟩
  intro request info haccepted hplain
  exact hrep.answers hdisk hreliable hblock hclean haccepted hplain

end Replies

/-- The storage starts on an empty disk: there is nothing to send. -/
theorem Filesystem.replies_determined_empty :
    ∃ (filesystem : Filesystem) (request : StorageRequest) (files : Files) (reply : StorageReply),
      FileReply files request (.get (.ok request) none) reply ∧
        ∃ s', (filesystem.server (memoryDisk []) (· = FileState.empty)).answer FileState.empty
          (.get (.ok request) none) = .ok (reply, s') := by
  let filesystem : Filesystem := ⟨"/data", 3, by decide, by decide⟩
  let request : StorageRequest := { resource := 1, submitID := 1234 }
  let info : ResourceInfo :=
    { request := request, id := 1234, filepath := "solution", dataType := .submission }
  have haccepted : getInfoFromRequest (.ok request) = .ok info := by decide +kernel
  have hplain : request.Plain := fun hnamed => absurd hnamed (by decide)
  have hclean : FilePath.clean filesystem.basepath = filesystem.basepath := by decide +kernel
  obtain ⟨files, -, hreplies⟩ := Filesystem.replies_determined (memoryDisk_holds [])
    (memoryDisk_reliable (by simp)) (by decide : filesystem.blockSize < 2 ^ 63) hclean
    (by rintro s rfl; exact FileState.represents_empty filesystem [])
    (Machine.Reachable.of_init (s := ⟨FileState.empty, []⟩) ⟨rfl, rfl⟩)
  obtain ⟨turns, hasks⟩ := hreplies request info haccepted hplain
  obtain ⟨reply, s', hanswer, hreply⟩ := hasks _ (.get none)
  exact ⟨filesystem, request, files, reply, hreply, s', hanswer⟩

end TestingSystem
