import TestingSystem.Storage.FileDisk

/-!
# The storage as a store of files

To its clients the storage is a map: a `FileKey` names a file of a problem or of a submission, and `Files`
gives the files that are stored. `FileService` says how the map explains the answers. A request without a
file name is about the only file in the folder of its resource (`Files.Picks`). An upload that fails may
leave anything in the place of its own file, and `RemoveFile` may fail after it has removed the file.

The disk keeps a tree of directories and files (`FileDisk.Holds`). `Represents` relates it to the map; the
paths of two keys are never one above the other, so a call only touches the file it is about
(`location_prefix`).
-/

set_option autoImplicit false

namespace TestingSystem

open FilePath (Proper Path parse)

/-! ## The map -/

/-- A file of a problem or of a submission, in the folder of its resource. -/
structure FileKey where
  dataType : DataType
  id : Nat
  folder : String
  name : String
  deriving DecidableEq, Repr

/-- The stored files. -/
abbrev Files := FileKey → Option Bytes

/-- The request is about the file: it gives its name, or the file is the only one in its folder. -/
def Files.Picks (files : Files) (request : StorageRequest) (key : FileKey) : Prop :=
  ∃ info, getInfoFromRequest (.ok request) = .ok info ∧ info.dataType = key.dataType ∧
    info.id = key.id ∧ info.parseFilepathFolder = .ok key.folder ∧
    (info.emptyStorageFilename = false ∧ info.parseFilepathFilename = .ok (key.name, false) ∨
      info.emptyStorageFilename = true ∧
        ∀ name, (files { key with name := name }).isSome = true ↔ name = key.name)

/-- The answers that a map of files allows. -/
inductive FileService : Service Files StorageCall StorageReply where
  | uploaded {files : Files} {request : StorageRequest} {key : FileKey} {file : Bytes}
      (hpicks : files.Picks request key) :
      FileService files (.upload (.ok request) (.ok file)) .respOK
        (Function.update files key (some file))
  /-- The writing broke off. -/
  | uploadFailed {files : Files} {request : StorageRequest} {key : FileKey} {file : Bytes}
      {text : String} (left : Option Bytes) (hpicks : files.Picks request key) :
      FileService files (.upload (.ok request) (.ok file)) (.respErr 500 text)
        (Function.update files key left)
  | removed {files : Files} {request : StorageRequest} {key : FileKey} {turns : Nat}
      (hpicks : files.Picks request key) (hstored : (files key).isSome = true) :
      FileService files (.remove (.ok request) turns) .respOK (Function.update files key none)
  /-- The file is removed, but not all folders that it left empty. -/
  | removeFailed {files : Files} {request : StorageRequest} {key : FileKey} {turns : Nat}
      {text : String} (hpicks : files.Picks request key) (hstored : (files key).isSome = true) :
      FileService files (.remove (.ok request) turns) (.respErr 500 text)
        (Function.update files key none)
  | got {files : Files} {request : StorageRequest} {key : FileKey} {downloadHead : Option Int}
      {file : Bytes} (hpicks : files.Picks request key) (hstored : files key = some file) :
      FileService files (.get (.ok request) downloadHead) (.file key.name (headOf downloadHead file))
        files
  | refused {files : Files} {call : StorageCall} {code : Nat} {text : String} :
      FileService files call (.respErr code text) files
  | notServed {files : Files} {request : StorageRequest} {err : String} :
      FileService files (.get (.ok request) none) (.serveError err) files

/-! ## Where a file is -/

/-- The file is that of some request with a plain name. -/
def FileKey.Valid (key : FileKey) : Prop :=
  Proper key.name ∧ ∃ info kind, ResourceInfo.Parsed info kind key.name ∧
    info.dataType = key.dataType ∧ info.id = key.id ∧ filepathFolderMapping kind = key.folder

namespace Filesystem

variable (filesystem : Filesystem)

/-- The folder of a file below `Basepath`. -/
def folderOf (key : FileKey) : List String :=
  key.dataType.toString ::
    (filesystem.parts key.id ++ if key.folder = "" then [] else [key.folder])

/-- The place of a file in the tree of the disk. -/
def location (cwd : List String) (key : FileKey) : List String :=
  absolute cwd (parse filesystem.basepath) ++ (filesystem.folderOf key ++ [key.name])

variable {filesystem} {cwd : List String} {key key' : FileKey}

theorem folderOf_eq {info : ResourceInfo} {kind : ResourceType} (hdata : info.dataType = key.dataType)
    (hid : info.id = key.id) (hfolder : filepathFolderMapping kind = key.folder) :
    filesystem.folderOf key =
      info.dataType.toString :: (filesystem.parts info.id ++ folderNames kind) := by
  unfold folderOf folderNames
  rw [hdata, hid, hfolder]

theorem proper_folderOf (h : key.Valid) : ∀ name ∈ filesystem.folderOf key, Proper name := by
  obtain ⟨-, info, kind, -, -, -, hfolder⟩ := h
  intro name hname
  rcases List.mem_cons.1 hname with rfl | hname
  · exact key.dataType.proper_toString
  · rcases List.mem_append.1 hname with hname | hname
    · exact filesystem.proper_parts key.id name hname
    · rw [← hfolder] at hname
      exact proper_folderNames kind name hname

/-- No file lies below another one, and two files have two places. -/
theorem location_prefix (h : key.Valid) (h' : key'.Valid)
    (hle : filesystem.location cwd key <+: filesystem.location cwd key') : key = key' := by
  obtain ⟨-, info, kind, hparsed, hdata, hid, hfolder⟩ := h
  obtain ⟨-, info', kind', hparsed', hdata', hid', hfolder'⟩ := h'
  obtain ⟨more, hmore⟩ := hle
  unfold location at hmore
  rw [List.append_assoc] at hmore
  have hnames := List.append_cancel_left hmore
  rw [folderOf_eq hdata hid hfolder, folderOf_eq hdata' hid' hfolder'] at hnames
  simp only [List.cons_append, List.append_assoc] at hnames
  obtain ⟨hdata₁, hid₁, hfolder₁, hname₁, -⟩ := names_unique hparsed hparsed' more
    (by simpa only [List.append_assoc, List.cons_append] using hnames)
  have heq : key.dataType = key'.dataType ∧ key.id = key'.id ∧ key.folder = key'.folder ∧
      key.name = key'.name :=
    ⟨by rw [← hdata, ← hdata', hdata₁], by rw [← hid, ← hid', hid₁],
      by rw [← hfolder, ← hfolder', hfolder₁], hname₁⟩
  cases key
  cases key'
  simp_all

theorem location_injective (h : key.Valid) (h' : key'.Valid)
    (heq : filesystem.location cwd key = filesystem.location cwd key') : key = key' := by
  apply location_prefix h h'
  rw [heq]

/-- The text of a path that leads to a file. -/
theorem absolute_location (h : key.Valid) {path : String}
    (hpath : path =
      (((parse filesystem.basepath).down (filesystem.folderOf key)).down [key.name]).text) :
    absolute cwd (parse path) = filesystem.location cwd key := by
  have hone : ∀ n ∈ [key.name], Proper n := by simpa using h.1
  have hfolder : ∀ n ∈ filesystem.folderOf key, Proper n := proper_folderOf h
  have hvalid := ((FilePath.valid_parse filesystem.basepath).down hfolder).down hone
  rw [hpath, Path.parse_text hvalid, absolute_down, absolute_down, List.append_assoc]
  rfl

end Filesystem

/-! ## The map behind a disk -/

section Represents

variable {σ : Type}

variable (filesystem : Filesystem) (cwd : List String) (tree : σ → FileTree)
  (content : σ → List String → Option Bytes)

/-- The disk holds the files of the map. Below `Basepath` there is nothing but these files and the folders
on the way to places of files, and above it there are only directories. -/
structure Represents (s : σ) (files : Files) : Prop where
  stored : ∀ key, key.Valid → content s (filesystem.location cwd key) = files key
  invalid : ∀ key, ¬ key.Valid → files key = none
  below : ∀ node ∈ (tree s).nodes, Below (absolute cwd (parse filesystem.basepath)) node.1 →
    ∃ key, key.Valid ∧ node.1 <+: filesystem.location cwd key ∧
      (node.1 = filesystem.location cwd key ↔ node.2 = false)
  above : ∀ node ∈ (tree s).nodes, node.1 <+: absolute cwd (parse filesystem.basepath) →
    node.2 = true

variable {filesystem cwd tree content} {disk : FileDisk σ} {s s' : σ} {files : Files} {key : FileKey}

theorem base_below_location (filesystem : Filesystem) (cwd : List String) (key : FileKey) :
    Below (absolute cwd (parse filesystem.basepath)) (filesystem.location cwd key) := by
  refine ⟨List.prefix_append _ _, ?_⟩
  intro heq
  have hlength := congrArg List.length heq
  simp [Filesystem.location] at hlength

/-- What is written or lost at the place of a file changes this file only. -/
theorem Represents.update (h : Represents filesystem cwd tree content s files) (hkey : key.Valid)
    (hcontent : ∀ p, p ≠ filesystem.location cwd key → content s' p = content s p)
    (hnodes : ∀ node ∈ (tree s').nodes, node ∈ (tree s).nodes ∨
      node = (filesystem.location cwd key, false)) :
    Represents filesystem cwd tree content s'
      (Function.update files key (content s' (filesystem.location cwd key))) where
  stored := by
    intro key' hkey'
    by_cases heq : key' = key
    · rw [heq, Function.update_self]
    · rw [Function.update_of_ne heq, ← h.stored key' hkey']
      apply hcontent
      intro hsame
      exact heq (Filesystem.location_injective hkey' hkey hsame)
  invalid := by
    intro key' hkey'
    rw [Function.update_of_ne, h.invalid key' hkey']
    rintro rfl
    exact hkey' hkey
  below := by
    intro node hnode hbelow
    rcases hnodes node hnode with hold | rfl
    · exact h.below node hold hbelow
    · exact ⟨key, hkey, List.prefix_rfl, by simp⟩
  above := by
    intro node hnode hle
    rcases hnodes node hnode with hold | rfl
    · exact h.above node hold hle
    · have hbelow := base_below_location filesystem cwd key
      exact absurd (hbelow.trans_le hle) (Below.irrefl _)

/-- Only folders on the way to a file are made or removed. -/
theorem Represents.folders (h : Represents filesystem cwd tree content s files) (hkey : key.Valid)
    (hcontent : ∀ p, ¬ Below p (filesystem.location cwd key) → content s' p = content s p)
    (hnodes : ∀ node ∈ (tree s').nodes, node ∈ (tree s).nodes ∨
      node.2 = true ∧ Below node.1 (filesystem.location cwd key)) :
    Represents filesystem cwd tree content s' files where
  stored := by
    intro key' hkey'
    rw [← h.stored key' hkey']
    apply hcontent
    intro hbelow
    obtain rfl := Filesystem.location_prefix hkey' hkey hbelow.1
    exact hbelow.2 rfl
  invalid := h.invalid
  below := by
    intro node hnode hbelow
    rcases hnodes node hnode with hold | ⟨hdir, hway⟩
    · exact h.below node hold hbelow
    · refine ⟨key, hkey, hway.1, ?_⟩
      rw [hdir]
      exact iff_of_false hway.2 Bool.noConfusion
  above := by
    intro node hnode hle
    rcases hnodes node hnode with hold | ⟨hdir, -⟩
    · exact h.above node hold hle
    · exact hdir

/-! ## The file of a request -/

variable {info : ResourceInfo} {request : StorageRequest} {kind : ResourceType} {name path : String}

/-- The same request about another file of the folder. -/
theorem ResourceInfo.Parsed.rename (h : info.Parsed kind name) (hnamed : info.request.NamesFile)
    {entry : String} (hentry : Proper entry) :
    ResourceInfo.Parsed
      { info with
        request := { info.request with storageFilename := entry }
        filepath := FilePath.join [filepathFolderMapping kind, entry]
        emptyStorageFilename := false } kind entry where
  kind_eq := h.kind_eq
  dataType_eq := h.dataType_eq
  id_pos := h.id_pos
  folder_eq := h.folder_eq
  filename_eq := by
    unfold ResourceInfo.parseFilepathFilename
    rw [StorageRequest.NamesFile] at hnamed
    dsimp only
    rw [hnamed]
    dsimp only
    rw [if_pos hentry.nonempty]
  filepath_eq := rfl

theorem exists_request {call : Except String StorageRequest}
    (h : getInfoFromRequest call = .ok info) : ∃ request, call = .ok request := by
  cases call with
  | error err => cases h
  | ok request => exact ⟨request, rfl⟩

/-- Without a name, `BuildFilePath` takes the only entry of the folder. -/
theorem Filesystem.buildFilePath_entry (h : info.Parsed kind name)
    (hempty : info.emptyStorageFilename = true)
    {readDir : String → Except String (List DirEntry)}
    (hpath : filesystem.buildFilePath readDir info = .ok (.ok path)) :
    info.request.NamesFile ∧ ∃ entry hentry,
      readDir (filesystem.resourceFolder info).text = .ok [⟨entry, false, hentry⟩] ∧
        path = ((filesystem.resourceFolder info).down [entry]).text := by
  have hnamed : info.request.NamesFile := by
    by_contra hfixed
    rw [(h.name_of_fixed hfixed).1] at hempty
    cases hempty
  obtain ⟨rfl, hname⟩ := h.name_of_named hnamed
  rw [hempty] at hname
  have hnone : info.request.storageFilename = "" := of_decide_eq_true hname.symm
  have hself : (filesystem.resourceFolder info).resolve "" = filesystem.resourceFolder info := rfl
  obtain ⟨subpathID, hsubpath, hpath⟩ := bind_eq_ok.1 hpath
  obtain ⟨-, rfl⟩ := filesystem.generatePathFromID_ok hsubpath
  dsimp only at hpath
  rw [Filesystem.join_filepath h, hnone, hself, hempty, if_pos rfl] at hpath
  split at hpath
  · cases hpath
  · next entry hentry hread =>
    have hone : ∀ n ∈ [entry], Proper n := by simpa using hentry
    refine ⟨hnamed, entry, hentry, hread, ?_⟩
    rw [← Except.ok.inj (Except.ok.inj hpath), FilePath.join_names _ (List.cons_ne_nil _ _) hone,
      Path.parse_text (Filesystem.proper_resourceFolder h)]
  · cases hpath

/-- The files of a folder are its entries. -/
theorem Represents.isSome_iff (h : Represents filesystem cwd tree content s files)
    (hdisk : disk.Holds cwd tree content) (hkey : key.Valid) :
    (files key).isSome = true ↔ (key.name, false) ∈ (tree s).children
      (absolute cwd (parse filesystem.basepath) ++ filesystem.folderOf key) := by
  rw [← h.stored key hkey, hdisk.isFile, DirTree.mem_children, Filesystem.location,
    List.append_assoc]

/-- The file that `BuildFilePath` names is the one that the request is about. -/
theorem Represents.picks (h : Represents filesystem cwd tree content s files)
    (hdisk : disk.Holds cwd tree content) (haccepted : getInfoFromRequest (.ok request) = .ok info)
    (hplain : request.Plain)
    (hpath : filesystem.buildFilePath (disk.readDir · s) info = .ok (.ok path)) :
    ∃ key, key.Valid ∧ files.Picks request key ∧
      path = (((parse filesystem.basepath).down (filesystem.folderOf key)).down [key.name]).text := by
  obtain ⟨rfl, kind, name, hparsed⟩ := ResourceInfo.parsed_of_accepted haccepted
  have hfolder : ∀ n, (parse filesystem.basepath).down (filesystem.folderOf
      ⟨info.dataType, info.id, filepathFolderMapping kind, n⟩) = filesystem.resourceFolder info :=
    fun n => (Filesystem.resourceFolder_eq hparsed).symm
  cases hempty : info.emptyStorageFilename with
  | false =>
    have hname : Proper name := by
      by_cases hnamed : info.request.NamesFile
      · obtain ⟨rfl, hdecide⟩ := hparsed.name_of_named hnamed
        exact hplain hnamed (of_decide_eq_false (hdecide.symm.trans hempty))
      · exact hparsed.proper_name fun hn => absurd hn hnamed
    refine ⟨⟨info.dataType, info.id, filepathFolderMapping kind, name⟩,
      ⟨hname, info, kind, hparsed, rfl, rfl, rfl⟩,
      ⟨info, haccepted, rfl, rfl, hparsed.folder_eq, .inl ⟨hempty, hempty ▸ hparsed.filename_eq⟩⟩, ?_⟩
    rcases Filesystem.buildFilePath_text hparsed hpath with ⟨-, rfl⟩ | ⟨htrue, -⟩
    · rw [hfolder, Path.resolve_proper _ hname]
    · rw [hempty] at htrue
      cases htrue
  | true =>
    obtain ⟨hnamed, entry, hentry, hread, rfl⟩ :=
      Filesystem.buildFilePath_entry hparsed hempty hpath
    let key (n : String) : FileKey := ⟨info.dataType, info.id, filepathFolderMapping kind, n⟩
    have hvalid : ∀ n, Proper n → (key n).Valid := fun n hn =>
      ⟨hn, _, kind, hparsed.rename hnamed hn, rfl, rfl, rfl⟩
    -- the folder holds this entry and nothing else
    have hchildren : (tree s).children (absolute cwd (parse filesystem.basepath) ++
        filesystem.folderOf (key entry)) = [(entry, false)] := by
      have hperm := hdisk.onTree.readDir_ok _ s _ hread
      rw [Path.parse_text (Filesystem.proper_resourceFolder hparsed), ← hfolder entry,
        absolute_down] at hperm
      exact List.perm_singleton.1 hperm.symm
    refine ⟨key entry, hvalid entry hentry,
      ⟨info, haccepted, rfl, rfl, hparsed.folder_eq, .inr ⟨hempty, fun n => ?_⟩⟩, ?_⟩
    · constructor
      · intro hstored
        have hkey : (key n).Valid := by
          by_contra hno
          rw [h.invalid (key n) hno] at hstored
          cases hstored
        have hmem := (h.isSome_iff hdisk hkey).1 hstored
        have hsame : filesystem.folderOf (key n) = filesystem.folderOf (key entry) := rfl
        rw [hsame, hchildren, List.mem_singleton] at hmem
        exact (Prod.mk.inj hmem).1
      · rintro rfl
        apply (h.isSome_iff hdisk (hvalid _ hentry)).2
        rw [hchildren]
        exact List.mem_singleton_self _
    · rw [hfolder]

/-! ## `SaveFile` -/

variable (cwd) in
/-- The directory of a file is on the way to it. -/
theorem absolute_dir (hkey : key.Valid)
    (hpath : path =
      (((parse filesystem.basepath).down (filesystem.folderOf key)).down [key.name]).text) :
    FilePath.dir path = ((parse filesystem.basepath).down (filesystem.folderOf key)).text ∧
      Below (absolute cwd ((parse filesystem.basepath).down (filesystem.folderOf key)))
        (filesystem.location cwd key) := by
  have hfolder : ∀ n ∈ filesystem.folderOf key, Proper n := Filesystem.proper_folderOf hkey
  refine ⟨?_, ?_⟩
  · rw [hpath, FilePath.dir_text ((FilePath.valid_parse _).down hfolder) hkey.1]
  · rw [absolute_down, Filesystem.location, ← List.append_assoc]
    exact .concat _ _

/-- `SaveFile` only touches the file that the request is about, and writes it if it succeeds. -/
theorem Represents.saveFile (h : Represents filesystem cwd tree content s files)
    (hdisk : disk.Holds cwd tree content) (haccepted : getInfoFromRequest (.ok request) = .ok info)
    (hplain : request.Plain) {file : Bytes} {result : Except String String}
    (hsave : filesystem.saveFile (disk.uploading file) info s = .ok (result, s')) :
    (∃ err, result = .error err) ∧ Represents filesystem cwd tree content s' files ∨
      ∃ key left, files.Picks request key ∧ (∀ path, result = .ok path → left = some file) ∧
        Represents filesystem cwd tree content s' (Function.update files key left) := by
  obtain ⟨built, hbuild, hsave⟩ := bind_eq_ok.1 hsave
  cases built with
  | error err =>
    cases hsave
    exact .inl ⟨⟨err, rfl⟩, h⟩
  | ok fullPath =>
    obtain ⟨key, hkey, hpicks, hpath⟩ := h.picks hdisk haccepted hplain hbuild
    obtain ⟨hdir, hbelow⟩ := absolute_dir cwd hkey hpath
    have hplace : absolute cwd (parse fullPath) = filesystem.location cwd key :=
      Filesystem.absolute_location hkey hpath
    have hparsed : absolute cwd (parse (FilePath.dir fullPath)) =
        absolute cwd ((parse filesystem.basepath).down (filesystem.folderOf key)) := by
      have hfolder : ∀ n ∈ filesystem.folderOf key, Proper n := Filesystem.proper_folderOf hkey
      rw [hdir, Path.parse_text ((FilePath.valid_parse _).down hfolder)]
    dsimp only at hsave
    cases hcall : (disk.uploading file).mkdirAll (FilePath.dir fullPath) s with
    | mk made s₁ =>
      have hmkdir : disk.mkdirAll (FilePath.dir fullPath) s = (made, s₁) := hcall
      have h₁ : Represents filesystem cwd tree content s₁ files := by
        apply h.folders hkey
        · intro p _
          rw [hdisk.mkdirAll_content _ _ _ _ hmkdir]
        · intro node hnode
          refine (hdisk.mkdirAll_adds _ _ _ _ hmkdir node hnode).imp_right ?_
          rintro ⟨hdirectory, hle⟩
          rw [hparsed] at hle
          exact ⟨hdirectory, .of_le hle hbelow⟩
      rw [hcall] at hsave
      cases made with
      | error err =>
        cases hsave
        exact .inl ⟨⟨_, rfl⟩, h₁⟩
      | ok made =>
        have hsave : ((disk.write fullPath file s₁).1.map fun _ => fullPath,
            (disk.write fullPath file s₁).2) = (result, s') := Except.ok.inj hsave
        cases hwrite : disk.write fullPath file s₁ with
        | mk written s₂ =>
          rw [hwrite] at hsave
          cases hsave
          refine .inr ⟨key, _, hpicks, ?_, h₁.update hkey ?_ ?_⟩
          · intro path hok
            obtain ⟨⟨⟩, rfl, -⟩ := map_eq_ok.1 hok
            rw [← hplace]
            exact hdisk.write_ok _ _ _ _ hwrite
          · intro p hp
            exact hdisk.write_content _ _ _ _ _ hwrite p (hplace.symm ▸ hp)
          · intro node hnode
            by_cases hself : node = (filesystem.location cwd key, false)
            · exact .inr hself
            · exact .inl ((hdisk.write_nodes _ _ _ _ _ hwrite node (hplace.symm ▸ hself)).1 hnode)

/-! ## `RemoveFile` -/

/-- However the loop of `RemoveFile` ends, it has only removed folders above the one that it starts at. -/
theorem Filesystem.removeFolders_keeps (hdisk : disk.Holds cwd tree content) {path : Path}
    (hpath : path.Valid) {turns : Nat} {result : Except String Unit}
    (h : filesystem.removeFolders disk.toDisk turns path.text s = some (result, s')) :
    (∀ node ∈ (tree s').nodes, node ∈ (tree s).nodes) ∧
      ∀ p, ¬ p <+: absolute cwd path → content s' p = content s p := by
  induction turns generalizing path s with
  | zero => cases h
  | succ turns ih =>
    rw [removeFolders] at h
    split at h
    · cases h
      exact ⟨fun _ hnode => hnode, fun _ _ => rfl⟩
    · split at h
      · cases h
        exact ⟨fun _ hnode => hnode, fun _ _ => rfl⟩
      · cases h
        exact ⟨fun _ hnode => hnode, fun _ _ => rfl⟩
      · split at h
        · next hremove =>
          cases h
          obtain ⟨htree, hcontent⟩ := hdisk.remove_failed _ _ _ _ hremove
          rw [htree, hcontent]
          exact ⟨fun _ hnode => hnode, fun _ _ => rfl⟩
        · next s₁ hremove =>
          obtain ⟨hne, hremoves⟩ := hdisk.onTree.remove_ok _ _ _ hremove
          have hcontent := hdisk.remove_content _ _ _ hremove
          rw [Path.parse_text hpath] at hne hremoves hcontent
          obtain ⟨above, name, habove, hname, rfl⟩ := hpath.exists_above hne
          rw [FilePath.dir_text habove hname] at h
          obtain ⟨hnodes, hkept⟩ := ih habove h
          constructor
          · intro node hnode
            exact ((hremoves.mem_iff node).1 (hnodes node hnode)).1
          · intro p hp
            rw [absolute_down] at hp hcontent
            rw [hkept p, hcontent p]
            · rintro rfl
              exact hp List.prefix_rfl
            · intro hle
              exact hp (hle.trans (List.prefix_append _ _))

/-- `RemoveFile` only touches the file that the request is about. It removes the file if there is one, and
then it may fail at the folders above it. -/
theorem Represents.removeFile (h : Represents filesystem cwd tree content s files)
    (hdisk : disk.Holds cwd tree content) (haccepted : getInfoFromRequest (.ok request) = .ok info)
    (hplain : request.Plain) {turns : Nat} {result : Except String String}
    (hremove : filesystem.removeFile disk.toDisk turns info s = .ok (some (result, s'))) :
    (∃ err, result = .error err) ∧ Represents filesystem cwd tree content s' files ∨
      ∃ key, files.Picks request key ∧ (files key).isSome = true ∧
        Represents filesystem cwd tree content s' (Function.update files key none) := by
  obtain ⟨built, hbuild, hremove⟩ := bind_eq_ok.1 hremove
  cases built with
  | error err =>
    cases hremove
    exact .inl ⟨⟨err, rfl⟩, h⟩
  | ok fullPath =>
    obtain ⟨key, hkey, hpicks, hpath⟩ := h.picks hdisk haccepted hplain hbuild
    obtain ⟨hdir, hbelow⟩ := absolute_dir cwd hkey hpath
    have hplace : absolute cwd (parse fullPath) = filesystem.location cwd key :=
      Filesystem.absolute_location hkey hpath
    dsimp only at hremove
    split at hremove
    · next hcall =>
      cases hremove
      obtain ⟨htree, hcontent⟩ := hdisk.remove_failed _ _ _ _ hcall
      refine .inl ⟨⟨_, rfl⟩, h.folders hkey ?_ ?_⟩
      · intro p _
        rw [hcontent]
      · intro node hnode
        rw [htree] at hnode
        exact .inl hnode
    · next s₁ hcall =>
      obtain ⟨-, hremoves⟩ := hdisk.onTree.remove_ok _ _ _ hcall
      have hother := hdisk.remove_content _ _ _ hcall
      rw [hplace] at hremoves hother
      -- only a file is at the place of a file
      obtain ⟨isDir, hnode⟩ := hremoves.exists_node
      obtain ⟨key', hkey', hle, hself⟩ := h.below _ hnode (base_below_location filesystem cwd key)
      obtain rfl := Filesystem.location_prefix hkey hkey' hle
      obtain rfl := hself.1 rfl
      have hstored : (files key).isSome = true := by
        rw [← h.stored key hkey]
        exact (hdisk.isFile _ _).2 hnode
      have hgone : content s₁ (filesystem.location cwd key) = none := by
        apply Option.not_isSome_iff_eq_none.1
        intro hleft
        exact ((hremoves.mem_iff _).1 ((hdisk.isFile _ _).1 hleft)).2 rfl
      have h₁ := h.update hkey hother fun node hleft => .inl ((hremoves.mem_iff node).1 hleft).1
      rw [hgone] at h₁
      obtain ⟨⟨err, s₂⟩, hfolders, heq⟩ := Option.map_eq_some_iff.1 (Except.ok.inj hremove)
      obtain ⟨-, rfl⟩ := Prod.mk.inj heq
      have hfolder : ∀ n ∈ filesystem.folderOf key, Proper n := Filesystem.proper_folderOf hkey
      rw [hdir] at hfolders
      obtain ⟨hnodes, hkept⟩ := Filesystem.removeFolders_keeps hdisk
        ((FilePath.valid_parse _).down hfolder) hfolders
      refine .inr ⟨key, hpicks, hstored, h₁.folders hkey ?_ ?_⟩
      · intro p hp
        apply hkept
        intro hway
        exact hp (.of_le hway hbelow)
      · intro node hleft
        exact .inl (hnodes node hleft)

/-! ## The handlers -/

variable {reply : StorageReply}

theorem Represents.handleUpload (h : Represents filesystem cwd tree content s files)
    (hdisk : disk.Holds cwd tree content) {call : Except String StorageRequest}
    {upload : Except String Bytes} (hplain : ∀ request, call = .ok request → request.Plain)
    (hanswer : filesystem.handleUpload disk call upload s = .ok (reply, s')) :
    ∃ files', FileService files (.upload call upload) reply files' ∧
      Represents filesystem cwd tree content s' files' := by
  unfold Filesystem.handleUpload at hanswer
  split at hanswer
  · cases hanswer
    exact ⟨files, .refused, h⟩
  · next info haccepted =>
    obtain ⟨request, rfl⟩ := exists_request haccepted
    split at hanswer
    · cases hanswer
      exact ⟨files, .refused, h⟩
    · next file =>
      split at hanswer
      · cases hanswer
      · next hsave =>
        cases hanswer
        rcases h.saveFile hdisk haccepted (hplain request rfl) hsave with
          ⟨-, h'⟩ | ⟨key, left, hpicks, -, h'⟩
        · exact ⟨files, .refused, h'⟩
        · exact ⟨_, .uploadFailed left hpicks, h'⟩
      · next hsave =>
        cases hanswer
        rcases h.saveFile hdisk haccepted (hplain request rfl) hsave with
          ⟨⟨err, herr⟩, -⟩ | ⟨key, left, hpicks, hleft, h'⟩
        · cases herr
        · obtain rfl := hleft _ rfl
          exact ⟨_, .uploaded hpicks, h'⟩

theorem Represents.handleRemove (h : Represents filesystem cwd tree content s files)
    (hdisk : disk.Holds cwd tree content) {call : Except String StorageRequest} {turns : Nat}
    (hplain : ∀ request, call = .ok request → request.Plain)
    (hanswer : filesystem.handleRemove disk call turns s = .ok (reply, s')) :
    ∃ files', FileService files (.remove call turns) reply files' ∧
      Represents filesystem cwd tree content s' files' := by
  unfold Filesystem.handleRemove at hanswer
  split at hanswer
  · cases hanswer
    exact ⟨files, .refused, h⟩
  · next info haccepted =>
    obtain ⟨request, rfl⟩ := exists_request haccepted
    split at hanswer
    · cases hanswer
    · cases hanswer
    · next hremove =>
      cases hanswer
      rcases h.removeFile hdisk haccepted (hplain request rfl) hremove with
        ⟨-, h'⟩ | ⟨key, hpicks, hstored, h'⟩
      · exact ⟨files, .refused, h'⟩
      · exact ⟨_, .removeFailed hpicks hstored, h'⟩
    · next hremove =>
      cases hanswer
      rcases h.removeFile hdisk haccepted (hplain request rfl) hremove with
        ⟨⟨err, herr⟩, -⟩ | ⟨key, hpicks, hstored, h'⟩
      · cases herr
      · exact ⟨_, .removed hpicks hstored, h'⟩

/-- What `HandleGet` sends is the stored file, under its name. -/
theorem Represents.handleGet (h : Represents filesystem cwd tree content s files)
    (hdisk : disk.Holds cwd tree content) {call : Except String StorageRequest}
    {downloadHead : Option Int} (hplain : ∀ request, call = .ok request → request.Plain)
    (hanswer : filesystem.handleGet disk call downloadHead s = .ok (reply, s')) :
    FileService files (.get call downloadHead) reply files ∧ s' = s := by
  unfold Filesystem.handleGet at hanswer
  split at hanswer
  · cases hanswer
    exact ⟨.refused, rfl⟩
  · next info haccepted =>
    obtain ⟨request, rfl⟩ := exists_request haccepted
    split at hanswer
    · cases hanswer
    · split at hanswer
      · cases hanswer
        exact ⟨.refused, rfl⟩
      · cases hanswer
        exact ⟨.refused, rfl⟩
    · next fullPath hget =>
      obtain ⟨built, hbuild, hstat⟩ := bind_eq_ok.1 hget
      cases built with
      | error err => cases hstat
      | ok path =>
        obtain ⟨-, -, rfl⟩ := map_eq_ok.1 (Except.ok.inj hstat)
        obtain ⟨key, hkey, hpicks, hpath⟩ :=
          h.picks hdisk haccepted (hplain request rfl) hbuild
        split at hanswer
        · next hread =>
          cases hanswer
          have hstored := hdisk.read_ok _ _ _ hread
          rw [Filesystem.absolute_location hkey hpath, h.stored key hkey] at hstored
          have hfolder : ∀ n ∈ filesystem.folderOf key, Proper n := Filesystem.proper_folderOf hkey
          rw [hpath, FilePath.base_text ((FilePath.valid_parse _).down hfolder) hkey.1]
          exact ⟨.got hpicks hstored, rfl⟩
        · split at hanswer
          · next hhead =>
            cases hanswer
            obtain rfl := Option.isNone_iff_eq_none.1 hhead
            exact ⟨.notServed, rfl⟩
          · cases hanswer
            exact ⟨.refused, rfl⟩

/-- Every answer is one that the map allows. -/
theorem Represents.answer (h : Represents filesystem cwd tree content s files)
    (hdisk : disk.Holds cwd tree content) {init : σ → Prop} {call : StorageCall}
    (hplain : (filesystem.server disk init).enabled s call)
    (hanswer : (filesystem.server disk init).answer s call = .ok (reply, s')) :
    ∃ files', FileService files call reply files' ∧
      Represents filesystem cwd tree content s' files' := by
  cases call with
  | upload request file => exact h.handleUpload hdisk hplain hanswer
  | remove request turns => exact h.handleRemove hdisk hplain hanswer
  | get request downloadHead =>
    obtain ⟨hservice, rfl⟩ := h.handleGet hdisk hplain hanswer
    exact ⟨files, hservice, h⟩

/-- The storage is a store of files: in every run, however the calls to the disk fail, the answers are
those of a map of files, and the map is what is on the disk. -/
theorem Filesystem.offers_files (filesystem : Filesystem) (hdisk : disk.Holds cwd tree content)
    {init : σ → Prop} {start : Files}
    (hinit : ∀ s, init s → Represents filesystem cwd tree content s start)
    {served : Served σ StorageCall StorageReply}
    (h : (filesystem.server disk init).machine.Reachable Machine.always served) :
    ∃ files, FileService.Explains start served.answered files ∧
      Represents filesystem cwd tree content served.state files := by
  refine Server.offers hinit ?_ h
  intro s files call reply s' hrep hplain hanswer
  exact hrep.answer hdisk hplain hanswer

end Represents

/-- An empty disk holds no file. -/
theorem FileState.represents_empty (filesystem : Filesystem) (cwd : List String) :
    Represents filesystem cwd FileState.tree FileState.content FileState.empty fun _ => none where
  stored _ _ := rfl
  invalid _ _ := rfl
  below _ hnode := absurd hnode List.not_mem_nil
  above _ hnode := absurd hnode List.not_mem_nil

/-- A storage with two levels of folders, over memory. -/
def dataStorage : Filesystem := ⟨"/data", 3, by decide, by decide⟩

def dataServer : Server FileState StorageCall StorageReply StorageFailure :=
  dataStorage.server (memoryDisk []) (· = FileState.empty)

def uploadSource : StorageCall :=
  .upload (.ok { resource := 0, submitID := 1234, storageFilename := "a.cpp" }) (.ok [7, 8, 9])

/-- A request for the first two bytes of the only file of a submission. -/
def getSourceHead : StorageCall := .get (.ok { resource := 0, submitID := 1234 }) (some 2)

/-- A file is uploaded and the first two bytes are sent to a client that does not know its name. -/
theorem Filesystem.offers_files_head :
    ∃ (served : Served FileState StorageCall StorageReply) (files : Files),
      served.answered.map Prod.snd = [.file "a.cpp" [7, 8], .respOK] ∧
        FileService.Explains (fun _ => none) served.answered files := by
  have hname : FilePath.Proper "a.cpp" := by decide
  have hrun : ((dataServer.machine.exec ⟨FileState.empty, []⟩ uploadSource).bind fun served =>
      dataServer.machine.exec served getSourceHead).map (fun served => served.answered.map Prod.snd) =
        .ok [.file "a.cpp" [7, 8], .respOK] := by decide +kernel
  obtain ⟨served, hexec, hreplies⟩ := map_eq_ok.1 hrun
  obtain ⟨middle, hupload, hget⟩ := bind_eq_ok.1 hexec
  have hstart : dataServer.machine.Reachable Machine.always ⟨FileState.empty, []⟩ :=
    .of_init ⟨rfl, rfl⟩
  have hstored : dataServer.machine.Reachable Machine.always middle := by
    refine hstart.snoc uploadSource trivial ?_ hupload
    intro request heq
    cases heq
    exact fun _ _ => hname
  have hreach : dataServer.machine.Reachable Machine.always served := by
    refine hstored.snoc getSourceHead trivial ?_ hget
    intro request heq
    cases heq
    exact fun _ hne => absurd rfl hne
  obtain ⟨files, hexplains, -⟩ := dataStorage.offers_files (memoryDisk_holds [])
    (by rintro s rfl; exact FileState.represents_empty dataStorage []) hreach
  exact ⟨served, files, hreplies, hexplains⟩

end TestingSystem
