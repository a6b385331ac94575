import TestingSystem.Storage.Filesystem

/-!
# The paths of the storage

What `BuildFilePath` returns is the folder of the resource, followed by the name of the file
(`buildFilePath_text`). For names that are plain the paths of two files differ, and no file is a folder
above another (`path_unique`): the blocks of an ID are texts of digits, and the first name after them
is not, so the blocks of a longer ID never run into the names in the folder of a shorter one.

A name that the request gives may climb out of the folder (`confined_iff`), and so the source of a
submission may replace its compiled solution.
-/

set_option autoImplicit false

namespace TestingSystem

open FilePath (Proper Path parse join origin)

/-! ## The folders of an ID -/

section Blocks

variable {id : List Char} {blockSize : Nat}

/-- The blocks are the digits of the ID, cut into texts that are not empty. -/
theorem idParts_flatten (hpos : 0 < blockSize) {fuel i : Nat} (hfuel : id.length ≤ fuel + i) :
    ((idParts id blockSize fuel i).map String.toList).flatten = id.drop i := by
  induction fuel generalizing i with
  | zero =>
    rw [Nat.zero_add] at hfuel
    rw [idParts, List.drop_eq_nil_of_le hfuel]
    rfl
  | succ fuel ih =>
    rw [idParts]
    split
    · have htake : id.extract i (min (i + blockSize) id.length) = (id.drop i).take blockSize := by
        rw [List.extract_eq_take_drop, List.take_eq_take_iff, List.length_drop]
        omega
      rw [List.map_cons, List.flatten_cons, ih (by omega), String.toList_ofList, htake,
        ← List.drop_drop, List.take_append_drop]
    · next hle => rw [List.drop_eq_nil_of_le (Nat.le_of_not_lt hle)]; rfl

theorem mem_idParts (hpos : 0 < blockSize) {fuel i : Nat} {part : String}
    (h : part ∈ idParts id blockSize fuel i) : part ≠ "" ∧ ∀ c ∈ part.toList, c ∈ id := by
  induction fuel generalizing i with
  | zero => exact nomatch h
  | succ fuel ih =>
    rw [idParts] at h
    split at h
    · next hlt =>
      rcases List.mem_cons.1 h with rfl | h
      · rw [String.toList_ofList, List.extract_eq_take_drop]
        refine ⟨fun hempty => ?_, fun c hc => List.mem_of_mem_drop (List.mem_of_mem_take hc)⟩
        have hlen := congrArg (fun s => s.toList.length) hempty
        simp at hlen
        omega
      · exact ih h
    · exact nomatch h

end Blocks

namespace Filesystem

variable (filesystem : Filesystem)

theorem parts_flatten (id : Nat) :
    ((filesystem.parts id).map String.toList).flatten = id.repr.toList := by
  rw [parts, idParts_flatten filesystem.blockSize_pos (by rw [String.length_toList]; omega),
    List.drop_zero]

theorem parts_injective {filesystem : Filesystem} {id id' : Nat}
    (h : filesystem.parts id = filesystem.parts id') : id = id' := by
  refine repr_injective (String.toList_injective ?_)
  rw [← filesystem.parts_flatten id, h, filesystem.parts_flatten id']

/-- A text of digits, as the blocks of an ID are. -/
def isDigits (s : String) : Bool := s.toList.all Char.isDigit

theorem isDigits_parts (id : Nat) : ∀ part ∈ filesystem.parts id, isDigits part = true := by
  intro part hpart
  rw [isDigits, List.all_eq_true]
  exact fun c hc => repr_digits id c ((mem_idParts filesystem.blockSize_pos hpart).2 c hc)

theorem proper_parts (id : Nat) : ∀ part ∈ filesystem.parts id, Proper part := by
  intro part hpart
  have hproper := proper_of_digits (t := "") (mem_idParts filesystem.blockSize_pos hpart).1
    (fun c hc => repr_digits id c ((mem_idParts filesystem.blockSize_pos hpart).2 c hc)) (by decide)
  rwa [String.append_empty] at hproper

/-- `generatePathFromID` panics from the block size `2 ^ 63` on. -/
theorem generatePathFromID_ok {id : Nat} {subpathID : String}
    (h : filesystem.generatePathFromID id = .ok subpathID) :
    filesystem.blockSize < 2 ^ 63 ∧ subpathID = join (filesystem.parts id) := by
  unfold generatePathFromID at h
  split at h
  · next hlt => exact ⟨hlt, (Except.ok.inj h).symm⟩
  · cases h

end Filesystem

/-! ## The text of a path -/

theorem DataType.proper_toString (dataType : DataType) : Proper dataType.toString := by
  cases dataType <;> decide

/-- The folder of a type, as a list of names. -/
def folderNames (kind : ResourceType) : List String :=
  if filepathFolderMapping kind = "" then [] else [filepathFolderMapping kind]

theorem proper_folderNames (kind : ResourceType) : ∀ name ∈ folderNames kind, Proper name := by
  cases kind <;> decide

namespace ResourceInfo.Parsed

variable {info : ResourceInfo} {kind : ResourceType} {name : String}

/-- A file without a folder of its type has one of the two fixed names. -/
theorem proper_of_no_folder (h : info.Parsed kind name) (hfolder : filepathFolderMapping kind = "") :
    ¬ info.request.NamesFile ∧ (name = "solution" ∨ name = "compile.out") := by
  have hfixed : ¬ info.request.NamesFile := by
    rw [h.named_iff]
    rintro (rfl | rfl | rfl) <;> exact absurd hfolder (by decide)
  obtain ⟨-, ⟨-, hname⟩ | ⟨-, hname⟩ | ⟨htests, -⟩⟩ := h.name_of_fixed hfixed
  · exact ⟨hfixed, .inl hname⟩
  · exact ⟨hfixed, .inr hname⟩
  · exact absurd (hfolder.symm.trans htests) (by decide)

theorem proper_name (h : info.Parsed kind name)
    (hnamed : info.request.NamesFile → Proper info.request.storageFilename) : Proper name := by
  by_cases hname : info.request.NamesFile
  · rw [(h.name_of_named hname).1]
    exact hnamed hname
  · obtain ⟨-, ⟨-, rfl⟩ | ⟨-, rfl⟩ | ⟨-, suffix, hsuffix, rfl⟩⟩ := h.name_of_fixed hname
    · exact (by decide : Proper "solution")
    · exact (by decide : Proper "compile.out")
    · exact proper_of_digits (twoDigits_ne_empty _) (twoDigits_digits _) hsuffix

/-- The relative path of a request leads through its folder to what the name says. -/
theorem resolve_filepath (h : info.Parsed kind name) (p : Path) :
    p.resolve info.filepath = (p.down (folderNames kind)).resolve name := by
  rw [h.filepath_eq]
  by_cases hfolder : filepathFolderMapping kind = ""
  · have hname : Proper name := h.proper_name fun hn =>
      absurd hn (h.proper_of_no_folder hfolder).1
    have hskip : join ["", name] = join [name] := rfl
    have hone : ∀ n ∈ [name], Proper n := by simpa using hname
    rw [folderNames, if_pos hfolder, hfolder, hskip, FilePath.resolve_join_names p hone,
      FilePath.Path.down_nil, FilePath.Path.resolve_proper p hname]
  · have hproper : Proper (filepathFolderMapping kind) :=
      proper_folderNames kind _ (by simp [folderNames, hfolder])
    rw [folderNames, if_neg hfolder, FilePath.resolve_join_name p hproper]

end ResourceInfo.Parsed

namespace Filesystem

variable {filesystem : Filesystem} {info info' : ResourceInfo} {kind kind' : ResourceType}
  {name name' : String}

theorem resourceFolder_eq (h : info.Parsed kind name) :
    filesystem.resourceFolder info = (parse filesystem.basepath).down
      (info.dataType.toString :: (filesystem.parts info.id ++ folderNames kind)) := by
  rw [resourceFolder, h.folder_eq]
  rfl

theorem proper_resourceFolder (h : info.Parsed kind name) : (filesystem.resourceFolder info).Valid := by
  rw [resourceFolder_eq h]
  refine (FilePath.valid_parse _).down fun n hn => ?_
  rcases List.mem_cons.1 hn with rfl | hn
  · exact info.dataType.proper_toString
  · exact (List.mem_append.1 hn).elim (filesystem.proper_parts info.id n) (proper_folderNames kind n)

/-- The path without the entry of a directory. -/
theorem join_filepath (h : info.Parsed kind name) :
    join [filesystem.basepath, info.dataType.toString, join (filesystem.parts info.id), info.filepath] =
      ((filesystem.resourceFolder info).resolve name).text := by
  rw [FilePath.join_name _ info.dataType.proper_toString, List.foldl_cons, List.foldl_cons,
    List.foldl_nil, FilePath.resolve_join_names _ (filesystem.proper_parts info.id),
    h.resolve_filepath, FilePath.Path.down_down, FilePath.Path.down_down, resourceFolder_eq h]
  rfl

/-- What `BuildFilePath` returns: the name is followed from the folder of the resource, and without a
name it is that of the only entry in this folder. -/
theorem buildFilePath_text (h : info.Parsed kind name)
    {readDir : String → Except String (List DirEntry)} {fullPath : String}
    (hpath : filesystem.buildFilePath readDir info = .ok (.ok fullPath)) :
    info.emptyStorageFilename = false ∧
        fullPath = ((filesystem.resourceFolder info).resolve name).text ∨
      info.emptyStorageFilename = true ∧ ∃ entry, Proper entry ∧
        fullPath = ((filesystem.resourceFolder info).down [entry]).text := by
  obtain ⟨subpathID, hsubpath, hpath⟩ := bind_eq_ok.1 hpath
  obtain ⟨-, rfl⟩ := filesystem.generatePathFromID_ok hsubpath
  dsimp only at hpath
  rw [join_filepath h] at hpath
  cases hempty : info.emptyStorageFilename with
  | false =>
    rw [hempty, if_neg Bool.false_ne_true] at hpath
    exact .inl ⟨rfl, (Except.ok.inj (Except.ok.inj hpath)).symm⟩
  | true =>
    rw [hempty, if_pos rfl] at hpath
    split at hpath
    · cases hpath
    · next entry hentry hdir =>
      have hproper : ∀ n ∈ [entry], Proper n := by simpa using hentry
      have hname : name = "" := by
        by_cases hnamed : info.request.NamesFile
        · obtain ⟨rfl, heq⟩ := h.name_of_named hnamed
          rw [hempty] at heq
          exact of_decide_eq_true heq.symm
        · rw [(h.name_of_fixed hnamed).1] at hempty
          cases hempty
      refine .inr ⟨rfl, entry, hentry, ?_⟩
      rw [← Except.ok.inj (Except.ok.inj hpath), hname,
        FilePath.join_names _ (List.cons_ne_nil _ _) hproper]
      have hself : (filesystem.resourceFolder info).resolve "" = filesystem.resourceFolder info := rfl
      rw [hself, FilePath.Path.parse_text (proper_resourceFolder h)]
    · cases hpath

/-! ## Paths are unique -/

/-- The names after the blocks of an ID. -/
theorem folderNames_cases (h : info.Parsed kind name) :
    filepathFolderMapping kind = "" ∧ folderNames kind = [] ∧ (name = "solution" ∨ name = "compile.out") ∨
      folderNames kind = [filepathFolderMapping kind] ∧
        filepathFolderMapping kind ∈ ["source", "tests", "checker", "interactor"] := by
  by_cases hfolder : filepathFolderMapping kind = ""
  · exact .inl ⟨hfolder, if_pos hfolder, (h.proper_of_no_folder hfolder).2⟩
  · refine .inr ⟨if_neg hfolder, ?_⟩
    cases kind <;> first | exact absurd rfl hfolder | decide

/-- The first name after the blocks of an ID is no block of another ID. -/
theorem folderNames_head (h : info.Parsed kind name) (more : List String) :
    ∀ elem ∈ (folderNames kind ++ [name] ++ more).head?, isDigits elem = false := by
  intro elem helem
  obtain ⟨-, hnames, hname⟩ | ⟨hnames, hfolder⟩ := folderNames_cases h
  · rw [hnames] at helem
    obtain rfl : name = elem := Option.some.inj helem
    rcases hname with rfl | rfl <;> decide
  · rw [hnames] at helem
    obtain rfl : filepathFolderMapping kind = elem := Option.some.inj helem
    generalize filepathFolderMapping kind = folder at hfolder
    revert folder
    decide

/-- The folder and the name of a file are unique, and nothing lies below a file. -/
theorem folderNames_unique (h : info.Parsed kind name) (h' : info'.Parsed kind' name')
    {more : List String} (heq : folderNames kind ++ [name] ++ more = folderNames kind' ++ [name']) :
    filepathFolderMapping kind = filepathFolderMapping kind' ∧ name = name' ∧ more = [] := by
  have hdisjoint : ∀ folder ∈ ["source", "tests", "checker", "interactor"],
      folder ≠ "solution" ∧ folder ≠ "compile.out" := by decide
  obtain ⟨hfolder, hnames, hname⟩ | ⟨hnames, hfolder⟩ := folderNames_cases h <;>
    obtain ⟨hfolder', hnames', hname'⟩ | ⟨hnames', hfolder'⟩ := folderNames_cases h' <;>
    rw [hnames, hnames'] at heq
  · obtain ⟨hname, hmore⟩ := List.cons.inj heq
    exact ⟨hfolder.trans hfolder'.symm, hname, hmore⟩
  · have hsame : name = filepathFolderMapping kind' := (List.cons.inj heq).1
    rw [← hsame] at hfolder'
    exact absurd hname (not_or.2 (hdisjoint name hfolder'))
  · have hsame : filepathFolderMapping kind = name' := (List.cons.inj heq).1
    rw [hsame] at hfolder
    exact absurd hname' (not_or.2 (hdisjoint name' hfolder))
  · obtain ⟨hsame, heq⟩ := List.cons.inj heq
    obtain ⟨hname, hmore⟩ := List.cons.inj heq
    exact ⟨hsame, hname, hmore⟩

/-- The names of a path below `Basepath` are unique, and nothing lies below a file. -/
theorem names_unique (h : info.Parsed kind name) (h' : info'.Parsed kind' name') (more : List String)
    (heq : info.dataType.toString :: (filesystem.parts info.id ++ (folderNames kind ++ [name] ++ more)) =
      info'.dataType.toString :: (filesystem.parts info'.id ++ (folderNames kind' ++ [name']))) :
    info.dataType = info'.dataType ∧ info.id = info'.id ∧
      filepathFolderMapping kind = filepathFolderMapping kind' ∧ name = name' ∧ more = [] := by
  obtain ⟨hdata, hrest⟩ := List.cons.inj heq
  have hhead := folderNames_head h' []
  rw [List.append_nil] at hhead
  obtain ⟨hparts, hnames⟩ := append_cancel (filesystem.isDigits_parts info.id)
    (filesystem.isDigits_parts info'.id) (folderNames_head h more) hhead hrest
  exact ⟨DataType.toString_injective hdata, parts_injective hparts, folderNames_unique h h' hnames⟩

theorem not_inside_file (h : info.Parsed kind name) (h' : info'.Parsed kind' name') (base : Path) :
    ¬ (base.down (info.dataType.toString ::
        (filesystem.parts info.id ++ (folderNames kind ++ [name])))).Inside
      (base.down (info'.dataType.toString ::
        (filesystem.parts info'.id ++ (folderNames kind' ++ [name'])))) := by
  rintro ⟨rest, hrest, heq⟩
  rw [FilePath.Path.down_down] at heq
  have hnames := List.append_cancel_left (congrArg Path.names heq)
  rw [List.cons_append, List.append_assoc] at hnames
  exact hrest (names_unique h h' rest hnames.symm).2.2.2.2

/-- The path of a request with a plain name. -/
theorem parse_buildFilePath (h : info.Parsed kind name)
    (hplain : info.request.NamesFile → Proper info.request.storageFilename)
    {readDir : String → Except String (List DirEntry)} {fullPath : String}
    (hpath : filesystem.buildFilePath readDir info = .ok (.ok fullPath)) :
    info.emptyStorageFilename = false ∧ (parse filesystem.basepath).down
        (info.dataType.toString :: (filesystem.parts info.id ++ (folderNames kind ++ [name]))) =
      parse fullPath := by
  have hname := h.proper_name hplain
  have hone : ∀ n ∈ [name], Proper n := by simpa using hname
  have hgiven : info.emptyStorageFilename = false := by
    by_cases hnamed : info.request.NamesFile
    · rw [(h.name_of_named hnamed).2]
      exact decide_eq_false (hplain hnamed).nonempty
    · exact (h.name_of_fixed hnamed).1
  obtain ⟨-, rfl⟩ | ⟨hempty, -⟩ := buildFilePath_text h hpath
  · refine ⟨hgiven, ?_⟩
    rw [FilePath.Path.resolve_proper _ hname,
      FilePath.Path.parse_text ((proper_resourceFolder h).down hone), resourceFolder_eq h,
      FilePath.Path.down_down]
    simp
  · rw [hgiven] at hempty
    cases hempty

variable (filesystem) {request request' : StorageRequest}
  (readDir readDir' : String → Except String (List DirEntry)) {path path' : String}

/-- Two requests with plain names have one path only if they are about one file, and no path leads to
a folder above the other file. -/
theorem path_unique (h : getInfoFromRequest (.ok request) = .ok info)
    (h' : getInfoFromRequest (.ok request') = .ok info')
    (hplain : request.NamesFile → Proper request.storageFilename)
    (hplain' : request'.NamesFile → Proper request'.storageFilename)
    (hpath : filesystem.buildFilePath readDir info = .ok (.ok path))
    (hpath' : filesystem.buildFilePath readDir' info' = .ok (.ok path')) :
    (path = path' →
      info.dataType = info'.dataType ∧ info.id = info'.id ∧
        info.parseFilepathFolder = info'.parseFilepathFolder ∧
        info.parseFilepathFilename = info'.parseFilepathFilename) ∧
      ¬ (parse path).Inside (parse path') ∧ ¬ (parse path').Inside (parse path) := by
  obtain ⟨rfl, kind, name, hparsed⟩ := ResourceInfo.parsed_of_accepted h
  obtain ⟨rfl, kind', name', hparsed'⟩ := ResourceInfo.parsed_of_accepted h'
  obtain ⟨hgiven, hparse⟩ := parse_buildFilePath hparsed hplain hpath
  obtain ⟨hgiven', hparse'⟩ := parse_buildFilePath hparsed' hplain' hpath'
  refine ⟨fun heq => ?_, ?_, ?_⟩
  · have hnames := congrArg Path.names (hparse.trans (heq ▸ hparse'.symm))
    obtain ⟨hdata, hid, hfolder, hname, -⟩ := names_unique hparsed hparsed' []
      (by rw [List.append_nil]; exact List.append_cancel_left hnames)
    refine ⟨hdata, hid, ?_, ?_⟩
    · rw [hparsed.folder_eq, hparsed'.folder_eq, hfolder]
    · rw [hparsed.filename_eq, hparsed'.filename_eq, hname, hgiven, hgiven']
  · rw [← hparse, ← hparse']
    exact not_inside_file hparsed hparsed' _
  · rw [← hparse, ← hparse']
    exact not_inside_file hparsed' hparsed _

/-- The folder of submission 1234 lies in that of submission 123, but its source is not below the
compiled solution of the other one. -/
theorem path_unique_nested :
    ¬ (parse "/data/Submission/123/solution").Inside (parse "/data/Submission/123/4/source/a.cpp") ∧
      ¬ (parse "/data/Submission/123/4/source/a.cpp").Inside
        (parse "/data/Submission/123/solution") := by
  let filesystem : Filesystem := ⟨"/data", 3, by decide, by decide⟩
  let solution : ResourceInfo :=
    { request := { resource := 1, submitID := 123 }, id := 123, filepath := "solution"
      dataType := .submission }
  let source : ResourceInfo :=
    { request := { resource := 0, submitID := 1234, storageFilename := "a.cpp" }, id := 1234
      filepath := "source/a.cpp", dataType := .submission }
  have hsolution : filesystem.buildFilePath (fun _ => .ok []) solution =
      .ok (.ok "/data/Submission/123/solution") := by decide +kernel
  have hsource : filesystem.buildFilePath (fun _ => .ok []) source =
      .ok (.ok "/data/Submission/123/4/source/a.cpp") := by decide +kernel
  have haccepted : getInfoFromRequest (.ok solution.request) = .ok solution := by decide +kernel
  have haccepted' : getInfoFromRequest (.ok source.request) = .ok source := by decide +kernel
  have hname : Proper "a.cpp" := by decide
  exact (filesystem.path_unique _ _ haccepted haccepted' (fun h => absurd h (by decide))
    (fun _ => hname) hsolution hsource).2

/-! ## Files outside of their folder -/

variable {σ : Type} {disk : Disk σ} {s : σ}

/-- The functions work on the path that `BuildFilePath` returns. -/
theorem Uses.buildFilePath_eq {filesystem : Filesystem} (h : filesystem.Uses disk info s path) :
    filesystem.buildFilePath (disk.readDir · s) info = .ok (.ok path) := by
  cases h with
  | build h => exact h
  | save s' h =>
    obtain ⟨result, hbuild, h⟩ := bind_eq_ok.1 h
    rw [hbuild]
    split at h
    · cases h
    · dsimp only at h
      split at h
      · cases h
      · obtain ⟨herr, -⟩ := Prod.mk.inj (Except.ok.inj h)
        obtain ⟨-, -, rfl⟩ := map_eq_ok.1 herr
        rfl
  | remove fuel s' h =>
    obtain ⟨result, hbuild, h⟩ := bind_eq_ok.1 h
    rw [hbuild]
    split at h
    · cases h
    · split at h
      · cases h
      · obtain ⟨⟨err, s₁⟩, -, heq⟩ := Option.map_eq_some_iff.1 (Except.ok.inj h)
        obtain ⟨-, -, rfl⟩ := map_eq_ok.1 (Prod.mk.inj heq).1
        rfl
  | get h =>
    obtain ⟨result, hbuild, h⟩ := bind_eq_ok.1 h
    rw [hbuild]
    split at h
    · cases h
    · obtain ⟨-, -, rfl⟩ := map_eq_ok.1 (Except.ok.inj h)
      rfl

/-- A file is in the folder of its resource exactly when the given name, if it is used, does not climb
out of this folder, or comes back into it. -/
theorem confined_iff (disk : Disk σ) (s : σ) (h : getInfoFromRequest (.ok request) = .ok info)
    (hpath : filesystem.Uses disk info s path) :
    (filesystem.resourceFolder info).Inside (parse path) ↔
      (request.NamesFile → request.storageFilename ≠ "" →
        (filesystem.resourceFolder info).Stays ((origin false).resolve request.storageFilename)) := by
  obtain ⟨rfl, kind, name, hparsed⟩ := ResourceInfo.parsed_of_accepted h
  have hfolder : (filesystem.resourceFolder info).Valid := proper_resourceFolder hparsed
  obtain ⟨hempty, rfl⟩ | ⟨hempty, entry, hentry, rfl⟩ := buildFilePath_text hparsed hpath.buildFilePath_eq
  · rw [FilePath.Path.parse_text (hfolder.resolve name), FilePath.Path.resolve_eq_append,
      FilePath.Path.inside_append_iff]
    by_cases hnamed : info.request.NamesFile
    · obtain ⟨rfl, hgiven⟩ := hparsed.name_of_named hnamed
      have hne : info.request.storageFilename ≠ "" := of_decide_eq_false (hgiven.symm.trans hempty)
      exact ⟨fun hstays _ _ => hstays, fun hstays => hstays hnamed hne⟩
    · have hname := hparsed.proper_name fun hn => absurd hn hnamed
      refine ⟨fun _ hn => absurd hn hnamed, fun _ => ?_⟩
      rw [← FilePath.Path.inside_append_iff, ← FilePath.Path.resolve_eq_append,
        FilePath.Path.resolve_proper _ hname]
      exact FilePath.Path.inside_down_iff.2 (List.cons_ne_nil _ _)
  · have hone : ∀ n ∈ [entry], Proper n := by simpa using hentry
    rw [FilePath.Path.parse_text (hfolder.down hone)]
    refine iff_of_true (FilePath.Path.inside_down_iff.2 (List.cons_ne_nil _ _)) fun hnamed hne => ?_
    -- the directory is only read when there is no name
    rw [(hparsed.name_of_named hnamed).2] at hempty
    exact absurd (of_decide_eq_true hempty) hne

/-- The source of submission 5 with a plain name. -/
theorem confined_iff_source :
    (FilePath.Path.mk true 0 ["data", "Submission", "5", "source"]).Inside
        (parse "/data/Submission/5/source/a.cpp") ↔
      (StorageRequest.NamesFile { resource := 0, submitID := 5, storageFilename := "a.cpp" } →
        "a.cpp" ≠ "" →
        (FilePath.Path.mk true 0 ["data", "Submission", "5", "source"]).Stays
          ((origin false).resolve "a.cpp")) := by
  let filesystem : Filesystem := ⟨"/data", 3, by decide, by decide⟩
  let disk : Disk Unit :=
    ⟨fun _ _ => .ok [], fun _ _ => .ok (), fun _ s => (.ok (), s), fun _ s => (.ok (), s),
      fun _ s => (.ok (), s)⟩
  let source : ResourceInfo :=
    { request := { resource := 0, submitID := 5, storageFilename := "a.cpp" }, id := 5
      filepath := "source/a.cpp", dataType := .submission }
  have haccepted : getInfoFromRequest (.ok source.request) = .ok source := by decide +kernel
  have hpath : filesystem.buildFilePath (disk.readDir · ()) source =
      .ok (.ok "/data/Submission/5/source/a.cpp") := by decide +kernel
  have hfolder : filesystem.resourceFolder source =
      ⟨true, 0, ["data", "Submission", "5", "source"]⟩ := by decide +kernel
  rw [← hfolder]
  exact filesystem.confined_iff disk () haccepted (.build hpath)

/-- The source of a submission may be saved over the compiled solution of the submission. -/
theorem source_over_solution :
    ¬ ∀ (filesystem : Filesystem) (disk : Disk Unit) (request : StorageRequest) (info : ResourceInfo)
        (path : String), FilePath.clean filesystem.basepath = filesystem.basepath →
      getInfoFromRequest (.ok request) = .ok info → filesystem.Uses disk info () path →
        (filesystem.resourceFolder info).Inside (parse path) := by
  intro h
  let filesystem : Filesystem := ⟨"/data", 3, by decide, by decide⟩
  let disk : Disk Unit :=
    ⟨fun _ _ => .ok [], fun _ _ => .ok (), fun _ s => (.ok (), s), fun _ s => (.ok (), s),
      fun _ s => (.ok (), s)⟩
  let source : ResourceInfo :=
    { request := { resource := 0, submitID := 5, storageFilename := "../solution" }, id := 5
      filepath := "solution", dataType := .submission }
  have haccepted : getInfoFromRequest (.ok source.request) = .ok source := by decide +kernel
  have hsaved : filesystem.saveFile disk source () = .ok (.ok "/data/Submission/5/solution", ()) := by
    decide +kernel
  obtain ⟨rest, -, hinside⟩ :=
    h filesystem disk source.request source _ (by decide +kernel) haccepted (.save () hsaved)
  have hfolder : filesystem.resourceFolder source =
      ⟨true, 0, ["data", "Submission", "5", "source"]⟩ := by decide +kernel
  have hparse : parse "/data/Submission/5/solution" =
      ⟨true, 0, ["data", "Submission", "5", "solution"]⟩ := by decide +kernel
  rw [hfolder, hparse] at hinside
  have hnames : ["data", "Submission", "5", "solution"] = ["data", "Submission", "5", "source"] ++ rest :=
    congrArg Path.names hinside
  simp at hnames

end Filesystem

end TestingSystem
