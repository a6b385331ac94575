import TestingSystem.Storage.Paths

/-!
# Where the importer puts a problem

The polygon importer moves a problem to `StoragePath/Problem/<ID>`, and `BuildFilePath` looks for its
files below `StoragePath/Problem/<blocks of the ID>`. The two folders are one exactly if the ID is a
single block.
-/

set_option autoImplicit false

namespace TestingSystem

open FilePath (Proper Path parse join)

/-- The target of `mv` in `main` of the polygon importer. -/
def importFolder (storagePath : String) (problemID : Nat) : String :=
  join [storagePath, "Problem", problemID.repr]

namespace Filesystem

variable (filesystem : Filesystem)

/-- `BuildFilePath` looks for the file in this folder: at the path that the type and the name of the
file give, or as the only entry there. -/
def LooksIn (folder : String) (info : ResourceInfo) : Prop :=
  ∀ readDir path, filesystem.buildFilePath readDir info = .ok (.ok path) ↔
    info.emptyStorageFilename = false ∧ path = join [folder, info.filepath] ∨
      info.emptyStorageFilename = true ∧ ∃ entry : DirEntry,
        readDir (join [folder, info.filepath]) = .ok [entry] ∧ entry.isDir = false ∧
          path = join [join [folder, info.filepath], entry.name]

/-- `BuildFilePath` looks for the tests and the checker of a problem in this folder. -/
def LooksUp (folder : String) (problemID : Nat) : Prop :=
  ∀ request info kind, getInfoFromRequest (.ok request) = .ok info →
    ResourceType.ofInt request.resource = some kind →
    kind = .testInput ∨ kind = .testAnswer ∨ kind = .checker →
    request.problemID = problemID → filesystem.LooksIn folder info

/-! ## One block -/

theorem idParts_length {id : List Char} {blockSize fuel i : Nat} :
    ∀ part ∈ idParts id blockSize fuel i, part.toList.length ≤ blockSize := by
  induction fuel generalizing i with
  | zero =>
    intro _ h
    cases h
  | succ fuel ih =>
    intro part hpart
    rw [idParts] at hpart
    split at hpart
    · rcases List.mem_cons.1 hpart with rfl | hpart
      · rw [String.toList_ofList, List.extract_eq_take_drop, List.length_take]
        omega
      · exact ih part hpart
    · cases hpart

/-- An ID is a single block if it is not longer than a block. -/
theorem parts_eq_singleton_iff (id : Nat) :
    filesystem.parts id = [id.repr] ↔ id.repr.length ≤ filesystem.blockSize := by
  constructor
  · intro h
    have hlength := idParts_length id.repr (h ▸ List.mem_singleton_self _)
    rwa [String.length_toList] at hlength
  · intro hle
    obtain ⟨fuel, hfuel⟩ := Nat.exists_eq_succ_of_ne_zero fun hzero =>
      repr_ne_empty id (String.length_eq_zero_iff.1 hzero)
    have hlength : id.repr.toList.length = fuel + 1 := String.length_toList.trans hfuel
    have hwhole : id.repr.toList.extract 0 (min (0 + filesystem.blockSize) id.repr.toList.length) =
        id.repr.toList := by
      rw [List.extract_eq_take_drop, List.drop_zero, List.take_of_length_le (by omega)]
    have hrest : idParts id.repr.toList filesystem.blockSize fuel (0 + filesystem.blockSize) = [] := by
      cases fuel with
      | zero => rfl
      | succ fuel => rw [idParts, if_neg (by omega)]
    rw [parts, hfuel, idParts, if_pos (by omega), hwhole, hrest, String.ofList_toList]

theorem problemID_of_accepted {request : StorageRequest} {info : ResourceInfo} {kind : ResourceType}
    (h : getInfoFromRequest (.ok request) = .ok info)
    (hkind : ResourceType.ofInt request.resource = some kind) (hproblem : kind.dataType = .problem) :
    info.dataType = .problem ∧ info.id = request.problemID := by
  obtain ⟨_, hrequest, h⟩ := bind_eq_ok.1 h
  obtain rfl : request = _ := Except.ok.inj hrequest
  obtain ⟨typed, htyped, h⟩ := bind_eq_ok.1 h
  obtain ⟨identified, hidentified, hfilled⟩ := bind_eq_ok.1 h
  rw [mapError_eq_ok] at htyped hidentified hfilled
  rw [ResourceInfo.parseDataType_eq hkind, hproblem] at htyped
  obtain rfl := Except.ok.inj htyped
  have hid : identified.id = request.problemID ∧ identified.dataType = .problem := by
    unfold ResourceInfo.parseDataID at hidentified
    dsimp only at hidentified
    split at hidentified
    · cases hidentified
    · cases hidentified
      exact ⟨rfl, rfl⟩
  unfold ResourceInfo.parseFilepath at hfilled
  split at hfilled
  · cases hfilled
  · split at hfilled
    · cases hfilled
    · cases hfilled
      exact hid.symm

/-! ## The folder of a problem -/

/-- The path at which `BuildFilePath` looks. -/
def lookupPath (info : ResourceInfo) : String :=
  join [filesystem.basepath, info.dataType.toString, join (filesystem.parts info.id), info.filepath]

variable {filesystem} {folder : String} {info : ResourceInfo}

theorem looksIn_of_eq (hblock : filesystem.blockSize < 2 ^ 63)
    (heq : filesystem.lookupPath info = join [folder, info.filepath]) :
    filesystem.LooksIn folder info := by
  intro readDir path
  unfold buildFilePath generatePathFromID
  rw [if_pos hblock, ok_bind]
  dsimp only
  rw [show join [_, _, _, _] = join [folder, info.filepath] from heq]
  cases hempty : info.emptyStorageFilename with
  | false =>
    rw [if_neg Bool.false_ne_true]
    constructor
    · intro hpath
      exact .inl ⟨rfl, (Except.ok.inj (Except.ok.inj hpath)).symm⟩
    · rintro (⟨-, rfl⟩ | ⟨hnot, -⟩)
      · rfl
      · cases hnot
  | true =>
    rw [if_pos rfl]
    constructor
    · intro hpath
      split at hpath
      · cases hpath
      · next name hproper hentries =>
        exact .inr ⟨rfl, _, hentries, rfl, (Except.ok.inj (Except.ok.inj hpath)).symm⟩
      · cases hpath
    · rintro (⟨hnot, -⟩ | ⟨-, ⟨name, isDir, hproper⟩, hentries, rfl, rfl⟩)
      · cases hnot
      · rw [hentries]
        rfl

theorem eq_of_looksIn (hgiven : info.emptyStorageFilename = false)
    (h : filesystem.LooksIn folder info) :
    filesystem.blockSize < 2 ^ 63 ∧ filesystem.lookupPath info = join [folder, info.filepath] := by
  have hbuild := (h (fun _ => .ok []) _).2 (.inl ⟨hgiven, rfl⟩)
  obtain ⟨subpathID, hsubpath, hpath⟩ := bind_eq_ok.1 hbuild
  obtain ⟨hblock, rfl⟩ := filesystem.generatePathFromID_ok hsubpath
  refine ⟨hblock, ?_⟩
  dsimp only at hpath
  rw [hgiven, if_neg Bool.false_ne_true] at hpath
  exact Except.ok.inj (Except.ok.inj hpath)

theorem proper_problem : Proper "Problem" := DataType.problem.proper_toString

theorem proper_importNames (id : Nat) : ∀ name ∈ ["Problem", id.repr], Proper name := by
  simp [proper_problem, proper_repr]

/-- The path of a file in the folder of the importer. -/
theorem join_importFolder (base : String) (id : Nat) (file : String) :
    join [importFolder base id, file] =
      (((parse base).down ["Problem", id.repr]).resolve file).text := by
  have hparse : parse (importFolder base id) = (parse base).down ["Problem", id.repr] :=
    FilePath.parse_join_names base (List.cons_ne_nil _ _) (proper_importNames id)
  have hne : importFolder base id ≠ "" := by
    intro hempty
    rw [hempty] at hparse
    have hnames : [] = (parse base).names ++ ["Problem", id.repr] := congrArg Path.names hparse
    simp at hnames
  rw [FilePath.join_cons hne, List.foldl_cons, List.foldl_nil, hparse]

/-- The path at which a file of a problem is looked up. -/
theorem lookupPath_problem (hproblem : info.dataType = .problem) : filesystem.lookupPath info =
    (((parse filesystem.basepath).down ("Problem" :: filesystem.parts info.id)).resolve
      info.filepath).text := by
  rw [lookupPath, hproblem, FilePath.join_name _ DataType.problem.proper_toString, List.foldl_cons,
    List.foldl_cons, List.foldl_nil, FilePath.resolve_join_names _ (filesystem.proper_parts info.id),
    FilePath.Path.down_down]
  rfl

/-- The first test of a problem. -/
def firstTestInput (problemID : Nat) : ResourceInfo where
  request := { resource := 3, problemID := problemID, testID := 1 }
  id := problemID
  filepath := join ["tests", "01"]
  dataType := .problem

theorem firstTestInput_accepted {id : Nat} (hid : 0 < id) :
    getInfoFromRequest (.ok (firstTestInput id).request) = .ok (firstTestInput id) := by
  have hdata : ResourceInfo.parseDataID { request := (firstTestInput id).request, dataType := .problem } =
      .ok { request := (firstTestInput id).request, dataType := .problem, id := id } := by
    unfold ResourceInfo.parseDataID
    exact if_neg (Nat.pos_iff_ne_zero.1 hid)
  have htype : ResourceInfo.parseDataType { request := (firstTestInput id).request } =
      .ok { request := (firstTestInput id).request, dataType := .problem } := rfl
  have hfolder : ResourceInfo.parseFilepathFolder
      { request := (firstTestInput id).request, dataType := .problem, id := id } = .ok "tests" := rfl
  have hname : ResourceInfo.parseFilepathFilename
      { request := (firstTestInput id).request, dataType := .problem, id := id } =
      .ok ("01", false) := by
    have hnumber : sprintf "%02d" 1 = "01" := by decide
    rw [← hnumber]
    rfl
  unfold getInfoFromRequest
  simp only [mapError_ok, ok_bind, htype, hdata, ResourceInfo.parseFilepath, hfolder, hname]
  rfl

/-- The importer moves a problem to the folder in which its files are looked up exactly if the ID is a
single block, and the block size is one that `generatePathFromID` can count with. -/
theorem importFolder_iff (filesystem : Filesystem) {id : Nat} (hid : 0 < id) :
    filesystem.LooksUp (importFolder filesystem.basepath id) id ↔
      id.repr.length ≤ filesystem.blockSize ∧ filesystem.blockSize < 2 ^ 63 := by
  rw [← parts_eq_singleton_iff]
  constructor
  · intro h
    obtain ⟨hblock, heq⟩ := eq_of_looksIn rfl
      (h _ _ _ (firstTestInput_accepted hid) rfl (.inl rfl) rfl)
    refine ⟨?_, hblock⟩
    have hfile : ∀ name ∈ ["tests", "01"], Proper name := by
      intro name hname
      simp only [List.mem_cons, List.not_mem_nil, or_false] at hname
      rcases hname with rfl | rfl <;> decide
    rw [lookupPath_problem rfl, join_importFolder] at heq
    have hpath := FilePath.Path.text_injective
      (((FilePath.valid_parse _).down ?_).resolve _)
      (((FilePath.valid_parse _).down (proper_importNames id)).resolve _) heq
    · rw [firstTestInput, FilePath.resolve_join_names _ hfile, FilePath.resolve_join_names _ hfile,
        FilePath.Path.down_down, FilePath.Path.down_down] at hpath
      have hnames := List.append_cancel_left (congrArg Path.names hpath)
      exact List.append_cancel_right (List.cons.inj hnames).2
    · exact List.forall_mem_cons.2 ⟨proper_problem, filesystem.proper_parts id⟩
  · rintro ⟨hparts, hblock⟩ request info kind haccepted hkind hproblem rfl
    have hdata : kind.dataType = .problem := by
      rcases hproblem with rfl | rfl | rfl <;> rfl
    obtain ⟨hproblem, hid⟩ := problemID_of_accepted haccepted hkind hdata
    refine looksIn_of_eq hblock ?_
    rw [lookupPath_problem hproblem, join_importFolder, hid, hparts]

theorem importFolder_iff_short :
    Filesystem.LooksUp ⟨"/data", 3, by decide, by decide⟩ (importFolder "/data" 7) 7 :=
  (importFolder_iff ⟨"/data", 3, by decide, by decide⟩ (by decide)).2 (by decide)

/-- With the default block size, problem 1234 is moved to `Problem/1234` and looked up in
`Problem/123/4`. -/
theorem importFolder_long : ¬ ∀ (filesystem : Filesystem) (id : Nat), 0 < id →
    filesystem.LooksUp (importFolder filesystem.basepath id) id := by
  intro h
  let filesystem : Filesystem := ⟨"/data", 3, by decide, by decide⟩
  have haccepted : getInfoFromRequest (.ok (firstTestInput 1234).request) = .ok (firstTestInput 1234) :=
    firstTestInput_accepted (by decide)
  have hlooks := h filesystem 1234 (by decide) _ _ _ haccepted rfl (.inl rfl) rfl
  have heq : filesystem.lookupPath (firstTestInput 1234) =
      join [importFolder "/data" 1234, (firstTestInput 1234).filepath] := (eq_of_looksIn rfl hlooks).2
  exact absurd heq (by decide +kernel)

end Filesystem

end TestingSystem
