import TestingSystem.Common.Resource
import TestingSystem.Lib.Decimal
import TestingSystem.Lib.Outcome

/-!
# What a request of the storage is about

`storage/filesystem/resource_info.go` and `getInfoFromRequest` of `storage/helpers.go`. The three parse
methods fill a `ResourceInfo` one after another; each of them may refuse the request. Reading the
request from the HTTP call is left to gin and to `encoding/json`: what they give is an argument.
-/

set_option autoImplicit false

namespace TestingSystem

/-- `storageconn.Request`, with the fields that name a file. -/
structure StorageRequest where
  resource : Int
  problemID : Nat := 0
  submitID : Nat := 0
  testID : Nat := 0
  storageFilename : String := ""
  deriving DecidableEq, Repr

/-- `ResourceInfo`. -/
structure ResourceInfo where
  request : StorageRequest
  id : Nat := 0
  filepath : String := ""
  dataType : DataType := .unknownDataType
  emptyStorageFilename : Bool := false
  deriving DecidableEq, Repr

/-- `FilepathFolderMapping`. -/
def filepathFolderMapping : ResourceType → String
  | .sourceCode => "source"
  | .compiledBinary => ""
  | .compileOutput => ""
  | .testInput => "tests"
  | .testAnswer => "tests"
  | .testOutput => "tests"
  | .testStderr => "tests"
  | .checker => "checker"
  | .checkerOutput => "tests"
  | .interactor => "interactor"

/-- `FilepathFilenameMapping`. -/
def filepathFilenameMapping : ResourceType → Option String
  | .compiledBinary => some "solution"
  | .compileOutput => some "compile.out"
  | .testInput => some "%02d"
  | .testAnswer => some "%02d.a"
  | .testOutput => some "%02d.out"
  | .testStderr => some "%02d.err"
  | .checkerOutput => some "%02d.check"
  | .sourceCode | .checker | .interactor => none

/-- `fmt.Sprintf` for one number, with the only verb that the mapping has. -/
def sprintf (format : String) (n : Nat) : String :=
  match format.toList with
  | '%' :: '0' :: '2' :: 'd' :: rest => twoDigits n ++ String.ofList rest
  | _ => format

/-- `Type.String`, also for a number without a name. -/
def typeString (resource : Int) : String :=
  match ResourceType.ofInt resource with
  | some resourceType => resourceType.toString
  | none => "Type(" ++ toString resource ++ ")"

namespace ResourceInfo

/-- `ParseDataType`. -/
def parseDataType (info : ResourceInfo) : Except String ResourceInfo :=
  match ResourceType.ofInt info.request.resource with
  | some .checker | some .interactor => .ok { info with dataType := .problem }
  | some .testInput | some .testAnswer => .ok { info with dataType := .problem }
  | some .sourceCode | some .compiledBinary | some .compileOutput =>
    .ok { info with dataType := .submission }
  | some .testOutput | some .testStderr | some .checkerOutput =>
    .ok { info with dataType := .submission }
  | none => .error "unknown resource type"

/-- `ParseDataID`. -/
def parseDataID (info : ResourceInfo) : Except String ResourceInfo :=
  match info.dataType with
  | .problem =>
    if info.request.problemID = 0 then
      .error "ProblemID is not specified for problem resource"
    else .ok { info with id := info.request.problemID }
  | .submission =>
    if info.request.submitID = 0 then
      .error "SubmitID is not specified for submission resource"
    else .ok { info with id := info.request.submitID }
  | .unknownDataType => .error "unavailable to get data id"

/-- `parseFilepathFolder`. -/
def parseFilepathFolder (info : ResourceInfo) : Except String String :=
  match ResourceType.ofInt info.request.resource with
  | some resourceType => .ok (filepathFolderMapping resourceType)
  | none =>
    .error ("there is no type " ++ typeString info.request.resource ++ " in FilepathFolderMapping")

/-- `parseFilepathFilename`: the name, and whether it sets `EmptyStorageFilename`. -/
def parseFilepathFilename (info : ResourceInfo) : Except String (String × Bool) :=
  match (ResourceType.ofInt info.request.resource).bind filepathFilenameMapping with
  | some filepathFilename =>
    match ResourceType.ofInt info.request.resource with
    | some .testInput | some .testAnswer | some .testOutput | some .testStderr
    | some .checkerOutput =>
      if info.request.testID = 0 then .error "TestID is not specified for test resource"
      else .ok (sprintf filepathFilename info.request.testID, false)
    | _ => .ok (filepathFilename, false)
  | none =>
    if info.request.storageFilename ≠ "" then .ok (info.request.storageFilename, false)
    else .ok ("", true)

/-- `ParseFilepath`. -/
def parseFilepath (info : ResourceInfo) : Except String ResourceInfo :=
  match info.parseFilepathFolder with
  | .error err => .error ("unavailable to parse filepathFolder: " ++ err)
  | .ok filepathFolder =>
    match info.parseFilepathFilename with
    | .error err => .error ("unavailable to parse filepathFilename: " ++ err)
    | .ok (filepathFilename, empty) =>
      .ok
        { info with
          filepath := FilePath.join [filepathFolder, filepathFilename]
          emptyStorageFilename := info.emptyStorageFilename || empty }

end ResourceInfo

/-- `getInfoFromRequest`, with what `parseRequest` returned. -/
def getInfoFromRequest (request : Except String StorageRequest) : Except String ResourceInfo := do
  let request ← request.mapError fun err => "unavailable to parse request: " ++ err
  let info : ResourceInfo := { request := request }
  let info ← info.parseDataType.mapError fun err => "unavailable to parse dataType: " ++ err
  let info ← info.parseDataID.mapError fun err => "unavailable to parse dataID: " ++ err
  info.parseFilepath.mapError fun err => "unavailable to parse filepath: " ++ err

/-! ## Accepted requests -/

/-- The data that a type of resource belongs to. -/
def ResourceType.dataType : ResourceType → DataType
  | .testInput | .testAnswer | .checker | .interactor => .problem
  | .sourceCode | .compiledBinary | .compileOutput | .testOutput | .testStderr | .checkerOutput =>
    .submission

/-- The type has no name in `FilepathFilenameMapping`: `StorageFilename` is used. -/
def StorageRequest.NamesFile (request : StorageRequest) : Prop :=
  (ResourceType.ofInt request.resource).bind filepathFilenameMapping = none

instance (request : StorageRequest) : Decidable request.NamesFile :=
  inferInstanceAs (Decidable (_ = _))

/-- What `getInfoFromRequest` returns for a request about a file `name` of type `kind`. -/
structure ResourceInfo.Parsed (info : ResourceInfo) (kind : ResourceType) (name : String) : Prop where
  kind_eq : ResourceType.ofInt info.request.resource = some kind
  dataType_eq : info.dataType = kind.dataType
  id_pos : 0 < info.id
  folder_eq : info.parseFilepathFolder = .ok (filepathFolderMapping kind)
  filename_eq : info.parseFilepathFilename = .ok (name, info.emptyStorageFilename)
  filepath_eq : info.filepath = FilePath.join [filepathFolderMapping kind, name]

namespace ResourceInfo

variable {info : ResourceInfo} {request : StorageRequest}

theorem parseDataType_eq {kind : ResourceType}
    (h : ResourceType.ofInt info.request.resource = some kind) :
    info.parseDataType = .ok { info with dataType := kind.dataType } := by
  unfold parseDataType
  rw [h]
  cases kind <;> rfl

theorem parseDataID_ok {parsed : ResourceInfo} (h : info.parseDataID = .ok parsed) :
    ∃ id, 0 < id ∧ parsed = { info with id := id } := by
  unfold parseDataID at h
  split at h
  · split at h
    · cases h
    · next hne => exact ⟨_, Nat.pos_of_ne_zero hne, (Except.ok.inj h).symm⟩
  · split at h
    · cases h
    · next hne => exact ⟨_, Nat.pos_of_ne_zero hne, (Except.ok.inj h).symm⟩
  · cases h

theorem parseFilepathFolder_eq {kind : ResourceType}
    (h : ResourceType.ofInt info.request.resource = some kind) :
    info.parseFilepathFolder = .ok (filepathFolderMapping kind) := by
  rw [parseFilepathFolder, h]

/-- An accepted request has a known type and fills all fields of `info`. -/
theorem parsed_of_accepted (h : getInfoFromRequest (.ok request) = .ok info) :
    info.request = request ∧ ∃ kind name, info.Parsed kind name := by
  obtain ⟨_, hrequest, h⟩ := bind_eq_ok.1 h
  obtain rfl : request = _ := Except.ok.inj hrequest
  obtain ⟨typed, htyped, h⟩ := bind_eq_ok.1 h
  obtain ⟨identified, hidentified, h⟩ := bind_eq_ok.1 h
  rw [mapError_eq_ok] at htyped hidentified h
  cases hkind : ResourceType.ofInt request.resource with
  | none => simp [parseDataType, hkind] at htyped
  | some kind =>
    rw [parseDataType_eq hkind] at htyped
    obtain rfl := Except.ok.inj htyped
    obtain ⟨id, hpos, rfl⟩ := parseDataID_ok hidentified
    rw [parseFilepath, parseFilepathFolder_eq hkind] at h
    dsimp only at h
    split at h
    · cases h
    · next name empty hname =>
      obtain rfl := Except.ok.inj h
      refine ⟨rfl, kind, name, hkind, rfl, hpos, parseFilepathFolder_eq hkind, hname, rfl⟩

namespace Parsed

variable {kind : ResourceType} {name : String}

/-- The types whose files are named by the request have a folder of their own. -/
theorem named_iff (h : info.Parsed kind name) :
    info.request.NamesFile ↔ kind = .sourceCode ∨ kind = .checker ∨ kind = .interactor := by
  rw [StorageRequest.NamesFile, h.kind_eq]
  cases kind <;> decide

theorem name_of_named (h : info.Parsed kind name) (hnamed : info.request.NamesFile) :
    name = info.request.storageFilename ∧
      info.emptyStorageFilename = decide (info.request.storageFilename = "") := by
  have hname := h.filename_eq
  rw [StorageRequest.NamesFile] at hnamed
  rw [parseFilepathFilename, hnamed] at hname
  dsimp only at hname
  split at hname
  · next hne =>
    obtain ⟨hname, hempty⟩ := Prod.mk.inj (Except.ok.inj hname)
    exact ⟨hname.symm, by rw [← hempty, decide_eq_false hne]⟩
  · next heq =>
    obtain ⟨hname, hempty⟩ := Prod.mk.inj (Except.ok.inj hname)
    rw [not_not] at heq
    exact ⟨by rw [heq, hname], by rw [← hempty, decide_eq_true heq]⟩

/-- The fixed names: the two without a test, and those that start with the number of a test. -/
theorem name_of_fixed (h : info.Parsed kind name) (hfixed : ¬ info.request.NamesFile) :
    info.emptyStorageFilename = false ∧
      (kind = .compiledBinary ∧ name = "solution" ∨ kind = .compileOutput ∧ name = "compile.out" ∨
        filepathFolderMapping kind = "tests" ∧ ∃ suffix, '/' ∉ suffix.toList ∧
          name = twoDigits info.request.testID ++ suffix) := by
  have hname := h.filename_eq
  rw [h.named_iff] at hfixed
  rw [parseFilepathFilename, h.kind_eq] at hname
  cases kind with
  | sourceCode | checker | interactor => simp at hfixed
  | compiledBinary | compileOutput =>
    obtain ⟨hname, hempty⟩ := Prod.mk.inj (Except.ok.inj hname)
    exact ⟨hempty.symm, by simp [← hname]⟩
  | testInput | testAnswer | testOutput | testStderr | checkerOutput =>
    simp only [Option.bind_some, filepathFilenameMapping] at hname
    split at hname
    · cases hname
    · obtain ⟨hname, hempty⟩ := Prod.mk.inj (Except.ok.inj hname)
      exact ⟨hempty.symm, .inr (.inr ⟨rfl, _, by decide, hname.symm⟩)⟩

end Parsed

end ResourceInfo

end TestingSystem
