import TestingSystem.Invoker.Storage
import TestingSystem.Lib.Decimal

/-!
# The download folders of an invoker

The paths of `invoker/storage/storage.go` as texts. `getFiles` downloads the file of a key into the
folder that `setRequestBaseFolder` names, and `cleanUpFile` removes the whole folder of a file, so two
keys must not share a folder. The names in a folder are those of `requestBaseFolder`
(`downloadFolder_eq`).

A folder of an interactor is named by the problem, but the key of an interactor holds the submission:
all interactors of an epoch share one folder (`separate_iff`).
-/

set_option autoImplicit false

namespace TestingSystem

open FilePath (Proper parse join)

/-- `setRequestBaseFolder`, for the request that `getFiles` makes of a key. -/
def setRequestBaseFolder (request : CacheKey) (parent : String) : Except StoragePanic String :=
  let downloadFolder := join [parent, request.resource.toString]
  match request.resource with
  | .sourceCode | .compiledBinary | .compileOutput =>
    .ok (join [downloadFolder, request.submitID.repr])
  | .checker | .interactor => .ok (join [downloadFolder, request.problemID.repr])
  | .testInput | .testAnswer =>
    .ok (join [downloadFolder, dashed request.problemID request.testID])
  | .testOutput | .testStderr | .checkerOutput => .error (.noBaseFolder request.resource)

/-- The folder of a key below `CachePath`. -/
def downloadFolder (cachePath : String) (key : CacheKey) : Except StoragePanic String :=
  setRequestBaseFolder key (join [cachePath, key.epoch.repr])

/-- The path that `getFiles` returns for a downloaded file. -/
def downloadedFile (folder filename : String) : String := join [folder, filename]

/-- `cleanUpFile`: the folder that it removes with everything in it. -/
def cleanUpFile (file : Option String) : Option String := file.map FilePath.dir

/-- `RemoveAll` of `folder` removes `file`. -/
def Removes (folder file : String) : Prop :=
  parse file = parse folder ∨ (parse folder).Inside (parse file)

/-- Two folders such that no file in one is removed or overwritten with the files of the other. The
name of a downloaded file is the last element of the path that the storage component sends. -/
structure Separate (folder folder' : String) : Prop where
  ne : folder ≠ folder'
  not_inside : ¬ (parse folder).Inside (parse folder')
  not_contains : ¬ (parse folder').Inside (parse folder)
  not_overwritten : ∀ name name', Proper name → Proper name' →
    downloadedFile folder name ≠ downloadedFile folder' name'
  kept : ∀ name name', Proper name → Proper name' →
    ∀ removed ∈ cleanUpFile (some (downloadedFile folder name)),
      ¬ Removes removed (downloadedFile folder' name')
  keeps : ∀ name name', Proper name → Proper name' →
    ∀ removed ∈ cleanUpFile (some (downloadedFile folder' name')),
      ¬ Removes removed (downloadedFile folder name)

/-- A key of one of the getters. -/
def CacheGetter.Produces (key : CacheKey) : Prop :=
  ∃ (getter : CacheGetter) (epoch : Nat) (vals : List Nat), getter.keyGen epoch vals = .ok key

/-! ## The names in a folder -/

theorem ResourceType.proper_toString (resource : ResourceType) : Proper resource.toString := by
  cases resource <;> decide

/-- The folder of a key lies three levels below `CachePath`. -/
theorem requestBaseFolder_cases {key : CacheKey} {names : List String}
    (h : requestBaseFolder key = .ok names) :
    ∃ id, names = [key.epoch.repr, key.resource.toString, id] ∧ Proper id := by
  unfold requestBaseFolder at h
  split at h <;> cases h
  case h_1 | h_2 | h_3 => exact ⟨_, rfl, proper_repr _⟩
  case h_4 | h_5 => exact ⟨_, rfl, proper_repr _⟩
  case h_6 | h_7 => exact ⟨_, rfl, proper_dashed _ _⟩

theorem proper_of_requestBaseFolder {key : CacheKey} {names : List String}
    (h : requestBaseFolder key = .ok names) : ∀ name ∈ names, Proper name := by
  obtain ⟨id, rfl, hid⟩ := requestBaseFolder_cases h
  intro name hname
  simp only [List.mem_cons, List.not_mem_nil, or_false] at hname
  rcases hname with rfl | rfl | rfl
  · exact proper_repr _
  · exact key.resource.proper_toString
  · exact hid

/-- The text of a folder is `CachePath`, cleaned, with the names of `requestBaseFolder`. -/
theorem downloadFolder_eq (cachePath : String) (key : CacheKey) :
    downloadFolder cachePath key =
      (requestBaseFolder key).map fun names => ((parse cachePath).down names).text := by
  have hjoin : ∀ id : String, Proper id →
      join [join [join [cachePath, key.epoch.repr], key.resource.toString], id] =
        ((parse cachePath).down [key.epoch.repr, key.resource.toString, id]).text := by
    intro id hid
    have hone : ∀ name, Proper name → ∀ n ∈ [name], Proper n := by simp
    rw [FilePath.join_names _ (List.cons_ne_nil _ _) (hone id hid),
      FilePath.parse_join_names _ (List.cons_ne_nil _ _) (hone _ key.resource.proper_toString),
      FilePath.parse_join_names _ (List.cons_ne_nil _ _) (hone _ (proper_repr key.epoch)),
      FilePath.Path.down_down, FilePath.Path.down_down]
    rfl
  unfold downloadFolder setRequestBaseFolder requestBaseFolder
  cases hresource : key.resource with
  | sourceCode | compiledBinary | compileOutput | checker | interactor =>
    simp only [← hresource, hjoin _ (proper_repr _)]
    rfl
  | testInput | testAnswer =>
    simp only [← hresource, hjoin _ (proper_dashed _ _)]
    rfl
  | testOutput | testStderr | checkerOutput => rfl

namespace CacheGetter.Produces

variable {key key' : CacheKey}

/-- The fields that a getter fills, for the kind of resource it asks for. -/
theorem fields (h : Produces key) :
    match key.resource with
    | .sourceCode | .compiledBinary | .interactor => key.problemID = 0 ∧ key.testID = 0
    | .checker => key.submitID = 0 ∧ key.testID = 0
    | .testInput | .testAnswer => key.submitID = 0
    | .compileOutput | .testOutput | .testStderr | .checkerOutput => False := by
  obtain ⟨getter, epoch, vals, hkey⟩ := h
  cases getter <;>
    simp only [keyGen, submitKeyGen, problemIDKeyGen, testKeyGen] at hkey <;>
    split at hkey <;> cases hkey <;> simp

theorem folder (h : Produces key) : ∃ names, requestBaseFolder key = .ok names := by
  have hfields := h.fields
  unfold requestBaseFolder
  cases hresource : key.resource with
  | sourceCode | compiledBinary | compileOutput | checker | interactor | testInput | testAnswer =>
    exact ⟨_, rfl⟩
  | testOutput | testStderr | checkerOutput =>
    rw [hresource] at hfields
    exact hfields.elim

/-- Two keys with one folder are equal, or they are keys of interactors. -/
theorem eq_of_folder (h : Produces key) (h' : Produces key')
    (hfolder : requestBaseFolder key = requestBaseFolder key') :
    key = key' ∨ key.resource = .interactor ∧ key'.resource = .interactor ∧
      key.epoch = key'.epoch := by
  obtain ⟨names, hnames⟩ := h.folder
  obtain ⟨id, hid, -⟩ := requestBaseFolder_cases hnames
  obtain ⟨id', hid', -⟩ := requestBaseFolder_cases (hfolder ▸ hnames)
  obtain ⟨hepoch, hrest⟩ := List.cons.inj (hid.symm.trans hid')
  have hepoch : key.epoch = key'.epoch := repr_injective hepoch
  have hresource : key.resource = key'.resource :=
    ResourceType.toString_injective (List.cons.inj hrest).1
  have hfields := h.fields
  have hfields' := h'.fields
  obtain ⟨epoch, resource, problemID, submitID, testID⟩ := key
  obtain ⟨epoch', resource', problemID', submitID', testID'⟩ := key'
  obtain rfl : epoch = epoch' := hepoch
  obtain rfl : resource = resource' := hresource
  cases resource with
  | sourceCode | compiledBinary =>
    obtain ⟨rfl, rfl⟩ := hfields
    obtain ⟨rfl, rfl⟩ := hfields'
    simp only [requestBaseFolder, Except.ok.injEq, List.cons.injEq, true_and, and_true] at hfolder
    exact .inl (by rw [repr_injective hfolder])
  | checker =>
    obtain ⟨rfl, rfl⟩ := hfields
    obtain ⟨rfl, rfl⟩ := hfields'
    simp only [requestBaseFolder, Except.ok.injEq, List.cons.injEq, true_and, and_true] at hfolder
    exact .inl (by rw [repr_injective hfolder])
  | interactor => exact .inr ⟨rfl, rfl, rfl⟩
  | testInput | testAnswer =>
    obtain rfl : submitID = 0 := hfields
    obtain rfl : submitID' = 0 := hfields'
    simp only [requestBaseFolder, Except.ok.injEq, List.cons.injEq, true_and, and_true] at hfolder
    obtain ⟨hproblem, htest⟩ := dashed_injective hfolder
    exact .inl (by rw [hproblem, htest])
  | compileOutput | testOutput | testStderr | checkerOutput => exact hfields.elim

end CacheGetter.Produces

/-! ## Separate folders -/

section Siblings

open FilePath.Path

variable {base : FilePath.Path} {names names' : List String}

theorem downloadedFile_text {p : FilePath.Path} (hp : p.Valid) {name : String} (h : Proper name) :
    downloadedFile p.text name = (p.down [name]).text := by
  have hone : ∀ n ∈ [name], Proper n := by simpa using h
  rw [downloadedFile, FilePath.join_names _ (List.cons_ne_nil _ _) hone, parse_text hp]

/-- What is removed with a downloaded file is its folder. -/
theorem cleanUpFile_downloaded {p : FilePath.Path} (hp : p.Valid) {name : String} (h : Proper name) :
    cleanUpFile (some (downloadedFile p.text name)) = some p.text := by
  rw [cleanUpFile, Option.map_some, downloadedFile_text hp h, FilePath.dir_text hp h]

/-- Nothing in a folder is removed with another folder at the same level. -/
theorem not_removes_sibling (hbase : base.Valid) (hnames : ∀ n ∈ names, Proper n)
    (hnames' : ∀ n ∈ names', Proper n) (hlen : names.length = names'.length) (hne : names ≠ names')
    {name' : String} (hname' : Proper name') :
    ¬ Removes (base.down names).text (downloadedFile (base.down names').text name') := by
  have hone : ∀ n ∈ [name'], Proper n := by simpa using hname'
  unfold Removes
  rw [downloadedFile_text (hbase.down hnames') hname', parse_text (hbase.down hnames),
    parse_text ((hbase.down hnames').down hone), down_down]
  rintro (heq | ⟨rest, -, heq⟩)
  · have hlist : base.names ++ (names' ++ [name']) = base.names ++ names := congrArg FilePath.Path.names heq
    have hlength := congrArg List.length (List.append_cancel_left hlist)
    rw [List.length_append, List.length_singleton] at hlength
    omega
  · rw [down_down] at heq
    have hlist : base.names ++ (names' ++ [name']) = base.names ++ (names ++ rest) :=
      congrArg FilePath.Path.names heq
    exact hne (List.append_inj_left (List.append_cancel_left hlist) hlen.symm).symm

theorem not_inside_sibling (hlen : names.length = names'.length) :
    ¬ (base.down names).Inside (base.down names') := by
  rintro ⟨rest, hrest, heq⟩
  rw [down_down] at heq
  have hlist : base.names ++ names' = base.names ++ (names ++ rest) := congrArg FilePath.Path.names heq
  have hlength := congrArg List.length (List.append_cancel_left hlist)
  rw [List.length_append] at hlength
  exact hrest (List.length_eq_zero_iff.1 (by omega))

/-- Two folders at one level with different names are separate. -/
theorem separate_siblings (hbase : base.Valid) (hnames : ∀ n ∈ names, Proper n)
    (hnames' : ∀ n ∈ names', Proper n) (hlen : names.length = names'.length) (hne : names ≠ names') :
    Separate (base.down names).text (base.down names').text where
  ne heq := by
    have hpath := text_injective (hbase.down hnames) (hbase.down hnames') heq
    exact hne (List.append_cancel_left (congrArg FilePath.Path.names hpath))
  not_inside := by
    rw [parse_text (hbase.down hnames), parse_text (hbase.down hnames')]
    exact not_inside_sibling hlen
  not_contains := by
    rw [parse_text (hbase.down hnames), parse_text (hbase.down hnames')]
    exact not_inside_sibling hlen.symm
  not_overwritten name name' hname hname' heq := by
    refine not_removes_sibling hbase hnames hnames' hlen hne hname' (.inr ?_)
    have hone : ∀ n ∈ [name], Proper n := by simpa using hname
    rw [← heq, downloadedFile_text (hbase.down hnames) hname, parse_text (hbase.down hnames),
      parse_text ((hbase.down hnames).down hone)]
    exact inside_down_iff.2 (List.cons_ne_nil _ _)
  kept name name' hname hname' removed hremoved := by
    rw [cleanUpFile_downloaded (hbase.down hnames) hname] at hremoved
    obtain rfl := Option.some.inj hremoved
    exact not_removes_sibling hbase hnames hnames' hlen hne hname'
  keeps name name' hname hname' removed hremoved := by
    rw [cleanUpFile_downloaded (hbase.down hnames') hname'] at hremoved
    obtain rfl := Option.some.inj hremoved
    exact not_removes_sibling hbase hnames' hnames hlen.symm hne.symm hname

end Siblings

/-- The folders of two keys are separate, unless both are keys of interactors in one epoch. -/
theorem separate_iff (cachePath : String) {key key' : CacheKey} (h : CacheGetter.Produces key)
    (h' : CacheGetter.Produces key') (hne : key ≠ key') :
    (∃ folder folder', downloadFolder cachePath key = .ok folder ∧
        downloadFolder cachePath key' = .ok folder' ∧ Separate folder folder') ↔
      ¬ (key.resource = .interactor ∧ key'.resource = .interactor ∧ key.epoch = key'.epoch) := by
  obtain ⟨names, hnames⟩ := h.folder
  obtain ⟨names', hnames'⟩ := h'.folder
  obtain ⟨id, hid, -⟩ := requestBaseFolder_cases hnames
  obtain ⟨id', hid', -⟩ := requestBaseFolder_cases hnames'
  have hproper := proper_of_requestBaseFolder hnames
  have hproper' := proper_of_requestBaseFolder hnames'
  rw [downloadFolder_eq, downloadFolder_eq, hnames, hnames']
  constructor
  · rintro ⟨folder, folder', hfolder, hfolder', hseparate⟩ ⟨hr, hr', hepoch⟩
    -- both folders are named by the problem, which an interactor's key does not hold
    have hfields := h.fields
    have hfields' := h'.fields
    rw [hr] at hfields
    rw [hr'] at hfields'
    have hsame : names = names' := by
      simp only [requestBaseFolder, hr, hr', hfields.1, hfields'.1, hepoch] at hnames hnames'
      exact Except.ok.inj (hnames.symm.trans hnames')
    refine hseparate.ne ?_
    rw [← Except.ok.inj hfolder, ← Except.ok.inj hfolder', hsame]
  · intro hother
    refine ⟨_, _, rfl, rfl, separate_siblings (FilePath.valid_parse _) hproper hproper' ?_ ?_⟩
    · rw [hid, hid']
      rfl
    · rintro rfl
      exact (h.eq_of_folder h' (hnames.trans hnames'.symm)).elim hne hother

/-- Two submissions of one problem keep their sources apart. -/
theorem separate_iff_sources :
    ∃ folder folder',
      downloadFolder "/cache" { epoch := 0, resource := .sourceCode, submitID := 1 } = .ok folder ∧
      downloadFolder "/cache" { epoch := 0, resource := .sourceCode, submitID := 2 } = .ok folder' ∧
      Separate folder folder' :=
  (separate_iff "/cache" ⟨.source, 0, [1], rfl⟩ ⟨.source, 0, [2], rfl⟩ (by decide)).2
    fun h => nomatch h.1

/-- The interactors of two submissions are downloaded into one folder. -/
theorem interactors_share_folder :
    ¬ ∀ (cachePath : String) (key key' : CacheKey), CacheGetter.Produces key →
      CacheGetter.Produces key' → key ≠ key' → ∃ folder folder',
        downloadFolder cachePath key = .ok folder ∧ downloadFolder cachePath key' = .ok folder' ∧
          Separate folder folder' := by
  intro h
  obtain ⟨folder, folder', hfolder, hfolder', hseparate⟩ := h "/cache"
    { epoch := 0, resource := .interactor, submitID := 1 }
    { epoch := 0, resource := .interactor, submitID := 2 }
    ⟨.interactor, 0, [1], rfl⟩ ⟨.interactor, 0, [2], rfl⟩ (by decide)
  exact hseparate.ne (Except.ok.inj (hfolder.symm.trans hfolder'))

end TestingSystem
