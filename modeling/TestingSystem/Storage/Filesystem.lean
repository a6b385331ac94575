import Mathlib.Algebra.Ring.Nat
import TestingSystem.Storage.ResourceInfo

/-!
# The files of the storage

`storage/filesystem/filesystem.go`. `BuildFilePath` names the file of a request, and `SaveFile`,
`RemoveFile` and `GetFile` ask it for the path first. The operating system is an argument: a `Disk` has
states of any type and answers each call by the state it is made in.
-/

set_option autoImplicit false

namespace TestingSystem

open FilePath (Proper Path parse join)

/-- Run-time panics of this package. -/
inductive FilesystemPanic where
  | sliceBounds
  deriving DecidableEq, Repr

/-- `Filesystem`. `fillInStorageConfig` replaces a block size that is not given, so it is not zero. -/
structure Filesystem where
  basepath : String
  blockSize : Nat
  blockSize_pos : 0 < blockSize
  blockSize_lt : blockSize < 2 ^ 64

/-- An entry of a directory, as `os.ReadDir` lists it. -/
structure DirEntry where
  name : String
  isDir : Bool
  proper : Proper name

/-- The calls to the operating system, each with its error or without one. -/
structure Disk (σ : Type) where
  readDir : String → σ → Except String (List DirEntry)
  stat : String → σ → Except String Unit
  mkdirAll : String → σ → Except String Unit × σ
  saveUploadedFile : String → σ → Except String Unit × σ
  remove : String → σ → Except String Unit × σ

/-- The loop of `generatePathFromID`, from the character `i` of `id` on. -/
def idParts (id : List Char) (blockSize : Nat) : Nat → Nat → List String
  | 0, _ => []
  | fuel + 1, i =>
    if i < id.length then
      String.ofList (id.extract i (min (i + blockSize) id.length)) ::
        idParts id blockSize fuel (i + blockSize)
    else []

namespace Filesystem

variable (filesystem : Filesystem)

/-- The names of the folders of an ID, the outermost one first. -/
def parts (id : Nat) : List String :=
  idParts id.repr.toList filesystem.blockSize id.repr.length 0

/-- `generatePathFromID`. From `2 ^ 63` on the block size is a negative `int`, and the first block ends
before it starts. -/
def generatePathFromID (id : Nat) : Except FilesystemPanic String :=
  if filesystem.blockSize < 2 ^ 63 then .ok (join (filesystem.parts id)) else .error .sliceBounds

/-- `BuildFilePath`. -/
def buildFilePath (readDir : String → Except String (List DirEntry)) (resourceInfo : ResourceInfo) :
    Except FilesystemPanic (Except String String) := do
  let subpathID ← filesystem.generatePathFromID resourceInfo.id
  let fullPath :=
    join [filesystem.basepath, resourceInfo.dataType.toString, subpathID, resourceInfo.filepath]
  if resourceInfo.emptyStorageFilename then
    match readDir fullPath with
    | .error err => return .error ("failed to read directory " ++ fullPath ++ ": " ++ err)
    | .ok [⟨name, false, _⟩] => return .ok (join [fullPath, name])
    | .ok _ =>
      return .error ("StorageFilename is not specified, but directory " ++ fullPath ++
        " does not contain exactly one file")
  else return .ok fullPath

variable {σ : Type} (disk : Disk σ)

/-- `SaveFile`, with the path that it wrote. -/
def saveFile (resourceInfo : ResourceInfo) (s : σ) :
    Except FilesystemPanic (Except String String × σ) := do
  match ← filesystem.buildFilePath (disk.readDir · s) resourceInfo with
  | .error err => return (.error err, s)
  | .ok fullPath =>
    let dir := FilePath.dir fullPath
    match disk.mkdirAll dir s with
    | (.error err, s) => return (.error ("failed to create directory " ++ dir ++ ": " ++ err), s)
    | (.ok _, s) =>
      let (err, s) := disk.saveUploadedFile fullPath s
      return (err.map fun _ => fullPath, s)

/-- The loop of `RemoveFile` over the folders above the file; `none` without enough fuel. -/
def removeFolders : Nat → String → σ → Option (Except String Unit × σ)
  | 0, _, _ => none
  | fuel + 1, dir, s =>
    if dir = filesystem.basepath then some (.ok (), s)
    else
      match disk.readDir dir s with
      | .error err => some (.error ("failed to read directory " ++ dir ++ ": " ++ err), s)
      | .ok (_ :: _) => some (.ok (), s)
      | .ok [] =>
        match disk.remove dir s with
        | (.error err, s) => some (.error ("failed to remove directory " ++ dir ++ ": " ++ err), s)
        | (.ok _, s) => removeFolders fuel (FilePath.dir dir) s

/-- `RemoveFile`, with the path of the file that it removed. -/
def removeFile (fuel : Nat) (resourceInfo : ResourceInfo) (s : σ) :
    Except FilesystemPanic (Option (Except String String × σ)) := do
  match ← filesystem.buildFilePath (disk.readDir · s) resourceInfo with
  | .error err => return some (.error err, s)
  | .ok fullPath =>
    match disk.remove fullPath s with
    | (.error err, s) =>
      return some (.error ("failed to remove file " ++ fullPath ++ ": " ++ err), s)
    | (.ok _, s) =>
      return (filesystem.removeFolders disk fuel (FilePath.dir fullPath) s).map fun (err, s) =>
        (err.map fun _ => fullPath, s)

/-- `GetFile`. -/
def getFile (resourceInfo : ResourceInfo) (s : σ) :
    Except FilesystemPanic (Except String String) := do
  match ← filesystem.buildFilePath (disk.readDir · s) resourceInfo with
  | .error err => return .error err
  | .ok fullPath => return (disk.stat fullPath s).map fun _ => fullPath

/-- The path is returned by `BuildFilePath`, or it is the path of a file that is written, removed or
sent. -/
inductive Uses (resourceInfo : ResourceInfo) (s : σ) (fullPath : String) : Prop where
  | build (h : filesystem.buildFilePath (disk.readDir · s) resourceInfo = .ok (.ok fullPath))
  | save (s' : σ) (h : filesystem.saveFile disk resourceInfo s = .ok (.ok fullPath, s'))
  | remove (fuel : Nat) (s' : σ)
      (h : filesystem.removeFile disk fuel resourceInfo s = .ok (some (.ok fullPath, s')))
  | get (h : filesystem.getFile disk resourceInfo s = .ok (.ok fullPath))

/-- The folder of a resource: `Basepath/DataType/<blocks of ID>/<resource folder>`. -/
def resourceFolder (resourceInfo : ResourceInfo) : Path :=
  (parse filesystem.basepath).down <|
    resourceInfo.dataType.toString :: (filesystem.parts resourceInfo.id ++
      match resourceInfo.parseFilepathFolder with
      | .ok folder => if folder = "" then [] else [folder]
      | .error _ => [])

end Filesystem

end TestingSystem
