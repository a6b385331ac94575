import TestingSystem.Lib.Server
import TestingSystem.Storage.Filesystem

/-!
# The handlers of the storage

`storage/handlers.go`: `HandleUpload`, `HandleRemove` and `HandleGet`, as a server that answers one request
after another. gin runs the handlers of overlapping requests concurrently and `Filesystem` has no lock, so
the runs here are those in which a request comes after the answer to the one before. Reading a request from
its HTTP call is left to gin: what `parseRequest` and `FormFile` give is an argument. A `FileDisk` is a disk
whose files have contents.
-/

set_option autoImplicit false

namespace TestingSystem

/-- The contents of a file. -/
abbrev Bytes := List UInt8

/-- The operating system with the contents of files: `write` is `SaveUploadedFile` for an uploaded file with
these bytes, and `isNotExist` is `os.IsNotExist`. -/
structure FileDisk (σ : Type) extends Disk σ where
  write : String → Bytes → σ → Except String Unit × σ
  read : String → σ → Except String Bytes
  isNotExist : String → Bool

/-- The disk in the call of `SaveFile` with this file. -/
def FileDisk.uploading {σ : Type} (disk : FileDisk σ) (file : Bytes) : Disk σ :=
  { disk.toDisk with saveUploadedFile := fun path s => disk.write path file s }

/-- What a handler answers. -/
inductive StorageReply where
  | respOK
  | file (filename : String) (data : Bytes)
  | respErr (code : Nat) (text : String)
  /-- `http.ServeFile` can not send the file. -/
  | serveError (err : String)
  deriving DecidableEq, Repr

/-- Why a handler does not answer. -/
inductive StorageFailure where
  | panic (panic : FilesystemPanic)
  /-- The loop of `RemoveFile` has not ended in the given number of turns. -/
  | running
  deriving DecidableEq, Repr

/-- `io.LimitReader` with `DownloadHead`. -/
def headOf (downloadHead : Option Int) (content : Bytes) : Bytes :=
  match downloadHead with
  | none => content
  | some n => content.take n.toNat

namespace Filesystem

variable {σ : Type} (filesystem : Filesystem) (disk : FileDisk σ)

def invalidParameters (err : String) : StorageReply :=
  .respErr 400 ("Invalid request parameters: " ++ err)

/-- `HandleUpload`. -/
def handleUpload (request : Except String StorageRequest) (file : Except String Bytes) (s : σ) :
    Except StorageFailure (StorageReply × σ) :=
  match getInfoFromRequest request with
  | .error err => return (invalidParameters err, s)
  | .ok resourceInfo =>
    match file with
    | .error err => return (.respErr 400 ("Failed to read file: " ++ err), s)
    | .ok file =>
      match filesystem.saveFile (disk.uploading file) resourceInfo s with
      | .error panic => .error (.panic panic)
      | .ok (.error _, s) => return (.respErr 500 "Server error", s)
      | .ok (.ok _, s) => return (.respOK, s)

/-- `HandleRemove`. -/
def handleRemove (request : Except String StorageRequest) (turns : Nat) (s : σ) :
    Except StorageFailure (StorageReply × σ) :=
  match getInfoFromRequest request with
  | .error err => return (invalidParameters err, s)
  | .ok resourceInfo =>
    match filesystem.removeFile disk.toDisk turns resourceInfo s with
    | .error panic => .error (.panic panic)
    | .ok none => .error .running
    | .ok (some (.error _, s)) => return (.respErr 500 "Server error", s)
    | .ok (some (.ok _, s)) => return (.respOK, s)

/-- `os.IsNotExist` of the error of `GetFile`. `BuildFilePath` makes errors of its own, so only the error of
`Stat` is one. -/
def getNotExist (resourceInfo : ResourceInfo) (s : σ) : Bool :=
  match filesystem.buildFilePath (disk.readDir · s) resourceInfo with
  | .ok (.ok fullPath) =>
    match disk.stat fullPath s with
    | .error err => disk.isNotExist err
    | .ok _ => false
  | _ => false

/-- `HandleGet`. A file without `DownloadHead` is sent by `http.ServeFile`. -/
def handleGet (request : Except String StorageRequest) (downloadHead : Option Int) (s : σ) :
    Except StorageFailure (StorageReply × σ) :=
  match getInfoFromRequest request with
  | .error err => return (invalidParameters err, s)
  | .ok resourceInfo =>
    match filesystem.getFile disk.toDisk resourceInfo s with
    | .error panic => .error (.panic panic)
    | .ok (.error err) =>
      if filesystem.getNotExist disk resourceInfo s then
        return (.respErr 404 ("File doesn't exist: " ++ err), s)
      else return (.respErr 500 "Server error", s)
    | .ok (.ok fullPath) =>
      match disk.read fullPath s with
      | .ok content => return (.file (FilePath.base fullPath) (headOf downloadHead content), s)
      | .error err =>
        if downloadHead.isNone then return (.serveError err, s)
        else return (.respErr 500 "Server error", s)

end Filesystem

/-- A request to the storage. `turns` bounds the loop of `RemoveFile`. -/
inductive StorageCall where
  | upload (request : Except String StorageRequest) (file : Except String Bytes)
  | remove (request : Except String StorageRequest) (turns : Nat)
  | get (request : Except String StorageRequest) (downloadHead : Option Int)

def StorageCall.request : StorageCall → Except String StorageRequest
  | .upload request _ | .remove request _ | .get request _ => request

/-- A name that the request gives is the name of a file. -/
def StorageRequest.Plain (request : StorageRequest) : Prop :=
  request.NamesFile → request.storageFilename ≠ "" → FilePath.Proper request.storageFilename

/-- `Storage`, on a disk that is as `init` says when the storage starts; no two requests overlap. -/
def Filesystem.server {σ : Type} (filesystem : Filesystem) (disk : FileDisk σ) (init : σ → Prop) :
    Server σ StorageCall StorageReply StorageFailure where
  init := init
  enabled _ call := ∀ request, call.request = .ok request → request.Plain
  answer s
    | .upload request file => filesystem.handleUpload disk request file s
    | .remove request turns => filesystem.handleRemove disk request turns s
    | .get request downloadHead => filesystem.handleGet disk request downloadHead s

end TestingSystem
