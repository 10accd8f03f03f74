import Mathlib.Data.List.Infix
import Mathlib.Logic.Function.Basic
import PipelineIQ.Storage.StorageKey

namespace PipelineIQ.Storage.Providers

open PipelineIQ.Lib.Strings PipelineIQ.Lib.PosixPath PipelineIQ.Storage.StorageKey

abbrev Bytes := List UInt8

/-! ### The interface -/

/-- What the providers raise, whatever the class of the exception. -/
inductive StorageError where
  | invalidKey (key : Text)
  | escapesBase (key : Text)
  | notADirectory
  | isADirectory
  | missing (path : Text)
  | exceedsMaximum (maxSize : Nat)
  | emptyFile
  | streamFailed
  deriving DecidableEq, Repr

/-- A stream hands out its chunks and then ends, or fails. -/
inductive Operation where
  | upload (path : Text) (data : Bytes)
  | uploadStream (path : Text) (chunks : List Bytes) (fails : Bool) (maxSize : Nat)
  | download (path : Text)
  | delete (path : Text)
  | fileExists (path : Text)
  | getSize (path : Text)

def Operation.path : Operation → Text
  | .upload path _ | .uploadStream path _ _ _ | .download path | .delete path | .fileExists path
  | .getSize path => path

inductive Answer where
  | stored
  | written (totalRead : Nat)
  | bytes (data : Bytes)
  | deleted
  | found (b : Bool)
  | size (n : Nat)
  | raised (e : StorageError)
  deriving DecidableEq, Repr

/-- The loop over the chunks of a stream, `none` where they are too many bytes. -/
def writeChunks (maxSize : Nat) (totalRead : Nat) (written : Bytes) : List Bytes → Option Bytes
  | [] => some written
  | chunk :: chunks =>
    if chunk = [] then writeChunks maxSize totalRead written chunks
    else if totalRead + chunk.length > maxSize then none
    else writeChunks maxSize (totalRead + chunk.length) (written ++ chunk) chunks

/-! ### The local filesystem -/

abbrev Path := List Text

inductive Node where
  | directory
  | file (data : Bytes)
  deriving DecidableEq

def Node.isFile : Node → Bool
  | .directory => false
  | .file _ => true

/-- A tree of files without links. -/
abbrev FileSystem := Path → Option Node

def write (fs : FileSystem) (path : Path) (data : Bytes) : FileSystem :=
  Function.update fs path (some (.file data))

def unlink (fs : FileSystem) (path : Path) : FileSystem := Function.update fs path none

/-- `mkdir(parents=True, exist_ok=True)`. -/
def mkdirs (fs : FileSystem) (path : Path) : Except StorageError FileSystem :=
  if path.inits.any fun p => (fs p).any Node.isFile then .error .notADirectory
  else .ok fun p => if p <+: path then some .directory else fs p

/-- A base directory, with where it is and the size that directories have. -/
structure LocalStorageProvider where
  baseDir : Text
  resolvedBase : Path
  resolved : target baseDir = some resolvedBase
  directorySize : Nat

namespace LocalStorageProvider

variable (L : LocalStorageProvider)

def getFullPath (path : Text) : Except StorageError Path :=
  match validateStorageKey path with
  | .error e => .error (.invalidKey e.key)
  | .ok key =>
    match target (L.baseDir ++ '/' :: key) with
    | none => .error (.escapesBase path)
    | some fullPath =>
      if fullPath ≠ L.resolvedBase ∧ L.resolvedBase ∉ fullPath.dropLast.inits then
        .error (.escapesBase path)
      else .ok fullPath

/-- The directories of a file are made and it is opened to be written from the start. -/
def openForWriting (fs : FileSystem) (path : Text) : FileSystem × Except StorageError Path :=
  match L.getFullPath path with
  | .error e => (fs, .error e)
  | .ok fullPath =>
    match mkdirs fs fullPath.dropLast with
    | .error e => (fs, .error e)
    | .ok made =>
      if made fullPath = some .directory then (made, .error .isADirectory)
      else (write made fullPath [], .ok fullPath)

def upload (fs : FileSystem) (path : Text) (data : Bytes) : FileSystem × Answer :=
  match L.openForWriting fs path with
  | (fs, .error e) => (fs, .raised e)
  | (fs, .ok fullPath) => (write fs fullPath data, .stored)

def uploadStream (fs : FileSystem) (path : Text) (chunks : List Bytes) (fails : Bool)
    (maxSize : Nat) : FileSystem × Answer :=
  match L.openForWriting fs path with
  | (fs, .error e) => (fs, .raised e)
  | (fs, .ok fullPath) =>
    match writeChunks maxSize 0 [] chunks with
    | none => (unlink fs fullPath, .raised (.exceedsMaximum maxSize))
    | some data =>
      if fails then (write fs fullPath data, .raised .streamFailed)
      else if data = [] then (unlink fs fullPath, .raised .emptyFile)
      else (write fs fullPath data, .written data.length)

/-- What is read at a path. -/
def look (fs : FileSystem) (path : Text) (answer : Option Node → FileSystem × Answer) :
    FileSystem × Answer :=
  match L.getFullPath path with
  | .error e => (fs, .raised e)
  | .ok fullPath => answer (fs fullPath)

def download (fs : FileSystem) (path : Text) : FileSystem × Answer :=
  L.look fs path fun node => match node with
    | none => (fs, .raised (.missing path))
    | some .directory => (fs, .raised .isADirectory)
    | some (.file data) => (fs, .bytes data)

def delete (fs : FileSystem) (path : Text) : FileSystem × Answer :=
  match L.getFullPath path with
  | .error e => (fs, .raised e)
  | .ok fullPath =>
    match fs fullPath with
    | none => (fs, .deleted)
    | some .directory => (fs, .raised .isADirectory)
    | some (.file _) => (unlink fs fullPath, .deleted)

def fileExists (fs : FileSystem) (path : Text) : FileSystem × Answer :=
  L.look fs path fun node => (fs, .found node.isSome)

def getSize (fs : FileSystem) (path : Text) : FileSystem × Answer :=
  L.look fs path fun node => match node with
    | none => (fs, .raised (.missing path))
    | some .directory => (fs, .size L.directorySize)
    | some (.file data) => (fs, .size data.length)

def perform (fs : FileSystem) : Operation → FileSystem × Answer
  | .upload path data => L.upload fs path data
  | .uploadStream path chunks fails maxSize => L.uploadStream fs path chunks fails maxSize
  | .download path => L.download fs path
  | .delete path => L.delete fs path
  | .fileExists path => L.fileExists fs path
  | .getSize path => L.getSize fs path

/-- The base directory alone, as `__init__` makes it. -/
def fresh : FileSystem := fun p => if p <+: L.resolvedBase then some .directory else none

end LocalStorageProvider

/-! ### The object store -/

/-- A bucket: an object has the bytes that were put under its key last, until it is deleted. -/
structure Bucket (σ : Type) where
  getObject : σ → Text → Option Bytes
  putObject : σ → Text → Bytes → σ
  deleteObject : σ → Text → σ
  get_put : ∀ s key data key', getObject (putObject s key data) key' =
    if key' = key then some data else getObject s key'
  get_delete : ∀ s key key', getObject (deleteObject s key) key' =
    if key' = key then none else getObject s key'

namespace S3StorageProvider

variable {σ : Type} (B : Bucket σ)

/-- An operation on the key of a path. -/
def onKey (s : σ) (path : Text) (answer : Text → σ × Answer) : σ × Answer :=
  match validateStorageKey path with
  | .error e => (s, .raised (.invalidKey e.key))
  | .ok key => answer key

/-- The stream goes to a temporary file first. -/
def uploadStream (s : σ) (key : Text) (chunks : List Bytes) (fails : Bool) (maxSize : Nat) :
    σ × Answer :=
  match writeChunks maxSize 0 [] chunks with
  | none => (s, .raised (.exceedsMaximum maxSize))
  | some data =>
    if fails then (s, .raised .streamFailed)
    else if data = [] then (s, .raised .emptyFile)
    else (B.putObject s key data, .written data.length)

def perform (s : σ) : Operation → σ × Answer
  | .upload path data => onKey s path fun key => (B.putObject s key data, .stored)
  | .uploadStream path chunks fails maxSize =>
    onKey s path fun key => uploadStream B s key chunks fails maxSize
  | .download path => onKey s path fun key =>
    (s, ((B.getObject s key).map .bytes).getD (.raised (.missing path)))
  | .delete path => onKey s path fun key => (B.deleteObject s key, .deleted)
  | .fileExists path => onKey s path fun key => (s, .found (B.getObject s key).isSome)
  | .getSize path => onKey s path fun key =>
    (s, ((B.getObject s key).map fun data => .size data.length).getD (.raised (.missing path)))

end S3StorageProvider

end PipelineIQ.Storage.Providers
