import PipelineIQ.Api.FileFormats

namespace PipelineIQ.Api.Uploads

open PipelineIQ.Lib PipelineIQ.Lib.Strings PipelineIQ.Lib.Codecs PipelineIQ.Api.FileFormats

def MAX_UPLOAD_SIZE : Nat := 500 * 1024 * 1024

def MAX_DIRECT_UPLOAD_SIZE : Nat := MAX_UPLOAD_SIZE

def LARGE_FILE_THRESHOLD : Nat := 10 * 1024 * 1024

def DIRECT_UPLOAD_TTL_SECONDS : Nat := 30 * 60

/-! ### The world -/

/-- Only the second of the two signs URLs. -/
inductive Provider where
  | localStorage | s3Storage
  deriving DecidableEq, Repr

/-- What the cache holds of an upload until it is confirmed or the deadline has come. -/
structure PendingUpload where
  filename : Text
  expectedSize : Nat
  storedPath : Text
  userId : Text
  deadline : Nat

/-- The storage, the cache, the URLs that are signed, each with its deadline, and the table of the
files. The sizes that were negotiated and the identifiers that were given out are on record, too,
though no request reads them. -/
structure World where
  now : Nat
  objects : Dict Text Bytes
  pending : Dict FileId PendingUpload
  presigned : List (Text × Nat)
  rows : Dict FileId UploadedFile
  negotiated : Dict FileId Nat
  issued : List FileId

def World.empty : World := ⟨0, ∅, ∅, [], ∅, ∅, []⟩

/-- One write to one of the places where the state of an upload lives. -/
inductive Effect where
  | cache (id : FileId) (upload : PendingUpload)
  | sign (path : Text) (deadline : Nat)
  | write (path : Text) (content : Bytes)
  | remove (path : Text)
  | addRow (id : FileId) (row : UploadedFile)
  | dropRow (id : FileId)
  | clear (id : FileId)

def Effect.apply (w : World) : Effect → World
  | .cache id upload => { w with pending := w.pending.set id upload }
  | .sign path deadline => { w with presigned := (path, deadline) :: w.presigned }
  | .write path content => { w with objects := w.objects.set path content }
  | .remove path => { w with objects := w.objects.erase path }
  | .addRow id row => { w with rows := w.rows.set id row }
  | .dropRow id => { w with rows := w.rows.erase id }
  | .clear id => { w with pending := w.pending.erase id }

def perform (w : World) (effects : List Effect) : World := effects.foldl Effect.apply w

/-- What a request does, in this order, and the failure that it answers with. -/
structure Handled where
  effects : List Effect
  failure : Option Failure

def refuse (statusCode : Nat) (detail : String) : Handled :=
  ⟨[], some (.http ⟨statusCode, detail⟩)⟩

/-! ### Pending uploads -/

/-- The last part of a path, behind the last slash. -/
def basename (path : Text) : Text := path.rtakeWhile (· ≠ '/')

def getPendingUpload (w : World) (id : FileId) : Option PendingUpload :=
  (w.pending.get? id).filter fun upload => w.now < upload.deadline

/-- The pending upload of a user, where another user's counts as none. -/
def pendingOf (w : World) (id : FileId) (user : Text) : Option PendingUpload :=
  (getPendingUpload w id).filter fun upload => upload.userId = user

def validatedPendingStoredPath (id : FileId) (upload : PendingUpload) : Except Failure Text := do
  let filename := basename upload.filename
  validateFileExtension filename
  let expectedName := storedPathOf id filename
  if basename upload.storedPath = expectedName then return expectedName
  else throw (.http ⟨400, "Pending upload storage path is invalid"⟩)

/-! ### Requests -/

/-- The requests with what the client sends. `cached` and `signed` say whether the cache takes the
record of an upload and whether a URL can be signed: either failure is passed over. -/
inductive Request where
  | requestUploadUrl (id : FileId) (user filename : Text) (fileSize : Nat) (cached signed : Bool)
  | directUpload (id : FileId) (user : Text) (chunks : List Bytes)
  | confirm (id : FileId) (user : Text)
  | uploadFile (id : FileId) (user filename : Text) (chunks : List Bytes)
  | deleteFile (id : FileId) (user : Text)

def requestUploadUrl (provider : Provider) (w : World) (id : FileId) (user filename : Text)
    (fileSize : Nat) (cached signed : Bool) : Handled :=
  let filename := basename filename
  if filename = [] then refuse 400 "Filename is required"
  else match validateFileExtension filename with
    | .error e => ⟨[], some e⟩
    | .ok () =>
      if MAX_DIRECT_UPLOAD_SIZE < fileSize then refuse 413 "File size exceeds maximum (500 MB)"
      else if LARGE_FILE_THRESHOLD < fileSize then
        let storedPath := storedPathOf id filename
        let deadline := w.now + DIRECT_UPLOAD_TTL_SECONDS
        ⟨(if cached then [.cache id ⟨filename, fileSize, storedPath, user, deadline⟩] else []) ++
          (if provider = .s3Storage ∧ signed then [.sign storedPath deadline] else []), none⟩
      else ⟨[], none⟩

/-- A file on disk as it grows chunk by chunk, from the empty one on. -/
def growing (path : Text) (chunks : List Bytes) : List Effect :=
  (List.range (chunks.length + 1)).map fun n => .write path (chunks.take n).flatten

/-- The writes that a stream is let do before it gets too long. -/
def growingUpTo (maxSize : Nat) (path : Text) (chunks : List Bytes) : List Effect :=
  ((List.range (chunks.length + 1)).filter fun n => (chunks.take n).flatten.length ≤ maxSize).map
    fun n => .write path (chunks.take n).flatten

/-- On disk a stream that is refused has been written already; the file is then unlinked. -/
def uploadStream (provider : Provider) (path : Text) (chunks : List Bytes) (maxSize : Nat) :
    Handled :=
  let total := chunks.flatten.length
  let failure : Option Failure :=
    if maxSize < total then some (.http ⟨400, "File size exceeds maximum (524288000 bytes)"⟩)
    else if total = 0 then some (.http ⟨400, "Uploaded file is empty"⟩)
    else none
  match provider, failure with
  | .localStorage, some e => ⟨growingUpTo maxSize path chunks ++ [.remove path], some e⟩
  | .localStorage, none => ⟨growingUpTo maxSize path chunks, none⟩
  | .s3Storage, some e => ⟨[], some e⟩
  | .s3Storage, none => ⟨[.write path chunks.flatten], none⟩

def notPending : Handled := refuse 404 "File not found or not pending confirmation"

def directUploadFile (provider : Provider) (w : World) (id : FileId) (user : Text)
    (chunks : List Bytes) : Handled :=
  match pendingOf w id user with
  | none => notPending
  | some upload => match validatedPendingStoredPath id upload with
    | .error e => ⟨[], some e⟩
    | .ok path =>
      let stream := uploadStream provider path chunks MAX_DIRECT_UPLOAD_SIZE
      if stream.failure.isNone ∧ chunks.flatten.length ≠ upload.expectedSize then
        ⟨stream.effects ++ [.remove path], some (.http ⟨400, "Uploaded size mismatch: expected " ++
          upload.expectedSize.repr ++ " bytes, got " ++ chunks.flatten.length.repr ++ " bytes"⟩)⟩
      else stream

section

variable {Frame : Type} (lib : Libraries Frame)

def tooManyRows : Failure := .http ⟨400, "File exceeds maximum rows (1000000)"⟩

def duplicateKey : Failure := .uncaught "duplicate key value violates unique constraint"

/-- The checks of a stored file and its row. A second row of one identifier is refused by the
database. -/
def finalizeUpload (w : World) (id : FileId) (user filename storedPath : Text) (content : Bytes) :
    Handled :=
  match uploadMetadata lib filename storedPath content with
  | .error e => ⟨[], some e⟩
  | .ok metadata =>
    if MAX_ROWS_PER_FILE < metadata.rowCount then
      ⟨[.remove storedPath], some tooManyRows⟩
    else if (w.rows.get? id).isSome then ⟨[], some duplicateKey⟩
    else
      let row := uploadedFile id filename storedPath content user metadata
      ⟨[.addRow id row], match fileUploadResponse row with
        | .ok _ => none
        | .error e => some e⟩

def confirmDirectUpload (w : World) (id : FileId) (user : Text) : Handled :=
  match pendingOf w id user with
  | none => notPending
  | some upload => match validatedPendingStoredPath id upload with
    | .error e => ⟨[], some e⟩
    | .ok path => match w.objects.get? path with
      | none => refuse 404 "File not found in storage. Upload may have failed."
      | some content =>
        let finalized := finalizeUpload lib w id user upload.filename path content
        if finalized.failure.isNone then ⟨finalized.effects ++ [.clear id], none⟩ else finalized

/-- The writes of `storage_service.upload`. -/
def uploadWrites (provider : Provider) (path : Text) (chunks : List Bytes) : List Effect :=
  match provider with
  | .localStorage => growing path chunks
  | .s3Storage => [.write path chunks.flatten]

/-- What follows the writes of an upload: the object is removed, its row is added, or neither. -/
def afterWrites (w : World) (id : FileId) (user filename storedPath : Text) (content : Bytes) :
    Handled :=
  if content.length = 0 then ⟨[.remove storedPath], some (.http ⟨400, "Uploaded file is empty"⟩)⟩
  else if MAX_UPLOAD_SIZE < content.length then
    ⟨[.remove storedPath], some (.http ⟨413, "File size exceeds maximum (500 MB)"⟩)⟩
  else finalizeUpload lib w id user filename storedPath content

def uploadFile (provider : Provider) (w : World) (id : FileId) (user filename : Text)
    (chunks : List Bytes) : Handled :=
  if strip filename = [] then
    refuse 422 "No file provided or filename is empty. Please select a valid CSV or JSON file."
  else match validateFileExtension (basename filename) with
    | .error e => ⟨[], some e⟩
    | .ok () =>
      let storedPath := storedPathOf id (basename filename)
      let rest := afterWrites lib w id user (basename filename) storedPath chunks.flatten
      ⟨uploadWrites provider storedPath chunks ++ rest.effects, rest.failure⟩

def deleteFile (w : World) (id : FileId) (user : Text) : Handled :=
  match (w.rows.get? id).filter fun row => row.userId = user with
  | none => refuse 404 ("File '" ++ String.ofList id.text ++ "' not found")
  | some row => ⟨[.remove row.storedPath, .dropRow id], none⟩

def handle (provider : Provider) (w : World) : Request → Handled
  | .requestUploadUrl id user filename fileSize cached signed =>
    requestUploadUrl provider w id user filename fileSize cached signed
  | .directUpload id user chunks => directUploadFile provider w id user chunks
  | .confirm id user => confirmDirectUpload lib w id user
  | .uploadFile id user filename chunks => uploadFile lib provider w id user filename chunks
  | .deleteFile id user => deleteFile w id user

/-! ### Runs -/

/-- A request may fail behind any of its effects, which leaves the first ones. With a signed URL a
client writes to the storage on its own. -/
inductive Event where
  | request (r : Request) (completed : Nat)
  | presignedPut (path : Text) (content : Bytes)
  | elapse (seconds : Nat)

/-- The identifier that a request makes up. -/
def Request.newId : Request → Option FileId
  | .requestUploadUrl id .. | .uploadFile id .. => some id
  | _ => none

def World.issue (w : World) : Request → World
  | .requestUploadUrl id _ _ fileSize _ _ =>
    { w with issued := id :: w.issued, negotiated := w.negotiated.set id fileSize }
  | .uploadFile id .. => { w with issued := id :: w.issued }
  | _ => w

/-- A path that a URL is signed for, which has not run out. -/
def UrlLive (w : World) (path : Text) : Prop := ∃ url ∈ w.presigned, url.1 = path ∧ w.now < url.2

instance (w : World) (path : Text) : Decidable (UrlLive w path) :=
  inferInstanceAs (Decidable (∃ url ∈ w.presigned, url.1 = path ∧ w.now < url.2))

/-- No identifier is made up twice. -/
def step (provider : Provider) (w : World) : Event → Option World
  | .request r completed =>
    if ∃ id ∈ r.newId, id ∈ w.issued then none
    else some (perform (w.issue r) ((handle lib provider w r).effects.take completed))
  | .presignedPut path content =>
    if UrlLive w path then some { w with objects := w.objects.set path content } else none
  | .elapse seconds => some { w with now := w.now + seconds }

end

end PipelineIQ.Api.Uploads
