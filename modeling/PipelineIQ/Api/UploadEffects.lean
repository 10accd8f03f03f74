import PipelineIQ.Api.Uploads
import PipelineIQ.Lib.Machine

namespace PipelineIQ.Api.UploadEffects

open PipelineIQ.Lib PipelineIQ.Lib.Strings PipelineIQ.Lib.Codecs PipelineIQ.Lib.Machine
open PipelineIQ.Api.FileFormats PipelineIQ.Api.Uploads

/-! ### Paths -/

/-- The paths that a file of this identifier can have. -/
def PathOf (id : FileId) (path : Text) : Prop :=
  ∃ filename, extensionOf filename ∈ ALLOWED_EXTENSIONS ∧ path = storedPathOf id filename

theorem allowed_eq_cons {ext : Text} (h : ext ∈ ALLOWED_EXTENSIONS) :
    ∃ ending, ext = '.' :: ending ∧ '/' ∉ ext := by
  have hshape : ∀ ext ∈ ALLOWED_EXTENSIONS, ext = '.' :: ext.tail ∧ '/' ∉ ext := by decide
  exact ⟨ext.tail, hshape ext h⟩

/-- A path tells the identifier of its file. -/
theorem PathOf.inj {id id' : FileId} {path : Text} (h : PathOf id path) (h' : PathOf id' path) :
    id = id' := by
  obtain ⟨filename, hext, hpath⟩ := h
  obtain ⟨filename', hext', hpath'⟩ := h'
  obtain ⟨ending, hending, -⟩ := allowed_eq_cons hext
  obtain ⟨ending', hending', -⟩ := allowed_eq_cons hext'
  rw [hpath, storedPathOf, storedPathOf, hending, hending'] at hpath'
  have htext := (append_first_inj id.plain.1 id'.plain.1 hpath').1
  cases id
  cases id'
  cases htext
  rfl

theorem basename_basename (path : Text) : basename (basename path) = basename path :=
  List.rtakeWhile_idempotent _ _

theorem basename_storedPathOf {id : FileId} {filename : Text}
    (h : extensionOf filename ∈ ALLOWED_EXTENSIONS) :
    basename (storedPathOf id filename) = storedPathOf id filename := by
  obtain ⟨-, -, hslash⟩ := allowed_eq_cons h
  refine List.rtakeWhile_eq_self_iff.mpr ?_
  intro c hc
  rcases List.mem_append.mp hc with hc | hc
  · exact ne_of_notMem id.plain.2 hc
  · exact ne_of_notMem hslash hc

/-! ### What every world satisfies -/

/-- The record of an upload is the one that was made when its size was negotiated. -/
structure PendingOk (negotiated : Dict FileId Nat) (id : FileId) (upload : PendingUpload) :
    Prop where
  allowed : extensionOf upload.filename ∈ ALLOWED_EXTENSIONS
  base : basename upload.filename = upload.filename
  path : upload.storedPath = storedPathOf id upload.filename
  large : LARGE_FILE_THRESHOLD < upload.expectedSize
  small : upload.expectedSize ≤ MAX_UPLOAD_SIZE
  negotiated : negotiated.get? id = some upload.expectedSize

structure Wellformed (w : World) : Prop where
  objects {path : Text} {content : Bytes} (h : w.objects.get? path = some content) :
    ∃ id ∈ w.issued, PathOf id path
  pending {id : FileId} {upload : PendingUpload} (h : w.pending.get? id = some upload) :
    id ∈ w.issued ∧ PendingOk w.negotiated id upload
  presigned {url : Text × Nat} (h : url ∈ w.presigned) : ∃ id ∈ w.issued, PathOf id url.1
  rows {id : FileId} {row : UploadedFile} (h : w.rows.get? id = some row) :
    id ∈ w.issued ∧ PathOf id row.storedPath
  negotiated {id : FileId} {size : Nat} (h : w.negotiated.get? id = some size) : id ∈ w.issued

theorem wellformed_empty : Wellformed World.empty where
  objects h := by cases h
  pending h := by cases h
  presigned h := by cases h
  rows h := by cases h
  negotiated h := by cases h

theorem PendingOk.pathOf {negotiated : Dict FileId Nat} {id : FileId} {upload : PendingUpload}
    (h : PendingOk negotiated id upload) : PathOf id upload.storedPath :=
  ⟨upload.filename, h.allowed, h.path⟩

theorem PendingOk.validated {negotiated : Dict FileId Nat} {id : FileId} {upload : PendingUpload}
    (h : PendingOk negotiated id upload) :
    validatedPendingStoredPath id upload = .ok upload.storedPath := by
  unfold validatedPendingStoredPath validateFileExtension
  dsimp only
  rw [h.base, if_pos h.allowed, h.path, basename_storedPathOf h.allowed]
  exact if_pos rfl

/-- The effects that keep a world in order. -/
def Legit (w : World) : Effect → Prop
  | .cache id upload => id ∈ w.issued ∧ PendingOk w.negotiated id upload
  | .sign path _ | .write path _ => ∃ id ∈ w.issued, PathOf id path
  | .addRow id row => id ∈ w.issued ∧ PathOf id row.storedPath
  | .remove _ | .dropRow _ | .clear _ => True

section

variable {w : World} {e : Effect} {effects : List Effect}

theorem legit_apply {e' : Effect} : Legit (e.apply w) e' ↔ Legit w e' := by
  cases e <;> exact Iff.rfl

theorem Wellformed.apply (hw : Wellformed w) (h : Legit w e) : Wellformed (e.apply w) := by
  cases e with
  | cache id upload =>
    refine ⟨hw.objects, ?_, hw.presigned, hw.rows, hw.negotiated⟩
    intro id' upload' h'
    change (w.pending.set id upload).get? id' = some upload' at h'
    rw [Dict.get?_set] at h'
    split at h'
    next heq =>
      cases h'
      exact heq ▸ h
    next => exact hw.pending h'
  | sign path deadline =>
    refine ⟨hw.objects, hw.pending, ?_, hw.rows, hw.negotiated⟩
    intro url hurl
    rcases List.mem_cons.mp hurl with rfl | hurl
    · exact h
    · exact hw.presigned hurl
  | write path content =>
    refine ⟨?_, hw.pending, hw.presigned, hw.rows, hw.negotiated⟩
    intro path' content' h'
    change (w.objects.set path content).get? path' = some content' at h'
    rw [Dict.get?_set] at h'
    split at h'
    next heq => exact heq ▸ h
    next => exact hw.objects h'
  | remove path =>
    refine ⟨?_, hw.pending, hw.presigned, hw.rows, hw.negotiated⟩
    intro path' content' h'
    change (w.objects.erase path).get? path' = some content' at h'
    rw [Dict.get?_erase] at h'
    split at h'
    next => cases h'
    next => exact hw.objects h'
  | addRow id row =>
    refine ⟨hw.objects, hw.pending, hw.presigned, ?_, hw.negotiated⟩
    intro id' row' h'
    change (w.rows.set id row).get? id' = some row' at h'
    rw [Dict.get?_set] at h'
    split at h'
    next heq =>
      cases h'
      exact heq ▸ h
    next => exact hw.rows h'
  | dropRow id =>
    refine ⟨hw.objects, hw.pending, hw.presigned, ?_, hw.negotiated⟩
    intro id' row' h'
    change (w.rows.erase id).get? id' = some row' at h'
    rw [Dict.get?_erase] at h'
    split at h'
    next => cases h'
    next => exact hw.rows h'
  | clear id =>
    refine ⟨hw.objects, ?_, hw.presigned, hw.rows, hw.negotiated⟩
    intro id' upload' h'
    change (w.pending.erase id).get? id' = some upload' at h'
    rw [Dict.get?_erase] at h'
    split at h'
    next => cases h'
    next => exact hw.pending h'

theorem Wellformed.perform (hw : Wellformed w) (h : ∀ e ∈ effects, Legit w e) :
    Wellformed (perform w effects) := by
  induction effects generalizing w with
  | nil => exact hw
  | cons e effects ih =>
    refine ih (hw.apply (h e List.mem_cons_self)) ?_
    intro e' he'
    exact legit_apply.mpr (h e' (List.mem_cons_of_mem _ he'))

end

/-! ### What each request does -/

section Requests

variable {Frame : Type} {lib : Libraries Frame} {provider : Provider} {w : World} {id : FileId}
  {user filename path : Text} {chunks : List Bytes} {content : Bytes} {upload : PendingUpload}

theorem getPendingUpload_eq_some : getPendingUpload w id = some upload ↔
    w.pending.get? id = some upload ∧ w.now < upload.deadline := by
  rw [getPendingUpload, Option.filter_eq_some_iff, decide_eq_true_eq]

theorem pendingOf_eq_some : pendingOf w id user = some upload ↔
    getPendingUpload w id = some upload ∧ upload.userId = user := by
  rw [pendingOf, Option.filter_eq_some_iff, decide_eq_true_eq]

theorem Wellformed.pendingOk (hw : Wellformed w) (h : getPendingUpload w id = some upload) :
    id ∈ w.issued ∧ PendingOk w.negotiated id upload :=
  hw.pending (getPendingUpload_eq_some.mp h).1

/-- An effect on one object of the storage. -/
def StoresAt (path : Text) (e : Effect) : Prop := e = .remove path ∨ ∃ content, e = .write path content

theorem StoresAt.inj {path' : Text} {e : Effect} (h : StoresAt path e) (h' : StoresAt path' e) :
    path = path' := by
  rcases h with rfl | ⟨content, rfl⟩ <;> rcases h' with h' | ⟨content', h'⟩ <;> cases h' <;> rfl

theorem storesAt_growing {maxSize : Nat} {e : Effect} (he : e ∈ growingUpTo maxSize path chunks) :
    StoresAt path e := by
  obtain ⟨n, -, rfl⟩ := List.mem_map.mp he
  exact .inr ⟨_, rfl⟩

theorem storesAt_uploadStream {maxSize : Nat} {e : Effect}
    (he : e ∈ (uploadStream provider path chunks maxSize).effects) : StoresAt path e := by
  unfold uploadStream at he
  dsimp only at he
  split at he
  · rcases List.mem_append.mp he with he | he
    · exact storesAt_growing he
    · exact .inl (List.mem_singleton.mp he)
  · exact storesAt_growing he
  · cases he
  · exact .inr ⟨_, List.mem_singleton.mp he⟩

/-- A direct upload only touches the object of a pending upload. -/
theorem storesAt_directUploadFile (hw : Wellformed w) {e : Effect}
    (he : e ∈ (directUploadFile provider w id user chunks).effects) :
    ∃ upload, getPendingUpload w id = some upload ∧ StoresAt upload.storedPath e := by
  unfold directUploadFile at he
  split at he
  next => cases he
  next upload hupload =>
    have hpending := (pendingOf_eq_some.mp hupload).1
    refine ⟨upload, hpending, ?_⟩
    rw [(hw.pendingOk hpending).2.validated] at he
    dsimp only at he
    split at he
    · rcases List.mem_append.mp he with he | he
      · exact storesAt_uploadStream he
      · exact .inl (List.mem_singleton.mp he)
    · exact storesAt_uploadStream he

/-- A file is checked before its row is added, and only the first row of an identifier is. -/
structure Admitted (lib : Libraries Frame) (w : World) (id : FileId) (filename path : Text)
    (content : Bytes) (metadata : Metadata) : Prop where
  read : uploadMetadata lib filename path content = .ok metadata
  rows : metadata.rowCount ≤ MAX_ROWS_PER_FILE
  first : w.rows.get? id = none

theorem finalizeUpload_of_admitted {metadata : Metadata}
    (h : Admitted lib w id filename path content metadata) :
    finalizeUpload lib w id user filename path content =
      ⟨[.addRow id (uploadedFile id filename path content user metadata)],
        match fileUploadResponse (uploadedFile id filename path content user metadata) with
        | .ok _ => none
        | .error e => some e⟩ := by
  unfold finalizeUpload
  rw [h.read]
  dsimp only
  rw [if_neg (Nat.not_lt.mpr h.rows), h.first]
  exact if_neg Bool.false_ne_true

theorem finalizeUpload_cases (lib : Libraries Frame) (w : World) (id : FileId)
    (user filename path : Text) (content : Bytes) :
    (∃ metadata, Admitted lib w id filename path content metadata) ∨
      ∃ e, (finalizeUpload lib w id user filename path content).failure = some e ∧
        ((finalizeUpload lib w id user filename path content).effects = [] ∨
          (finalizeUpload lib w id user filename path content).effects = [.remove path]) := by
  cases hmetadata : uploadMetadata lib filename path content with
  | error e =>
    refine .inr ⟨e, ?_⟩
    unfold finalizeUpload
    rw [hmetadata]
    exact ⟨rfl, .inl rfl⟩
  | ok metadata =>
    by_cases hrows : metadata.rowCount ≤ MAX_ROWS_PER_FILE
    · cases hfirst : w.rows.get? id with
      | none => exact .inl ⟨metadata, hmetadata, hrows, hfirst⟩
      | some row =>
        refine .inr ⟨duplicateKey, ?_⟩
        unfold finalizeUpload
        rw [hmetadata]
        dsimp only
        rw [if_neg (Nat.not_lt.mpr hrows), hfirst]
        exact ⟨rfl, .inl rfl⟩
    · refine .inr ⟨tooManyRows, ?_⟩
      unfold finalizeUpload
      rw [hmetadata]
      dsimp only
      rw [if_pos (Nat.lt_of_not_le hrows)]
      exact ⟨rfl, .inr rfl⟩

/-- The row of a confirmation comes before its pending record is cleared, which it is only where the
response can be built. -/
theorem confirm_of_admitted (hw : Wellformed w) {metadata : Metadata}
    (hpending : pendingOf w id user = some upload)
    (hcontent : w.objects.get? upload.storedPath = some content)
    (h : Admitted lib w id upload.filename upload.storedPath content metadata) :
    (confirmDirectUpload lib w id user).effects =
      .addRow id (uploadedFile id upload.filename upload.storedPath content user metadata) ::
        if (fileUploadResponse (uploadedFile id upload.filename upload.storedPath content user
          metadata)).isOk then [.clear id] else [] := by
  unfold confirmDirectUpload
  rw [hpending]
  dsimp only
  rw [(hw.pendingOk (pendingOf_eq_some.mp hpending).1).2.validated]
  dsimp only
  rw [hcontent]
  dsimp only
  rw [finalizeUpload_of_admitted h]
  cases fileUploadResponse (uploadedFile id upload.filename upload.storedPath content user
    metadata) <;> rfl

theorem confirm_cases (lib : Libraries Frame) (hw : Wellformed w) (id : FileId) (user : Text) :
    (confirmDirectUpload lib w id user).effects = [] ∨
      ∃ upload, pendingOf w id user = some upload ∧
        ((confirmDirectUpload lib w id user).effects = [.remove upload.storedPath] ∨
          ∃ content metadata, w.objects.get? upload.storedPath = some content ∧
            Admitted lib w id upload.filename upload.storedPath content metadata) := by
  cases hpending : pendingOf w id user with
  | none =>
    left
    unfold confirmDirectUpload
    rw [hpending]
    rfl
  | some upload =>
    have hpath := (hw.pendingOk (pendingOf_eq_some.mp hpending).1).2.validated
    cases hcontent : w.objects.get? upload.storedPath with
    | none =>
      left
      unfold confirmDirectUpload
      rw [hpending]
      dsimp only
      rw [hpath]
      dsimp only
      rw [hcontent]
      rfl
    | some content =>
      rcases finalizeUpload_cases lib w id user upload.filename upload.storedPath content with
        ⟨metadata, hadmitted⟩ | ⟨e, hfailure, heffects⟩
      · exact .inr ⟨upload, rfl, .inr ⟨content, metadata, hcontent, hadmitted⟩⟩
      · have heq : (confirmDirectUpload lib w id user).effects =
            (finalizeUpload lib w id user upload.filename upload.storedPath content).effects := by
          unfold confirmDirectUpload
          rw [hpending]
          dsimp only
          rw [hpath]
          dsimp only
          rw [hcontent]
          dsimp only
          rw [hfailure]
          rfl
        rw [heq]
        rcases heffects with heffects | heffects
        · exact .inl heffects
        · exact .inr ⟨upload, rfl, .inl heffects⟩

/-- A request that makes up an identifier names its file so. -/
theorem requestUploadUrl_effects {fileSize : Nat} {cached signed : Bool} {e : Effect}
    (he : e ∈ (requestUploadUrl provider w id user filename fileSize cached signed).effects) :
    extensionOf (basename filename) ∈ ALLOWED_EXTENSIONS ∧ LARGE_FILE_THRESHOLD < fileSize ∧
      fileSize ≤ MAX_UPLOAD_SIZE ∧
      (e = .cache id ⟨basename filename, fileSize, storedPathOf id (basename filename), user,
          w.now + DIRECT_UPLOAD_TTL_SECONDS⟩ ∨
        e = .sign (storedPathOf id (basename filename)) (w.now + DIRECT_UPLOAD_TTL_SECONDS)) := by
  unfold requestUploadUrl validateFileExtension at he
  dsimp only at he
  split at he
  · cases he
  split at he
  · cases he
  next hvalid =>
    split at hvalid
    next hext =>
      split at he
      · cases he
      next hsmall =>
        split at he
        next hlarge =>
          refine ⟨hext, hlarge, Nat.le_of_not_lt hsmall, ?_⟩
          rcases List.mem_append.mp he with he | he
          · split at he
            · exact .inl (List.mem_singleton.mp he)
            · cases he
          · split at he
            · exact .inr (List.mem_singleton.mp he)
            · cases he
        next => cases he
    next => cases hvalid

theorem uploadFile_of_letIn (hname : strip filename ≠ [])
    (hext : extensionOf (basename filename) ∈ ALLOWED_EXTENSIONS) :
    (uploadFile lib provider w id user filename chunks).effects =
      uploadWrites provider (storedPathOf id (basename filename)) chunks ++
        (afterWrites lib w id user (basename filename) (storedPathOf id (basename filename))
          chunks.flatten).effects := by
  unfold uploadFile validateFileExtension
  rw [if_neg hname, if_pos hext]

theorem uploadFile_of_not_letIn (h : ¬(strip filename ≠ [] ∧
    extensionOf (basename filename) ∈ ALLOWED_EXTENSIONS)) :
    (uploadFile lib provider w id user filename chunks).effects = [] := by
  unfold uploadFile validateFileExtension
  by_cases hname : strip filename = []
  · rw [if_pos hname]
    rfl
  · rw [if_neg hname, if_neg fun hext => h ⟨hname, hext⟩]

/-- The writes of an upload end with its whole content. -/
theorem uploadWrites_eq (provider : Provider) (path : Text) (chunks : List Bytes) :
    ∃ front, uploadWrites provider path chunks = front ++ [.write path chunks.flatten] ∧
      ∀ e ∈ front, ∃ content, e = .write path content := by
  cases provider with
  | localStorage =>
    refine ⟨(List.range chunks.length).map fun n => .write path (chunks.take n).flatten, ?_, ?_⟩
    · rw [uploadWrites, growing, List.range_succ, List.map_append, List.map_singleton,
        List.take_length]
    · intro e he
      obtain ⟨n, -, rfl⟩ := List.mem_map.mp he
      exact ⟨_, rfl⟩
  | s3Storage => exact ⟨[], rfl, nofun⟩

theorem afterWrites_cases (lib : Libraries Frame) (w : World) (id : FileId)
    (user filename path : Text) (content : Bytes) :
    (afterWrites lib w id user filename path content).effects = [] ∨
      (afterWrites lib w id user filename path content).effects = [.remove path] ∨
      content.length ≤ MAX_UPLOAD_SIZE ∧ ∃ metadata,
        (afterWrites lib w id user filename path content).effects =
          [.addRow id (uploadedFile id filename path content user metadata)] := by
  unfold afterWrites
  split
  · exact .inr (.inl rfl)
  split
  · exact .inr (.inl rfl)
  next hsmall =>
    rcases finalizeUpload_cases lib w id user filename path content with
      ⟨metadata, hadmitted⟩ | ⟨e, -, heffects | heffects⟩
    · rw [finalizeUpload_of_admitted hadmitted]
      exact .inr (.inr ⟨Nat.le_of_not_lt hsmall, metadata, rfl⟩)
    · exact .inl heffects
    · exact .inr (.inl heffects)

theorem length_afterWrites (lib : Libraries Frame) (w : World) (id : FileId)
    (user filename path : Text) (content : Bytes) :
    (afterWrites lib w id user filename path content).effects.length ≤ 1 := by
  rcases afterWrites_cases lib w id user filename path content with h | h | ⟨-, _, h⟩ <;>
    rw [h] <;> simp

theorem deleteFile_effects (w : World) (id : FileId) (user : Text) :
    ((¬∃ row, w.rows.get? id = some row ∧ row.userId = user) ∧
      (deleteFile w id user).effects = []) ∨ ∃ row, w.rows.get? id = some row ∧ row.userId = user ∧
      (deleteFile w id user).effects = [.remove row.storedPath, .dropRow id] := by
  unfold deleteFile
  cases hrow : (w.rows.get? id).filter fun row => row.userId = user with
  | none =>
    refine .inl ⟨?_, rfl⟩
    rintro ⟨row, hget, huser⟩
    rw [hget, Option.filter_some, if_pos (decide_eq_true huser)] at hrow
    cases hrow
  | some row =>
    obtain ⟨hget, huser⟩ := Option.filter_eq_some_iff.mp hrow
    exact .inr ⟨row, hget, of_decide_eq_true huser, rfl⟩

end Requests

/-! ### Every run is in order -/

section Runs

variable {Frame : Type} {lib : Libraries Frame} {provider : Provider} {w t : World}

theorem Wellformed.issueId (hw : Wellformed w) {id : FileId} {negotiated : Dict FileId Nat}
    (hsame : ∀ id' ∈ w.issued, negotiated.get? id' = w.negotiated.get? id')
    (hnew : ∀ id' size, negotiated.get? id' = some size → id' = id ∨ id' ∈ w.issued) :
    Wellformed { w with issued := id :: w.issued, negotiated := negotiated } where
  objects h := by
    obtain ⟨id', hissued, hpath⟩ := hw.objects h
    exact ⟨id', List.mem_cons_of_mem _ hissued, hpath⟩
  pending {id' upload} h := by
    obtain ⟨hissued, hok⟩ := hw.pending h
    exact ⟨List.mem_cons_of_mem _ hissued,
      { hok with negotiated := (hsame id' hissued).trans hok.negotiated }⟩
  presigned h := by
    obtain ⟨id', hissued, hpath⟩ := hw.presigned h
    exact ⟨id', List.mem_cons_of_mem _ hissued, hpath⟩
  rows h := ⟨List.mem_cons_of_mem _ (hw.rows h).1, (hw.rows h).2⟩
  negotiated {id' size} h := by
    rcases hnew id' size h with rfl | hissued
    · exact List.mem_cons_self
    · exact List.mem_cons_of_mem _ hissued

theorem Wellformed.issue (hw : Wellformed w) {r : Request} (hfresh : ∀ id ∈ r.newId, id ∉ w.issued) :
    Wellformed (w.issue r) := by
  cases r with
  | requestUploadUrl id user filename fileSize cached signed =>
    refine hw.issueId ?_ ?_
    · intro id' hissued
      have hne : id' ≠ id := fun heq => hfresh id rfl (heq ▸ hissued)
      rw [Dict.get?_set, if_neg hne]
    · intro id' size hget
      rw [Dict.get?_set] at hget
      split at hget
      next heq => exact .inl heq
      next => exact .inr (hw.negotiated hget)
  | uploadFile id user filename chunks =>
    exact hw.issueId (fun _ _ => rfl) fun _ _ hget => .inr (hw.negotiated hget)
  | directUpload => exact hw
  | confirm => exact hw
  | deleteFile => exact hw

theorem legit_addRow {id : FileId} {user filename path : Text} {content : Bytes}
    {metadata : Metadata} (hissued : id ∈ w.issued) (hpath : PathOf id path) :
    Legit w (.addRow id (uploadedFile id filename path content user metadata)) :=
  ⟨hissued, hpath⟩

theorem legit_handle (hw : Wellformed w) {r : Request} {e : Effect}
    (he : e ∈ (handle lib provider w r).effects) : Legit (w.issue r) e := by
  cases r with
  | requestUploadUrl id user filename fileSize cached signed =>
    obtain ⟨hext, hlarge, hsmall, rfl | rfl⟩ := requestUploadUrl_effects he
    · exact ⟨List.mem_cons_self, hext, basename_basename filename, rfl, hlarge, hsmall,
        by simp [World.issue]⟩
    · exact ⟨id, List.mem_cons_self, basename filename, hext, rfl⟩
  | directUpload id user chunks =>
    obtain ⟨upload, hupload, rfl | ⟨content, rfl⟩⟩ := storesAt_directUploadFile hw he
    · trivial
    · exact ⟨id, (hw.pendingOk hupload).1, (hw.pendingOk hupload).2.pathOf⟩
  | confirm id user =>
    change e ∈ (confirmDirectUpload lib w id user).effects at he
    rcases confirm_cases lib hw id user with heq | ⟨upload, hupload, heq | hadmitted⟩
    · rw [heq] at he
      cases he
    · rw [heq, List.mem_singleton] at he
      exact he ▸ trivial
    · obtain ⟨content, metadata, hcontent, hadmitted⟩ := hadmitted
      obtain ⟨hissued, hok⟩ := hw.pendingOk (pendingOf_eq_some.mp hupload).1
      rw [confirm_of_admitted hw hupload hcontent hadmitted] at he
      rcases List.mem_cons.mp he with rfl | he
      · exact legit_addRow hissued hok.pathOf
      · split at he
        · rw [List.mem_singleton.mp he]
          trivial
        · cases he
  | uploadFile id user filename chunks =>
    change e ∈ (uploadFile lib provider w id user filename chunks).effects at he
    by_cases hletIn : strip filename ≠ [] ∧
      extensionOf (basename filename) ∈ ALLOWED_EXTENSIONS
    · obtain ⟨hname, hext⟩ := hletIn
      have hissued : id ∈ (w.issue (.uploadFile id user filename chunks)).issued :=
        List.mem_cons_self
      have hpath : PathOf id (storedPathOf id (basename filename)) := ⟨_, hext, rfl⟩
      rw [uploadFile_of_letIn hname hext] at he
      rcases List.mem_append.mp he with he | he
      · obtain ⟨front, hwrites, hfront⟩ :=
          uploadWrites_eq provider (storedPathOf id (basename filename)) chunks
        rw [hwrites] at he
        rcases List.mem_append.mp he with he | he
        · obtain ⟨content, rfl⟩ := hfront e he
          exact ⟨id, hissued, hpath⟩
        · rw [List.mem_singleton.mp he]
          exact ⟨id, hissued, hpath⟩
      · rcases afterWrites_cases lib w id user (basename filename)
          (storedPathOf id (basename filename)) chunks.flatten with hrest | hrest | ⟨-, _, hrest⟩
        · rw [hrest] at he
          cases he
        · rw [hrest, List.mem_singleton] at he
          exact he ▸ trivial
        · rw [hrest, List.mem_singleton] at he
          exact he ▸ legit_addRow hissued hpath
    · rw [uploadFile_of_not_letIn hletIn] at he
      cases he
  | deleteFile id user =>
    change e ∈ (deleteFile w id user).effects at he
    rcases deleteFile_effects w id user with ⟨-, heq⟩ | ⟨row, -, -, heq⟩
    · rw [heq] at he
      cases he
    · rw [heq] at he
      rcases List.mem_cons.mp he with rfl | he
      · trivial
      · rw [List.mem_singleton.mp he]
        trivial

theorem step_request {r : Request} {completed : Nat}
    (h : step lib provider w (.request r completed) = some t) :
    (∀ id ∈ r.newId, id ∉ w.issued) ∧
      t = perform (w.issue r) ((handle lib provider w r).effects.take completed) := by
  rw [step] at h
  split at h
  · cases h
  next hfresh =>
    cases h
    exact ⟨fun id hid hissued => hfresh ⟨id, hid, hissued⟩, rfl⟩

/-- Every step keeps a world in order. -/
theorem Wellformed.step {e : Event} (hw : Wellformed w) (h : Uploads.step lib provider w e = some t) :
    Wellformed t := by
  cases e with
  | request r completed =>
    obtain ⟨hfresh, rfl⟩ := step_request h
    refine (hw.issue hfresh).perform ?_
    intro e he
    exact legit_handle hw (List.mem_of_mem_take he)
  | presignedPut path content =>
    rw [Uploads.step] at h
    split at h
    next hlive =>
      cases h
      obtain ⟨url, hurl, rfl, -⟩ := hlive
      exact hw.apply (e := .write url.1 content) (hw.presigned hurl)
    next => cases h
  | elapse seconds =>
    cases h
    exact ⟨hw.objects, hw.pending, hw.presigned, hw.rows, hw.negotiated⟩

end Runs

end PipelineIQ.Api.UploadEffects
