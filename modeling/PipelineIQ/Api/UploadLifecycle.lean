import PipelineIQ.Api.UploadAgreement
import PipelineIQ.Api.UploadEffects

namespace PipelineIQ.Api.UploadLifecycle

open PipelineIQ.Lib PipelineIQ.Lib.Strings PipelineIQ.Lib.Codecs PipelineIQ.Lib.Machine
open PipelineIQ.Api.FileFormats PipelineIQ.Api.Uploads PipelineIQ.Api.UploadEffects

/-! ### The lifecycle of an upload -/

/-- The requests that write to a path that a client knows. -/
def IsPut : Event → Prop
  | .presignedPut _ _ => True
  | .request (.directUpload _ _ _) _ => True
  | _ => False

/-- A row has its object, of the size that it says, within the limits. -/
def RowOk (w : World) (id : FileId) (row : UploadedFile) : Prop :=
  ∃ content, w.objects.get? row.storedPath = some content ∧ row.fileSizeBytes = content.length ∧
    content.length ≤ MAX_UPLOAD_SIZE ∧
    ∀ size, w.negotiated.get? id = some size → content.length ≤ size

def PendingAt (w : World) (path : Text) : Prop :=
  ∃ id upload, getPendingUpload w id = some upload ∧ upload.storedPath = path

def Owned (w : World) (path : Text) : Prop :=
  (∃ id row, w.rows.get? id = some row ∧ row.storedPath = path) ∨ PendingAt w path

/-- What is to hold at any time: the rows are right, no request overwrites the object of a row, and
every object belongs to a row or to a pending upload. -/
structure Sound {Frame : Type} (lib : Libraries Frame) (provider : Provider) (w : World) :
    Prop where
  rows {id : FileId} {row : UploadedFile} (h : w.rows.get? id = some row) : RowOk w id row
  sealed {id : FileId} {row : UploadedFile} (h : w.rows.get? id = some row) {e : Event} {t : World}
    (hput : IsPut e) (ht : step lib provider w e = some t) :
    t.objects.get? row.storedPath = w.objects.get? row.storedPath
  owned {path : Text} {content : Bytes} (h : w.objects.get? path = some content) : Owned w path

/-- A path that a client can write to. -/
def Writable (w : World) (path : Text) : Prop := UrlLive w path ∨ PendingAt w path

/-- The same in terms of the state alone. -/
structure Shape (w : World) : Prop where
  rows {id : FileId} {row : UploadedFile} (h : w.rows.get? id = some row) : RowOk w id row
  closed {id : FileId} {row : UploadedFile} (h : w.rows.get? id = some row) :
    ¬Writable w row.storedPath
  owned {path : Text} {content : Bytes} (h : w.objects.get? path = some content) : Owned w path

section Sound

variable {Frame : Type} {lib : Libraries Frame} {provider : Provider} {w t : World} {path : Text}
  {effects : List Effect}

/-- Effects on the storage change the objects that they are about, and nothing else. -/
theorem perform_storesAt (w : World) (h : ∀ e ∈ effects, ∃ path, StoresAt path e) :
    ∃ objects, perform w effects = { w with objects := objects } ∧
      ∀ path, (∀ e ∈ effects, ¬StoresAt path e) → objects.get? path = w.objects.get? path := by
  induction effects generalizing w with
  | nil => exact ⟨w.objects, rfl, fun _ _ => rfl⟩
  | cons e effects ih =>
    obtain ⟨objects, hperform, hframe⟩ :=
      ih (e.apply w) fun e' he' => h e' (List.mem_cons_of_mem _ he')
    obtain ⟨path, he⟩ := h e List.mem_cons_self
    refine ⟨objects, ?_, ?_⟩
    · rcases he with rfl | ⟨content, rfl⟩ <;> exact hperform
    · intro other hother
      have hne : path ≠ other := fun heq => hother e List.mem_cons_self (heq ▸ he)
      rw [hframe other fun e' he' => hother e' (List.mem_cons_of_mem _ he')]
      rcases he with rfl | ⟨content, rfl⟩
      · exact (Dict.get?_erase ..).trans (if_neg hne.symm)
      · exact (Dict.get?_set ..).trans (if_neg hne.symm)

theorem perform_concat (w : World) (effects : List Effect) (e : Effect) :
    perform w (effects ++ [e]) = e.apply (perform w effects) := by
  rw [perform, perform, List.foldl_append]
  rfl

theorem get?_perform_remove :
    (perform w (effects ++ [.remove path])).objects.get? path = none := by
  rw [perform_concat]
  exact (Dict.get?_erase ..).trans (if_pos rfl)

theorem get?_perform_write {content : Bytes} :
    (perform w (effects ++ [.write path content])).objects.get? path = some content := by
  rw [perform_concat]
  exact (Dict.get?_set ..).trans (if_pos rfl)

/-- One byte is never what was negotiated, so the upload of it ends with no object. -/
theorem directUpload_byte (hw : Wellformed w) {id : FileId} {upload : PendingUpload}
    (h : getPendingUpload w id = some upload) :
    ∃ front, (directUploadFile provider w id upload.userId [[0]]).effects =
      front ++ [.remove upload.storedPath] := by
  have hok := (hw.pendingOk h).2
  have hsize : ([[0]] : List Bytes).flatten.length ≠ upload.expectedSize := by
    have hlarge := hok.large
    intro heq
    rw [← heq] at hlarge
    exact absurd hlarge (by decide)
  refine ⟨(uploadStream provider upload.storedPath [[0]] MAX_DIRECT_UPLOAD_SIZE).effects, ?_⟩
  unfold directUploadFile
  rw [pendingOf_eq_some.mpr ⟨h, rfl⟩]
  dsimp only
  rw [hok.validated]
  dsimp only
  rw [if_pos]
  exact ⟨by cases provider <;> rfl, hsize⟩

theorem not_writable_of_sealed (hw : Wellformed w) (hs : Sound lib provider w) {id : FileId}
    {row : UploadedFile} (h : w.rows.get? id = some row) : ¬Writable w row.storedPath := by
  obtain ⟨content, hcontent, -⟩ := hs.rows h
  rintro (hlive | ⟨id', upload, hupload, hpath⟩)
  · have hstep : step lib provider w (.presignedPut row.storedPath (0 :: content)) =
        some { w with objects := w.objects.set row.storedPath (0 :: content) } := if_pos hlive
    have hsame := hs.sealed h (e := .presignedPut row.storedPath (0 :: content)) trivial hstep
    rw [hcontent] at hsame
    change (w.objects.set row.storedPath (0 :: content)).get? row.storedPath = some content at hsame
    rw [Dict.get?_set, if_pos rfl] at hsame
    exact List.cons_ne_self 0 content (Option.some.inj hsame)
  · obtain ⟨front, hfront⟩ : ∃ front,
        (directUploadFile provider w id' upload.userId [[0]]).effects =
          front ++ [.remove upload.storedPath] := directUpload_byte hw hupload
    have hsame := hs.sealed h (e := .request (.directUpload id' upload.userId [[0]])
      (front.length + 1)) trivial rfl
    change (perform w ((directUploadFile provider w id' upload.userId [[0]]).effects.take
      (front.length + 1))).objects.get? row.storedPath = w.objects.get? row.storedPath at hsame
    rw [hfront, List.take_of_length_le (by simp), ← hpath, get?_perform_remove, hpath,
      hcontent] at hsame
    cases hsame

theorem sealed_of_not_writable (hw : Wellformed w) (hclosed : ¬Writable w path) {e : Event}
    (hput : IsPut e) (ht : step lib provider w e = some t) :
    t.objects.get? path = w.objects.get? path := by
  cases e with
  | presignedPut path' content =>
    rw [step] at ht
    split at ht
    next hlive =>
      cases ht
      refine (Dict.get?_set ..).trans (if_neg ?_)
      rintro rfl
      exact hclosed (.inl hlive)
    next => cases ht
  | request r completed =>
    cases r with
    | directUpload id user chunks =>
      obtain ⟨-, rfl⟩ := step_request ht
      have hstores : ∀ e ∈ ((handle lib provider w (.directUpload id user chunks)).effects.take
          completed), ∃ upload, getPendingUpload w id = some upload ∧
            StoresAt upload.storedPath e :=
        fun e he => storesAt_directUploadFile hw (List.mem_of_mem_take he)
      obtain ⟨objects, hperform, hframe⟩ := perform_storesAt w fun e he =>
        (hstores e he).elim fun upload h => Exists.intro upload.storedPath h.2
      change (perform w _).objects.get? path = _
      rw [hperform]
      refine hframe path ?_
      intro e he hstore
      obtain ⟨upload, hupload, hstore'⟩ := hstores e he
      exact hclosed (.inr ⟨id, upload, hupload, hstore'.inj hstore⟩)
    | _ => cases hput
  | elapse => cases hput

theorem sound_iff_shape (hw : Wellformed w) : Sound lib provider w ↔ Shape w := by
  constructor
  · intro hs
    exact ⟨hs.rows, not_writable_of_sealed hw hs, hs.owned⟩
  · intro hs
    exact ⟨hs.rows, fun h _ _ hput ht => sealed_of_not_writable hw (hs.closed h) hput ht, hs.owned⟩

end Sound

/-! ### Steps that keep it -/

/-- What a request must meet. A confirmation that gets as far as its row finds an object within the
negotiated size, can build its response, is not cut short before the pending record is cleared, and
leaves no signed URL. An upload that writes gets past its writes, and its content is not refused
then. A deletion is not cut short between the object and the row. A signed URL is used while its
upload is pending, and no upload runs out whose object is there. -/
def Harmless {Frame : Type} (lib : Libraries Frame) (provider : Provider) (w : World) :
    Event → Prop
  | .request (.confirm id user) completed => ∀ upload content metadata,
    pendingOf w id user = some upload → w.objects.get? upload.storedPath = some content →
      Admitted lib w id upload.filename upload.storedPath content metadata → 0 < completed →
        content.length ≤ upload.expectedSize ∧ 1 < completed ∧
          (fileUploadResponse (uploadedFile id upload.filename upload.storedPath content user
            metadata)).isOk ∧ ¬UrlLive w upload.storedPath
  | .request (.uploadFile id _ filename chunks) completed =>
    id ∉ w.issued → strip filename ≠ [] → extensionOf (basename filename) ∈ ALLOWED_EXTENSIONS →
      0 < completed →
        (uploadWrites provider (storedPathOf id (basename filename)) chunks).length < completed ∧
          (chunks.flatten.length = 0 ∨ MAX_UPLOAD_SIZE < chunks.flatten.length ∨
            (uploadMetadata lib (basename filename) (storedPathOf id (basename filename))
              chunks.flatten).isOk)
  | .request (.deleteFile id user) completed =>
    (∃ row, w.rows.get? id = some row ∧ row.userId = user) → completed ≠ 1
  | .request (.requestUploadUrl _ _ _ _ _ _) _ | .request (.directUpload _ _ _) _ => True
  | .presignedPut path _ => UrlLive w path → PendingAt w path
  | .elapse seconds => ∀ id upload, getPendingUpload w id = some upload →
    (w.objects.get? upload.storedPath).isSome → w.now + seconds < upload.deadline

section Steps

variable {Frame : Type} {lib : Libraries Frame} {provider : Provider} {w t : World}
  {id : FileId} {user filename path : Text} {chunks : List Bytes} {effects : List Effect}
  {completed : Nat}

/-- Other objects are those of rows or of pending uploads still. -/
theorem shape_objects_iff (path : Text) (hs : Shape w) {objects : Dict Text Bytes}
    (hframe : ∀ other ≠ path, objects.get? other = w.objects.get? other)
    (hnone : ∀ {id row}, w.rows.get? id = some row → row.storedPath ≠ path) :
    Shape { w with objects := objects } ↔
      ∀ content, objects.get? path = some content → PendingAt w path := by
  constructor
  · intro ht content hcontent
    rcases ht.owned hcontent with ⟨id, row, hrow, hpath⟩ | hpending
    · exact absurd hpath (hnone hrow)
    · exact hpending
  · intro hpending
    refine ⟨?_, hs.closed, ?_⟩
    · intro id row hrow
      obtain ⟨content, hcontent, hrest⟩ := hs.rows hrow
      exact ⟨content, (hframe _ (hnone hrow)).trans hcontent, hrest⟩
    · intro other content hcontent
      by_cases heq : other = path
      · exact .inr (heq ▸ hpending content (heq ▸ hcontent))
      · exact hs.owned ((hframe other heq).symm.trans hcontent)

theorem Shape.row_ne (hs : Shape w) (hwritable : Writable w path) {id : FileId}
    {row : UploadedFile} (h : w.rows.get? id = some row) : row.storedPath ≠ path := by
  rintro rfl
  exact hs.closed h hwritable

/-- What happens to the object of a pending upload is no matter. -/
theorem shape_perform_of_pending (hs : Shape w) (hpending : PendingAt w path)
    (h : ∀ e ∈ effects, StoresAt path e) : Shape (perform w effects) := by
  obtain ⟨objects, hperform, hframe⟩ := perform_storesAt w fun e he => ⟨path, h e he⟩
  rw [hperform]
  refine (shape_objects_iff path hs ?_ fun hrow => hs.row_ne (.inr hpending) hrow).mpr
    fun _ _ => hpending
  intro other hne
  exact hframe other fun e he hstore => hne (hstore.inj (h e he))

theorem shape_directUpload (hw : Wellformed w) (hs : Shape w) :
    Shape (perform w ((directUploadFile provider w id user chunks).effects.take completed)) := by
  cases hupload : getPendingUpload w id with
  | none =>
    have hnil : (directUploadFile provider w id user chunks).effects.take completed = [] := by
      refine List.eq_nil_iff_forall_not_mem.mpr fun e he => ?_
      obtain ⟨upload, h, -⟩ := storesAt_directUploadFile hw (List.mem_of_mem_take he)
      exact nomatch hupload.symm.trans h
    rw [hnil]
    exact hs
  | some upload =>
    refine shape_perform_of_pending hs ⟨id, upload, hupload, rfl⟩ fun e he => ?_
    obtain ⟨upload', h, hstore⟩ := storesAt_directUploadFile hw (List.mem_of_mem_take he)
    obtain rfl := Option.some.inj (hupload.symm.trans h)
    exact hstore

theorem shape_presignedPut {content : Bytes} (hs : Shape w) (hlive : UrlLive w path) :
    Shape { w with objects := w.objects.set path content } ↔ PendingAt w path := by
  rw [shape_objects_iff _ hs (fun other hne => (Dict.get?_set ..).trans (if_neg hne))
    fun hrow => hs.row_ne (.inl hlive) hrow]
  constructor
  · intro h
    exact h content ((Dict.get?_set ..).trans (if_pos rfl))
  · exact fun h _ _ => h

theorem getPendingUpload_elapse {seconds : Nat} {upload : PendingUpload} :
    getPendingUpload { w with now := w.now + seconds } id = some upload ↔
      w.pending.get? id = some upload ∧ w.now + seconds < upload.deadline :=
  getPendingUpload_eq_some

theorem shape_elapse (hw : Wellformed w) (hs : Shape w) {seconds : Nat} :
    Shape { w with now := w.now + seconds } ↔ ∀ id upload, getPendingUpload w id = some upload →
      (w.objects.get? upload.storedPath).isSome → w.now + seconds < upload.deadline := by
  have hearlier : ∀ {id upload}, getPendingUpload { w with now := w.now + seconds } id =
      some upload → getPendingUpload w id = some upload := by
    intro id upload h
    obtain ⟨hget, hlive⟩ := getPendingUpload_elapse.mp h
    exact getPendingUpload_eq_some.mpr ⟨hget, by omega⟩
  constructor
  · intro ht id upload hupload hsome
    obtain ⟨content, hcontent⟩ := Option.isSome_iff_exists.mp hsome
    rcases ht.owned hcontent with ⟨id', row, hrow, hpath⟩ | ⟨id', upload', hupload', hpath⟩
    · exact absurd hpath (hs.row_ne (.inr ⟨id, upload, hupload, rfl⟩) hrow)
    · have hok := (hw.pendingOk hupload).2
      have hok' := (hw.pendingOk (hearlier hupload')).2
      obtain rfl := hok'.pathOf.inj (hpath ▸ hok.pathOf)
      obtain rfl := Option.some.inj (hupload.symm.trans (hearlier hupload'))
      exact (getPendingUpload_elapse.mp hupload').2
  · intro hguard
    refine ⟨hs.rows, ?_, ?_⟩
    · rintro id row hrow (⟨url, hurl, hpath, hlive⟩ | ⟨id', upload, hupload, hpath⟩)
      · have hnow : w.now + seconds < url.2 := hlive
        exact hs.closed hrow (.inl ⟨url, hurl, hpath, by omega⟩)
      · exact hs.closed hrow (.inr ⟨id', upload, hearlier hupload, hpath⟩)
    · intro path content hcontent
      rcases hs.owned hcontent with howned | ⟨id, upload, hupload, rfl⟩
      · exact .inl howned
      · have hlive := hguard id upload hupload (Option.isSome_iff_exists.mpr ⟨content, hcontent⟩)
        exact .inr ⟨id, upload, getPendingUpload_elapse.mpr
          ⟨(getPendingUpload_eq_some.mp hupload).1, hlive⟩, rfl⟩

/-! #### New identifiers -/

theorem row_ne_of_fresh (hw : Wellformed w) (hfresh : id ∉ w.issued)
    (hpath : PathOf id path) {id' : FileId} {row : UploadedFile}
    (h : w.rows.get? id' = some row) : row.storedPath ≠ path := by
  rintro rfl
  obtain ⟨hissued, hpath'⟩ := hw.rows h
  exact hfresh (hpath.inj hpath' ▸ hissued)

theorem not_writable_of_fresh (hw : Wellformed w) (hfresh : id ∉ w.issued)
    (hpath : PathOf id path) : ¬Writable w path := by
  rintro (⟨url, hurl, rfl, -⟩ | ⟨id', upload, hupload, rfl⟩)
  · obtain ⟨id', hissued, hpath'⟩ := hw.presigned hurl
    exact hfresh (hpath.inj hpath' ▸ hissued)
  · obtain ⟨hissued, hok⟩ := hw.pendingOk hupload
    exact hfresh (hpath.inj hok.pathOf ▸ hissued)

theorem shape_issue (hw : Wellformed w) (hs : Shape w) {r : Request}
    (hfresh : ∀ id ∈ r.newId, id ∉ w.issued) : Shape (w.issue r) := by
  cases r with
  | requestUploadUrl id user filename fileSize cached signed =>
    refine ⟨?_, hs.closed, hs.owned⟩
    intro id' row hrow
    obtain ⟨content, hcontent, hsize, hmax, hnegotiated⟩ := hs.rows hrow
    refine ⟨content, hcontent, hsize, hmax, ?_⟩
    intro size hget
    have hne : id' ≠ id := fun heq => hfresh id rfl (heq ▸ (hw.rows hrow).1)
    exact hnegotiated size (((Dict.get?_set ..).trans (if_neg hne)).symm.trans hget)
  | uploadFile id user filename chunks => exact ⟨hs.rows, hs.closed, hs.owned⟩
  | directUpload => exact hs
  | confirm => exact hs
  | deleteFile => exact hs

/-! #### Negotiations -/

/-- A negotiation records one upload and signs one URL, at most. -/
theorem perform_negotiation (w : World) (upload : PendingUpload) {deadline : Nat}
    (h : ∀ e ∈ effects, e = .cache id upload ∨ e = .sign upload.storedPath deadline) :
    ∃ pending presigned, perform w effects =
        { w with pending := pending, presigned := presigned } ∧
      (∀ id' ≠ id, pending.get? id' = w.pending.get? id') ∧
      (∀ upload', pending.get? id = some upload' →
        w.pending.get? id = some upload' ∨ upload'.storedPath = upload.storedPath) ∧
      ∀ url ∈ presigned, url ∈ w.presigned ∨ url.1 = upload.storedPath := by
  induction effects generalizing w with
  | nil => exact ⟨w.pending, w.presigned, rfl, fun _ _ => rfl, fun _ h => .inl h, fun _ h => .inl h⟩
  | cons e effects ih =>
    obtain ⟨pending, presigned, hperform, hother, hown, hurls⟩ :=
      ih (e.apply w) fun e' he' => h e' (List.mem_cons_of_mem _ he')
    rcases h e List.mem_cons_self with rfl | rfl
    · refine ⟨pending, presigned, hperform, ?_, ?_, hurls⟩
      · intro id' hne
        exact (hother id' hne).trans ((Dict.get?_set ..).trans (if_neg hne))
      · intro upload' h'
        rcases hown upload' h' with h' | h'
        · have heq : (w.pending.set id upload).get? id = some upload' := h'
          rw [Dict.get?_set, if_pos rfl] at heq
          exact .inr (Option.some.inj heq ▸ rfl)
        · exact .inr h'
    · refine ⟨pending, presigned, hperform, hother, hown, ?_⟩
      intro url hurl
      rcases hurls url hurl with hurl | hurl
      · rcases List.mem_cons.mp hurl with rfl | hurl
        · exact .inr rfl
        · exact .inl hurl
      · exact .inr hurl

theorem shape_requestUploadUrl (hw : Wellformed w) (hs : Shape w) {fileSize : Nat}
    {cached signed : Bool} (hfresh : id ∉ w.issued) :
    Shape (perform (w.issue (.requestUploadUrl id user filename fileSize cached signed))
      ((requestUploadUrl provider w id user filename fileSize cached signed).effects.take
        completed)) := by
  have hissue : Shape (w.issue (.requestUploadUrl id user filename fileSize cached signed)) :=
    shape_issue hw hs fun id' hid => Option.some.inj hid ▸ hfresh
  by_cases hext : extensionOf (basename filename) ∈ ALLOWED_EXTENSIONS
  · have hpathOf : PathOf id (storedPathOf id (basename filename)) := ⟨_, hext, rfl⟩
    obtain ⟨pending, presigned, hperform, hother, hown, hurls⟩ := perform_negotiation
      (w.issue (.requestUploadUrl id user filename fileSize cached signed))
      ⟨basename filename, fileSize, storedPathOf id (basename filename), user,
        w.now + DIRECT_UPLOAD_TTL_SECONDS⟩
      fun e he => (requestUploadUrl_effects (List.mem_of_mem_take he)).2.2.2
    rw [hperform]
    have hnone : w.pending.get? id = none := by
      cases hget : w.pending.get? id with
      | none => rfl
      | some upload => exact absurd (hw.pending hget).1 hfresh
    refine ⟨hissue.rows, ?_, ?_⟩
    · rintro id' row hrow (⟨url, hurl, hpath, hlive⟩ | ⟨id'', upload, hupload, hpath⟩)
      · rcases hurls url hurl with hurl | hurl
        · exact hs.closed hrow (.inl ⟨url, hurl, hpath, hlive⟩)
        · exact row_ne_of_fresh hw hfresh hpathOf hrow (hpath.symm.trans hurl)
      · obtain ⟨hget, hlive⟩ := getPendingUpload_eq_some.mp hupload
        by_cases heq : id'' = id
        · subst heq
          rcases hown upload hget with hget | hown
          · exact nomatch hnone.symm.trans hget
          · exact row_ne_of_fresh hw hfresh hpathOf hrow (hpath.symm.trans hown)
        · have hget' : w.pending.get? id'' = some upload := (hother id'' heq).symm.trans hget
          exact hs.closed hrow (.inr ⟨id'', upload,
            getPendingUpload_eq_some.mpr ⟨hget', hlive⟩, hpath⟩)
    · intro path content hcontent
      rcases hs.owned hcontent with howned | ⟨id', upload, hupload, hpath⟩
      · exact .inl howned
      · obtain ⟨hget, hlive⟩ := getPendingUpload_eq_some.mp hupload
        have hne : id' ≠ id := by
          rintro rfl
          exact nomatch hnone.symm.trans hget
        exact .inr ⟨id', upload,
          getPendingUpload_eq_some.mpr ⟨(hother id' hne).trans hget, hlive⟩, hpath⟩
  · have hnil : (requestUploadUrl provider w id user filename fileSize cached signed).effects.take
        completed = [] :=
      List.eq_nil_iff_forall_not_mem.mpr fun e he =>
        hext (requestUploadUrl_effects (List.mem_of_mem_take he)).1
    rw [hnil]
    exact hissue

/-! #### Confirmations -/

theorem shape_confirmed_iff (hw : Wellformed w) (hs : Shape w) {upload : PendingUpload}
    {content : Bytes} {row : UploadedFile} (hupload : getPendingUpload w id = some upload)
    (hcontent : w.objects.get? upload.storedPath = some content)
    (hfirst : w.rows.get? id = none) (hpath : row.storedPath = upload.storedPath)
    (hsize : row.fileSizeBytes = content.length) :
    Shape { w with rows := w.rows.set id row, pending := w.pending.erase id } ↔
      content.length ≤ upload.expectedSize ∧ ¬UrlLive w upload.storedPath := by
  have hok := (hw.pendingOk hupload).2
  have hrow : (w.rows.set id row).get? id = some row := (Dict.get?_set ..).trans (if_pos rfl)
  have hpending : ∀ {id' upload'}, getPendingUpload { w with
      rows := w.rows.set id row, pending := w.pending.erase id } id' = some upload' →
      id' ≠ id ∧ getPendingUpload w id' = some upload' := by
    intro id' upload' h
    obtain ⟨hget, hlive⟩ := getPendingUpload_eq_some.mp h
    have hget' : (w.pending.erase id).get? id' = some upload' := hget
    rw [Dict.get?_erase] at hget'
    split at hget'
    next => cases hget'
    next hne => exact ⟨hne, getPendingUpload_eq_some.mpr ⟨hget', hlive⟩⟩
  constructor
  · intro ht
    obtain ⟨content', hcontent', -, -, hnegotiated⟩ := ht.rows hrow
    rw [hpath] at hcontent'
    obtain rfl := Option.some.inj (hcontent.symm.trans hcontent')
    refine ⟨hnegotiated upload.expectedSize hok.negotiated, fun hlive => ?_⟩
    exact ht.closed hrow (.inl (hpath ▸ hlive))
  · rintro ⟨hle, hurl⟩
    refine ⟨?_, ?_, ?_⟩
    · intro id' row' hrow'
      have hget : (w.rows.set id row).get? id' = some row' := hrow'
      rw [Dict.get?_set] at hget
      split at hget
      next heq =>
        cases hget
        refine ⟨content, hpath ▸ hcontent, hsize, hle.trans hok.small, ?_⟩
        intro size hnegotiated
        have hsame := hok.negotiated.symm.trans (heq ▸ hnegotiated)
        exact Option.some.inj hsame ▸ hle
      next => exact hs.rows hget
    · rintro id' row' hrow' (hlive | ⟨id'', upload', hupload', hpath'⟩)
      · have hget : (w.rows.set id row).get? id' = some row' := hrow'
        rw [Dict.get?_set] at hget
        split at hget
        next =>
          cases hget
          exact hurl (hpath ▸ hlive)
        next => exact hs.closed hget (.inl hlive)
      · obtain ⟨hne, hupload'⟩ := hpending hupload'
        have hget : (w.rows.set id row).get? id' = some row' := hrow'
        rw [Dict.get?_set] at hget
        split at hget
        next =>
          cases hget
          have hpathOf := (hw.pendingOk hupload').2.pathOf
          rw [hpath', hpath] at hpathOf
          exact hne (hpathOf.inj hok.pathOf)
        next => exact hs.closed hget (.inr ⟨id'', upload', hupload', hpath'⟩)
    · intro path content' hcontent'
      rcases hs.owned hcontent' with ⟨id', row', hrow', hpath'⟩ | ⟨id', upload', hupload', hpath'⟩
      · by_cases heq : id' = id
        · have hnone : w.rows.get? id' = none := heq ▸ hfirst
          exact nomatch hnone.symm.trans hrow'
        · exact .inl ⟨id', row', (Dict.get?_set ..).trans ((if_neg heq).trans hrow'), hpath'⟩
      · by_cases heq : id' = id
        · subst heq
          obtain rfl := Option.some.inj (hupload.symm.trans hupload')
          exact .inl ⟨id', row, hrow, hpath.trans hpath'⟩
        · obtain ⟨hget, hlive⟩ := getPendingUpload_eq_some.mp hupload'
          exact .inr ⟨id', upload', getPendingUpload_eq_some.mpr
            ⟨(Dict.get?_erase ..).trans ((if_neg heq).trans hget), hlive⟩, hpath'⟩

theorem shape_confirm (hw : Wellformed w) (hs : Shape w) :
    Shape (perform w ((confirmDirectUpload lib w id user).effects.take completed)) ↔
      Harmless lib provider w (.request (.confirm id user) completed) := by
  by_cases hrow : ∃ upload content metadata, pendingOf w id user = some upload ∧
      w.objects.get? upload.storedPath = some content ∧
      Admitted lib w id upload.filename upload.storedPath content metadata
  · obtain ⟨upload, content, metadata, hupload, hcontent, hadmitted⟩ := hrow
    have hlive := (pendingOf_eq_some.mp hupload).1
    rw [confirm_of_admitted hw hupload hcontent hadmitted]
    -- the guard is about this upload
    have hguard : Harmless lib provider w (.request (.confirm id user) completed) ↔
        (0 < completed → content.length ≤ upload.expectedSize ∧ 1 < completed ∧
          (fileUploadResponse (uploadedFile id upload.filename upload.storedPath content user
            metadata)).isOk ∧ ¬UrlLive w upload.storedPath) := by
      constructor
      · exact fun h => h upload content metadata hupload hcontent hadmitted
      · intro h upload' content' metadata' hupload' hcontent' hadmitted'
        obtain rfl := Option.some.inj (hupload.symm.trans hupload')
        obtain rfl := Option.some.inj (hcontent.symm.trans hcontent')
        obtain rfl := Except.ok.inj (hadmitted.read.symm.trans hadmitted'.read)
        exact h
    rw [hguard]
    generalize hrow : uploadedFile id upload.filename upload.storedPath content user metadata = row
    have hpath : row.storedPath = upload.storedPath := by
      subst hrow
      rfl
    have hsize : row.fileSizeBytes = content.length := by
      subst hrow
      rfl
    have huncleared : ¬Shape { w with rows := w.rows.set id row } := by
      intro ht
      have hget : (w.rows.set id row).get? id = some row := (Dict.get?_set ..).trans (if_pos rfl)
      exact ht.closed hget (.inr ⟨id, upload, hlive, hpath.symm⟩)
    have hcleared := shape_confirmed_iff hw hs hlive hcontent hadmitted.first hpath hsize
    cases completed with
    | zero => exact iff_of_true hs fun h => absurd h (Nat.lt_irrefl 0)
    | succ n =>
      by_cases hok : (fileUploadResponse row).isOk
      · rw [if_pos hok]
        cases n with
        | zero =>
          refine iff_of_false huncleared fun h => ?_
          exact absurd (h Nat.one_pos).2.1 (Nat.lt_irrefl 1)
        | succ n =>
          rw [List.take_of_length_le (by simp)]
          refine hcleared.trans ?_
          constructor
          · rintro ⟨hle, hurl⟩ -
            exact ⟨hle, by omega, hok, hurl⟩
          · intro h
            obtain ⟨hle, -, -, hurl⟩ := h (Nat.succ_pos _)
            exact ⟨hle, hurl⟩
      · rw [if_neg hok, List.take_of_length_le (by simp)]
        refine iff_of_false huncleared fun h => ?_
        exact hok (h (Nat.succ_pos _)).2.2.1
  · have hharmless : Harmless lib provider w (.request (.confirm id user) completed) :=
      fun upload content metadata hupload hcontent hadmitted =>
        absurd ⟨upload, content, metadata, hupload, hcontent, hadmitted⟩ hrow
    refine iff_of_true ?_ hharmless
    rcases confirm_cases lib hw id user with heq | ⟨upload, hupload, heq | hadmitted⟩
    · rw [heq, List.take_nil]
      exact hs
    · refine shape_perform_of_pending hs ⟨id, upload, (pendingOf_eq_some.mp hupload).1, rfl⟩ ?_
      intro e he
      rw [heq] at he
      exact .inl (List.mem_singleton.mp (List.mem_of_mem_take he))
    · obtain ⟨content, metadata, hcontent, hadmitted⟩ := hadmitted
      exact absurd ⟨upload, content, metadata, hupload, hcontent, hadmitted⟩ hrow

/-! #### Uploads -/

/-- An upload behind whose writes nothing comes is one whose content is refused. -/
theorem afterWrites_eq_nil_iff (hfirst : w.rows.get? id = none) {content : Bytes} :
    (afterWrites lib w id user filename path content).effects = [] ↔
      ¬(content.length = 0 ∨ MAX_UPLOAD_SIZE < content.length ∨
        (uploadMetadata lib filename path content).isOk) := by
  unfold afterWrites
  by_cases hempty : content.length = 0
  · rw [if_pos hempty]
    exact iff_of_false (by simp) fun h => h (.inl hempty)
  by_cases hlarge : MAX_UPLOAD_SIZE < content.length
  · rw [if_neg hempty, if_pos hlarge]
    exact iff_of_false (by simp) fun h => h (.inr (.inl hlarge))
  rw [if_neg hempty, if_neg hlarge]
  unfold finalizeUpload
  cases uploadMetadata lib filename path content with
  | error e => exact iff_of_true rfl (by simp [hempty, hlarge, Except.isOk, Except.toBool])
  | ok metadata =>
    refine iff_of_false ?_ fun h => h (.inr (.inr rfl))
    dsimp only
    rw [hfirst]
    split
    · simp
    · simp

/-- What an upload has written under a new path belongs to nobody yet. -/
theorem shape_written_iff (hw : Wellformed w) (hs : Shape w) (hfresh : id ∉ w.issued)
    (hpath : PathOf id path) (h : ∀ e ∈ effects, StoresAt path e) :
    Shape (perform { w with issued := id :: w.issued } effects) ↔
      (perform { w with issued := id :: w.issued } effects).objects.get? path = none := by
  obtain ⟨objects, hperform, hframe⟩ := perform_storesAt { w with issued := id :: w.issued }
    fun e he => ⟨path, h e he⟩
  have hs' : Shape { w with issued := id :: w.issued } := ⟨hs.rows, hs.closed, hs.owned⟩
  rw [hperform, shape_objects_iff path hs' ?_ fun hrow =>
    row_ne_of_fresh hw hfresh hpath hrow]
  · have hclosed : ¬PendingAt w path :=
      fun h => not_writable_of_fresh hw hfresh hpath (.inr h)
    constructor
    · intro hnone
      exact Option.eq_none_iff_forall_ne_some.mpr fun content hcontent =>
        hclosed (hnone content hcontent)
    · intro hnone content hcontent
      exact nomatch hnone.symm.trans hcontent
  · intro other hne
    exact hframe other fun e he hstore => hne (hstore.inj (h e he))

/-- An upload that gets as far as its row has stored what the row says. -/
theorem shape_uploaded (hw : Wellformed w) (hs : Shape w) (hfresh : id ∉ w.issued)
    (hpath : PathOf id path) {content : Bytes} {row : UploadedFile} {objects : Dict Text Bytes}
    (hframe : ∀ other ≠ path, objects.get? other = w.objects.get? other)
    (hcontent : objects.get? path = some content) (hrow : row.storedPath = path)
    (hsize : row.fileSizeBytes = content.length) (hmax : content.length ≤ MAX_UPLOAD_SIZE) :
    Shape { w with objects := objects, rows := w.rows.set id row, issued := id :: w.issued } := by
  have hclosed := not_writable_of_fresh hw hfresh hpath
  have hget : ∀ {id' row'}, (w.rows.set id row).get? id' = some row' →
      id' = id ∧ row' = row ∨ w.rows.get? id' = some row' := by
    intro id' row' h
    rw [Dict.get?_set] at h
    split at h
    next heq => exact .inl ⟨heq, (Option.some.inj h).symm⟩
    next => exact .inr h
  refine ⟨?_, ?_, ?_⟩
  · intro id' row' hrow'
    rcases hget hrow' with ⟨rfl, rfl⟩ | hrow'
    · exact ⟨content, hrow ▸ hcontent, hsize, hmax,
        fun size hsize => absurd (hw.negotiated hsize) hfresh⟩
    · obtain ⟨content', hcontent', hrest⟩ := hs.rows hrow'
      have hne := row_ne_of_fresh hw hfresh hpath hrow'
      exact ⟨content', (hframe _ hne).trans hcontent', hrest⟩
  · intro id' row' hrow' hwritable
    rcases hget hrow' with ⟨rfl, rfl⟩ | hrow'
    · exact hclosed (hrow ▸ hwritable)
    · exact hs.closed hrow' hwritable
  · intro path' content' hcontent'
    by_cases heq : path' = path
    · exact .inl ⟨id, row, (Dict.get?_set ..).trans (if_pos rfl), hrow.trans heq.symm⟩
    · rcases hs.owned ((hframe path' heq).symm.trans hcontent') with ⟨id', row', hrow', hpath'⟩ | h
      · have hne : id' ≠ id := fun h => hfresh (h ▸ (hw.rows hrow').1)
        exact .inl ⟨id', row', (Dict.get?_set ..).trans ((if_neg hne).trans hrow'), hpath'⟩
      · exact .inr h

theorem get?_perform_writes (w : World) (hne : effects ≠ [])
    (h : ∀ e ∈ effects, ∃ content, e = .write path content) :
    (perform w effects).objects.get? path ≠ none := by
  rw [← List.dropLast_append_getLast hne]
  obtain ⟨content, hlast⟩ := h _ (List.getLast_mem hne)
  rw [hlast, get?_perform_write]
  exact Option.some_ne_none content

theorem uploadWrites_writes {e : Effect} (he : e ∈ uploadWrites provider path chunks) :
    ∃ content, e = .write path content := by
  obtain ⟨front, hwrites, hfront⟩ := uploadWrites_eq provider path chunks
  rw [hwrites] at he
  rcases List.mem_append.mp he with he | he
  · exact hfront e he
  · exact ⟨_, List.mem_singleton.mp he⟩

theorem shape_uploadFile (hw : Wellformed w) (hs : Shape w) (hfresh : id ∉ w.issued) :
    Shape (perform (w.issue (.uploadFile id user filename chunks))
      ((uploadFile lib provider w id user filename chunks).effects.take completed)) ↔
      Harmless lib provider w (.request (.uploadFile id user filename chunks) completed) := by
  have hissue : Shape { w with issued := id :: w.issued } := ⟨hs.rows, hs.closed, hs.owned⟩
  change Shape (perform { w with issued := id :: w.issued } _) ↔ _
  by_cases hletIn : strip filename ≠ [] ∧ extensionOf (basename filename) ∈ ALLOWED_EXTENSIONS
  · obtain ⟨hname, hext⟩ := hletIn
    have hfirst : w.rows.get? id = none := by
      cases hget : w.rows.get? id with
      | none => rfl
      | some row => exact absurd (hw.rows hget).1 hfresh
    rw [uploadFile_of_letIn hname hext]
    generalize hpathEq : storedPathOf id (basename filename) = path
    have hpath : PathOf id path := ⟨_, hext, hpathEq.symm⟩
    have hguard : Harmless lib provider w (.request (.uploadFile id user filename chunks)
        completed) ↔ (0 < completed → (uploadWrites provider path chunks).length < completed ∧
          (afterWrites lib w id user (basename filename) path chunks.flatten).effects ≠ []) := by
      rw [ne_eq, afterWrites_eq_nil_iff hfirst, not_not]
      subst hpathEq
      exact ⟨fun h => h hfresh hname hext, fun h _ _ _ => h⟩
    rw [hguard]
    have hstores : ∀ e ∈ uploadWrites provider path chunks, StoresAt path e :=
      fun e he => .inr (uploadWrites_writes he)
    cases completed with
    | zero => exact iff_of_true hissue fun h => absurd h (Nat.lt_irrefl 0)
    | succ n =>
      by_cases hlen : (uploadWrites provider path chunks).length < n + 1
      · have htake : (uploadWrites provider path chunks ++
            (afterWrites lib w id user (basename filename) path chunks.flatten).effects).take
              (n + 1) = uploadWrites provider path chunks ++
            (afterWrites lib w id user (basename filename) path chunks.flatten).effects := by
          refine List.take_of_length_le ?_
          have hle := length_afterWrites lib w id user (basename filename) path chunks.flatten
          rw [List.length_append]
          omega
        rw [htake]
        obtain ⟨front, hwrites, -⟩ := uploadWrites_eq provider path chunks
        rcases afterWrites_cases lib w id user (basename filename) path chunks.flatten with
          hrest | hrest | ⟨hmax, metadata, hrest⟩
        · rw [hrest, List.append_nil, shape_written_iff hw hs hfresh hpath hstores, hwrites,
            get?_perform_write]
          exact iff_of_false nofun fun h => (h (Nat.succ_pos n)).2 rfl
        · rw [hrest, shape_written_iff hw hs hfresh hpath ?_, get?_perform_remove]
          · exact iff_of_true rfl fun _ => ⟨hlen, by simp⟩
          · intro e he
            rcases List.mem_append.mp he with he | he
            · exact hstores e he
            · exact .inl (List.mem_singleton.mp he)
        · rw [hrest, perform_concat]
          refine iff_of_true ?_ fun _ => ⟨hlen, by simp⟩
          obtain ⟨objects, hperform, hframe⟩ := perform_storesAt
            { w with issued := id :: w.issued } fun e he => ⟨path, hstores e he⟩
          have hcontent : objects.get? path = some chunks.flatten := by
            have hget : (perform { w with issued := id :: w.issued }
                (front ++ [.write path chunks.flatten])).objects.get? path =
              some chunks.flatten := get?_perform_write
            rw [← hwrites, hperform] at hget
            exact hget
          rw [hperform]
          exact shape_uploaded hw hs hfresh hpath
            (fun other hne => hframe other fun e he hstore => hne (hstore.inj (hstores e he)))
            hcontent rfl rfl hmax
      · -- the request stops among its writes
        rw [List.take_append_of_le_length (Nat.le_of_not_lt hlen), shape_written_iff hw hs hfresh
          hpath fun e he => hstores e (List.mem_of_mem_take he)]
        refine iff_of_false ?_ fun h => hlen (h (Nat.succ_pos n)).1
        refine get?_perform_writes _ ?_ fun e he => uploadWrites_writes (List.mem_of_mem_take he)
        obtain ⟨front, hwrites, -⟩ := uploadWrites_eq provider path chunks
        rw [hwrites]
        simp
  · rw [uploadFile_of_not_letIn hletIn, List.take_nil]
    exact iff_of_true hissue fun _ hname hext => absurd ⟨hname, hext⟩ hletIn

/-! #### Deletions -/

theorem shape_deleted (hw : Wellformed w) (hs : Shape w) {row : UploadedFile}
    (hrow : w.rows.get? id = some row) :
    Shape { w with objects := w.objects.erase row.storedPath, rows := w.rows.erase id } := by
  have hget : ∀ {id' row'}, (w.rows.erase id).get? id' = some row' →
      w.rows.get? id' = some row' ∧ row'.storedPath ≠ row.storedPath := by
    intro id' row' h
    rw [Dict.get?_erase] at h
    split at h
    next => cases h
    next hne =>
      refine ⟨h, fun heq => hne ?_⟩
      exact (hw.rows h).2.inj (heq ▸ (hw.rows hrow).2)
  refine ⟨?_, fun hrow' => hs.closed (hget hrow').1, ?_⟩
  · intro id' row' hrow'
    obtain ⟨hrow', hne⟩ := hget hrow'
    obtain ⟨content, hcontent, hrest⟩ := hs.rows hrow'
    exact ⟨content, (Dict.get?_erase ..).trans ((if_neg hne).trans hcontent), hrest⟩
  · intro path content hcontent
    have hkept : (w.objects.erase row.storedPath).get? path = some content := hcontent
    rw [Dict.get?_erase] at hkept
    split at hkept
    next => cases hkept
    next hne =>
      rcases hs.owned hkept with ⟨id', row', hrow', hpath⟩ | hpending
      · refine .inl ⟨id', row', (Dict.get?_erase ..).trans ((if_neg ?_).trans hrow'), hpath⟩
        rintro rfl
        obtain rfl := Option.some.inj (hrow.symm.trans hrow')
        exact hne hpath.symm
      · exact .inr hpending

theorem shape_deleteFile (hw : Wellformed w) (hs : Shape w) :
    Shape (perform w ((deleteFile w id user).effects.take completed)) ↔
      Harmless lib provider w (.request (.deleteFile id user) completed) := by
  rcases deleteFile_effects w id user with ⟨hnone, heq⟩ | ⟨row, hrow, huser, heq⟩
  · rw [heq, List.take_nil]
    exact iff_of_true hs fun h => absurd h hnone
  · rw [heq]
    have hguard : Harmless lib provider w (.request (.deleteFile id user) completed) ↔
        completed ≠ 1 := ⟨fun h => h ⟨row, hrow, huser⟩, fun h _ => h⟩
    rw [hguard]
    match completed with
    | 0 => exact iff_of_true hs nofun
    | 1 =>
      refine iff_of_false (fun ht => ?_) fun h => h rfl
      obtain ⟨content, hcontent, -⟩ := @Shape.rows _ ht id row hrow
      have hgone : (w.objects.erase row.storedPath).get? row.storedPath = none :=
        (Dict.get?_erase ..).trans (if_pos rfl)
      exact nomatch hgone.symm.trans hcontent
    | n + 2 =>
      refine iff_of_true ?_ (by omega)
      rw [List.take_of_length_le (by simp)]
      exact shape_deleted hw hs hrow

end Steps

/-! ### Runs -/

section Runs

variable {Frame : Type} {lib : Libraries Frame} {provider : Provider} {w t : World} {e : Event}

theorem shape_step_iff (hw : Wellformed w) (hs : Shape w) (h : step lib provider w e = some t) :
    Shape t ↔ Harmless lib provider w e := by
  cases e with
  | request r completed =>
    obtain ⟨hfresh, rfl⟩ := step_request h
    cases r with
    | requestUploadUrl id user filename fileSize cached signed =>
      exact iff_of_true (shape_requestUploadUrl hw hs (hfresh id rfl)) trivial
    | directUpload id user chunks => exact iff_of_true (shape_directUpload hw hs) trivial
    | confirm id user => exact shape_confirm hw hs
    | uploadFile id user filename chunks => exact shape_uploadFile hw hs (hfresh id rfl)
    | deleteFile id user => exact shape_deleteFile hw hs
  | presignedPut path content =>
    rw [step] at h
    split at h
    next hlive =>
      cases h
      rw [shape_presignedPut hs hlive]
      exact ⟨fun hpending _ => hpending, fun h => h hlive⟩
    next => cases h
  | elapse seconds =>
    cases h
    exact shape_elapse hw hs

/-- An event that cannot happen does no harm. -/
theorem harmless_of_step_eq_none (h : step lib provider w e = none) :
    Harmless lib provider w e := by
  cases e with
  | request r completed =>
    rw [step] at h
    split at h
    next hissued =>
      obtain ⟨id, hid, hissued⟩ := hissued
      cases r with
      | requestUploadUrl => trivial
      | uploadFile id' user filename chunks =>
        cases hid
        exact fun hfresh => absurd hissued hfresh
      | _ => cases hid
    next => cases h
  | presignedPut path content =>
    rw [step] at h
    split at h
    next => cases h
    next hlive => exact fun h => absurd h hlive
  | elapse seconds => cases h

theorem shape_empty : Shape World.empty where
  rows h := by cases h
  closed h := by cases h
  owned h := by cases h

/-- Through any run the rows are right, the objects of rows are safe and no object is left over,
exactly where each event of the run is harmless when it happens. -/
theorem lifecycle_iff (lib : Libraries Frame) (provider : Provider) (events : List Event) :
    Always (step lib provider) (Sound lib provider) World.empty events ↔
      Along (step lib provider) (Harmless lib provider) World.empty events := by
  refine always_iff_along_all (I := Wellformed) (fun w e t hw h => hw.step h)
    (fun w e h => harmless_of_step_eq_none h) ?_ wellformed_empty
    ((sound_iff_shape wellformed_empty).mpr shape_empty)
  intro w e t hw hs h
  rw [sound_iff_shape (hw.step h)]
  exact shape_step_iff hw ((sound_iff_shape hw).mp hs) h

end Runs

/-! ### A signed URL is used twice -/

/-- A negotiated upload of twenty megabytes, which the client puts to the signed URL as two short
records, confirms, and puts there once more as one. -/
def twicePut : List Event :=
  [.request (.requestUploadUrl UploadAgreement.accentId "ann".toList "sales.csv".toList
      (20 * 1024 * 1024) true true) 2,
    .presignedPut "7f3c.csv".toList [0x61, 0x0A, 0x31, 0x0A, 0x32, 0x0A],
    .request (.confirm UploadAgreement.accentId "ann".toList) 2,
    .presignedPut "7f3c.csv".toList [0x61, 0x0A, 0x31, 0x0A]]

def salesAfter (events : List Event) : Option (Option (Text × Nat) × Option Bytes) :=
  (run (step UploadAgreement.plainLibraries .s3Storage) World.empty events).map fun t =>
    ((t.rows.get? UploadAgreement.accentId).map fun row => (row.storedPath, row.fileSizeBytes),
      t.objects.get? "7f3c.csv".toList)

theorem salesAfter_twicePut : salesAfter twicePut =
    some (some ("7f3c.csv".toList, 6), some [0x61, 0x0A, 0x31, 0x0A]) := by
  decide +kernel

/-- The row keeps the size of the object that was confirmed, and the object is another one. -/
theorem overwritten_after_confirmation :
    ¬Always (step UploadAgreement.plainLibraries .s3Storage)
      (Sound UploadAgreement.plainLibraries .s3Storage) World.empty twicePut := by
  intro h
  obtain ⟨t, ht, hafter⟩ := Option.map_eq_some_iff.mp salesAfter_twicePut
  obtain ⟨hrow, hobject⟩ := Prod.mk.inj hafter
  obtain ⟨row, hget, hfacts⟩ := Option.map_eq_some_iff.mp hrow
  obtain ⟨hpath, hsize⟩ := Prod.mk.inj hfacts
  obtain ⟨content, hcontent, hlength, -⟩ := (h twicePut [] rfl t ht).rows hget
  rw [hpath, hobject] at hcontent
  cases hcontent
  rw [hsize] at hlength
  exact absurd hlength (by decide)

end PipelineIQ.Api.UploadLifecycle
