import PipelineIQ.Api.UploadAgreement
import PipelineIQ.Api.Uploads
import PipelineIQ.Lib.Latest
import Mathlib.Data.Char
import Mathlib.Data.List.Lex
import Mathlib.Data.List.Sort

namespace PipelineIQ.Api.SchemaDrift

open PipelineIQ.Lib PipelineIQ.Lib.Strings PipelineIQ.Lib.Codecs PipelineIQ.Lib.Latest
open PipelineIQ.Api.FileFormats PipelineIQ.Api.Uploads PipelineIQ.Api.UploadAgreement

/-! ### The comparison -/

/-- Python's `sorted`; `mixed` is what it does on labels that are no texts, where it may raise. -/
def sorted (mixed : List Label → Option (List Label)) (labels : List Label) :
    Option (List Label) :=
  if labels.all Label.isText then
    some (((labels.map Label.str).insertionSort fun a b => a ≤ b).map .text)
  else mixed labels

structure ColumnDrift where
  column : Label
  driftType : String
  oldType : Text
  newType : Text
  severity : String

structure SchemaDriftReport where
  hasDrift : Bool
  columnsAdded : List Label
  columnsRemoved : List Label
  typeChanges : List ColumnDrift
  summary : String

/-- The types of a snapshot come from JSON, where every key is a text. -/
def storedType (dtypes : Dict Text Text) : Label → Text
  | .text column => (dtypes.get? column).getD []
  | .other _ => []

def driftSummary (added removed changed : Nat) : String :=
  let parts :=
    (if added = 0 then [] else [s!"{added} columns added"]) ++
    (if removed = 0 then [] else [s!"{removed} columns removed"]) ++
    (if changed = 0 then [] else [s!"{changed} type changes"])
  if parts.isEmpty then "No drift detected" else ", ".intercalate parts

section

variable (mixed : List Label → Option (List Label))

def detectSchemaDrift (oldColumns : List Label) (oldDtypes : Dict Text Text)
    (newColumns : List Label) (newDtypes : Dict Label Text) : Option SchemaDriftReport := do
  let oldSet := oldColumns.dedup
  let newSet := newColumns.dedup
  let columnsAdded ← sorted mixed (newSet.filter fun c => c ∉ oldSet)
  let columnsRemoved ← sorted mixed (oldSet.filter fun c => c ∉ newSet)
  let kept ← sorted mixed (oldSet.filter fun c => c ∈ newSet)
  let typeChanges := kept.filterMap fun col =>
    let oldType := storedType oldDtypes col
    let newType := (newDtypes.get? col).getD []
    if oldType ≠ newType then some ⟨col, "type_changed", oldType, newType, "warning"⟩ else none
  return {
    hasDrift := !columnsAdded.isEmpty || !columnsRemoved.isEmpty || !typeChanges.isEmpty
    columnsAdded
    columnsRemoved
    typeChanges
    summary := driftSummary columnsAdded.length columnsRemoved.length typeChanges.length }

structure ColumnDriftResponse where
  column : Label
  driftType : String
  oldValue : Option Text := none
  newValue : Option Text := none
  severity : String

structure SchemaDriftResponse where
  hasDrift : Bool
  breakingChanges : Nat
  warnings : Nat
  driftItems : List ColumnDriftResponse

structure SchemaSnapshot where
  fileId : Text
  columns : List Label
  dtypes : Dict Text Text
  capturedAt : Int

def notComparable : Failure := .uncaught "'<' not supported between instances"

def notText : Failure := .uncaught "Input should be a valid string"

def driftItems (report : SchemaDriftReport) : List ColumnDriftResponse :=
  (report.columnsRemoved.map fun column =>
    { column, driftType := "removed", severity := "breaking" }) ++
  (report.columnsAdded.map fun column =>
    { column, driftType := "added", severity := "info" }) ++
  report.typeChanges.map fun tc =>
    { column := tc.column, driftType := "type_changed", oldValue := some tc.oldType
      newValue := some tc.newType, severity := "warning" }

/-- An item names its column by a text. -/
def buildSchemaDriftResponse (previous : Option SchemaSnapshot) (columns : List Label)
    (dtypes : Dict Label Text) : Except Failure (Option SchemaDriftResponse) :=
  match previous with
  | none => .ok none
  | some snapshot =>
    match detectSchemaDrift mixed snapshot.columns snapshot.dtypes columns dtypes with
    | none => .error notComparable
    | some report =>
      let items := driftItems report
      if items.all fun d => d.column.isText then
        .ok (some {
          hasDrift := report.hasDrift
          breakingChanges := (items.filter fun d => d.severity = "breaking").length
          warnings := (items.filter fun d => d.severity = "warning").length
          driftItems := items })
      else .error notText

end

/-! ### The upload -/

structure Database where
  files : Dict Text UploadedFile
  snapshots : List SchemaSnapshot

/-- A file in the storage, and who is about to upload it when. -/
structure Upload where
  id : FileId
  filename : Text
  storedPath : Text
  content : Bytes
  user : Text
  capturedAt : Int

structure FileUploadResponse where
  file : UploadedFile
  schemaDrift : Option SchemaDriftResponse

/-- What an upload answers, and the file that the drift comparison reads. -/
structure Outcome where
  response : Except Failure FileUploadResponse
  compared : Option Text

/-- The snapshots of other files that were uploaded under this name, by anyone. -/
def namesakes (db : Database) (fileId filename : Text) : List SchemaSnapshot :=
  db.snapshots.filter fun p =>
    (db.files.get? p.fileId).any (fun row => row.originalFilename = filename) && p.fileId ≠ fileId

/-- Of snapshots that were captured at the same time the engine gives the one it meets first. -/
def lastCaptured : List SchemaSnapshot → Option SchemaSnapshot :=
  @List.argmax _ Int Int.instLinearOrder.toPartialOrder.toPreorder Int.instLinearOrder.toDecidableLT
    (·.capturedAt)

def previousSnapshot (db : Database) (fileId filename : Text) : Option SchemaSnapshot :=
  lastCaptured (namesakes db fileId filename)

def Upload.row (upload : Upload) (metadata : Metadata) : UploadedFile :=
  uploadedFile upload.id upload.filename upload.storedPath upload.content upload.user metadata

def Database.store (db : Database) (upload : Upload) (metadata : Metadata) : Database where
  files := db.files.set upload.id.text (upload.row metadata)
  snapshots := db.snapshots ++ [{
    fileId := upload.id.text
    columns := metadata.columns
    dtypes := Dict.ofList (metadata.dtypes.entries.map fun e => (e.1.str, e.2))
    capturedAt := upload.capturedAt }]

section

variable {Frame : Type} (lib : Libraries Frame) (mixed : List Label → Option (List Label))

def respond (upload : Upload) (metadata : Metadata) (previous : Option SchemaSnapshot) :
    Except Failure FileUploadResponse := do
  let drift ← buildSchemaDriftResponse mixed previous metadata.columns metadata.dtypes
  let file ← fileUploadResponse (upload.row metadata)
  return ⟨file, drift⟩

def finalizeUploadedFile (db : Database) (upload : Upload) : Outcome × Database :=
  match uploadMetadata lib upload.filename upload.storedPath upload.content with
  | .error e => (⟨.error e, none⟩, db)
  | .ok metadata =>
    if MAX_ROWS_PER_FILE < metadata.rowCount then (⟨.error tooManyRows, none⟩, db)
    else if (db.files.get? upload.id.text).isSome then (⟨.error duplicateKey, none⟩, db)
    else
      let stored := db.store upload metadata
      let previous := previousSnapshot stored upload.id.text upload.filename
      (⟨respond mixed upload metadata previous, previous.map (·.fileId)⟩, stored)

end

/-! ### Two states that differ in the files of others -/

def owns (db : Database) (user fileId : Text) : Bool :=
  (db.files.get? fileId).any fun row => row.userId = user

/-- The states have the same files of the user, with the same snapshots. -/
structure SameOwn (user : Text) (db db' : Database) : Prop where
  files : ∀ id, (db.files.get? id).filter (fun row => row.userId = user) =
    (db'.files.get? id).filter fun row => row.userId = user
  snapshots : (db.snapshots.filter fun p => owns db user p.fileId) =
    db'.snapshots.filter fun p => owns db' user p.fileId

/-- The snapshot is the latest of a list. -/
def LatestOf (snapshots : List SchemaSnapshot) (p : SchemaSnapshot) : Prop :=
  ∃ before after, snapshots = before ++ p :: after ∧
    (∀ q ∈ before, q.capturedAt < p.capturedAt) ∧ ∀ q ∈ after, q.capturedAt ≤ p.capturedAt

/-- The latest snapshot under the name of the upload is of a file of another user. -/
def DisturbedBy (db : Database) (upload : Upload) (p : SchemaSnapshot) : Prop :=
  LatestOf (namesakes db upload.id.text upload.filename) p ∧
    owns db upload.user p.fileId = false

def Undisturbed (db : Database) (upload : Upload) : Prop := ∀ p, ¬ DisturbedBy db upload p

def Taken (db : Database) (upload : Upload) : Prop :=
  (db.files.get? upload.id.text).isSome = true

instance (db : Database) (upload : Upload) : Decidable (Taken db upload) :=
  inferInstanceAs (Decidable (_ = true))

/-- The file cannot be read, or has too many rows. -/
def Rejected {Frame : Type} (lib : Libraries Frame) (upload : Upload) : Prop :=
  ∀ metadata, uploadMetadata lib upload.filename upload.storedPath upload.content = .ok metadata →
    MAX_ROWS_PER_FILE < metadata.rowCount

/-- The uploaded file compares with both snapshots in the same way. -/
def ComparesAlike {Frame : Type} (lib : Libraries Frame)
    (mixed : List Label → Option (List Label)) (upload : Upload) (p q : SchemaSnapshot) : Prop :=
  ∀ metadata, uploadMetadata lib upload.filename upload.storedPath upload.content = .ok metadata →
    respond mixed upload metadata (some p) = respond mixed upload metadata (some q)

variable {Frame : Type} {lib : Libraries Frame} {mixed : List Label → Option (List Label)}
  {db db' : Database} {upload : Upload} {metadata : Metadata} {p q : SchemaSnapshot}

/-- The upload itself is not compared with. -/
theorem namesakes_store (db : Database) (upload : Upload) (metadata : Metadata) :
    namesakes (db.store upload metadata) upload.id.text upload.filename =
      namesakes db upload.id.text upload.filename := by
  rw [namesakes, namesakes, Database.store, List.filter_append]
  simp only [ne_eq, not_true_eq_false, decide_false, Bool.and_false, List.filter_cons_of_neg,
    List.filter_nil, List.append_nil, Bool.false_eq_true, not_false_eq_true]
  apply List.filter_congr
  intro p _
  by_cases hid : p.fileId = upload.id.text
  · simp only [hid, not_true_eq_false, decide_false, Bool.and_false]
  · rw [Dict.get?_set, if_neg hid]

theorem latestOf_iff {snapshots : List SchemaSnapshot} :
    LatestOf snapshots p ↔ lastCaptured snapshots = some p :=
  mem_argmax_iff_split.symm

theorem previousSnapshot_store (db : Database) (upload : Upload) (metadata : Metadata) :
    previousSnapshot (db.store upload metadata) upload.id.text upload.filename =
      previousSnapshot db upload.id.text upload.filename := by
  rw [previousSnapshot, namesakes_store, previousSnapshot]

theorem owns_eq (h : SameOwn upload.user db db') (fileId : Text) :
    owns db upload.user fileId = owns db' upload.user fileId := by
  have hfile := congrArg Option.isSome (h.files fileId)
  rwa [Option.isSome_filter, Option.isSome_filter] at hfile

/-- The user's own snapshots under the name are the same in both states. -/
theorem namesakes_own (h : SameOwn upload.user db db') :
    ((namesakes db upload.id.text upload.filename).filter fun p => owns db upload.user p.fileId) =
      (namesakes db' upload.id.text upload.filename).filter fun p =>
        owns db' upload.user p.fileId := by
  have hswap : ∀ db : Database, ((namesakes db upload.id.text upload.filename).filter fun p =>
        owns db upload.user p.fileId) =
      (db.snapshots.filter fun p => owns db upload.user p.fileId).filter fun p =>
        ((db.files.get? p.fileId).filter fun row => row.userId = upload.user).any
          (fun row => row.originalFilename = upload.filename) && p.fileId ≠ upload.id.text := by
    intro db
    rw [namesakes, List.filter_comm]
    apply List.filter_congr
    intro p hp
    have howns : owns db upload.user p.fileId = true := by simpa using List.of_mem_filter hp
    rw [owns, Option.any_eq_true] at howns
    obtain ⟨row, hrow, huser⟩ := howns
    rw [hrow, Option.filter_some, if_pos huser]
  rw [hswap db, hswap db', h.snapshots]
  apply List.filter_congr
  intro p _
  rw [h.files]

theorem not_undisturbed : ¬ Undisturbed db upload ↔ ∃ p, DisturbedBy db upload p := by
  rw [Undisturbed, not_forall_not]

theorem previousSnapshot_of_disturbedBy (h : DisturbedBy db upload p) :
    previousSnapshot db upload.id.text upload.filename = some p :=
  latestOf_iff.mp h.1

theorem owns_previousSnapshot (h : Undisturbed db upload)
    (hp : previousSnapshot db upload.id.text upload.filename = some p) :
    owns db upload.user p.fileId = true :=
  Bool.of_not_eq_false fun hfalse => h p ⟨latestOf_iff.mpr hp, hfalse⟩

/-- In an undisturbed state the user's own snapshots are all that matters. -/
theorem previousSnapshot_own (h : Undisturbed db upload) :
    previousSnapshot db upload.id.text upload.filename =
      lastCaptured ((namesakes db upload.id.text upload.filename).filter fun p =>
        owns db upload.user p.fileId) := by
  cases hp : previousSnapshot db upload.id.text upload.filename with
  | none =>
    have hnil : namesakes db upload.id.text upload.filename = [] := List.argmax_eq_none.mp hp
    rw [hnil]
    rfl
  | some p => exact (argmax_filter hp (owns_previousSnapshot h hp)).symm

theorem previousSnapshot_eq (h : SameOwn upload.user db db') (hdb : Undisturbed db upload)
    (hdb' : Undisturbed db' upload) :
    previousSnapshot db upload.id.text upload.filename =
      previousSnapshot db' upload.id.text upload.filename := by
  rw [previousSnapshot_own hdb, previousSnapshot_own hdb', namesakes_own h]

/-- A state that is disturbed has another file compared with than one that is not. -/
theorem compared_ne (h : SameOwn upload.user db db') (hp : DisturbedBy db upload p)
    (hdb' : Undisturbed db' upload) :
    (previousSnapshot db upload.id.text upload.filename).map (·.fileId) ≠
      (previousSnapshot db' upload.id.text upload.filename).map (·.fileId) := by
  rw [previousSnapshot_of_disturbedBy hp]
  intro heq
  cases hq : previousSnapshot db' upload.id.text upload.filename with
  | none =>
    rw [hq] at heq
    cases heq
  | some q =>
    rw [hq] at heq
    have hid : p.fileId = q.fileId := Option.some.inj heq
    have howns := owns_previousSnapshot hdb' hq
    rw [← hid, ← owns_eq h, hp.2] at howns
    cases howns

theorem finalize_eq (hm : uploadMetadata lib upload.filename upload.storedPath upload.content =
      .ok metadata) (hrows : ¬ MAX_ROWS_PER_FILE < metadata.rowCount) :
    (finalizeUploadedFile lib mixed db upload).1 =
      if Taken db upload then ⟨.error duplicateKey, none⟩
      else ⟨respond mixed upload metadata (previousSnapshot db upload.id.text upload.filename),
        (previousSnapshot db upload.id.text upload.filename).map (·.fileId)⟩ := by
  rw [finalizeUploadedFile, hm]
  simp only [if_neg hrows, previousSnapshot_store]
  by_cases ht : Taken db upload
  · rw [if_pos ht, if_pos (show (db.files.get? upload.id.text).isSome = true from ht)]
  · rw [if_neg ht, if_neg (show ¬ (db.files.get? upload.id.text).isSome = true from ht)]

theorem finalize_rejected (h : Rejected lib upload) :
    (finalizeUploadedFile lib mixed db upload).1 = (finalizeUploadedFile lib mixed db' upload).1 := by
  rw [finalizeUploadedFile, finalizeUploadedFile]
  cases hm : uploadMetadata lib upload.filename upload.storedPath upload.content with
  | error e => rfl
  | ok metadata =>
    simp only [if_pos (h metadata hm)]

theorem respond_ne_duplicateKey {previous : Option SchemaSnapshot} :
    respond mixed upload metadata previous ≠ .error duplicateKey := by
  rw [respond]
  have hfile : fileUploadResponse (upload.row metadata) ≠ .error duplicateKey := by
    rw [fileUploadResponse]
    split
    · exact nofun
    · exact fun h => absurd (Except.error.inj h) (by decide)
  have hdrift : buildSchemaDriftResponse mixed previous metadata.columns metadata.dtypes ≠
      .error duplicateKey := by
    unfold buildSchemaDriftResponse
    split
    · exact nofun
    · split
      · exact fun h => absurd (Except.error.inj h) (by decide)
      · dsimp only
        split
        · exact nofun
        · exact fun h => absurd (Except.error.inj h) (by decide)
  cases hd : buildSchemaDriftResponse mixed previous metadata.columns metadata.dtypes with
  | error e =>
    rw [hd] at hdrift
    exact fun h => hdrift (congrArg Except.error (Except.error.inj h))
  | ok drift =>
    cases hf : fileUploadResponse (upload.row metadata) with
    | error e =>
      rw [hf] at hfile
      exact fun h => hfile (congrArg Except.error (Except.error.inj h))
    | ok file => exact nofun

/-- The answers of two states whose latest snapshots under the name are of any users. -/
theorem same_answer_iff (h : SameOwn upload.user db db')
    (hm : uploadMetadata lib upload.filename upload.storedPath upload.content = .ok metadata) :
    ((⟨respond mixed upload metadata (previousSnapshot db upload.id.text upload.filename),
        (previousSnapshot db upload.id.text upload.filename).map (·.fileId)⟩ : Outcome) =
      ⟨respond mixed upload metadata (previousSnapshot db' upload.id.text upload.filename),
        (previousSnapshot db' upload.id.text upload.filename).map (·.fileId)⟩) ↔
      Undisturbed db upload ∧ Undisturbed db' upload ∨
        ∃ p q, DisturbedBy db upload p ∧ DisturbedBy db' upload q ∧ p.fileId = q.fileId ∧
          ComparesAlike lib mixed upload p q := by
  by_cases hdb : Undisturbed db upload
  · by_cases hdb' : Undisturbed db' upload
    · rw [previousSnapshot_eq h hdb hdb']
      exact iff_of_true rfl (Or.inl ⟨hdb, hdb'⟩)
    · obtain ⟨q, hq⟩ := not_undisturbed.mp hdb'
      have hsymm : SameOwn upload.user db' db := ⟨fun id => (h.files id).symm, h.snapshots.symm⟩
      apply iff_of_false
      · intro heq
        exact compared_ne hsymm hq hdb (congrArg Outcome.compared heq).symm
      · rintro (⟨-, hno⟩ | ⟨p, -, hp, -⟩)
        · exact hdb' hno
        · exact hdb p hp
  · obtain ⟨p, hp⟩ := not_undisturbed.mp hdb
    by_cases hdb' : Undisturbed db' upload
    · apply iff_of_false
      · intro heq
        exact compared_ne h hp hdb' (congrArg Outcome.compared heq)
      · rintro (⟨hno, -⟩ | ⟨-, q, -, hq, -⟩)
        · exact hdb hno
        · exact hdb' q hq
    · obtain ⟨q, hq⟩ := not_undisturbed.mp hdb'
      have hpp := previousSnapshot_of_disturbedBy hp
      have hqq := previousSnapshot_of_disturbedBy hq
      rw [hpp, hqq]
      constructor
      · intro heq
        have hresponse := congrArg Outcome.response heq
        have hid := congrArg Outcome.compared heq
        refine Or.inr ⟨p, q, hp, hq, Option.some.inj hid, ?_⟩
        intro metadata' hm'
        rw [hm] at hm'
        cases hm'
        exact hresponse
      · rintro (⟨hno, -⟩ | ⟨p', q', hp', hq', hid, halike⟩)
        · exact absurd hno hdb
        · obtain rfl : p = p' :=
            Option.some.inj (hpp.symm.trans (previousSnapshot_of_disturbedBy hp'))
          obtain rfl : q = q' :=
            Option.some.inj (hqq.symm.trans (previousSnapshot_of_disturbedBy hq'))
          rw [halike metadata hm, Option.map_some, Option.map_some, hid]

def fileOf (id user filename : Text) : UploadedFile where
  id := id
  originalFilename := filename
  storedPath := id
  fileSizeBytes := 10
  rowCount := 1
  columnCount := 1
  columns := [.text "name".toList]
  dtypes := ∅
  userId := user

def ownFile : Text × UploadedFile := ("11".toList, fileOf "11".toList "ann".toList "old.csv".toList)

/-- A database with one file of the user and one of somebody else under the given name. -/
def shared (filename : Text) : Database where
  files := (Dict.set ∅ ownFile.1 ownFile.2).set "22".toList
    (fileOf "22".toList "bob".toList filename)
  snapshots := [⟨"22".toList, [.text "salary".toList], ∅, 7⟩]

def alone : Database := ⟨Dict.set ∅ ownFile.1 ownFile.2, []⟩

/-- The first upload of `people.csv` by its user. -/
def firstUpload : Upload where
  id := accentId
  filename := "people.csv".toList
  storedPath := "7f3c.csv".toList
  content := accentedUtf8
  user := "ann".toList
  capturedAt := 9

theorem sameOwn_shared (filename : Text) :
    SameOwn firstUpload.user alone (shared filename) where
  files id := by
    rw [alone, shared, Dict.get?_set, Dict.get?_set]
    by_cases hid : id = "22".toList
    · subst hid
      rfl
    · rw [if_neg hid, Dict.get?_set]
  snapshots := rfl

end PipelineIQ.Api.SchemaDrift
