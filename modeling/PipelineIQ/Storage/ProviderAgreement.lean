import PipelineIQ.Storage.Providers

namespace PipelineIQ.Storage.ProviderAgreement

open PipelineIQ.Lib.Strings PipelineIQ.Lib.PosixPath PipelineIQ.Storage.StorageKey
open PipelineIQ.Storage.Providers

/-! ### Two stores in step -/

section Statement

variable {σ : Type} (L : LocalStorageProvider) (B : Bucket σ)

/-- Where the file of a key is. -/
def place (key : Text) : Path := L.resolvedBase ++ key.splitOn '/'

/-- The keys that some operations use. -/
def keysOf (operations : List Operation) : List Text :=
  operations.filterMap fun o => (validateStorageKey o.path).toOption

/-- No key leads to a directory of another one. -/
def PrefixFree (keys : List Text) : Prop :=
  ∀ key ∈ keys, ∀ key' ∈ keys, key.splitOn '/' <+: key'.splitOn '/' → key = key'

instance (keys : List Text) : Decidable (PrefixFree keys) :=
  inferInstanceAs (Decidable (∀ key ∈ keys, ∀ key' ∈ keys,
    key.splitOn '/' <+: key'.splitOn '/' → key = key'))

/-- The files of some keys are the objects under them. -/
def SameContent (keys : List Text) (fs : FileSystem) (s : σ) : Prop :=
  ∀ key ∈ keys, fs (place L key) = (B.getObject s key).map Node.file

/-- Both providers give the same answers, and keep the same content after each operation. -/
def Lockstep (keys : List Text) : FileSystem → σ → List Operation → Prop
  | fs, s, [] => SameContent L B keys fs s
  | fs, s, o :: operations => SameContent L B keys fs s ∧
      (L.perform fs o).2 = (S3StorageProvider.perform B s o).2 ∧
      Lockstep keys (L.perform fs o).1 (S3StorageProvider.perform B s o).1 operations

/-- What a stream leaves of a local file where it is refused, `none` where it is taken. -/
def residue (chunks : List Bytes) (fails : Bool) (maxSize : Nat) : Option (Option Bytes) :=
  match writeChunks maxSize 0 [] chunks with
  | none => some none
  | some data => if fails then some (some data) else if data = [] then some none else none

/-- A stream that is refused is one whose object is already what the stream leaves of the file. -/
def Harmless (s : σ) : Operation → Prop
  | .uploadStream path chunks fails maxSize => ∀ key, validateStorageKey path = .ok key →
      ∀ left ∈ residue chunks fails maxSize, B.getObject s key = left
  | _ => True

/-- Every operation of a run on the bucket is harmless. -/
def HarmlessRun : σ → List Operation → Prop
  | _, [] => True
  | s, o :: operations => Harmless B s o ∧
      HarmlessRun (S3StorageProvider.perform B s o).1 operations

end Statement

variable {σ : Type} {L : LocalStorageProvider} {B : Bucket σ} {keys : List Text}
  {fs fs' : FileSystem} {s s' : σ} {key key' path : Text} {o : Operation}

/-! ### Keys and places -/

theorem proper_of_validated (h : validateStorageKey path = .ok key) :
    ∀ segment ∈ key.splitOn '/', Proper segment := by
  rw [validateStorageKey] at h
  split at h
  · cases h
  · dsimp only at h
    split at h
    · cases h
    · split at h
      · cases h
      · next hparts =>
        cases h
        exact any_improper.mp (Bool.eq_false_iff.mpr hparts)

theorem splitOn_ne_nil (key : Text) : key.splitOn '/' ≠ [] := by
  intro hnil
  have hjoined : ['/'].intercalate (key.splitOn '/') = key := List.intercalate_splitOn '/'
  rw [hnil] at hjoined
  rw [← hjoined] at hnil
  cases hnil

theorem place_ne_nil (key : Text) : place L key ≠ [] :=
  List.append_ne_nil_of_right_ne_nil _ (splitOn_ne_nil key)

/-- The second check never fails, so that a key leads to its place. -/
theorem getFullPath_of_validated (h : validateStorageKey path = .ok key) :
    L.getFullPath path = .ok (place L key) := by
  have htarget := target_join rfl (proper_of_validated h) L.resolved
  have hbelow : L.resolvedBase ∈ (place L key).dropLast.inits := by
    rw [List.mem_inits, place, List.dropLast_append_of_ne_nil (splitOn_ne_nil key)]
    exact List.prefix_append _ _
  rw [LocalStorageProvider.getFullPath, h]
  dsimp only
  rw [htarget]
  exact if_neg fun hesc => hesc.2 hbelow

theorem getFullPath_of_refused {e : InvalidStorageKey} (h : validateStorageKey path = .error e) :
    L.getFullPath path = .error (.invalidKey e.key) := by
  rw [LocalStorageProvider.getFullPath, h]

theorem eq_of_place_below (hfree : PrefixFree keys) (hkey : key ∈ keys) (hkey' : key' ∈ keys)
    (h : place L key <+: place L key') : key = key' :=
  hfree key hkey key' hkey' ((List.prefix_append_right_inj _).mp h)

theorem not_prefix_dropLast {p : Path} (hne : p ≠ []) : ¬ p <+: p.dropLast := by
  intro h
  have hlen := h.length_le
  rw [List.length_dropLast] at hlen
  have hpos := List.length_pos_iff.mpr hne
  omega

/-! ### The invariant -/

/-- The files are the objects, and no file is in the way of a directory. -/
structure Matches (L : LocalStorageProvider) (B : Bucket σ) (keys : List Text) (fs : FileSystem)
    (s : σ) : Prop where
  content : SameContent L B keys fs s
  above : ∀ key ∈ keys, ∀ p, p <+: place L key → p ≠ place L key → ∀ data, fs p ≠ some (.file data)

theorem matches_fresh (hempty : ∀ key, B.getObject s key = none) :
    Matches L B keys L.fresh s := by
  constructor
  · intro key _
    rw [hempty, LocalStorageProvider.fresh, if_neg]
    · rfl
    · intro hbelow
      have hlen := hbelow.length_le
      rw [place, List.length_append] at hlen
      have hpos := List.length_pos_iff.mpr (splitOn_ne_nil key)
      omega
  · intro key _ p _ _ data h
    rw [LocalStorageProvider.fresh] at h
    split at h <;> cases h

/-- A change of one object and its file, with the directories of the file made. -/
theorem Matches.change (h : Matches L B keys fs s) (hfree : PrefixFree keys) (hkey : key ∈ keys)
    (hhere : fs' (place L key) = (B.getObject s' key).map Node.file)
    (hfiles : ∀ p ≠ place L key,
      fs' p = fs p ∨ fs' p = some .directory ∧ p <+: (place L key).dropLast)
    (hobjects : ∀ key' ≠ key, B.getObject s' key' = B.getObject s key') :
    Matches L B keys fs' s' := by
  constructor
  · intro key' hkey'
    by_cases heq : key' = key
    · rw [heq, hhere]
    · have hne : place L key' ≠ place L key := fun hplace =>
        heq (eq_of_place_below hfree hkey' hkey ⟨[], by rw [List.append_nil, hplace]⟩)
      rw [hobjects key' heq, ← h.content key' hkey']
      obtain hsame | ⟨-, hdir⟩ := hfiles _ hne
      · exact hsame
      · exact absurd (eq_of_place_below hfree hkey' hkey (hdir.trans (List.dropLast_prefix _))) heq
  · intro key' hkey' p hp hne data hfile
    by_cases hplace : p = place L key
    · have heq := eq_of_place_below hfree hkey hkey' (hplace ▸ hp)
      exact hne (hplace.trans (congrArg (place L) heq))
    · obtain hsame | ⟨hdir, -⟩ := hfiles p hplace
      · exact h.above key' hkey' p hp hne data (hsame ▸ hfile)
      · rw [hdir] at hfile
        cases hfile

/-! ### One operation -/

/-- The filesystem once the directories of a key are made. -/
def madeFor (L : LocalStorageProvider) (fs : FileSystem) (key : Text) : FileSystem := fun p =>
  if p <+: (place L key).dropLast then some .directory else fs p

theorem madeFor_place : madeFor L fs key (place L key) = fs (place L key) :=
  if_neg (not_prefix_dropLast (place_ne_nil key))

/-- A file of a key can always be opened to be written. -/
theorem Matches.openForWriting (h : Matches L B keys fs s) (hkey : key ∈ keys)
    (hvalid : validateStorageKey path = .ok key) : L.openForWriting fs path =
      (write (madeFor L fs key) (place L key) [], .ok (place L key)) := by
  have hfree : ¬ ((place L key).dropLast.inits.any fun p => (fs p).any Node.isFile) = true := by
    rw [List.any_eq_true]
    rintro ⟨p, hp, hfile⟩
    rw [List.mem_inits] at hp
    have hne : p ≠ place L key := fun heq => not_prefix_dropLast (place_ne_nil key) (heq ▸ hp)
    cases hnode : fs p with
    | none =>
      rw [hnode] at hfile
      cases hfile
    | some node =>
      cases node with
      | directory =>
        rw [hnode] at hfile
        cases hfile
      | file data => exact h.above key hkey p (hp.trans (List.dropLast_prefix _)) hne data hnode
  have hmade : mkdirs fs (place L key).dropLast = .ok (madeFor L fs key) := if_neg hfree
  rw [LocalStorageProvider.openForWriting, getFullPath_of_validated hvalid]
  dsimp only
  rw [hmade]
  dsimp only
  rw [if_neg]
  rw [madeFor_place, h.content key hkey]
  cases B.getObject s key with
  | none => exact fun hn => by cases hn
  | some data => exact fun hn => by cases hn

theorem write_other {p q : Path} {data : Bytes} (h : q ≠ p) : write fs p data q = fs q :=
  Function.update_of_ne h _ _

theorem madeFor_other {p : Path} : madeFor L fs key p = fs p ∨
    madeFor L fs key p = some .directory ∧ p <+: (place L key).dropLast := by
  rw [madeFor]
  split
  · next h => exact .inr ⟨rfl, h⟩
  · exact .inl rfl

/-- A file that has been written, opened before. -/
theorem Matches.written (h : Matches L B keys fs s) (hfree : PrefixFree keys) (hkey : key ∈ keys)
    {data : Bytes} (hget : B.getObject s' key = some data)
    (hobjects : ∀ key' ≠ key, B.getObject s' key' = B.getObject s key') :
    Matches L B keys (write (write (madeFor L fs key) (place L key) []) (place L key) data) s' := by
  refine h.change hfree hkey ?_ (fun p hp => ?_) hobjects
  · rw [hget]
    exact Function.update_self _ _ _
  · rw [write_other hp, write_other hp]
    exact madeFor_other

/-- A file that has been taken away, opened before. -/
theorem Matches.unlinked (h : Matches L B keys fs s) (hfree : PrefixFree keys) (hkey : key ∈ keys)
    (hget : B.getObject s' key = none)
    (hobjects : ∀ key' ≠ key, B.getObject s' key' = B.getObject s key') :
    Matches L B keys (unlink (write (madeFor L fs key) (place L key) []) (place L key)) s' := by
  refine h.change hfree hkey ?_ (fun p hp => ?_) hobjects
  · rw [hget]
    exact Function.update_self _ _ _
  · rw [unlink, Function.update_of_ne hp, write_other hp]
    exact madeFor_other

section Step

variable (h : Matches L B keys fs s) (hfree : PrefixFree keys)

include h hfree in
theorem upload_step (data : Bytes) (hvalid : validateStorageKey path = .ok key)
    (hkey : key ∈ keys) : L.upload fs path data =
      (write (write (madeFor L fs key) (place L key) []) (place L key) data, .stored) ∧
    S3StorageProvider.perform B s (.upload path data) = (B.putObject s key data, .stored) ∧
    Matches L B keys (write (write (madeFor L fs key) (place L key) []) (place L key) data)
      (B.putObject s key data) := by
  refine ⟨?_, ?_, ?_⟩
  · rw [LocalStorageProvider.upload, h.openForWriting hkey hvalid]
  · rw [S3StorageProvider.perform, S3StorageProvider.onKey, hvalid]
  · refine h.written hfree hkey ?_ (fun key' hne => ?_)
    · rw [B.get_put, if_pos rfl]
    · rw [B.get_put, if_neg hne]

include h hfree in
/-- A stream gets one answer, and leaves one content exactly where it is harmless. -/
theorem uploadStream_step (chunks : List Bytes) (fails : Bool) (maxSize : Nat)
    (hvalid : validateStorageKey path = .ok key) (hkey : key ∈ keys) :
    (L.uploadStream fs path chunks fails maxSize).2 =
      (S3StorageProvider.uploadStream B s key chunks fails maxSize).2 ∧
    (SameContent L B keys (L.uploadStream fs path chunks fails maxSize).1
      (S3StorageProvider.uploadStream B s key chunks fails maxSize).1 →
        ∀ left ∈ residue chunks fails maxSize, B.getObject s key = left) ∧
    ((∀ left ∈ residue chunks fails maxSize, B.getObject s key = left) →
      Matches L B keys (L.uploadStream fs path chunks fails maxSize).1
        (S3StorageProvider.uploadStream B s key chunks fails maxSize).1) := by
  have hsame : ∀ key' ≠ key, B.getObject s key' = B.getObject s key' := fun _ _ => rfl
  -- What the local provider has at the key is what the bucket has there.
  have hleft : ∀ {fs' : FileSystem} {left : Option Bytes},
      fs' (place L key) = left.map Node.file → SameContent L B keys fs' s →
        B.getObject s key = left := by
    intro fs' left hplace hcontent
    have hobject := hcontent key hkey
    rw [hplace] at hobject
    exact (Option.map_injective (fun _ _ => Node.file.inj) hobject).symm
  rw [LocalStorageProvider.uploadStream, h.openForWriting hkey hvalid,
    S3StorageProvider.uploadStream, residue]
  dsimp only
  cases writeChunks maxSize 0 [] chunks with
  | none =>
    refine ⟨rfl, fun hcontent left hmem => ?_, fun hharmless => ?_⟩
    · cases hmem
      exact hleft (Function.update_self _ _ _) hcontent
    · exact h.unlinked hfree hkey (hharmless none rfl) hsame
  | some data =>
    dsimp only
    by_cases hfails : fails = true
    · rw [if_pos hfails, if_pos hfails, if_pos hfails]
      refine ⟨rfl, fun hcontent left hmem => ?_, fun hharmless => ?_⟩
      · cases hmem
        exact @hleft _ (some data) (Function.update_self _ _ _) hcontent
      · exact h.written hfree hkey (hharmless (some data) rfl) hsame
    · rw [if_neg hfails, if_neg hfails, if_neg hfails]
      by_cases hdata : data = []
      · rw [if_pos hdata, if_pos hdata, if_pos hdata]
        refine ⟨rfl, fun hcontent left hmem => ?_, fun hharmless => ?_⟩
        · cases hmem
          exact hleft (Function.update_self _ _ _) hcontent
        · exact h.unlinked hfree hkey (hharmless none rfl) hsame
      · rw [if_neg hdata, if_neg hdata, if_neg hdata]
        refine ⟨rfl, fun _ left hmem => (by cases hmem), fun _ => ?_⟩
        refine h.written hfree hkey ?_ (fun key' hne => ?_)
        · rw [B.get_put, if_pos rfl]
        · rw [B.get_put, if_neg hne]

include h in
/-- A look at a key changes nothing and finds the object. -/
theorem look_step {answer : Option Node → FileSystem × Answer}
    (hvalid : validateStorageKey path = .ok key) (hkey : key ∈ keys) :
    L.look fs path answer = answer ((B.getObject s key).map Node.file) := by
  rw [LocalStorageProvider.look, getFullPath_of_validated hvalid, ← h.content key hkey]

include h hfree in
theorem delete_step (hvalid : validateStorageKey path = .ok key) (hkey : key ∈ keys) :
    (L.delete fs path).2 = .deleted ∧
      Matches L B keys (L.delete fs path).1 (B.deleteObject s key) := by
  have hget : B.getObject (B.deleteObject s key) key = none := by rw [B.get_delete, if_pos rfl]
  have hothers : ∀ key' ≠ key,
      B.getObject (B.deleteObject s key) key' = B.getObject s key' := fun key' hne => by
    rw [B.get_delete, if_neg hne]
  have hcontent := h.content key hkey
  rw [LocalStorageProvider.delete, getFullPath_of_validated hvalid]
  dsimp only
  rw [hcontent]
  cases hobject : B.getObject s key with
  | none =>
    refine ⟨rfl, h.change hfree hkey ?_ (fun p _ => .inl rfl) hothers⟩
    rw [hget]
    rw [hobject] at hcontent
    exact hcontent
  | some data =>
    refine ⟨rfl, h.change hfree hkey ?_ (fun p hp => .inl ?_) hothers⟩
    · rw [hget]
      exact Function.update_self _ _ _
    · exact Function.update_of_ne hp _ _

omit h hfree in
theorem perform_refused {e : InvalidStorageKey} (hvalid : validateStorageKey o.path = .error e) :
    L.perform fs o = (fs, .raised (.invalidKey e.key)) := by
  have hpath := getFullPath_of_refused (L := L) hvalid
  cases o with
  | upload path data =>
    change L.getFullPath path = _ at hpath
    rw [LocalStorageProvider.perform, LocalStorageProvider.upload,
      LocalStorageProvider.openForWriting, hpath]
  | uploadStream path chunks fails maxSize =>
    change L.getFullPath path = _ at hpath
    rw [LocalStorageProvider.perform, LocalStorageProvider.uploadStream,
      LocalStorageProvider.openForWriting, hpath]
  | delete path =>
    change L.getFullPath path = _ at hpath
    rw [LocalStorageProvider.perform, LocalStorageProvider.delete, hpath]
  | download path =>
    change L.getFullPath path = _ at hpath
    rw [LocalStorageProvider.perform, LocalStorageProvider.download, LocalStorageProvider.look, hpath]
  | fileExists path =>
    change L.getFullPath path = _ at hpath
    rw [LocalStorageProvider.perform, LocalStorageProvider.fileExists, LocalStorageProvider.look,
      hpath]
  | getSize path =>
    change L.getFullPath path = _ at hpath
    rw [LocalStorageProvider.perform, LocalStorageProvider.getSize, LocalStorageProvider.look, hpath]

omit h hfree in
theorem s3_refused {e : InvalidStorageKey} (hvalid : validateStorageKey o.path = .error e) :
    S3StorageProvider.perform B s o = (s, .raised (.invalidKey e.key)) := by
  cases o with
  | upload path data | uploadStream path chunks fails maxSize | download path | delete path
  | fileExists path | getSize path =>
    change validateStorageKey path = _ at hvalid
    change S3StorageProvider.onKey s path _ = _
    rw [S3StorageProvider.onKey, hvalid]

include h hfree in
/-- Over stores in step, an operation gets one answer, and leaves one content exactly where it is
harmless. -/
theorem perform_step (hkeys : ∀ key, validateStorageKey o.path = .ok key → key ∈ keys) :
    (L.perform fs o).2 = (S3StorageProvider.perform B s o).2 ∧
    (SameContent L B keys (L.perform fs o).1 (S3StorageProvider.perform B s o).1 →
      Harmless B s o) ∧
    (Harmless B s o →
      Matches L B keys (L.perform fs o).1 (S3StorageProvider.perform B s o).1) := by
  cases hvalid : validateStorageKey o.path with
  | error e =>
    have hharmless : Harmless B s o := by
      cases o with
      | uploadStream path chunks fails maxSize =>
        intro key hkey
        change validateStorageKey path = _ at hvalid
        rw [hvalid] at hkey
        cases hkey
      | upload path data | download path | delete path | fileExists path | getSize path => trivial
    rw [perform_refused hvalid, s3_refused hvalid]
    exact ⟨rfl, fun _ => hharmless, fun _ => h⟩
  | ok key =>
    have hkey := hkeys key hvalid
    cases o with
    | upload path data =>
      obtain ⟨hlocal, hbucket, hmatches⟩ := upload_step h hfree data hvalid hkey
      change L.upload fs path data = _ at hlocal
      change S3StorageProvider.perform B s (.upload path data) = _ at hbucket
      rw [LocalStorageProvider.perform, hlocal, hbucket]
      exact ⟨rfl, fun _ => trivial, fun _ => hmatches⟩
    | uploadStream path chunks fails maxSize =>
      change validateStorageKey path = _ at hvalid
      obtain ⟨hanswer, hcontent, hmatches⟩ := uploadStream_step h hfree chunks fails maxSize
        hvalid hkey
      have hharmless : Harmless B s (.uploadStream path chunks fails maxSize) ↔
          ∀ left ∈ residue chunks fails maxSize, B.getObject s key = left := by
        rw [Harmless, hvalid]
        exact ⟨fun hall => hall key rfl, fun hall key' heq => Except.ok.inj heq ▸ hall⟩
      rw [hharmless, LocalStorageProvider.perform, S3StorageProvider.perform,
        S3StorageProvider.onKey, hvalid]
      exact ⟨hanswer, hcontent, hmatches⟩
    | delete path =>
      change validateStorageKey path = _ at hvalid
      obtain ⟨hanswer, hmatches⟩ := delete_step h hfree hvalid hkey
      rw [LocalStorageProvider.perform, S3StorageProvider.perform, S3StorageProvider.onKey, hvalid]
      exact ⟨hanswer, fun _ => trivial, fun _ => hmatches⟩
    | download path =>
      change validateStorageKey path = _ at hvalid
      rw [LocalStorageProvider.perform, LocalStorageProvider.download, look_step h hvalid hkey,
        S3StorageProvider.perform, S3StorageProvider.onKey, hvalid]
      dsimp only
      refine ⟨?_, fun _ => trivial, fun _ => ?_⟩
      · cases B.getObject s key <;> rfl
      · cases B.getObject s key <;> exact h
    | fileExists path =>
      change validateStorageKey path = _ at hvalid
      rw [LocalStorageProvider.perform, LocalStorageProvider.fileExists, look_step h hvalid hkey,
        S3StorageProvider.perform, S3StorageProvider.onKey, hvalid, Option.isSome_map]
      exact ⟨rfl, fun _ => trivial, fun _ => h⟩
    | getSize path =>
      change validateStorageKey path = _ at hvalid
      rw [LocalStorageProvider.perform, LocalStorageProvider.getSize, look_step h hvalid hkey,
        S3StorageProvider.perform, S3StorageProvider.onKey, hvalid]
      dsimp only
      refine ⟨?_, fun _ => trivial, fun _ => ?_⟩
      · cases B.getObject s key <;> rfl
      · cases B.getObject s key <;> exact h

end Step

/-! ### A run -/

theorem lockstep_iff (hfree : PrefixFree keys) {operations : List Operation}
    (hkeys : ∀ o ∈ operations, ∀ key, validateStorageKey o.path = .ok key → key ∈ keys)
    (h : Matches L B keys fs s) :
    Lockstep L B keys fs s operations ↔ HarmlessRun B s operations := by
  induction operations generalizing fs s with
  | nil => exact iff_of_true h.content trivial
  | cons o operations ih =>
    rw [List.forall_mem_cons] at hkeys
    obtain ⟨hanswer, hharmless, hmatches⟩ := perform_step h hfree hkeys.1
    have hnext : ∀ {fs : FileSystem} {s : σ}, Lockstep L B keys fs s operations →
        SameContent L B keys fs s := by
      intro fs s hsteps
      cases operations with
      | nil => exact hsteps
      | cons o operations => exact hsteps.1
    rw [Lockstep, HarmlessRun]
    constructor
    · rintro ⟨-, -, hsteps⟩
      have hclean := hharmless (hnext hsteps)
      exact ⟨hclean, (ih hkeys.2 (hmatches hclean)).mp hsteps⟩
    · rintro ⟨hclean, hrun⟩
      exact ⟨h.content, hanswer, (ih hkeys.2 (hmatches hclean)).mpr hrun⟩

section Examples

def uploads : LocalStorageProvider where
  baseDir := "uploads".toList
  resolvedBase := ["uploads".toList]
  resolved := rfl
  directorySize := 4096

def objects : Bucket (Text → Option Bytes) where
  getObject s key := s key
  putObject s key data := Function.update s key (some data)
  deleteObject s key := Function.update s key none
  get_put s key data key' := Function.update_apply s key (some data) key'
  get_delete s key key' := Function.update_apply s key none key'

/-- An object, then a stream to its key that is too long, spelled in another way. -/
def overwritten : List Operation :=
  [.upload "out/a.csv".toList [1], .uploadStream "out//a.csv".toList [[2, 3]] false 1,
   .download "out/a.csv".toList]

end Examples

end PipelineIQ.Storage.ProviderAgreement
