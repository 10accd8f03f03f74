import PipelineIQ.Pipeline.ReferenceSoundness

namespace PipelineIQ.Execution.SaveStep

open PipelineIQ.Lib PipelineIQ.Lib.Strings PipelineIQ.Lib.Yaml PipelineIQ.Lib.Traverse
open PipelineIQ.Pipeline.Parser PipelineIQ.Pipeline.Validation PipelineIQ.Pipeline.ParserErrors
open PipelineIQ.Pipeline.ReferenceSoundness

/-! ### Paths -/

/-- The last part of a path; an empty part or one that is a dot is none. -/
def pathName (path : Text) : Text :=
  ((path.splitOn '/').filter fun part => !part.isEmpty && part != ['.']).getLast?.getD []

/-- The stem and the suffix of a name. A dot that is first or last opens no suffix. -/
def splitSuffix (name : Text) : Text × Text :=
  let stem := (name.rdropWhile (· ≠ '.')).dropLast
  let suffix := name.rtakeWhile (· ≠ '.')
  if '.' ∈ name ∧ stem ≠ [] ∧ suffix ≠ [] then (stem, '.' :: suffix) else (name, [])

def pathStem (path : Text) : Text := (splitSuffix (pathName path)).1

def pathSuffix (path : Text) : Text := (splitSuffix (pathName path)).2

/-! ### The key of an output -/

def SUPPORTED_EXTENSIONS : List Text := ["csv".toList, "json".toList, "parquet".toList]

/-- The identifier of a run, which the runner makes up where there is none. -/
structure RunId where
  text : Text
  given : text ≠ []

/-- `none` is the error for a filename that is no text. -/
def resolveFilename (step : StepConfig) (run : RunId) : Option Text :=
  let filename := getattr step "filename"
  if !filename.truthy then some ("output_".toList ++ run.text.take 8 ++ ".csv".toList)
  else filename.asText

def resolveExtension (filename : Text) : Text :=
  let ext := (lowerCase (pathSuffix filename)).dropWhile (· = '.')
  if ext ∈ SUPPORTED_EXTENSIONS then ext else "csv".toList

def ensureExtension (filename ext : Text) : Text := pathStem filename ++ '.' :: ext

def objectName (run : RunId) (filename : Text) : Text :=
  "outputs/".toList ++ run.text ++ '/' :: ensureExtension filename (resolveExtension filename)

/-- The key that a step stores its output under. -/
def savedKey (run : RunId) (step : StepConfig) : Option Text :=
  match step.stepType with
  | .inl .save => (resolveFilename step run).map (objectName run)
  | _ => none

/-! ### The storage of a run -/

/-- The object store, with the step whose output a key holds. -/
abbrev Store := Dict Text Nat

def executeSaveStep (run : RunId) (store : Store) (e : StepConfig × Nat) : Store :=
  match savedKey run e.1 with
  | some key => store.set key e.2
  | none => store

/-- The store after the steps that a run gets through. -/
def storeAfter (run : RunId) (steps : List StepConfig) : Store :=
  steps.zipIdx.foldl (executeSaveStep run) ∅

/-- However far a run gets, two save steps write to different keys, and each of them finds its own
output in the store. -/
def SavesApart (run : RunId) (steps : List StepConfig) : Prop :=
  ∀ (reached i : Nat) (step : StepConfig) (key : Text), (steps.take reached)[i]? = some step →
    savedKey run step = some key →
      (∀ (j : Nat) (other : StepConfig), j ≠ i → (steps.take reached)[j]? = some other →
        savedKey run other ≠ some key) ∧
      (storeAfter run (steps.take reached)).get? key = some i

/-- Two filenames differ in their stem or in the format that their suffix asks for. -/
def FilenamesApart (filename filename' : Text) : Prop :=
  pathStem filename ≠ pathStem filename' ∨ resolveExtension filename ≠ resolveExtension filename'

instance (filename filename' : Text) : Decidable (FilenamesApart filename filename') :=
  inferInstanceAs (Decidable (_ ∨ _))

/-- The filename of a save step, where it is a text. -/
def savedFilename (step : StepConfig) : Option Text :=
  match step.stepType with
  | .inl .save => (getattr step "filename").asText
  | _ => none

/-! ### Keys -/

section Keys

variable {run : RunId} {filename filename' : Text}

theorem dot_notMem_resolveExtension : '.' ∉ resolveExtension filename := by
  have hsupported : ∀ ext ∈ SUPPORTED_EXTENSIONS, '.' ∉ ext := by decide
  unfold resolveExtension
  dsimp only
  split
  next h => exact hsupported _ h
  next => exact hsupported _ (by decide)

theorem objectName_eq_iff : objectName run filename = objectName run filename' ↔
    ensureExtension filename (resolveExtension filename) =
      ensureExtension filename' (resolveExtension filename') := by
  unfold objectName
  rw [List.append_cancel_left_eq, List.cons_inj_right]

/-- A key tells the stem and the format of its filename, and no more. -/
theorem objectName_ne_iff :
    objectName run filename ≠ objectName run filename' ↔ FilenamesApart filename filename' := by
  rw [FilenamesApart, ne_eq, ← not_and_or, not_iff_not, objectName_eq_iff]
  constructor
  · intro h
    unfold ensureExtension at h
    exact append_last_inj dot_notMem_resolveExtension dot_notMem_resolveExtension h
  · rintro ⟨hstem, hext⟩
    unfold ensureExtension
    rw [hstem, hext]

end Keys

/-! ### Runs -/

section Runs

variable {run : RunId} {steps : List StepConfig}

/-- Different steps have different keys. -/
def KeysDiffer (run : RunId) (steps : List StepConfig) : Prop :=
  ∀ (i j : Nat) (step other : StepConfig) (key : Text), i ≠ j → steps[i]? = some step → steps[j]? = some other →
    savedKey run step = some key → savedKey run other ≠ some key

theorem KeysDiffer.take (h : KeysDiffer run steps) (reached : Nat) :
    KeysDiffer run (steps.take reached) := by
  intro i j step other key hij hi hj
  rw [List.getElem?_take] at hi hj
  split at hi
  next =>
    split at hj
    next => exact h i j step other key hij hi hj
    next => cases hj
  next => cases hi

theorem storeAfter_concat (steps : List StepConfig) (step : StepConfig) :
    storeAfter run (steps ++ [step]) =
      executeSaveStep run (storeAfter run steps) (step, steps.length) := by
  rw [storeAfter, List.zipIdx_append, List.foldl_append, Nat.zero_add]
  rfl

theorem get?_executeSaveStep {store : Store} {step : StepConfig} {n : Nat} {key : Text} :
    (executeSaveStep run store (step, n)).get? key =
      if savedKey run step = some key then some n else store.get? key := by
  unfold executeSaveStep
  cases hkey : savedKey run step with
  | none => rfl
  | some key' =>
    dsimp only
    rw [Dict.get?_set]
    by_cases h : key = key'
    · rw [if_pos h, if_pos (congrArg some h.symm)]
    · rw [if_neg h, if_neg (by simpa [eq_comm] using h)]

/-- Where keys differ, an output stays as it was written. -/
theorem get?_storeAfter (h : KeysDiffer run steps) {i : Nat} {step : StepConfig} {key : Text}
    (hi : steps[i]? = some step) (hkey : savedKey run step = some key) :
    (storeAfter run steps).get? key = some i := by
  induction steps using List.reverseRecOn generalizing i step with
  | nil => cases hi
  | append_singleton steps last ih =>
    have hlast : (steps ++ [last])[steps.length]? = some last := by simp
    rw [storeAfter_concat, get?_executeSaveStep]
    rcases Nat.lt_trichotomy i steps.length with hlt | rfl | hgt
    · rw [if_neg (h i steps.length step last key (Nat.ne_of_lt hlt) hi hlast hkey)]
      rw [List.getElem?_append_left hlt] at hi
      have htake := h.take steps.length
      rw [List.take_left] at htake
      exact ih htake hi hkey
    · rw [hlast, Option.some.injEq] at hi
      rw [hi, if_pos hkey]
    · rw [List.getElem?_eq_none (by simp; omega)] at hi
      cases hi

theorem savesApart_iff : SavesApart run steps ↔ KeysDiffer run steps := by
  constructor
  · intro h i j step other key hij hi hj hkey
    have hall := h steps.length
    rw [List.take_length] at hall
    exact (hall i step key hi hkey).1 j other hij.symm hj
  · intro h reached i step key hi hkey
    exact ⟨fun j other hji hj => h.take reached i j step other key hji.symm hi hj hkey,
      get?_storeAfter (h.take reached) hi hkey⟩

end Runs

/-! ### Validated pipelines -/

section Valid

variable {py : Python} {u : SqlBuilder.Unicode} {maxPipelineSteps : Nat}
  {registeredFileIds : List Text} {config : PipelineConfig} {step : StepConfig}

/-- A validated save step has a filename, so its key comes from that one. -/
theorem savedKey_of_valid {result : ValidationResult}
    (h : validate py u maxPipelineSteps registeredFileIds config = some result)
    (he : result.errors = []) (hs : step ∈ config.steps) (run : RunId) :
    savedKey run step = (savedFilename step).map (objectName run) := by
  have hfilename := forSteps_nil.mp (checks_nil h he (forSteps (saveFilename py)) (by simp [checks]))
    step hs
  unfold saveFilename at hfilename
  unfold savedKey savedFilename
  cases htype : step.stepType with
  | inr v => rfl
  | inl type =>
    cases type with
    | save =>
      rw [htype] at hfilename
      dsimp only at hfilename ⊢
      unfold resolveFilename
      dsimp only
      cases htruthy : (getattr step "filename").truthy with
      | true => rfl
      | false =>
        rw [htruthy] at hfilename
        cases failWhen_nil (Option.some.inj hfilename)
    | _ => rfl

/-- The saves of every run of a validated pipeline stay apart exactly when the filenames of its
save steps do, each with its suffix read as one of the formats. -/
theorem saves_apart_iff (py : Python) (u : SqlBuilder.Unicode) (maxPipelineSteps : Nat)
    (registeredFileIds : List Text) (config : PipelineConfig) (result : ValidationResult)
    (hvalid : validate py u maxPipelineSteps registeredFileIds config = some result)
    (herrors : result.errors = []) (run : RunId) :
    SavesApart run config.steps ↔
      (config.steps.filterMap savedFilename).Pairwise FilenamesApart := by
  have hkey : ∀ step ∈ config.steps, savedKey run step =
      (savedFilename step).map (objectName run) :=
    fun step hs => savedKey_of_valid hvalid herrors hs run
  rw [savesApart_iff, List.pairwise_filterMap, List.pairwise_iff_getElem]
  constructor
  · intro h i j hi hj hij filename hf filename' hf'
    have hdiffer := h i j config.steps[i] config.steps[j] (objectName run filename)
      (Nat.ne_of_lt hij) (List.getElem?_eq_getElem hi) (List.getElem?_eq_getElem hj)
    rw [hkey _ (List.getElem_mem hi), hkey _ (List.getElem_mem hj), hf, hf'] at hdiffer
    have hne := hdiffer rfl
    rw [Option.map_some, ne_eq, Option.some.injEq] at hne
    exact objectName_ne_iff.mp (Ne.symm hne)
  · intro h i j step other key hij hi hj hstep hother
    obtain ⟨hi', rfl⟩ := List.getElem?_eq_some_iff.mp hi
    obtain ⟨hj', rfl⟩ := List.getElem?_eq_some_iff.mp hj
    rw [hkey _ (List.getElem_mem hi'), Option.map_eq_some_iff] at hstep
    rw [hkey _ (List.getElem_mem hj'), Option.map_eq_some_iff] at hother
    obtain ⟨filename, hf, rfl⟩ := hstep
    obtain ⟨filename', hf', hsame⟩ := hother
    rcases Nat.lt_or_gt_of_ne hij with hlt | hgt
    · exact objectName_ne_iff.mpr (h i j hi' hj' hlt filename hf filename' hf') hsame.symm
    · exact objectName_ne_iff.mpr (h j i hj' hi' hgt filename' hf' filename hf) hsame

end Valid

section Examples

/-- A pipeline that saves one table twice. -/
def savedTwice (filename filename' : String) : PipelineConfig :=
  ⟨str "p", .null,
    [⟨str "raw", .inl .load, .null, [("file_id", str "f1"), ("alias", .null)]⟩,
     ⟨str "first", .inl .save, .null, [("input", str "raw"), ("filename", str filename)]⟩,
     ⟨str "second", .inl .save, .null, [("input", str "raw"), ("filename", str filename')]⟩]⟩

def someRun : RunId := ⟨"r1".toList, by decide⟩

/-- An unknown suffix becomes the one of the other file. -/
theorem report_overwritten :
    validate numberPython asciiText 50 ["f1".toList] (savedTwice "report.csv" "report.txt") =
        some clean ∧
      ¬ SavesApart someRun (savedTwice "report.csv" "report.txt").steps := by
  refine ⟨rfl, fun h => ?_⟩
  obtain ⟨hdiffer, -⟩ := h 3 1 _ _ rfl rfl
  exact hdiffer 2 _ (by decide) rfl (by decide)

theorem saves_apart_iff_formats : SavesApart someRun (savedTwice "report.csv" "report.json").steps :=
  (saves_apart_iff numberPython asciiText 50 ["f1".toList] _ clean rfl rfl someRun).mpr (by decide)

end Examples

end PipelineIQ.Execution.SaveStep
