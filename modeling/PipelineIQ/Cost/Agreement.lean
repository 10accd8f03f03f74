import PipelineIQ.Cost.Estimator

namespace PipelineIQ.Cost.Agreement

open PipelineIQ.Lib PipelineIQ.Lib.Strings PipelineIQ.Lib.Yaml PipelineIQ.Lib.Doubles
open PipelineIQ.Lib.Traverse
open PipelineIQ.Pipeline.Parser PipelineIQ.Pipeline.Validation PipelineIQ.Pipeline.ParserErrors
open PipelineIQ.Pipeline.ReferenceSoundness PipelineIQ.Cost.Estimator

/-! ### What an estimate of a pipeline is -/

def parsedType (step : StepConfig) : Option Key :=
  match step.stepType with
  | .inl t => some (key t.value)
  | .inr v => v.toKey

/-- The output estimate of the step that a reference names: the last one of that name before. -/
def outputBefore (steps : List StepConfig) (estimates : List StepEstimate) (i : Nat) (v : Node) :
    Option Int :=
  (((steps.zip estimates).take i).reverse.find? fun p =>
    v.toKey.isSome && p.1.name.toKey == v.toKey).map fun p => p.2.rowOutEst

/-- The estimate of a step has the name and type of the step, the engine of its input size, the
rows that a step it reads puts out, and for a sample not more rows than it asks for or has. -/
structure FollowsAt (engine : StepConfig → Int → String) (steps : List StepConfig)
    (estimates : List StepEstimate) (i : Nat) (step : StepConfig) (e : StepEstimate) : Prop where
  name : e.stepName = step.name
  stepType : parsedType step = some e.stepType
  engine : e.engine = engine step e.rowInEst
  rowIn : (∃ v ∈ resolved step, (outputBefore steps estimates i v).isSome) →
    ∃ v ∈ resolved step, outputBefore steps estimates i v = some e.rowInEst
  sample : step.stepType = .inl .sample → ∀ n, getattr step "n" = .int n →
    e.rowOutEst ≤ min n e.rowInEst

structure Follows (engine : StepConfig → Int → String) (steps : List StepConfig)
    (estimates : List StepEstimate) : Prop where
  length : estimates.length = steps.length
  each : ∀ i step e, steps[i]? = some step → estimates[i]? = some e →
    FollowsAt engine steps estimates i step e

variable {env : Env} {text : Text} {config : PipelineConfig} {step : StepConfig}
  {steps : List StepConfig} {fileIds : List Text} {db : Db} {history : History} {rows : Int}
  {engine : StepConfig → Int → String}

/-! ### What the estimator reads of a parsed step -/

/-- A step of the parser: it has no attribute `type`, and its type is none of the known ones
where it is not one of them. -/
structure ParserStep (step : StepConfig) : Prop where
  noType : getattr step "type" = .null
  unknown : ∀ v, step.stepType = .inr v → StepType.ofNode v = none

theorem parserStep {py : Python} {raw : Node} (h : parseStep py raw = .ok step) :
    ParserStep step := by
  cases raw with
  | map entries =>
    have hparse := h
    rw [parseStep] at h
    cases htype : StepType.ofNode (Entries.getD entries (key "type") (str "")) with
    | none =>
      unfold parseMapping at h
      dsimp only at h
      rw [htype] at h
      cases h
      refine ⟨rfl, ?_⟩
      rintro v ⟨⟩
      exact htype
    | some t =>
      have hstep : step.stepType = .inl t := by
        rw [parseMapping_known htype] at h
        cases hfields : (buildTypedStep py t).mapM (readField entries) with
        | error e =>
          rw [hfields] at h
          cases h
        | ok fields =>
          rw [hfields] at h
          cases h
          rfl
      constructor
      · apply getattr_null (fields_of_parse hparse hstep)
        cases t <;> simp [buildTypedStep, input, rawGet, rawGetWith, onField]
      · intro v hv
        rw [hstep] at hv
        cases hv
  | _ => cases h

theorem stepType_read (h : ParserStep step) : getStepAttr step "type" (str "load") = str "load" := by
  have hattr : stepAttribute step "type" = .null := by
    rw [stepAttribute, if_neg (by decide), if_neg (by decide), if_neg (by decide)]
    exact h.noType
  rw [getStepAttr, hattr]
  rfl

theorem name_read : getStepAttr step "name" (str "step") = step.name ↔ step.name.truthy = true := by
  have hattr : stepAttribute step "name" = step.name := if_pos rfl
  rw [getStepAttr, hattr]
  split
  · next h => exact iff_of_true rfl h
  · next h =>
    refine iff_of_false ?_ h
    intro hname
    rw [← hname] at h
    exact h rfl

theorem parsedType_load (h : ParserStep step) :
    parsedType step = some (key "load") ↔ step.stepType = .inl .load := by
  unfold parsedType
  cases hstep : step.stepType with
  | inl t => cases t <;> simp [StepType.value, key]
  | inr v =>
    refine iff_of_false ?_ nofun
    intro hv
    have hnone := h.unknown v hstep
    rw [Node.text_of_toKey hv] at hnone
    cases hnone

/-! ### The numbers -/

theorem moreRows_bounds {fileId : Text} (h : 0 ≤ rows ∧ rows < 2 ^ 31) :
    0 ≤ moreRows db rows fileId ∧ moreRows db rows fileId < 2 ^ 31 := by
  unfold moreRows
  split
  · next n hn =>
    have hcount := db.rowCount_lt fileId n hn
    split
    · exact ⟨le_max_of_le_left h.1, max_lt h.2 hcount⟩
    · exact h
  · exact h

theorem estimatedRows_bounds (db : Db) (fileIds : List Text) : 1 ≤ estimatedRows db fileIds ∧ estimatedRows db fileIds < 2 ^ 31 := by
  have hfold : ∀ (ids : List Text) (rows : Int), 0 ≤ rows ∧ rows < 2 ^ 31 →
      0 ≤ ids.foldl (moreRows db) rows ∧ ids.foldl (moreRows db) rows < 2 ^ 31 := by
    intro ids
    induction ids with
    | nil => exact fun rows h => h
    | cons id ids ih => exact fun rows h => ih _ (moreRows_bounds h)
  obtain ⟨hnonneg, hlt⟩ := hfold fileIds 0 (by decide)
  unfold estimatedRows
  dsimp only
  split <;> omega

structure Bounded (history : History) : Prop where
  p50 : ∀ t p, history.historical.get? t = some p → 0 ≤ p ∧ p ≤ (2 ^ 31 : Nat)
  points : history.dataPointsUsed < 2 ^ 53

theorem bounded_empty : Bounded {} := ⟨nofun, by decide⟩

theorem bounded_load (db : Db) (t : Key) : Bounded (loadHistory db {} [t]) := by
  rw [loadHistory]
  split
  · exact bounded_empty
  · exact bounded_empty
  · next p n hp =>
    constructor
    · intro t' p' hp'
      change Dict.get? (Dict.set ∅ t p) t' = some p' at hp'
      rw [Dict.get?_set] at hp'
      split at hp'
      · cases hp'
        exact db.p50_bounds t p n hp
      · cases hp'
    · change 0 + n < 2 ^ 53
      have hn := db.points_lt t _ n hp
      omega

theorem exists_share {d : Rat} (hd : 1000 ≤ d) (h : 1 ≤ rows ∧ rows < 2 ^ 31) :
    ∃ share, nearest (rows / d) = some share ∧ 0 ≤ share ∧ share ≤ (2 ^ 22 : Nat) := by
  have hpos : 0 < d := lt_of_lt_of_le (by norm_num) hd
  have hrows : (0 : Rat) ≤ rows := Int.cast_nonneg (by omega)
  have hlt : (rows : Rat) ≤ ((2 ^ 31 : Nat) : Rat) := by
    have hcast : rows ≤ ((2 ^ 31 : Nat) : Int) := by omega
    exact_mod_cast hcast
  apply exists_nearest (div_nonneg hrows hpos.le) _ (by decide)
  rw [div_le_iff₀ hpos]
  calc (rows : Rat) ≤ ((2 ^ 31 : Nat) : Rat) := hlt
    _ ≤ ((2 ^ 22 : Nat) : Rat) * 1000 := by norm_num
    _ ≤ ((2 ^ 22 : Nat) : Rat) * d := mul_le_mul_of_nonneg_left hd (Nat.cast_nonneg _)

theorem exists_product {x y : Rat} (hx : 0 ≤ x ∧ x ≤ (2 ^ 31 : Nat))
    (hy : 0 ≤ y ∧ y ≤ (2 ^ 22 : Nat)) : ∃ z, nearest (x * y) = some z := by
  have hle : x * y ≤ ((2 ^ 53 : Nat) : Rat) := calc
    x * y ≤ ((2 ^ 31 : Nat) : Rat) * ((2 ^ 22 : Nat) : Rat) :=
      mul_le_mul hx.2 hy.2 hy.1 (Nat.cast_nonneg _)
    _ = ((2 ^ 53 : Nat) : Rat) := by norm_num
  obtain ⟨z, hz, -⟩ := exists_nearest (mul_nonneg hx.1 hy.1) hle le_rfl
  exact ⟨z, hz⟩

theorem exists_small {n d : Nat} (hn : n < 2 ^ 53) (hd : 1 ≤ d) :
    ∃ q, nearest ((n : Rat) / d) = some q := by
  obtain ⟨q, hq, -⟩ := exists_nearest (div_nonneg (Nat.cast_nonneg n) (Nat.cast_nonneg d))
    (div_le_self (Nat.cast_nonneg n) (Nat.one_le_cast.mpr hd)) hn.le
  exact ⟨q, hq⟩

/-- Rows and history of these sizes overflow nothing. -/
theorem exists_predict (hb : Bounded history) (h : 1 ≤ rows ∧ rows < 2 ^ 31) :
    ∃ p, predict history (key "load") rows = some p := by
  unfold predict
  split
  · next p50 hp50 =>
    obtain ⟨share, hshare, hbounds⟩ := exists_share (d := 10000) (by norm_num) h
    obtain ⟨ms, hms⟩ := exists_product (hb.p50 _ p50 hp50) hbounds
    obtain ⟨most, hmost⟩ := exists_small (n := 9) (d := 10) (by decide) (by decide)
    obtain ⟨points, hpoints⟩ := exists_small (d := 20) hb.points (by decide)
    rw [Nat.cast_ofNat, Nat.cast_ofNat] at hmost
    rw [Nat.cast_ofNat] at hpoints
    refine ⟨(truncate ms, min most points), ?_⟩
    simp only [hshare, hms, hmost, hpoints, Option.bind_eq_bind, Option.bind_some]
  · have hrate : ((MS_PER_1000_ROWS.find? fun e => key e.1 = key "load").map Prod.snd).getD 10 = 80 :=
      by decide +kernel
    obtain ⟨share, hshare, hbounds⟩ := exists_share (d := 1000) le_rfl h
    obtain ⟨ms, hms⟩ := exists_product (x := 80) (by norm_num) hbounds
    obtain ⟨confidence, hconfidence⟩ := exists_small (n := 4) (d := 10) (by decide) (by decide)
    rw [Nat.cast_ofNat, Nat.cast_ofNat] at hconfidence
    refine ⟨(truncate ms, confidence), ?_⟩
    simp only [hrate, hshare, hms, hconfidence, Option.bind_eq_bind, Option.bind_some]

/-! ### The estimates of a parsed pipeline -/

/-- What the estimator makes of every step of the parser. -/
def loadEstimate (rows ms : Int) (confidence : Rat) (step : StepConfig) : StepEstimate where
  stepName := getStepAttr step "name" (str "step")
  stepType := key "load"
  engine := "io"
  predictedMs := max ms 1
  confidence
  rowInEst := rows
  rowOutEst := rows

theorem estimateStep_eq {ms : Int} {confidence : Rat} (h : ParserStep step)
    (hpredict : predict history (key "load") rows = some (ms, confidence)) (peakRows : Int) :
    estimateStep env history rows step peakRows =
      some (loadEstimate peakRows ms confidence step) := by
  have hkey : (str "load").toKey = some (key "load") := rfl
  have hout : estimateOutputRows env step (key "load") peakRows = some peakRows := by
    unfold estimateOutputRows
    rw [if_neg (by decide), if_neg (by decide), if_neg (by decide), if_neg (by decide),
      if_neg (by decide)]
  have hengine : determineEngine (key "load") = "io" := by decide
  simp only [estimateStep, stepType_read h, hkey, hpredict, hout, hengine, loadEstimate,
    Option.bind_eq_bind, Option.bind_some]

/-- Every step gets the estimate of a load step, with the rows of the files. -/
theorem estimateSteps_eq {ms : Int} {confidence : Rat} (hsteps : ∀ step ∈ steps, ParserStep step)
    (hpredict : predict history (key "load") rows = some (ms, confidence)) (hrows : 1 ≤ rows) :
    estimateSteps env history rows rows steps = some (steps.map (loadEstimate rows ms confidence)) := by
  induction steps with
  | nil => rfl
  | cons step steps ih =>
    have hstep := hsteps step List.mem_cons_self
    have hpeak : max (loadEstimate rows ms confidence step).rowOutEst 1 = rows := max_eq_left hrows
    rw [estimateSteps, estimateStep_eq hstep hpredict]
    simp only [Option.bind_eq_bind, Option.bind_some, hpeak,
      ih fun s hs => hsteps s (List.mem_cons_of_mem step hs)]
    rfl

/-- The estimate of a parsed pipeline: one of a load step for every step. -/
theorem estimate_eq (h : parse env.yaml env.isWord env.py text = .ok config) (fileIds : List Text)
    (db : Db) : ∃ ms confidence c, estimatePipelineCost env text fileIds db = some c ∧
      c.stepEstimates =
        config.steps.map (loadEstimate (estimatedRows db fileIds) ms confidence) := by
  unfold estimatePipelineCost
  rw [h]
  dsimp only
  cases hempty : config.steps.isEmpty with
  | true =>
    refine ⟨0, 0, _, rfl, ?_⟩
    rw [List.isEmpty_iff.mp hempty]
    rfl
  | false =>
    have hsteps : ∀ step ∈ config.steps, ParserStep step := by
      intro step hs
      obtain ⟨raw, hraw⟩ := parsed_step h hs
      exact parserStep hraw
    have htypes : config.steps.mapM (fun step => (getStepAttr step "type" (str "load")).toKey) =
        some (config.steps.map fun _ => key "load") := by
      rw [mapM_some_iff, List.forall₂_map_right_iff, List.forall₂_same]
      intro step hs
      rw [stepType_read (hsteps step hs)]
      rfl
    have hdedup : (config.steps.map fun _ => key "load").dedup = [key "load"] := by
      rw [List.map_const', List.replicate_dedup]
      rw [Ne, List.length_eq_zero_iff, ← List.isEmpty_iff, hempty]
      nofun
    have hrows := estimatedRows_bounds db fileIds
    obtain ⟨⟨ms, confidence⟩, hpredict⟩ := exists_predict (bounded_load db (key "load")) hrows
    refine ⟨ms, confidence, ?_⟩
    simp only [Bool.false_eq_true, if_false, estimateFor, htypes, hdedup, Option.bind_eq_bind,
      Option.bind_some, estimateSteps_eq hsteps hpredict hrows.1]
    exact ⟨_, rfl, rfl⟩

/-! ### Which pipelines the estimate follows -/

theorem followsAt_types {steps : List StepConfig} {rows ms : Int} {confidence : Rat}
    (hsteps : ∀ step ∈ steps, ParserStep step)
    (h : Follows engine steps (steps.map (loadEstimate rows ms confidence))) :
    ∀ step ∈ steps, (step.stepType = .inl .load ∧ step.name.truthy = true) ∧
      engine step rows = "io" := by
  intro step hs
  obtain ⟨i, hi⟩ := List.mem_iff_getElem?.mp hs
  have he : (steps.map (loadEstimate rows ms confidence))[i]? =
      some (loadEstimate rows ms confidence step) := by
    rw [List.getElem?_map, hi]
    rfl
  have hat := h.each i step _ hi he
  refine ⟨⟨?_, ?_⟩, hat.engine.symm⟩
  · exact (parsedType_load (hsteps step hs)).mp hat.stepType
  · exact name_read.mp hat.name

theorem follows_of_loads {rows ms : Int} {confidence : Rat}
    (h : ∀ step ∈ steps, step.stepType = .inl .load ∧ step.name.truthy = true)
    (hengine : ∀ step ∈ steps, engine step rows = "io") :
    Follows engine steps (steps.map (loadEstimate rows ms confidence)) := by
  constructor
  · exact List.length_map _
  · intro i step e hstep he
    rw [List.getElem?_map, hstep, Option.map_some, Option.some.injEq] at he
    subst he
    have hs := List.mem_of_getElem? hstep
    obtain ⟨htype, hname⟩ := h step hs
    constructor
    · exact name_read.mpr hname
    · rw [parsedType, htype]
      rfl
    · exact (hengine step hs).symm
    · rintro ⟨v, hv, -⟩
      rw [resolved, htype] at hv
      cases hv
    · intro hsample
      rw [htype] at hsample
      cases hsample

theorem routedEngine_ne (py : Python) (step : StepConfig) (rows : Int) :
    routedEngine py step rows ≠ "io" := by
  unfold routedEngine
  dsimp only
  split
  · decide
  · split
    · split <;> decide
    · split <;> decide

/-- With the engines of the router the estimate follows a parsed pipeline exactly when it has no
steps; with the labels that the estimates have for files and modules, exactly when every step
loads a file and has a name. -/
theorem estimate_follows_iff (h : parse env.yaml env.isWord env.py text = .ok config)
    (fileIds : List Text) (db : Db) :
    ((∃ c, estimatePipelineCost env text fileIds db = some c ∧
      Follows (routedEngine env.py) config.steps c.stepEstimates) ↔ config.steps = []) ∧
    ((∃ c, estimatePipelineCost env text fileIds db = some c ∧
      Follows (labelledEngine env.py) config.steps c.stepEstimates) ↔
        ∀ step ∈ config.steps, step.stepType = .inl .load ∧ step.name.truthy = true) := by
  have hsteps : ∀ step ∈ config.steps, ParserStep step := by
    intro step hs
    obtain ⟨raw, hraw⟩ := parsed_step h hs
    exact parserStep hraw
  obtain ⟨ms, confidence, c, hc, hestimates⟩ := estimate_eq h fileIds db
  simp only [hc, Option.some.injEq, exists_eq_left', hestimates]
  refine ⟨⟨?_, ?_⟩, ?_, ?_⟩
  · intro hf
    rw [List.eq_nil_iff_forall_not_mem]
    intro step hs
    exact routedEngine_ne env.py step _ (followsAt_types hsteps hf step hs).2
  · intro hnil
    rw [hnil]
    exact follows_of_loads nofun nofun
  · exact fun hf step hs => (followsAt_types hsteps hf step hs).1
  · intro hloads
    apply follows_of_loads hloads
    intro step hs
    rw [labelledEngine, (hloads step hs).1]

section Examples

def filterText : Text :=
  ("name: p\nsteps:\n  - name: raw\n    type: load\n    file_id: f1\n  - name: large\n" ++
    "    type: filter\n    input: raw\n    column: amount\n    operator: greater_than\n" ++
    "    value: 100\n").toList

def filterDocument : Entries :=
  [(key "name", str "p"), (key "steps", .seq
    [.map [(key "name", str "raw"), (key "type", str "load"), (key "file_id", str "f1")],
     .map [(key "name", str "large"), (key "type", str "filter"), (key "input", str "raw"),
       (key "column", str "amount"), (key "operator", str "greater_than"),
       (key "value", .int 100)]])]

def filterConfig : PipelineConfig :=
  ⟨str "p", .null,
    [⟨str "raw", .inl .load, .null, [("file_id", str "f1"), ("alias", .null)]⟩,
     ⟨str "large", .inl .filter, .null, [("input", str "raw"), ("column", str "amount"),
       ("operator", str "greater_than"), ("value", .int 100)]⟩]⟩

def loadText : Text :=
  "name: p\nsteps:\n  - name: raw\n    type: load\n    file_id: f1\n".toList

def loadDocument : Entries :=
  [(key "name", str "p"), (key "steps", .seq
    [.map [(key "name", str "raw"), (key "type", str "load"), (key "file_id", str "f1")]])]

def loadConfig : PipelineConfig :=
  ⟨str "p", .null, [⟨str "raw", .inl .load, .null, [("file_id", str "f1"), ("alias", .null)]⟩]⟩

def readingEnv (document : Entries) : Env where
  yaml := (reading document).toPyYaml
  isWord := Char.isAlphanum
  py := numberPython
  floatOf _ := none
  describe _ := []

/-- A file of sixty thousand rows, and no run yet. -/
def newDb : Db where
  rowCount fileId := if fileId = "f1".toList then some 60000 else none
  rowCount_lt := by
    intro fileId n h
    split at h
    · cases h
      decide
    · cases h
  p50 _ := some (none, 0)
  p50_bounds := nofun
  points_lt := by
    rintro t p n ⟨⟩
    decide

/-- A filter is estimated as the reading of a file, with all rows kept. -/
theorem filter_estimated_as_load :
    parse (readingEnv filterDocument).yaml Char.isAlphanum numberPython filterText =
        .ok filterConfig ∧
      (∃ c, estimatePipelineCost (readingEnv filterDocument) filterText ["f1".toList] newDb = some c ∧
        c.stepEstimates.map (fun e => (e.stepType, e.engine, e.rowInEst, e.rowOutEst)) =
          [(key "load", "io", 60000, 60000), (key "load", "io", 60000, 60000)]) ∧
      ¬ (∃ c, estimatePipelineCost (readingEnv filterDocument) filterText ["f1".toList] newDb =
        some c ∧ Follows (routedEngine numberPython) filterConfig.steps c.stepEstimates) ∧
      ¬ ∃ c, estimatePipelineCost (readingEnv filterDocument) filterText ["f1".toList] newDb =
        some c ∧ Follows (labelledEngine numberPython) filterConfig.steps c.stepEstimates := by
  have hparse : parse (readingEnv filterDocument).yaml (readingEnv filterDocument).isWord
      (readingEnv filterDocument).py filterText = .ok filterConfig := rfl
  have hrows : estimatedRows newDb ["f1".toList] = 60000 := by decide
  obtain ⟨ms, confidence, c, hc, hestimates⟩ := estimate_eq hparse ["f1".toList] newDb
  have hno : ∀ engine : StepConfig → Int → String,
      ¬ Follows engine filterConfig.steps c.stepEstimates := by
    intro engine hf
    have htype := (hf.each 1 _ _ rfl (by rw [hestimates]; rfl)).stepType
    cases htype
  refine ⟨hparse, ⟨c, hc, ?_⟩, ?_, ?_⟩
  · rw [hestimates, hrows]
    rfl
  · rintro ⟨c', hc', hf⟩
    rw [hc] at hc'
    cases hc'
    exact hno _ hf
  · rintro ⟨c', hc', hf⟩
    rw [hc] at hc'
    cases hc'
    exact hno _ hf

theorem estimate_follows_load :
    ∃ c, estimatePipelineCost (readingEnv loadDocument) loadText ["f1".toList] newDb = some c ∧
      Follows (labelledEngine numberPython) loadConfig.steps c.stepEstimates := by
  have hparse : parse (readingEnv loadDocument).yaml (readingEnv loadDocument).isWord
      (readingEnv loadDocument).py loadText = .ok loadConfig := rfl
  apply (estimate_follows_iff hparse ["f1".toList] newDb).2.mpr
  intro step hs
  cases List.mem_singleton.mp hs
  exact ⟨rfl, rfl⟩

end Examples

end PipelineIQ.Cost.Agreement
