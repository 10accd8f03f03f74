import PipelineIQ.Lib.Doubles
import PipelineIQ.Pipeline.ReferenceSoundness

namespace PipelineIQ.Cost.Estimator

open PipelineIQ.Lib PipelineIQ.Lib.Strings PipelineIQ.Lib.Yaml PipelineIQ.Lib.Doubles
open PipelineIQ.Pipeline.Parser PipelineIQ.Pipeline.Validation

def MS_PER_1000_ROWS : List (String × Rat) :=
  [("load", 80), ("filter", 5), ("aggregate", 15), ("join", 25), ("sort", 20), ("select", 2),
    ("transform", 10), ("validate", 12), ("save", 100), ("pivot", 30), ("unpivot", 20),
    ("deduplicate", 10), ("fill_nulls", 5), ("rename", 2), ("sample", 8), ("sql", 20),
    ("wasm_compute", 50)]

def BYTES_PER_CELL : Rat := 8

def DUCKDB_STEP_TYPES : List String :=
  ["filter", "select", "sort", "aggregate", "join", "deduplicate", "fill_nulls", "sample", "pivot",
    "unpivot", "sql"]

structure StepEstimate where
  stepName : Node
  stepType : Key
  engine : String
  predictedMs : Int
  confidence : Rat
  rowInEst : Int
  rowOutEst : Int

/-- The memory and the confidence are floats; `none` is the infinite one. -/
structure CostEstimate where
  totalMs : Int
  peakMemoryMb : Option Rat
  stepEstimates : List StepEstimate := []
  confidence : Option Rat := some 0
  optimizationTip : Text := []
  dataPointsUsed : Nat := 0

/-- The loader, the texts that Python makes of values and errors, and the numbers it reads in
texts. -/
structure Env where
  yaml : PyYaml
  isWord : Char → Bool
  py : Python
  floatOf : Text → Option Rat
  describe : ParseError → Text

/-- The rows that the first profile of a file counts, and the median and the number of the past
durations of a type; `none` where nothing is found or the query raises. Both counts and durations
are whole numbers of 32 bits. -/
structure Db where
  rowCount : Text → Option Int
  rowCount_lt : ∀ fileId n, rowCount fileId = some n → n < 2 ^ 31
  p50 : Key → Option (Option Rat × Nat)
  p50_bounds : ∀ t p n, p50 t = some (some p, n) → 0 ≤ p ∧ p ≤ (2 ^ 31 : Nat)
  points_lt : ∀ t p n, p50 t = some (p, n) → n < 2 ^ 53

/-! ### Reading a step -/

/-- `getattr(step, attr, None)`. -/
def stepAttribute (step : StepConfig) (attr : String) : Node :=
  if attr = "name" then step.name
  else if attr = "step_type" then
    match step.stepType with
    | .inl t => str t.value
    | .inr v => v
  else if attr = "contract" then step.contract
  else getattr step attr

def getStepAttr (step : StepConfig) (attr : String) (default : Node) : Node :=
  let v := stepAttribute step attr
  if v.truthy then v else default

def determineEngine (stepType : Key) : String :=
  if stepType = key "wasm_compute" then "wasm"
  else if stepType ∈ DUCKDB_STEP_TYPES.map key then "duckdb"
  else if stepType ∈ ["load", "save"].map key then "io"
  else "pandas"

/-- `float(v)`. -/
def float (env : Env) : Node → Option Rat
  | .bool b => some (if b then 1 else 0)
  | .int n => nearest n
  | .float q => some q
  | .text t => env.floatOf t
  | _ => none

/-- `int(n * share)`. -/
def portion (n : Int) (share : Rat) : Option Int := do
  let rows ← nearest n
  let product ← nearest (rows * share)
  some (truncate product)

def estimateOutputRows (env : Env) (step : StepConfig) (stepType : Key) (inputRows : Int) :
    Option Int :=
  if stepType = key "filter" then some (max (inputRows / 3) 1)
  else if stepType = key "aggregate" then some (max (inputRows / 10) 1)
  else if stepType = key "deduplicate" then do
    let share ← nearest (9 / 10)
    let rows ← portion inputRows share
    some (max rows 1)
  else if stepType = key "sample" then
    let n := getStepAttr step "n" .null
    let fraction := getStepAttr step "fraction" .null
    if n.truthy then
      match int n with
      | some (.int n) => some (min n inputRows)
      | _ => none
    else if fraction.truthy then do
      let share ← float env fraction
      let rows ← portion inputRows share
      some (max rows 1)
    else some (min 1000 inputRows)
  else if stepType = key "join" then do
    let share ← nearest (8 / 10)
    let rows ← portion inputRows share
    some (max rows 1)
  else some inputRows

/-! ### The sizes and the history -/

def moreRows (db : Db) (rows : Int) (fileId : Text) : Int :=
  match db.rowCount fileId with
  | some n => if n ≠ 0 then max rows n else rows
  | none => rows

def estimatedRows (db : Db) (fileIds : List Text) : Int :=
  let rows := fileIds.foldl (moreRows db) 0
  if rows = 0 then 10000 else rows

structure History where
  historical : Dict Key Rat := ∅
  dataPointsUsed : Nat := 0

/-- A query that raises ends the loop with what is loaded so far. -/
def loadHistory (db : Db) (history : History) : List Key → History
  | [] => history
  | stepType :: stepTypes =>
    match db.p50 stepType with
    | none => history
    | some (none, _) => loadHistory db history stepTypes
    | some (some p50, points) =>
      loadHistory db ⟨history.historical.set stepType p50, history.dataPointsUsed + points⟩ stepTypes

/-- The milliseconds of a step and the confidence in them. -/
def predict (history : History) (stepType : Key) (rows : Int) : Option (Int × Rat) :=
  match history.historical.get? stepType with
  | some p50 => do
    let share ← nearest (rows / 10000)
    let ms ← nearest (p50 * share)
    let most ← nearest (9 / 10)
    let confidence ← nearest (history.dataPointsUsed / 20)
    some (truncate ms, min most confidence)
  | none => do
    let rate := ((MS_PER_1000_ROWS.find? fun e => key e.1 = stepType).map Prod.snd).getD 10
    let share ← nearest (rows / 1000)
    let ms ← nearest (rate * share)
    let confidence ← nearest (4 / 10)
    some (truncate ms, confidence)

/-! ### The estimate -/

def estimateStep (env : Env) (history : History) (rows : Int) (step : StepConfig)
    (peakRows : Int) : Option StepEstimate := do
  let stepType ← (getStepAttr step "type" (str "load")).toKey
  let (ms, confidence) ← predict history stepType rows
  let rowOut ← estimateOutputRows env step stepType peakRows
  some {
    stepName := getStepAttr step "name" (str "step")
    stepType
    engine := determineEngine stepType
    predictedMs := max ms 1
    confidence
    rowInEst := peakRows
    rowOutEst := rowOut }

def estimateSteps (env : Env) (history : History) (rows : Int) :
    Int → List StepConfig → Option (List StepEstimate)
  | _, [] => some []
  | peakRows, step :: steps => do
    let e ← estimateStep env history rows step peakRows
    let es ← estimateSteps env history rows (max e.rowOutEst 1) steps
    some (e :: es)

def hasType (t : String) (step : StepConfig) : Bool :=
  (getStepAttr step "type" .null).toKey = some (key t)

def filterAfterAggregate (steps : List StepConfig) : Bool :=
  match steps.findIdx? (hasType "aggregate"), steps.findIdx? (hasType "filter") with
  | some aggregateIdx, some filterIdx => aggregateIdx < filterIdx
  | _, _ => false

/-- `round(q, 1)`. -/
def roundTenth (q : Rat) : Option Rat := nearest (roundEven (10 * q) / 10)

def averageConfidence (estimates : List StepEstimate) : Option Rat := do
  let total ← estimates.foldlM (fun total e => nearest (total + e.confidence)) 0
  nearest (total / estimates.length)

def peakMemory (rows : Int) (hasJoin : Bool) : Option Rat := do
  let cells ← nearest (rows * 10 : Int)
  let bytes ← nearest (cells * BYTES_PER_CELL)
  let peak ← nearest (bytes * if hasJoin then 3 else 3 / 2)
  nearest (peak / 1048576)

/-- The first of the estimates with the most milliseconds. -/
def slowest (estimates : List StepEstimate) : Option StepEstimate :=
  estimates.foldl (fun best e =>
    match best with
    | some b => if b.predictedMs < e.predictedMs then some e else some b
    | none => some e) none

def generateOptimizationTip (py : Python) (estimates : List StepEstimate)
    (filterAfterAggregate : Bool) : Text :=
  if filterAfterAggregate then
    ("Move your filter step before the aggregate — " ++
      "filtering first can reduce aggregate computation by up to 70%.").toList
  else if estimates.any fun e => e.stepType = key "wasm_compute" then
    ("Wasm UDF steps run row-by-row — " ++
      "for large datasets, consider pre-filtering with a DuckDB filter step first.").toList
  else if 1 < estimates.countP fun e => e.stepType = key "join" then
    ("Multiple joins detected — " ++
      "place the most selective join first to reduce subsequent join sizes.").toList
  else
    let efficient := "Pipeline structure looks efficient for this data size.".toList
    match slowest estimates with
    | some e =>
      if 5000 < e.predictedMs then
        '\'' :: py.str e.stepName ++ "' (".toList ++ py.str e.stepType.toNode ++
          ") is the bottleneck (~".toList ++ (toString (e.predictedMs / 1000)).toList ++
          "s estimated). Consider partitioning the input file for parallel processing.".toList
      else efficient
    | none => efficient

def failedEstimate (message : Text) : CostEstimate where
  totalMs := 0
  peakMemoryMb := some 0
  optimizationTip := "Pipeline YAML has errors: ".toList ++ message

/-- The estimate of steps; `none` where a number overflows or cannot be read. -/
def estimateFor (env : Env) (steps : List StepConfig) (fileIds : List Text) (db : Db) :
    Option CostEstimate := do
  let rows := estimatedRows db fileIds
  let stepTypes ← steps.mapM fun step => (getStepAttr step "type" (str "load")).toKey
  let history := loadHistory db {} stepTypes.dedup
  let estimates ← estimateSteps env history rows rows steps
  some {
    totalMs := (estimates.map StepEstimate.predictedMs).sum
    peakMemoryMb := (peakMemory rows (steps.any (hasType "join"))).bind roundTenth
    stepEstimates := estimates
    confidence := do
      let average ← averageConfidence estimates
      let percent ← nearest (average * 100)
      roundTenth percent
    optimizationTip := generateOptimizationTip env.py estimates (filterAfterAggregate steps)
    dataPointsUsed := history.dataPointsUsed }

def estimatePipelineCost (env : Env) (pipelineYaml : Text) (fileIds : List Text) (db : Db) :
    Option CostEstimate :=
  match parse env.yaml env.isWord env.py pipelineYaml with
  | .error e => some (failedEstimate (env.describe e))
  | .ok pipeline =>
    -- an empty list of steps is false, and then a method that the configuration lacks is called
    if pipeline.steps.isEmpty then
      some (failedEstimate "'PipelineConfig' object has no attribute 'get'".toList)
    else estimateFor env pipeline.steps fileIds db

/-! ### The router -/

def DUCKDB_THRESHOLD : Int := 50000

def DUCKDB_CAPABLE_STEPS : List String :=
  ["filter", "select", "sort", "aggregate", "join", "deduplicate", "fill_nulls", "sample", "pivot",
    "unpivot", "sql"]

/-- The type of a step as the router reads it. -/
def routedType (py : Python) (step : StepConfig) : Text :=
  lowerCase (match step.stepType with
    | .inl t => t.value.toList
    | .inr v => py.str v)

/-- The engine of a step whose inputs are there; for a join, by the larger of the two. -/
def routedEngine (py : Python) (step : StepConfig) (rows : Int) : String :=
  let stepType := routedType py step
  if stepType = "sql".toList then "duckdb"
  else if stepType = "join".toList then if DUCKDB_THRESHOLD < rows then "duckdb" else "pandas"
  else if stepType ∈ DUCKDB_CAPABLE_STEPS.map String.toList ∧ DUCKDB_THRESHOLD ≤ rows then "duckdb"
  else "pandas"

/-- The same, with the labels that the estimates have for reading and writing files and for
modules. -/
def labelledEngine (py : Python) (step : StepConfig) (rows : Int) : String :=
  match step.stepType with
  | .inl .load | .inl .save => "io"
  | .inl .wasmCompute => "wasm"
  | _ => routedEngine py step rows

end PipelineIQ.Cost.Estimator
