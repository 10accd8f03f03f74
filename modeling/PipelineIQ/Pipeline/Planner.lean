import PipelineIQ.Lib.Numbers
import PipelineIQ.Pipeline.Validation

namespace PipelineIQ.Pipeline.Planner

open PipelineIQ.Lib PipelineIQ.Lib.Strings PipelineIQ.Lib.Yaml PipelineIQ.Pipeline.Parser
open PipelineIQ.Pipeline.Validation PipelineIQ.Execution.SqlBuilder

/-! ### Values of any type -/

/-- `len`, `none` where it raises. -/
def len : Node → Option Nat
  | .text t => some t.length
  | .seq items => some items.length
  | .map entries => some entries.length
  | _ => none

def asNum : Node → Option Number
  | .bool b => some (.int (if b then 1 else 0))
  | .int n => some (.int n)
  | .float q => some (.float q)
  | _ => none

/-- Two lists or two texts added; what other additions give has no members. -/
def concat : Node → Node → Option Node
  | .seq a, .seq b => some (.seq (a ++ b))
  | .text a, .text b => some (.text (a ++ b))
  | _, _ => none

/-- `list(dict.fromkeys(items))`. -/
def distinct (items : List Node) : Option (List Node) := do
  let keyed ← items.mapM fun v => v.toKey.map fun k => (k, v)
  let first := keyed.foldl (fun d e => if (d.get? e.1).isSome then d else d.set e.1 e.2) (∅ : Dict Key Node)
  some (first.entries.map Prod.snd)

/-- The most digits that `int` takes. -/
def maxDigits : Nat := 4300

/-- `int` of a text. -/
def intOfText (t : Text) : Option Int :=
  if maxDigits < t.countP Char.isDigit then none
  else match int (.text t) with
    | some (.int n) => some n
    | _ => none

/-- The double that a decimal fraction of the source is. -/
def literal (q : Rat) : Rat := (Doubles.nearest q).getD 0

/-- `int(rows * fraction)`; a text is repeated, and the result read as a number. -/
def product (rows : Number) : Node → Option Int
  | .bool b => wholeProduct (if b then 1 else 0)
  | .int k => wholeProduct k
  | .float q => rows.scale q
  | .text t => match rows with
    | .int n => intOfText (List.replicate n.toNat t).flatten
    | _ => none
  | _ => none
where
  wholeProduct (k : Int) : Option Int :=
    match rows with
    | .int n => some (n * k)
    | .float q => do
      let k ← Doubles.nearest k
      (Doubles.nearest (q * k)).map Doubles.truncate
    | .infinity => none

/-! ### The plan -/

structure UploadedFile where
  id : Text
  userId : Text
  rowCount : Nat
  columns : List Text

structure StepPlan where
  stepIndex : Nat
  stepName : Node
  stepType : Node
  inputStep : Node
  inputFileId : Node
  estimatedRowsIn : Number
  estimatedRowsOut : Number
  estimatedColumns : Node
  estimatedDurationMs : Number
  willFail : Bool
  failReason : Option Text

structure ExecutionPlan where
  pipelineName : Node
  totalSteps : Nat
  estimatedTotalDurationMs : Number
  steps : List StepPlan
  filesRead : List Node
  filesWritten : List Node
  estimatedRowsProcessed : Number
  willSucceed : Bool

/-- What the steps so far leave for the next one. -/
structure State where
  stepRows : Dict Key Number := ∅
  stepColumns : Dict Key Node := ∅
  filesRead : List Node := []
  filesWritten : List Node := []

structure Estimate where
  rowsIn : Number
  rowsOut : Number
  columns : Node := .seq []
  read : List Node := []
  written : List Node := []
  failReason : Option Text := none

/-- The files of a user, or all of them. -/
def queryFiles (files : List UploadedFile) (userId : Option Text) (isAdmin : Bool) :
    List UploadedFile :=
  match userId with
  | some id => if isAdmin then files else files.filter fun f => decide (f.userId = id)
  | none => files

def fileMap (files : List UploadedFile) : Dict Text UploadedFile :=
  .ofList (files.map fun f => (f.id, f))

/-- `step_rows.get(step, 0)`. -/
def rowsOf (st : State) (step : Node) : Option Number :=
  step.toKey.map fun k => (st.stepRows.get? k).getD (.int 0)

/-- `step_columns.get(step, [])`. -/
def columnsOf (st : State) (step : Node) : Option Node :=
  step.toKey.map fun k => (st.stepColumns.get? k).getD (.seq [])

def inputRows (st : State) (inputStep : Node) : Option Number :=
  if inputStep.truthy then rowsOf st inputStep else some (.int 0)

def floorDiv : Number → Nat → Number
  | .int n, k => .int (n / k)
  | .float q, k => Number.ofNearest ⌊q / k⌋
  | .infinity, _ => .int 0

/-- The floor of infinity is no number, and no larger than anything. -/
def atLeast (least : Int) (n : Number) : Number := if (Number.int least).lt n then n else .int least

def estimateDuration (stepType : Option StepType) (rowCount : Number) : Number :=
  match stepType with
  | some .load => atLeast 10 (floorDiv rowCount 1000)
  | some .filter => atLeast 5 (floorDiv rowCount 5000)
  | some .join => atLeast 10 (floorDiv rowCount 2000)
  | some .aggregate => atLeast 10 (floorDiv rowCount 3000)
  | some .sort => atLeast 5 (floorDiv rowCount 8000)
  | some .sql => atLeast 8 (floorDiv rowCount 2500)
  | _ => atLeast 2 (floorDiv rowCount 10000)

section Estimates

variable (py : Python) (u : Unicode) (decimal : Char → Option Nat) (files : Dict Text UploadedFile)

/-- The digits of the first match of `\blimit\s+(\d+)`; `decimal` is the value of a digit. -/
def limitDigits : Option Char → Text → Option Text
  | _, [] => none
  | before, c :: text =>
    let spaces := ((c :: text).drop 5).takeWhile isSpace
    let digits := (((c :: text).drop 5).dropWhile isSpace).takeWhile fun d => (decimal d).isSome
    if wordBoundary u before (some c) && startsWithWord u "limit".toList (c :: text) &&
        !spaces.isEmpty && !digits.isEmpty then some digits
    else limitDigits (some c) text

/-- Rows of a step whose columns are those of its input. -/
def through (st : State) (raw : Entries) (rowsOut : Number → Option Number) : Option Estimate := do
  let inputStep := raw.getD (key "input") .null
  let rowsIn ← inputRows st inputStep
  let rowsOut ← rowsOut rowsIn
  let columns ← columnsOf st inputStep
  some { rowsIn, rowsOut, columns }

def scaled (factor : Rat) (least : Option Int) (rowsIn : Number) : Option Number :=
  (rowsIn.scale (literal factor)).map fun n => .int (match least with
    | some m => max m n
    | none => n)

def loadEstimate (raw : Entries) : Option Estimate :=
  let fileId := raw.getD (key "file_id") .null
  if !fileId.truthy then
    some { rowsIn := .int 0, rowsOut := .int 0, failReason := some "Load step has no file_id".toList }
  else fileId.toKey.map fun k =>
    match k with
    | .text id => match files.get? id with
      | some f =>
        { rowsIn := .int f.rowCount
          rowsOut := .int f.rowCount
          columns := .seq (f.columns.map .text)
          read := [fileId] }
      | none => missing fileId
    | _ => missing fileId
where
  missing (fileId : Node) : Estimate :=
    { rowsIn := .int 0
      rowsOut := .int 0
      failReason := some ("file_id '".toList ++ py.str fileId ++ "' not found".toList) }

def joinEstimate (st : State) (raw : Entries) : Option Estimate := do
  let left := raw.getD (key "left") (str "")
  let right := raw.getD (key "right") (str "")
  let leftRows ← rowsOf st left
  let rightRows ← rowsOf st right
  let how := raw.getD (key "how") (str "inner")
  let rowsIn ← leftRows.add rightRows
  let rowsOut := if how.same (str "inner") then leftRows.min rightRows
    else if how.same (str "outer") then rowsIn else leftRows
  let columns ← concat (← columnsOf st left) (← columnsOf st right)
  let columns ← distinct (← columns.iterate)
  some { rowsIn, rowsOut, columns := .seq columns }

def aggregateColumn : Node → Option Node
  | .map agg => some (.text (py.str (Entries.getD agg (key "column") (str "")) ++
      '_' :: py.str (Entries.getD agg (key "function") (str ""))))
  | _ => none

def aggregateEstimate (st : State) (raw : Entries) : Option Estimate := do
  let rowsIn ← inputRows st (raw.getD (key "input") .null)
  let rowsOut ← scaled (1 / 10) (some 1) rowsIn
  let groupBy ← (raw.getD (key "group_by") (.seq [])).iterate
  let aggs ← (raw.getD (key "aggregations") (.seq [])).iterate
  some { rowsIn, rowsOut, columns := .seq (groupBy ++ aggs.filterMap (aggregateColumn py)) }

def selectEstimate (st : State) (raw : Entries) : Option Estimate :=
  (inputRows st (raw.getD (key "input") .null)).map fun rows =>
    { rowsIn := rows, rowsOut := rows, columns := raw.getD (key "columns") (.seq []) }

def renamedColumn (mapping : Node) (column : Node) : Option Node := do
  let entries ← mapping.asMap
  let k ← column.toKey
  some (entries.getD k column)

def renameEstimate (st : State) (raw : Entries) : Option Estimate := do
  let inputStep := raw.getD (key "input") .null
  let rows ← inputRows st inputStep
  let inputCols ← (← columnsOf st inputStep).iterate
  let columns ← inputCols.mapM (renamedColumn (raw.getD (key "mapping") (.map [])))
  some { rowsIn := rows, rowsOut := rows, columns := .seq columns }

def pivotEstimate (st : State) (raw : Entries) : Option Estimate := do
  let rowsIn ← inputRows st (raw.getD (key "input") .null)
  let uniquePivotValues := max 1 (← rowsIn.scale (literal (1 / 10)))
  let rowsOut := max 1 (← rowsIn.quotient uniquePivotValues)
  let indexCols ← (raw.getD (key "index") (.seq [])).asSeq
  let pivotCol := raw.getD (key "columns") (str "")
  let pivoted := (List.range uniquePivotValues.toNat).map fun v =>
    Node.text (py.str pivotCol ++ '_' :: (toString v).toList)
  some { rowsIn, rowsOut := .int rowsOut, columns := .seq (indexCols ++ pivoted) }

def unpivotEstimate (st : State) (raw : Entries) : Option Estimate := do
  let rowsIn ← inputRows st (raw.getD (key "input") .null)
  let valueVars ← len (raw.getD (key "value_vars") (.seq []))
  let rowsOut ← rowsIn.times (max 1 valueVars)
  let idVars ← (raw.getD (key "id_vars") (.seq [])).iterate
  some { rowsIn, rowsOut, columns := .seq (idVars ++
    [raw.getD (key "var_name") (str "variable"), raw.getD (key "value_name") (str "value")]) }

def sampleRows (raw : Entries) (rowsIn : Number) : Option Number :=
  let n := raw.getD (key "n") .null
  let fraction := raw.getD (key "fraction") .null
  if !isNull n then (asNum n).map fun n => n.min rowsIn
  else if !isNull fraction then (product rowsIn fraction).map .int
  else some rowsIn

def sqlRows (raw : Entries) (rowsIn : Number) : Option Number := do
  let rowsOut ← scaled (8 / 10) (some 1) rowsIn
  match limitDigits u decimal none (py.str (raw.getD (key "query") (str ""))) with
  | some digits => (limitOf digits).map fun n : Nat => rowsOut.min (.int n)
  | none => some rowsOut
where
  /-- `int` of decimal digits. -/
  limitOf (digits : Text) : Option Nat :=
    if maxDigits < digits.length then none
    else some (digits.foldl (fun n d => 10 * n + (decimal d).getD 0) 0)

def saveEstimate (st : State) (raw : Entries) : Option Estimate :=
  (through st raw some).map fun e =>
    { e with written := [raw.getD (key "filename") (str "output.csv")] }

/-- The estimate of a step; a type without rules of its own passes everything on. -/
def estimate (st : State) (raw : Entries) : Option StepType → Option Estimate
  | some .load => loadEstimate py files raw
  | some .filter => through st raw (scaled (7 / 10) none)
  | some .join => joinEstimate st raw
  | some .aggregate => aggregateEstimate py st raw
  | some .select => selectEstimate st raw
  | some .rename => renameEstimate st raw
  | some .save => saveEstimate st raw
  | some .pivot => pivotEstimate py st raw
  | some .unpivot => unpivotEstimate st raw
  | some .deduplicate => through st raw (scaled (85 / 100) (some 1))
  | some .sample => through st raw (sampleRows raw)
  | some .sql => through st raw (sqlRows py u decimal raw)
  | _ => through st raw some

def nameOf (idx : Nat) (raw : Entries) : Node :=
  raw.getD (key "name") (.text ("step_".toList ++ (toString idx).toList))

def typeOf (raw : Entries) : Node := raw.getD (key "type") (str "unknown")

def planStep (st : State) (idx : Nat) (step : Node) : Option (State × StepPlan) := do
  let raw ← step.asMap
  let stepType := StepType.ofNode (typeOf raw)
  let e ← estimate py u decimal files st raw stepType
  let k ← (nameOf idx raw).toKey
  some
    ({ stepRows := st.stepRows.set k e.rowsOut
       stepColumns := st.stepColumns.set k e.columns
       filesRead := st.filesRead ++ e.read
       filesWritten := st.filesWritten ++ e.written },
     { stepIndex := idx
       stepName := nameOf idx raw
       stepType := typeOf raw
       inputStep := raw.getD (key "input") .null
       inputFileId := raw.getD (key "file_id") .null
       estimatedRowsIn := e.rowsIn
       estimatedRowsOut := e.rowsOut
       estimatedColumns := e.columns
       estimatedDurationMs := estimateDuration stepType e.rowsIn
       willFail := e.failReason.isSome
       failReason := e.failReason })

def planSteps : State → Nat → List Node → Option (State × List StepPlan)
  | st, _, [] => some (st, [])
  | st, idx, step :: steps => do
    let (st, plan) ← planStep py u decimal files st idx step
    let (st, plans) ← planSteps st (idx + 1) steps
    some (st, plan :: plans)

end Estimates

/-- `generate_execution_plan`, `none` where it raises; it reads the text as it is. -/
def generateExecutionPlan (yaml : PyYaml) (py : Python) (u : Unicode) (decimal : Char → Option Nat)
    (yamlConfig : Text) (uploadedFiles : List UploadedFile) (userId : Option Text) (isAdmin : Bool) :
    Option ExecutionPlan := do
  let raw ← (← yaml.safeLoad yamlConfig).asMap
  let pipelineRaw ← pipelineOf raw
  let stepsRaw ← (pipelineRaw.getD (key "steps") (.seq [])).iterate
  let files := fileMap (queryFiles uploadedFiles userId isAdmin)
  let (st, steps) ← planSteps py u decimal files {} 0 stepsRaw
  let duration ← Number.sum (steps.map StepPlan.estimatedDurationMs)
  let rows ← Number.sum (steps.map StepPlan.estimatedRowsIn)
  some
    { pipelineName := pipelineRaw.getD (key "name") (str "unnamed")
      totalSteps := steps.length
      estimatedTotalDurationMs := duration
      steps
      filesRead := st.filesRead
      filesWritten := st.filesWritten
      estimatedRowsProcessed := rows
      willSucceed := !steps.any StepPlan.willFail }

end PipelineIQ.Pipeline.Planner
