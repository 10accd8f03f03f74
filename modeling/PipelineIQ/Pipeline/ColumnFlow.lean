import PipelineIQ.Pipeline.Runner
import PipelineIQ.Pipeline.Steps
import PipelineIQ.Services.PipelineValidation

namespace PipelineIQ.Pipeline.ColumnFlow

open PipelineIQ.Lib PipelineIQ.Lib.Strings PipelineIQ.Services.PipelineValidation
open PipelineIQ.Pipeline.Steps (Side suffixed)
open PipelineIQ.Pipeline.Runner (Truthy Env Outcome)

/-! ### What the executors do to columns -/

/-- How an executor ends without a table: a column or a join key that its input lacks, an input
that is not in the registry, or anything else. -/
inductive StepError where
  | columnNotFound (column : Text) (availableColumns : List Text)
  | keyMissing (joinKey : Text) (side : Side) (availableColumns : List Text)
  | unresolved
  | other
  deriving DecidableEq, Repr

def StepError.missing : StepError → Bool
  | .columnNotFound _ _ | .keyMissing _ _ _ => true
  | .unresolved | .other => false

def validateColumnExists (availableColumns : List Text) (column : Text) : Except StepError Unit :=
  if column ∈ availableColumns then .ok () else .error (.columnNotFound column availableColumns)

def validateJoinKey (joinKey : Text) (side : Side) (columns : List Text) : Except StepError Unit :=
  if joinKey ∈ columns then .ok () else .error (.keyMissing joinKey side columns)

/-- The columns that the executor of a step with one input looks for before it works. -/
def validated : Config → List Text
  | .filter column => [column]
  | .select columns => columns
  | .rename mapping => mapping.keys
  | .aggregate groupBy aggregations => groupBy ++ aggregations.map Prod.fst
  | .sort by' => by'.filter fun c => strip c ≠ []
  | .pivot index columns values => index ++ [columns, values]
  | .unpivot idVars valueVars _ _ => idVars ++ valueVars
  | .deduplicate subset => subset
  | .fillNulls columns => columns
  | .sample stratifyBy => if stratifyBy = [] then [] else [stratifyBy]
  | .wasmCompute inputColumns _ => inputColumns
  | .load _ | .join _ _ _ | .save | .validate _ | .sql | .transform | .streamConsume
  | .streamPublish => []

/-- No table has two columns of one name. -/
def distinct (columns : List Text) : Option (List Text) :=
  if columns.Nodup then some columns else none

/-- `pd.merge` with its suffixes. -/
def joinedColumns (joinKey : Text) (left right : List Text) : List Text :=
  let others := right.filter (· ≠ joinKey)
  left.map (suffixed others "_left") ++ others.map (suffixed left "_right")

def flatColumn (a : Text × Text) : Text := if a.2 ≠ a.1 then a.1 ++ '_' :: a.2 else a.1

/-- `_build_aggregation_dict`, which brings the functions of a column together. -/
def aggDict (aggregations : List (Text × Text)) : Dict Text (List Text) :=
  aggregations.foldl (fun d a => d.push a.1 a.2) ∅

def renamedColumns (mapping : Dict Text Text) (columns : List Text) : List Text :=
  columns.map fun c => (mapping.get? c).getD c

/-- A new name that a column has which keeps its own. -/
def conflicts (mapping : Dict Text Text) (columns : List Text) : List Text :=
  (mapping.entries.map Prod.snd).filter fun c => c ∈ columns ∧ c ∉ mapping.keys

/-- The columns of the table of a step with one input, `none` where the step fails over them or
has no executor. `unread` are those of a step that takes them from values. -/
def returnedColumns (unread columns : List Text) : Config → Option (List Text)
  | .select requested => distinct requested
  | .rename mapping =>
    if conflicts mapping columns = [] then distinct (renamedColumns mapping columns) else none
  | .aggregate groupBy aggregations =>
    if groupBy = [] ∨ aggregations = [] then none
    else distinct (groupBy ++ (Dict.pairs (aggDict aggregations).entries).map flatColumn)
  | .unpivot idVars valueVars varName valueName =>
    if idVars.any (· ∈ valueVars) ∨ valueName ∈ columns then none
    else distinct (idVars ++ [varName, valueName])
  | .wasmCompute inputColumns outputColumn =>
    if inputColumns = [] ∨ outputColumn = [] then none
    else some (if outputColumn ∈ columns then columns else columns ++ [outputColumn])
  | .pivot _ _ _ | .sql => distinct unread
  | .transform => none
  | .load _ | .join _ _ _ | .filter _ | .sort _ | .save | .validate _ | .deduplicate _
  | .fillNulls _ | .sample _ | .streamConsume | .streamPublish => some columns

/-- A step that has not failed over its columns can still fail over the values. -/
def finish (fails : Bool) : Option (List Text) → Except StepError (List Text)
  | some columns => if fails then .error .other else .ok columns
  | none => .error .other

/-- A step with one input. -/
def onColumns (fails : Bool) (unread columns : List Text) (config : Config) :
    Except StepError (List Text) := do
  (validated config).forM (validateColumnExists columns)
  finish fails (returnedColumns unread columns config)

def onJoin (fails : Bool) (joinKey : Text) (left right : List Text) :
    Except StepError (List Text) := do
  validateJoinKey joinKey .left left
  validateJoinKey joinKey .right right
  finish fails (distinct (joinedColumns joinKey left right))

/-! ### The run -/

/-- What the columns of a run do not decide: those of the files as they are read, what the values
make of a step, and the kinds, texts and counts that the runner reports. -/
structure Surroundings where
  loaded : Text → List Text
  fails : Step → Schema → Bool
  unread : Step → Schema → List Text
  reported : Step → Bool
  describe : StepError → String
  rows : Step → Schema → Nat × Nat
  durationMs : Step → Nat

def resolve (registry : Schema) (ref : Text) : Except StepError (List Text) :=
  (registry.get? ref).elim (.error .unresolved) .ok

def executeStep (w : Surroundings) (registry : Schema) (step : Step) :
    Except StepError (List Text) :=
  match step.config with
  | .load fileId => finish (w.fails step registry) (distinct (w.loaded fileId))
  | .streamConsume => .error .other
  | .join left right on => do
    let left ← resolve registry left
    let right ← resolve registry right
    onJoin (w.fails step registry) on left right
  | config => do
    let columns ← resolve registry step.input
    onColumns (w.fails step registry) (w.unread step registry) columns config

/-- Whether the runner makes a failed summary of an error; a lookup in the registry raises a
`KeyError`, and a wasm step without its columns a `ValueError`. -/
def stepExecutionError (w : Surroundings) (step : Step) : StepError → Bool
  | .columnNotFound _ _ | .keyMissing _ _ _ => match step.config with
    | .wasmCompute _ _ => false
    | _ => true
  | .unresolved => false
  | .other => w.reported step

instance : Truthy Text := ⟨fun t => !t.isEmpty⟩

/-- The attributes that the runner reads. -/
def runnerStep (step : Step) : Runner.Step Text where
  name := step.name
  input := some step.input
  left := match step.config with
    | .join left _ _ => some left
    | _ => none
  right := match step.config with
    | .join _ right _ => some right
    | _ => none

def outcome (w : Surroundings) (Violation : Type) (registry : Schema) (step : Step) :
    Outcome Text (List Text) Violation :=
  match executeStep w registry step with
  | .ok columns => .returned
    { stepName := step.name
      outputTable := columns
      rowsIn := (w.rows step registry).1
      rowsOut := (w.rows step registry).2
      durationMs := w.durationMs step }
  | .error e =>
    if stepExecutionError w step e then .stepError (w.describe e)
    else .otherError (w.describe e)

/-- The runner over the executors of some steps, at the columns of the tables. -/
def columnEnv (w : Surroundings) (Violation : Type)
    (contract : Runner.Step Text → List Text → Option (List Violation)) (steps : List Step) :
    Env Text (List Text) Violation where
  execute registry r := (steps.find? fun step => step.name = r.name).elim
    (.otherError (w.describe .unresolved)) (outcome w Violation registry)
  validateStepContract := contract

end PipelineIQ.Pipeline.ColumnFlow
