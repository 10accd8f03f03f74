import PipelineIQ.Pipeline.ReferenceSoundness

namespace PipelineIQ.Healing.Sandbox

open PipelineIQ.Lib PipelineIQ.Lib.Strings PipelineIQ.Lib.Yaml PipelineIQ.Lib.Traverse
open PipelineIQ.Pipeline.Parser PipelineIQ.Pipeline.Validation
open PipelineIQ.Pipeline.ReferenceSoundness
open PipelineIQ.Pipeline.Runner (Truthy)

/-! ### The execution loop of the sandbox -/

/-- Why the sandbox rejects a pipeline. -/
inductive Rejection where
  | noSampledTable (stepName fileId : Node)
  | notAvailable (stepName inputName : Node)
  | noOutput
  | other (message : Text)

def Rejection.message (py : Python) : Rejection → Text
  | .noSampledTable stepName fileId => "Load step '".toList ++ py.str stepName ++
      "' references file_id '".toList ++ py.str fileId ++ "' with no sampled table".toList
  | .notAvailable stepName inputName => "Step '".toList ++ py.str stepName ++ "' input '".toList ++
      py.str inputName ++ "' is not available in the sandbox".toList
  | .noOutput => "Sandbox pipeline produced no output".toList
  | .other message => message

/-- What runs a step on its tables: pandas for a rename, DuckDB for the rest. -/
structure Engine (Table : Type) where
  rename : StepConfig → Table → Except Text Table
  executeStep : StepConfig → Table → List (String × Table) → Except Text Table

structure State (Table : Type) where
  tableRegistry : Dict Key Table
  downstreamCounts : Dict Key Int
  lastResult : Option Table := none

variable {Table : Type}

/-- A value as the key of a dictionary. -/
def hashed (v : Node) : Except Rejection Key :=
  match v.toKey with
  | some k => .ok k
  | none => .error (.other "unhashable type".toList)

/-- `getattr(step, name, "")`. -/
def getattrOrEmpty (step : StepConfig) (name : String) : Node :=
  (Dict.find name step.fields).getD (str "")

def stepDependencies (step : StepConfig) : List Node :=
  match step.stepType with
  | .inl .load => []
  | .inl .join =>
    [getattrOrEmpty step "left", getattrOrEmpty step "right"].filter Node.truthy
  | _ => [getattrOrEmpty step "input"].filter Node.truthy

def countDependency (counts : Dict Key Int) (dependency : Node) : Except Rejection (Dict Key Int) := do
  let k ← hashed dependency
  return counts.set k ((counts.get? k).getD 0 + 1)

def dependencyCounts (steps : List StepConfig) : Except Rejection (Dict Key Int) :=
  (steps.flatMap stepDependencies).foldlM countDependency ∅

def release (s : Dict Key Table × Dict Key Int) (k : Key) : Dict Key Table × Dict Key Int :=
  match s.2.get? k with
  | none => s
  | some n => (if n - 1 ≤ 0 then s.1.erase k else s.1, s.2.set k (n - 1))

def releaseDependencies (step : StepConfig) (s : State Table) : Except Rejection (State Table) := do
  let keys ← (stepDependencies step).mapM hashed
  let (registry, counts) := keys.foldl release (s.tableRegistry, s.downstreamCounts)
  return { s with tableRegistry := registry, downstreamCounts := counts }

def requireInputTable (stepName inputName : Node) (registry : Dict Key Table) :
    Except Rejection Table := do
  let k ← hashed inputName
  match registry.get? k with
  | some table => .ok table
  | none => .error (.notAvailable stepName inputName)

def attempt {α : Type} : Except Text α → Except Rejection α
  | .ok a => .ok a
  | .error message => .error (.other message)

/-- The output of a step that is neither a source nor a save. -/
def computeStep (engine : Engine Table) (step : StepConfig) (registry : Dict Key Table) :
    Except Rejection Table :=
  match step.stepType with
  | .inl .join => do
    let left ← requireInputTable step.name (getattr step "left") registry
    let right ← requireInputTable step.name (getattr step "right") registry
    attempt (engine.executeStep step left [("__left__", left), ("__right__", right)])
  | .inl .rename => do
    let input ← requireInputTable step.name (getattrOrEmpty step "input") registry
    attempt (engine.rename step input)
  | .inl .validate => requireInputTable step.name (getattrOrEmpty step "input") registry
  | _ => do
    let input ← requireInputTable step.name (getattrOrEmpty step "input") registry
    attempt (engine.executeStep step input [])

def store (step : StepConfig) (table : Table) (s : State Table) : Except Rejection (State Table) := do
  let name ← hashed step.name
  return { s with tableRegistry := s.tableRegistry.set name table, lastResult := some table }

/-- The body of the loop. A save keeps its input, or the last result, and has no output of its own. -/
def loopBody (engine : Engine Table) (sampledTables : Key → Option Table) (s : State Table)
    (step : StepConfig) : Except Rejection (State Table) :=
  match step.stepType with
  | .inl .load => do
    let fileId ← hashed (getattr step "file_id")
    match sampledTables fileId with
    | none => .error (.noSampledTable step.name (getattr step "file_id"))
    | some table => store step table s
  | .inl .save => do
    let k ← hashed (getattr step "input")
    releaseDependencies step { s with lastResult := (s.tableRegistry.get? k).or s.lastResult }
  | _ => do
    let table ← computeStep engine step s.tableRegistry
    let s ← store step table s
    releaseDependencies step s

/-- The state of the loop when it reaches index `i`. -/
def stateBefore (engine : Engine Table) (sampledTables : Key → Option Table)
    (steps : List StepConfig) (i : Nat) : Except Rejection (State Table) := do
  let counts ← dependencyCounts steps
  (steps.take i).foldlM (loopBody engine sampledTables)
    { tableRegistry := ∅, downstreamCounts := counts }

def runPipelineInSandbox (engine : Engine Table) (sampledTables : Key → Option Table)
    (config : PipelineConfig) : Except Rejection Table := do
  let s ← stateBefore engine sampledTables config.steps config.steps.length
  match s.lastResult with
  | none => .error .noOutput
  | some table => .ok table

end PipelineIQ.Healing.Sandbox
