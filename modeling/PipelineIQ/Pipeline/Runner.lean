import Mathlib.Algebra.BigOperators.Group.List.Basic
import PipelineIQ.Lib.Dict

namespace PipelineIQ.Pipeline.Runner

open PipelineIQ.Lib

/-- Truth value of a reference: an absent or empty reference is not read. -/
class Truthy (K : Type) where
  truthy : K → Bool

instance : Truthy String := ⟨fun s => s != ""⟩

/-- The attributes of a step config that the runner reads. A reference is
`none` where the config class has no such field or the field is null. -/
structure Step (K : Type) where
  name : K
  input : Option K := none
  left : Option K := none
  right : Option K := none

inductive PipelineStatus where
  | PENDING | RUNNING | COMPLETED | FAILED | CANCELLED
  deriving DecidableEq, Repr

inductive StepStatus where
  | PENDING | RUNNING | COMPLETED | FAILED | SKIPPED
  deriving DecidableEq, Repr

structure StepProgressEvent (K Violation : Type) where
  stepName : K
  stepIndex : Nat
  totalSteps : Nat
  status : StepStatus
  rowsIn : Option Nat := none
  rowsOut : Option Nat := none
  durationMs : Option Nat := none
  errorMessage : Option String := none
  contractViolations : Option (List Violation) := none

structure StepExecutionResult (K Table Violation : Type) where
  stepName : K
  outputTable : Table
  rowsIn : Nat
  rowsOut : Nat
  durationMs : Nat
  contractViolations : List Violation := []

/-- What running one step and putting its table on the bus can do: return, raise
a `StepExecutionError`, or raise any other exception. -/
inductive Outcome (K Table Violation : Type) where
  | returned (result : StepExecutionResult K Table Violation)
  | stepError (message : String)
  | otherError (message : String)

/-- The collaborators of the runner. The executor reads the registry and never
writes it; `validateStepContract` is `none` where it raises. -/
structure Env (K Table Violation : Type) where
  execute : Dict K Table → Step K → Outcome K Table Violation
  validateStepContract : Step K → Table → Option (List Violation)

structure State (K Table Violation : Type) where
  tableRegistry : Dict K Table
  remaining : Dict K Int
  stepResults : List (StepExecutionResult K Table Violation) := []
  totalRowsProcessed : Nat := 0
  events : List (StepProgressEvent K Violation) := []

/-- How the loop over the steps stops early; the events emitted so far are kept. -/
inductive Stop (K Table Violation : Type) where
  | stepError (message : String) (state : State K Table Violation)
  | otherError (message : String) (state : State K Table Violation)

structure PipelineExecutionSummary (K Table Violation : Type) where
  status : PipelineStatus
  stepResults : List (StepExecutionResult K Table Violation)
  totalRowsProcessed : Nat
  error : Option String := none

variable {K Table Violation : Type} [DecidableEq K] [Truthy K]

omit [DecidableEq K] in
def stepInputs (step : Step K) : List K :=
  ([step.input, step.left, step.right].filterMap id).filter Truthy.truthy

def countInput (counts : Dict K Int) (ref : K) : Dict K Int :=
  counts.set ref ((counts.get? ref).getD 0 + 1)

/-- How many steps read each output, with multiplicity. -/
def computeConsumerCounts (steps : List (Step K)) : Dict K Int :=
  steps.foldl (fun counts step => (stepInputs step).foldl countInput counts) ∅

/-- One decrement of the eviction loop, dropping the table on its last use. -/
def consume (stepName : K) (s : Dict K Table × Dict K Int) (ref : K) : Dict K Table × Dict K Int :=
  match s.2.get? ref with
  | none => s
  | some n =>
    (if n - 1 ≤ 0 ∧ ref ≠ stepName then s.1.erase ref else s.1, s.2.set ref (n - 1))

def storeAndEvict (tableRegistry : Dict K Table) (stepName : K) (table : Table)
    (consumed : List K) (remaining : Dict K Int) : Dict K Table × Dict K Int :=
  consumed.foldl (consume stepName) (tableRegistry.set stepName table, remaining)

omit [Truthy K] in
def emit (s : State K Table Violation) (e : StepProgressEvent K Violation) : State K Table Violation :=
  { s with events := s.events ++ [e] }

/-- Run one step with its progress events, without touching the registry. -/
def executeSingleStep (env : Env K Table Violation) (step : Step K) (index totalSteps : Nat)
    (s : State K Table Violation) :
    Except (Stop K Table Violation) (StepExecutionResult K Table Violation × State K Table Violation) :=
  let s := emit s { stepName := step.name, stepIndex := index, totalSteps, status := .RUNNING }
  match env.execute s.tableRegistry step with
  | .stepError message => .error (.stepError message (emit s
      { stepName := step.name, stepIndex := index, totalSteps, status := .FAILED,
        errorMessage := some message }))
  | .otherError message => .error (.otherError message s)
  | .returned result =>
    let violations := (env.validateStepContract step result.outputTable).getD []
    let result := { result with contractViolations := violations }
    .ok (result, emit s
      { stepName := step.name, stepIndex := index, totalSteps, status := .COMPLETED,
        rowsIn := some result.rowsIn, rowsOut := some result.rowsOut,
        durationMs := some result.durationMs, contractViolations := some violations })

/-- The body of the loop over the steps. -/
def loopBody (env : Env K Table Violation) (totalSteps index : Nat) (step : Step K)
    (s : State K Table Violation) : Except (Stop K Table Violation) (State K Table Violation) := do
  let (result, s) ← executeSingleStep env step index totalSteps s
  let (registry, remaining) :=
    storeAndEvict s.tableRegistry step.name result.outputTable (stepInputs step) s.remaining
  return { s with
    tableRegistry := registry
    remaining := remaining
    stepResults := s.stepResults ++ [result]
    totalRowsProcessed := s.totalRowsProcessed + result.rowsIn }

def loop (env : Env K Table Violation) (totalSteps : Nat) :
    Nat → List (Step K) → State K Table Violation →
      Except (Stop K Table Violation) (State K Table Violation)
  | _, [], s => .ok s
  | index, step :: rest, s => do
    let s ← loopBody env totalSteps index step s
    loop env totalSteps (index + 1) rest s

def initial (steps : List (Step K)) : State K Table Violation :=
  { tableRegistry := ∅, remaining := computeConsumerCounts steps }

/-- The state of the loop of `execute` when it reaches index `i`. -/
def stateBefore (env : Env K Table Violation) (steps : List (Step K)) (i : Nat) :
    Except (Stop K Table Violation) (State K Table Violation) :=
  loop env steps.length 0 (steps.take i) (initial steps)

/-- A step error ends the run with a summary; any other exception escapes. -/
def execute (env : Env K Table Violation) (steps : List (Step K)) :
    Except (Stop K Table Violation) (PipelineExecutionSummary K Table Violation) :=
  match loop env steps.length 0 steps (initial steps) with
  | .ok s => .ok { status := .COMPLETED, stepResults := s.stepResults,
                   totalRowsProcessed := s.totalRowsProcessed }
  | .error (.stepError message s) =>
    .ok { status := .FAILED, stepResults := s.stepResults,
          totalRowsProcessed := s.totalRowsProcessed, error := some message }
  | .error (.otherError message s) => .error (.otherError message s)

end PipelineIQ.Pipeline.Runner
