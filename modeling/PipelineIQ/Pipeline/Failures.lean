import PipelineIQ.Lib.Strings
import PipelineIQ.Pipeline.Runner

namespace PipelineIQ.Pipeline.Failures

open PipelineIQ.Lib PipelineIQ.Lib.Strings PipelineIQ.Pipeline.Runner

/-! ### Exceptions -/

/-- `StepExecutionError` and its subclasses. -/
inductive StepErrorClass where
  | StepExecutionError | ColumnNotFoundError | InvalidOperatorError | JoinKeyMissingError
  | AggregationError | FileReadError | UnsupportedFileFormatError | FilterTypeMismatchError
  | RenameConflictError
  deriving DecidableEq, Repr

def StepErrorClass.name : StepErrorClass → Text
  | .StepExecutionError => "StepExecutionError".toList
  | .ColumnNotFoundError => "ColumnNotFoundError".toList
  | .InvalidOperatorError => "InvalidOperatorError".toList
  | .JoinKeyMissingError => "JoinKeyMissingError".toList
  | .AggregationError => "AggregationError".toList
  | .FileReadError => "FileReadError".toList
  | .UnsupportedFileFormatError => "UnsupportedFileFormatError".toList
  | .FilterTypeMismatchError => "FilterTypeMismatchError".toList
  | .RenameConflictError => "RenameConflictError".toList

/-- What a step lets out: an exception of the step family, or any other one by the name of its
class. -/
inductive Failure where
  | step (errorClass : StepErrorClass) (detail : Text)
  | other (className : Text) (message : Text)

/-- An exception with the step that raised it; those of the step family name it themselves. -/
structure Raised (K : Type) where
  stepName : K
  failure : Failure

def Failure.className : Failure → Text
  | .step errorClass _ => errorClass.name
  | .other className _ => className

def Failure.isStepError : Failure → Bool
  | .step .. => true
  | .other .. => false

/-- The text of the exception. -/
def Raised.str {K : Type} (print : K → Text) (e : Raised K) : Text :=
  match e.failure with
  | .step _ detail => "Step '".toList ++ print e.stepName ++ "': ".toList ++ detail
  | .other _ message => message

/-- What a step does: it returns, or it lets an exception out. -/
inductive Attempt (K Table Violation : Type) where
  | returned (result : StepExecutionResult K Table Violation)
  | raised (failure : Failure)

structure Executor (K Table Violation : Type) where
  execute : Dict K Table → Step K → Attempt K Table Violation
  validateStepContract : Step K → Table → Option (List Violation)

structure Summary (K Table Violation : Type) where
  status : PipelineStatus
  stepResults : List (StepExecutionResult K Table Violation)
  totalRowsProcessed : Nat
  error : Option (Raised K) := none

/-- The events of a run, and its summary unless an exception leaves the runner. -/
structure Execution (K Table Violation : Type) where
  events : List (StepProgressEvent K Violation)
  outcome : Except (Raised K) (Summary K Table Violation)

variable {K Table Violation : Type} [DecidableEq K] [Truthy K] (print : K → Text)
  (x : Executor K Table Violation)

/-! ### The runner with its exceptions -/

omit [DecidableEq K] [Truthy K] in
def executeSingleStep (step : Step K) (index totalSteps : Nat) (s : State K Table Violation) :
    Except (Raised K × State K Table Violation)
      (StepExecutionResult K Table Violation × State K Table Violation) :=
  let s := emit s { stepName := step.name, stepIndex := index, totalSteps, status := .RUNNING }
  match x.execute s.tableRegistry step with
  | .raised failure =>
    let error : Raised K := ⟨step.name, failure⟩
    match failure with
    | .step .. => .error (error, emit s
        { stepName := step.name, stepIndex := index, totalSteps, status := .FAILED,
          errorMessage := some (String.ofList (error.str print)) })
    | .other .. => .error (error, s)
  | .returned result =>
    let violations := (x.validateStepContract step result.outputTable).getD []
    let result := { result with contractViolations := violations }
    .ok (result, emit s
      { stepName := step.name, stepIndex := index, totalSteps, status := .COMPLETED,
        rowsIn := some result.rowsIn, rowsOut := some result.rowsOut,
        durationMs := some result.durationMs, contractViolations := some violations })

def loopBody (totalSteps index : Nat) (step : Step K) (s : State K Table Violation) :
    Except (Raised K × State K Table Violation) (State K Table Violation) := do
  let (result, s) ← executeSingleStep print x step index totalSteps s
  let (registry, remaining) :=
    storeAndEvict s.tableRegistry step.name result.outputTable (stepInputs step) s.remaining
  return { s with
    tableRegistry := registry
    remaining := remaining
    stepResults := s.stepResults ++ [result]
    totalRowsProcessed := s.totalRowsProcessed + result.rowsIn }

def loop (totalSteps : Nat) : Nat → List (Step K) → State K Table Violation →
    Except (Raised K × State K Table Violation) (State K Table Violation)
  | _, [], s => .ok s
  | index, step :: rest, s => do
    let s ← loopBody print x totalSteps index step s
    loop totalSteps (index + 1) rest s

/-- An exception of the step family ends the run with a summary, any other leaves the runner. -/
def execute (steps : List (Step K)) : Execution K Table Violation :=
  match loop print x steps.length 0 steps (initial steps) with
  | .ok s =>
    { events := s.events
      outcome := .ok { status := .COMPLETED, stepResults := s.stepResults,
                       totalRowsProcessed := s.totalRowsProcessed } }
  | .error (error, s) =>
    { events := s.events
      outcome := if error.failure.isStepError then
          .ok { status := .FAILED, stepResults := s.stepResults,
                totalRowsProcessed := s.totalRowsProcessed, error := some error }
        else .error error }

/-- The state before a step, where the run gets there. -/
def stateBefore (steps : List (Step K)) (i : Nat) :
    Except (Raised K × State K Table Violation) (State K Table Violation) :=
  loop print x steps.length 0 (steps.take i) (initial steps)

/-- The run gets to a step and the step lets an exception out. -/
def StopsAt (steps : List (Step K)) (i : Nat) (failure : Failure) : Prop :=
  ∃ (hi : i < steps.length) (s : State K Table Violation), stateBefore print x steps i = .ok s ∧
    x.execute s.tableRegistry steps[i] = .raised failure

/-! ### The runner without its exceptions -/

/-- Only the text of an exception is kept. -/
def Raised.forget (e : Raised K) (s : State K Table Violation) : Stop K Table Violation :=
  if e.failure.isStepError then .stepError (String.ofList (e.str print)) s
  else .otherError (String.ofList (e.str print)) s

def Executor.env : Env K Table Violation where
  execute registry step := match x.execute registry step with
    | .returned result => .returned result
    | .raised failure =>
      let message := String.ofList (Raised.str print ⟨step.name, failure⟩)
      if failure.isStepError then .stepError message else .otherError message
  validateStepContract := x.validateStepContract

def forgetError {α : Type} : Except (Raised K × State K Table Violation) α →
    Except (Stop K Table Violation) α
  | .ok a => .ok a
  | .error (e, s) => .error (e.forget print s)

omit [DecidableEq K] [Truthy K] in
theorem executeSingleStep_env (step : Step K) (index totalSteps : Nat)
    (s : State K Table Violation) :
    Runner.executeSingleStep (x.env print) step index totalSteps s =
      forgetError print (executeSingleStep print x step index totalSteps s) := by
  unfold Runner.executeSingleStep executeSingleStep Executor.env
  dsimp only
  cases hx : x.execute s.tableRegistry step with
  | returned result => simp [emit, hx, forgetError]
  | raised failure =>
    cases failure with
    | step errorClass detail =>
      simp [emit, hx, forgetError, Raised.forget, Failure.isStepError]
    | other className message =>
      simp [emit, hx, forgetError, Raised.forget, Failure.isStepError]

theorem loopBody_env (totalSteps index : Nat) (step : Step K) (s : State K Table Violation) :
    Runner.loopBody (x.env print) totalSteps index step s =
      forgetError print (loopBody print x totalSteps index step s) := by
  unfold Runner.loopBody loopBody
  rw [executeSingleStep_env]
  cases executeSingleStep print x step index totalSteps s with
  | ok v => rfl
  | error e => rfl

/-- The runner is this one with the exceptions reduced to their texts. -/
theorem loop_env (totalSteps index : Nat) (steps : List (Step K)) (s : State K Table Violation) :
    Runner.loop (x.env print) totalSteps index steps s =
      forgetError print (loop print x totalSteps index steps s) := by
  induction steps generalizing index s with
  | nil => rfl
  | cons step steps ih =>
    unfold Runner.loop loop
    rw [loopBody_env]
    cases loopBody print x totalSteps index step s with
    | ok t => exact ih (index + 1) t
    | error e => rfl

end PipelineIQ.Pipeline.Failures
