import PipelineIQ.Pipeline.Progress

namespace PipelineIQ.Healing.Classifier

open PipelineIQ.Lib PipelineIQ.Lib.Strings PipelineIQ.Pipeline.Failures PipelineIQ.Pipeline.Progress
open PipelineIQ.Pipeline.Runner hiding executeSingleStep loopBody loop execute stateBefore

def healableErrorTypes : List (String × String) :=
  [("ColumnNotFoundError", "column_renamed_or_removed"),
    ("JoinKeyMissingError", "join_key_missing_in_schema"),
    ("KeyError", "column_renamed_or_removed"),
    ("MergeError", "join_key_missing_in_schema"),
    ("ValueError", "type_mismatch_or_invalid_operation"),
    ("TypeError", "type_mismatch_or_invalid_operation"),
    ("AggregationError", "type_mismatch_or_invalid_operation")]

def healableErrorMessagePatterns : List String :=
  ["not found in columns", "column not found", "missing column", "does not exist", "join key",
    "key not found", "cannot convert", "type mismatch", "invalid value"]

def notHealableErrorMessagePatterns : List String :=
  ["division by zero", "index out of range", "out of memory", "memory error", "permission denied",
    "connection refused", "timeout", "syntax error", "import error", "module not found",
    "attribute error", "file not found", "failed to read file", "unsupported file format"]

def containsAny (markers : List String) (message : Text) : Bool :=
  markers.any fun marker => occurs marker.toList message

/-- The classes that the classifier may heal. -/
def healableClass (className : Text) : Bool :=
  healableErrorTypes.any fun e => e.1.toList == className

def isHealable (className message : Text) : Bool :=
  let errorMessage := lowerCase message
  if containsAny notHealableErrorMessagePatterns errorMessage then false
  else if !healableClass className then false
  else if className ∈ ["ValueError".toList, "TypeError".toList, "AggregationError".toList] then
    containsAny healableErrorMessagePatterns errorMessage
  else true

def getHealingScenario (className message : Text) : Option String :=
  if isHealable className message then
    some (((healableErrorTypes.find? fun e => e.1.toList == className).map Prod.snd).getD
      "schema_drift_detected")
  else none

structure Settings where
  autonomousHealingEnabled : Bool
  autonomousHealingMaxAttempts : Int

/-- What the task decides about a summary before it heals anything. -/
inductive Decision where
  | completed | disabled | nonHealable (scenario : Option String) | heal (failedStep : Text)
  deriving DecidableEq, Repr

variable {K Table Violation : Type} [DecidableEq K] [Truthy K] (print : K → Text)
  (settings : Settings) (x : Executor K Table Violation)

/-- The decision about a failed summary with an exception. -/
def decisionOn (error : Raised K) : Decision :=
  if !settings.autonomousHealingEnabled ∨ settings.autonomousHealingMaxAttempts ≤ 0 then .disabled
  else if !isHealable error.failure.className (error.str print) then
    .nonHealable (getHealingScenario error.failure.className (error.str print))
  else .heal (print error.stepName)

omit [DecidableEq K] [Truthy K] in
/-- The first part of `_execute_with_autonomous_healing`. -/
def healingDecision (summary : Summary K Table Violation) : Decision :=
  if summary.status = .COMPLETED then .completed
  else match summary.error with
    | none => .disabled
    | some error => decisionOn print settings error

/-- The decision about a run, `none` where an exception leaves the runner before it. -/
def taskDecision (steps : List (Step K)) : Option Decision :=
  match (execute print x steps).outcome with
  | .ok summary => some (healingDecision print settings summary)
  | .error _ => none

/-- A failure of a healable class leaves the runner as a failed summary, and the task decides
about it. -/
def ReachesHealing (steps : List (Step K)) : Prop :=
  ∀ i failure, StopsAt print x steps i failure → healableClass failure.className = true →
    ∃ (hi : i < steps.length) (summary : Summary K Table Violation),
      (execute print x steps).outcome = .ok summary ∧ summary.status = .FAILED ∧
        summary.error = some ⟨steps[i].name, failure⟩ ∧
        taskDecision print settings x steps = some (decisionOn print settings ⟨steps[i].name, failure⟩)

variable {print settings x} {steps : List (Step K)} {i : Nat} {failure : Failure}

theorem taskDecision_of_stepError (h : StopsAt print x steps i failure)
    (hstep : failure.isStepError = true) :
    ∃ (hi : i < steps.length) (summary : Summary K Table Violation),
      (execute print x steps).outcome = .ok summary ∧ summary.status = .FAILED ∧
        summary.error = some ⟨steps[i].name, failure⟩ ∧
        taskDecision print settings x steps =
          some (decisionOn print settings ⟨steps[i].name, failure⟩) := by
  obtain ⟨hi, summary, houtcome, hstatus, herror⟩ := outcome_of_stopsAt h hstep
  refine ⟨hi, summary, houtcome, hstatus, herror, ?_⟩
  have hfailed : summary.status ≠ .COMPLETED := by
    rw [hstatus]
    exact fun h => PipelineStatus.noConfusion h
  rw [taskDecision, houtcome]
  dsimp only
  rw [healingDecision, if_neg hfailed, herror]

theorem not_reachesHealing (h : StopsAt print x steps i failure)
    (hclass : healableClass failure.className = true) (hother : failure.isStepError = false) :
    ¬ ReachesHealing print settings x steps := by
  intro hreaches
  obtain ⟨hi, summary, houtcome, -⟩ := hreaches i failure h hclass
  obtain ⟨error, herror⟩ := escapes_of_stopsAt h hother
  rw [herror] at houtcome
  cases houtcome

/-- The step errors that the classifier may heal. -/
theorem healableClass_name (errorClass : StepErrorClass) :
    healableClass errorClass.name = true ↔
      errorClass ∈ [.ColumnNotFoundError, .JoinKeyMissingError, .AggregationError] := by
  cases errorClass <;> decide

/-- Every failure of a healable class reaches the healing decision exactly when no step that the
run starts lets one out that is not in the `StepExecutionError` family. -/
theorem healable_failures_reach_healing (print : K → Text) (settings : Settings)
    (x : Executor K Table Violation) (steps : List (Step K)) :
    ReachesHealing print settings x steps ↔ ∀ i failure, StopsAt print x steps i failure →
      healableClass failure.className = true → failure.isStepError = true := by
  constructor
  · intro h i failure hstops hclass
    by_contra hother
    exact not_reachesHealing hstops hclass (Bool.not_eq_true _ |>.mp hother) h
  · intro h i failure hstops hclass
    exact taskDecision_of_stepError hstops (h i failure hstops hclass)

section Examples

/-- A save step whose input is the number 5. -/
def missingInput : Executor String Unit Unit where
  execute _ step :=
    if step.name = "out" then .raised (.other "KeyError".toList "5".toList)
    else .returned
      { stepName := step.name, outputTable := (), rowsIn := 2, rowsOut := 2, durationMs := 1 }
  validateStepContract _ _ := some []

def missingSteps : List (Step String) := [{ name := "raw" }, { name := "out", input := some "5" }]

/-- The classifier would heal the exception, and the runner lets it through. -/
theorem key_error_bypasses_healing :
    isHealable "KeyError".toList "5".toList = true ∧
      StopsAt String.toList missingInput missingSteps 1 (.other "KeyError".toList "5".toList) ∧
      ∀ settings, taskDecision String.toList settings missingInput missingSteps = none ∧
        ¬ ReachesHealing String.toList settings missingInput missingSteps := by
  have hstops : StopsAt String.toList missingInput missingSteps 1
      (.other "KeyError".toList "5".toList) := ⟨by decide, _, rfl, rfl⟩
  exact ⟨by decide, hstops, fun settings => ⟨rfl, not_reachesHealing hstops (by decide) rfl⟩⟩

end Examples

end PipelineIQ.Healing.Classifier
