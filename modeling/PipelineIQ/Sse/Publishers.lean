import PipelineIQ.Models
import PipelineIQ.Pipeline.Runner
import PipelineIQ.Sse.Signing

namespace PipelineIQ.Sse.Publishers

open PipelineIQ.Lib PipelineIQ.Models PipelineIQ.Pipeline.Runner PipelineIQ.Sse.Signing

def stepStatusValue : StepStatus → String
  | .PENDING => "PENDING"
  | .RUNNING => "RUNNING"
  | .COMPLETED => "COMPLETED"
  | .FAILED => "FAILED"
  | .SKIPPED => "SKIPPED"

/-- The event types of a run's end. -/
inductive TerminalType where
  | pipelineCompleted | pipelineFailed | pipelineCancelled
  deriving DecidableEq, Repr

def TerminalType.value : TerminalType → String
  | .pipelineCompleted => "pipeline_completed"
  | .pipelineFailed => "pipeline_failed"
  | .pipelineCancelled => "pipeline_cancelled"

/-- The progress events of one run with the values the publishers put in them;
error texts are the sanitised ones. `started` is cached and never published. -/
inductive Event where
  | started
  | step (event : StepProgressEvent String Json)
  | healingNonHealable (runStatus : Models.PipelineStatus) (attemptNumber : Nat)
      (failedStep reason : String)
  | healingStarted (failedStep errorType : String) (errorMessage : Option String)
  | healingAttemptStarted (attemptNumber : Nat) (failedStep : String)
  | healingFailed (attempts : Nat) (failedStep : String) (errorMessage : Option String)
      (errorReason : String)
  | healingAttemptApplied (attemptNumber : Nat) (failedStep : String)
  | healingComplete (attempts : Nat) (failedStep : String) (confidence description patch : Json)
  | healingSucceeded (attemptNumber : Nat)
  | healingRetryFailed (attemptNumber : Nat) (failedStep : String) (errorMessage : Option String)
  | contractViolation (stepName : String) (stepIndex : Nat)
      (severity column rule message actual expected : Json)
  | streamingStats (batches messages dlq : Nat) (throughput : String)
  | terminal (eventType : TerminalType) (status : Models.PipelineStatus) (errorMessage : String)

def healingPayload (runId eventType : String) (status : Models.PipelineStatus)
    (details : List (String × Json)) : Payload :=
  Dict.ofList ([("run_id", .str runId), ("event_type", .str eventType),
    ("status", .str status.value)] ++ details)

def stepPayload (runId : String) (event : StepProgressEvent String Json) : Payload :=
  Dict.ofList
    [("run_id", .str runId),
     ("step_name", .str event.stepName),
     ("step_index", .nat event.stepIndex),
     ("total_steps", .nat event.totalSteps),
     ("status", .str (stepStatusValue event.status)),
     ("rows_in", .option .nat event.rowsIn),
     ("rows_out", .option .nat event.rowsOut),
     ("duration_ms", .option .nat event.durationMs),
     ("error_message", .option .str event.errorMessage),
     ("contract_violations", .option .arr event.contractViolations)]

/-- The payload each publisher builds, before it is signed. -/
def Event.payload (runId : String) : Event → Payload
  | .started => Dict.ofList [("run_id", .str runId), ("event_type", .str "pipeline_started"),
      ("status", .str Models.PipelineStatus.RUNNING.value)]
  | .step event => stepPayload runId event
  | .healingNonHealable runStatus attemptNumber failedStep reason =>
    healingPayload runId "healing_non_healable" runStatus
      [("attempt_number", .nat attemptNumber), ("failed_step", .str failedStep),
       ("reason", .str reason)]
  | .healingStarted failedStep errorType errorMessage =>
    healingPayload runId "healing_started" .HEALING
      [("failed_step", .str failedStep), ("error_type", .str errorType),
       ("error_message", .option .str errorMessage)]
  | .healingAttemptStarted attemptNumber failedStep =>
    healingPayload runId "healing_attempt_started" .HEALING
      [("attempt_number", .nat attemptNumber), ("failed_step", .str failedStep)]
  | .healingFailed attempts failedStep errorMessage errorReason =>
    healingPayload runId "healing_failed" .FAILED
      [("attempts", .nat attempts), ("failed_step", .str failedStep),
       ("error_message", .option .str errorMessage), ("error_reason", .str errorReason)]
  | .healingAttemptApplied attemptNumber failedStep =>
    healingPayload runId "healing_attempt_applied" .HEALING
      [("attempt_number", .nat attemptNumber), ("failed_step", .str failedStep)]
  | .healingComplete attempts failedStep confidence description patch =>
    healingPayload runId "healing_complete" .HEALED
      [("attempts", .nat attempts), ("failed_step", .str failedStep),
       ("confidence", confidence), ("description", description), ("patch", patch)]
  | .healingSucceeded attemptNumber =>
    healingPayload runId "healing_succeeded" .HEALED [("attempt_number", .nat attemptNumber)]
  | .healingRetryFailed attemptNumber failedStep errorMessage =>
    healingPayload runId "healing_retry_failed" .FAILED
      [("attempt_number", .nat attemptNumber), ("failed_step", .str failedStep),
       ("error_message", .option .str errorMessage)]
  | .contractViolation stepName stepIndex severity column rule message actual expected =>
    Dict.ofList
      [("run_id", .str runId), ("event_type", .str "contract_violation"),
       ("step_name", .str stepName), ("step_index", .nat stepIndex), ("severity", severity),
       ("column", column), ("rule", rule), ("message", message), ("actual", actual),
       ("expected", expected)]
  | .streamingStats batches messages dlq throughput =>
    Dict.ofList
      [("event", .str "streaming_stats"), ("run_id", .str runId), ("batches", .nat batches),
       ("messages", .nat messages), ("dlq", .nat dlq), ("throughput", .num throughput)]
  | .terminal eventType status errorMessage =>
    Dict.ofList
      [("run_id", .str runId), ("event_type", .str eventType.value),
       ("error_message", .str errorMessage), ("status", .str status.value)]

/-- The events that end a run. -/
def Event.isRunTerminal : Event → Bool
  | .terminal .. => true
  | _ => false

/-- The type an event's payload names. -/
def Event.eventType : Event → Option String
  | .started => some "pipeline_started"
  | .step _ | .streamingStats .. => none
  | .healingNonHealable .. => some "healing_non_healable"
  | .healingStarted .. => some "healing_started"
  | .healingAttemptStarted .. => some "healing_attempt_started"
  | .healingFailed .. => some "healing_failed"
  | .healingAttemptApplied .. => some "healing_attempt_applied"
  | .healingComplete .. => some "healing_complete"
  | .healingSucceeded .. => some "healing_succeeded"
  | .healingRetryFailed .. => some "healing_retry_failed"
  | .contractViolation .. => some "contract_violation"
  | .terminal eventType _ _ => some eventType.value

/-- The status text of an event's payload, of a step or of the run. -/
def Event.status : Event → Option String
  | .started => some "RUNNING"
  | .step event => some (stepStatusValue event.status)
  | .healingNonHealable runStatus .. => some runStatus.value
  | .healingStarted .. | .healingAttemptStarted .. | .healingAttemptApplied .. => some "HEALING"
  | .healingFailed .. | .healingRetryFailed .. => some "FAILED"
  | .healingComplete .. | .healingSucceeded .. => some "HEALED"
  | .contractViolation .. | .streamingStats .. => none
  | .terminal _ status _ => some status.value

theorem Event.get?_eventType (runId : String) (e : Event) :
    (e.payload runId).get? "event_type" = e.eventType.map Json.str := by
  cases e <;> rfl

theorem Event.get?_status (runId : String) (e : Event) :
    (e.payload runId).get? "status" = e.status.map Json.str := by
  cases e <;> rfl

theorem Event.get?_signature (runId : String) (e : Event) :
    (e.payload runId).get? sseSignatureField = none := by
  cases e <;> rfl

theorem Event.get?_runId (runId : String) (e : Event) :
    (e.payload runId).get? "run_id" = some (.str runId) := by
  cases e <;> rfl

end PipelineIQ.Sse.Publishers
