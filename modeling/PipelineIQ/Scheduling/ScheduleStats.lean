import PipelineIQ.Lifecycle.Actors
import PipelineIQ.Scheduling.Scheduler

namespace PipelineIQ.Scheduling.ScheduleStats

open PipelineIQ.Lib PipelineIQ.Models PipelineIQ.Lifecycle.Actors PipelineIQ.Scheduling.Scheduler

/-- The scheduler's tables with the task of every run. `accounted` says that the task of a run
is past its call of `_update_schedule_stats`. -/
structure State (W Id Cron Token Error Violation : Type) extends
    Scheduler.State W Id Cron Token where
  tasks : Nat → Lifecycle.Actors.Worker Error Violation := fun _ => .queued
  accounted : Nat → Bool := fun _ => false

/-- What happens to scheduled runs: a step of the scheduler, of the task of a run, the update of
the statistics (which swallows its exceptions), a second delivery of a task that ended, and the
commits of the cancel endpoint and of the reconciler. -/
inductive Event (W Token Error Violation : Type) where
  | scheduler (e : Scheduler.Event W Token)
  | worker (run : Nat) (e : WorkerStep Error Violation)
  | updatesStats (run : Nat) (ok : Bool)
  | redelivers (run : Nat)
  | cancels (run : Nat)
  | reconciles (run : Nat)

def statusMap : PipelineStatus → String
  | .COMPLETED => "COMPLETED"
  | .HEALED => "HEALED"
  | .CONTRACT_VIOLATION => "CONTRACT_VIOLATION"
  | .FAILED => "FAILED"
  | .CANCELLED => "CANCELLED"
  | .RUNNING => "RUNNING"
  | .PENDING => "PENDING"
  | .HEALING => "HEALING"
  | _ => "UNKNOWN"

variable {W Id Cron Token Error Violation : Type} [DecidableEq W] [DecidableEq Id]
  [DecidableEq Token]

/-- The row of the last trigger among those of a run. -/
def scheduleRunOf (rows : List (ScheduleRun Id)) (run : Nat) : Option Nat :=
  ((List.range rows.length).filter fun j => (rows[j]?.bind ScheduleRun.runId) = some run).foldl
    (fun best j => match best with
      | none => some j
      | some k => if (rows[k]?.map ScheduleRun.triggeredAt).getD 0 <
          (rows[j]?.map ScheduleRun.triggeredAt).getD 0 then some j else some k) none

def truncated (message : String) : String := String.ofList (message.toList.take 500)

/-- The status, the duration and the error of a run in its row of `schedule_runs`. -/
def recordRun (run : PipelineRun Id) (row : ScheduleRun Id) : ScheduleRun Id :=
  { row with
    status := some (statusMap run.status)
    durationSeconds := run.startedAt.bind fun a => run.completedAt.map fun b => b - a
    errorMessage := if run.status = .FAILED then run.errorMessage.map truncated
      else row.errorMessage }

/-- The counters of a schedule after one of its runs. -/
def countRun (status : PipelineStatus) (schedule : PipelineSchedule Cron) : PipelineSchedule Cron :=
  let schedule := { schedule with lastRunStatus := some (statusMap status) }
  if status = .COMPLETED then { schedule with successfulRuns := schedule.successfulRuns + 1 }
  else if status = .HEALED then { schedule with healedRuns := schedule.healedRuns + 1 }
  else if status ∈ [.FAILED, .CONTRACT_VIOLATION] then
    { schedule with failedRuns := schedule.failedRuns + 1 }
  else schedule

def updateScheduleStats (s : State W Id Cron Token Error Violation) (i : Nat)
    (run : PipelineRun Id) : State W Id Cron Token Error Violation :=
  { s with
    scheduleRuns := match scheduleRunOf s.scheduleRuns i with
      | some j => s.scheduleRuns.modify j (recordRun run)
      | none => s.scheduleRuns
    schedules := match s.schedules.get? run.scheduleId with
      | some schedule => s.schedules.set run.scheduleId (countRun run.status schedule)
      | none => s.schedules }

section Step

-- `croniter(expression, now).get_next()`, the healing settings, `_sanitize_error_message` of
-- the error of a step and of an exception that ends the task of a run
variable (getNext : Cron → Nat → Option Nat) (healing : Healing Error)
  (sanitizeErrorMessage : Error → String) (exceptionMessage : Nat → String)

/-- The columns that a step of a task sets beside the status. -/
def stamp (now i : Nat) (task : Lifecycle.Actors.Worker Error Violation)
    (e : WorkerStep Error Violation) (run : PipelineRun Id) : PipelineRun Id :=
  match e, task with
  | .marksRunning, _ => { run with startedAt := some now }
  | .persists .., .persisting loaded summary =>
    if loaded = .CANCELLED ∨ summary.status = .COMPLETED then { run with completedAt := some now }
    else
      { run with
        completedAt := some now
        errorMessage := summary.error.map sanitizeErrorMessage }
  | .marksFailed, _ =>
    { run with
      completedAt := some now
      errorMessage := some (exceptionMessage i) }
  | _, _ => run

/-- A task starts when it is in the queue and returns after the update of the statistics. -/
def enabled (s : State W Id Cron Token Error Violation) (i : Nat) :
    WorkerStep Error Violation → Bool
  | .starts => decide (i ∈ s.queue)
  | .returns => s.accounted i
  | _ => true

def setStatus (s : State W Id Cron Token Error Violation) (i : Nat) (status : PipelineStatus) :
    State W Id Cron Token Error Violation :=
  { s with runs := s.runs.modify i fun run => { run with status } }

def stepWorker (s : State W Id Cron Token Error Violation) (i : Nat) (run : PipelineRun Id)
    (e : WorkerStep Error Violation) : Option (State W Id Cron Token Error Violation) :=
  if enabled s i e then
    ((s.tasks i).act healing run.status e).map fun r =>
      { s with
        runs := s.runs.set i
          { stamp sanitizeErrorMessage exceptionMessage s.now i (s.tasks i) e run with status := r.2 }
        tasks := Function.update s.tasks i r.1 }
  else none

def step (s : State W Id Cron Token Error Violation) :
    Event W Token Error Violation → Option (State W Id Cron Token Error Violation)
  | .scheduler e => (Scheduler.step getNext s.toState e).map fun t => { s with toState := t }
  | .worker i e => s.runs[i]?.bind fun run =>
      stepWorker healing sanitizeErrorMessage exceptionMessage s i run e
  | .updatesStats i ok => s.runs[i]?.bind fun run => match s.tasks i, s.accounted i with
    | .persisted, false => some
      { (if ok then updateScheduleStats s i run else s) with
        accounted := Function.update s.accounted i true }
    | _, _ => none
  | .redelivers i => match s.tasks i with
    | .finished => some { s with tasks := Function.update s.tasks i .queued }
    | _ => none
  | .cancels i => s.runs[i]?.bind fun run =>
    if run.status ∈ Endpoint.cancel.allowed then some (setStatus s i .CANCELLED) else none
  | .reconciles i => s.runs[i]?.bind fun run =>
    if run.status ∈ reconcilableStatuses then some (setStatus s i .TIMEOUT) else none

end Step

end PipelineIQ.Scheduling.ScheduleStats
