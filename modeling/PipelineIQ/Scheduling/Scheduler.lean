import Mathlib.Data.List.Sort
import Mathlib.Logic.Function.Basic
import PipelineIQ.Lib.Dict
import PipelineIQ.Models

namespace PipelineIQ.Scheduling.Scheduler

open PipelineIQ.Lib PipelineIQ.Models

def scheduleCheckLockTtlSeconds : Nat := 55
def scheduleCheckBatchLimit : Nat := 100

/-- A row of `pipeline_schedules`; times are seconds. -/
structure PipelineSchedule (Cron : Type) where
  userId : String
  pipelineName : String
  yamlConfig : String
  cronExpression : Cron
  isActive : Bool
  lastRunAt : Option Nat := none
  nextRunAt : Option Nat := none
  lastRunStatus : Option String := none
  totalRuns : Nat := 0
  successfulRuns : Nat := 0
  failedRuns : Nat := 0
  healedRuns : Nat := 0

/-- A row of `pipeline_runs` that the scheduler has made; its id is its position. No column
holds `occurrence`, the time at which the schedule was due. -/
structure PipelineRun (Id : Type) where
  name : String
  status : PipelineStatus
  yamlConfig : String
  userId : String
  trigger : String
  scheduleId : Id
  startedAt : Option Nat := none
  completedAt : Option Nat := none
  errorMessage : Option String := none
  occurrence : Nat

/-- A row of `schedule_runs`. -/
structure ScheduleRun (Id : Type) where
  scheduleId : Id
  triggeredAt : Nat
  runId : Option Nat := none
  status : Option String := none
  durationSeconds : Option Nat := none
  errorMessage : Option String := none

/-- A schedule whose run is committed, until its next time is. -/
structure Fired (Id : Type) where
  scheduleId : Id
  occurrence : Nat
  runId : Nat
  scheduleRunId : Nat

/-- What a worker holds while it goes through the schedules that it found due. -/
structure Tick (Id Token : Type) where
  lockToken : Token
  now : Nat
  dueSchedules : List (Id × Nat)
  triggered : Nat := 0

/-- Where a worker is in `check_schedules`. -/
inductive Worker (Id Token : Type) where
  | idle
  | locked (lockToken : Token)
  | looping (tick : Tick Id Token)
  | committed (tick : Tick Id Token) (fired : Fired Id)
  | dispatched (tick : Tick Id Token) (fired : Fired Id)
  | releasing (lockToken : Token)
  | deleting

/-- How `apply_async` ends; the broker can have the message although the call raises. -/
inductive Dispatch where
  | accepted
  | raised (delivered : Bool)
  deriving DecidableEq

/-- A step of a worker. A Boolean says whether the call that the step makes succeeds, for
`acquires` whether Redis answers. -/
inductive Step (Token : Type) where
  | acquires (lockToken : Token) (answered : Bool)
  | queries (ok : Bool)
  | commitsRun (ok : Bool)
  | dispatches (outcome : Dispatch)
  | advances (ok : Bool)
  | leaves
  | readsLock
  | deletesLock
  | crashes
  deriving DecidableEq

inductive Event (W Token : Type) where
  | passes (seconds : Nat)
  | acts (w : W) (step : Step Token)
  deriving DecidableEq

structure State (W Id Cron Token : Type) where
  now : Nat := 0
  lock : Option (Token × Nat) := none
  schedules : Dict Id (PipelineSchedule Cron)
  runs : List (PipelineRun Id) := []
  scheduleRuns : List (ScheduleRun Id) := []
  queue : List Nat := []
  workers : W → Worker Id Token := fun _ => .idle

variable {W Id Cron Token : Type} [DecidableEq W] [DecidableEq Id] [DecidableEq Token]

/-- The token of a lock that has not expired. -/
def holder (s : State W Id Cron Token) : Option Token :=
  s.lock.bind fun l => if s.now < l.2 then some l.1 else none

def dueTime (now : Nat) (schedule : PipelineSchedule Cron) : Option Nat :=
  schedule.nextRunAt.filter fun t => schedule.isActive && t ≤ now

/-- The active schedules whose time has come, the earliest first, up to the limit. -/
def dueSchedules (s : State W Id Cron Token) : List (Id × Nat) :=
  ((s.schedules.entries.filterMap fun e =>
    (dueTime s.now e.2).map fun t => (e.1, t)).insertionSort fun a b => a.2 ≤ b.2).take
      scheduleCheckBatchLimit

def setWorker (s : State W Id Cron Token) (w : W) (worker : Worker Id Token) :
    State W Id Cron Token :=
  { s with workers := Function.update s.workers w worker }

omit [DecidableEq Id] [DecidableEq Token] in
@[simp] theorem setWorker_self (s : State W Id Cron Token) (w : W) (worker : Worker Id Token) :
    (setWorker s w worker).workers w = worker := Function.update_self ..

omit [DecidableEq Id] [DecidableEq Token] in
theorem setWorker_other (s : State W Id Cron Token) (worker : Worker Id Token) {v w : W}
    (h : v ≠ w) : (setWorker s w worker).workers v = s.workers v := Function.update_of_ne h ..

/-- `set` with `nx` and `ex`; an error of Redis leaves the lock unacquired as well. -/
def acquire (s : State W Id Cron Token) (w : W) (lockToken : Token) (answered : Bool) :
    State W Id Cron Token :=
  if answered && (holder s).isNone then
    setWorker { s with lock := some (lockToken, s.now + scheduleCheckLockTtlSeconds) } w
      (.locked lockToken)
  else s

/-- The first commit: the two new rows, without the id of the run in the second. -/
def commitRun (s : State W Id Cron Token) (w : W) (tick : Tick Id Token) (due : Id × Nat)
    (ok : Bool) : State W Id Cron Token :=
  match s.schedules.get? due.1, ok with
  | some schedule, true =>
    let pipelineRun : PipelineRun Id :=
      { name := schedule.pipelineName, status := .PENDING, yamlConfig := schedule.yamlConfig
        userId := schedule.userId, trigger := "scheduled", scheduleId := due.1
        occurrence := due.2 }
    setWorker
      { s with
        runs := s.runs ++ [pipelineRun]
        scheduleRuns := s.scheduleRuns ++ [{ scheduleId := due.1, triggeredAt := tick.now }] } w
      (.committed tick ⟨due.1, due.2, s.runs.length, s.scheduleRuns.length⟩)
  | _, _ => setWorker s w (.looping tick)

/-- The task is sent; after an exception the session is rolled back and the loop goes on. -/
def dispatch (s : State W Id Cron Token) (w : W) (tick : Tick Id Token) (fired : Fired Id) :
    Dispatch → State W Id Cron Token
  | .accepted => setWorker { s with queue := s.queue ++ [fired.runId] } w (.dispatched tick fired)
  | .raised delivered =>
    setWorker { s with queue := if delivered then s.queue ++ [fired.runId] else s.queue } w
      (.looping tick)

section Advance

-- `croniter(expression, now).get_next()`, `none` where it raises
variable (getNext : Cron → Nat → Option Nat)

/-- The second commit: the id of the run and the next time of the schedule. -/
def advance (s : State W Id Cron Token) (w : W) (tick : Tick Id Token) (fired : Fired Id)
    (ok : Bool) : State W Id Cron Token :=
  match s.schedules.get? fired.scheduleId, ok with
  | some schedule, true =>
    match getNext schedule.cronExpression tick.now with
    | some t =>
      setWorker
        { s with
          schedules := s.schedules.set fired.scheduleId
            { schedule with
              lastRunAt := some tick.now
              lastRunStatus := some "RUNNING"
              totalRuns := schedule.totalRuns + 1
              nextRunAt := some t }
          scheduleRuns := s.scheduleRuns.modify fired.scheduleRunId fun r =>
            { r with runId := some fired.runId } } w
        (.looping { tick with triggered := tick.triggered + 1 })
    | none => setWorker s w (.looping tick)
  | _, _ => setWorker s w (.looping tick)

/-- A step of one worker, `none` where it is not the next one. -/
def act (s : State W Id Cron Token) (w : W) (step : Step Token) : Option (State W Id Cron Token) :=
  match s.workers w, step with
  | .idle, .acquires lockToken answered => some (acquire s w lockToken answered)
  | .locked lockToken, .queries ok => some (setWorker s w (if ok then
      .looping { lockToken, now := s.now, dueSchedules := dueSchedules s }
      else .releasing lockToken))
  | .looping tick, .commitsRun ok => match tick.dueSchedules with
    | due :: rest => some (commitRun s w { tick with dueSchedules := rest } due ok)
    | [] => none
  | .committed tick fired, .dispatches outcome => some (dispatch s w tick fired outcome)
  | .dispatched tick fired, .advances ok => some (advance getNext s w tick fired ok)
  | .looping tick, .leaves => match tick.dueSchedules with
    | [] => some (setWorker s w (.releasing tick.lockToken))
    | _ :: _ => none
  | .releasing lockToken, .readsLock => some (setWorker s w
      (if holder s = some lockToken then .deleting else .idle))
  | .deleting, .deletesLock => some (setWorker { s with lock := none } w .idle)
  | .idle, .crashes => none
  | _, .crashes => some (setWorker s w .idle)
  | _, _ => none

def step (s : State W Id Cron Token) : Event W Token → Option (State W Id Cron Token)
  | .passes seconds => some { s with now := s.now + seconds }
  | .acts w e => act getNext s w e

end Advance

end PipelineIQ.Scheduling.Scheduler
