import PipelineIQ.Scheduling.Scheduler

namespace PipelineIQ.Api.Schedules

open PipelineIQ.Lib PipelineIQ.Models
open PipelineIQ.Scheduling.Scheduler hiding State Event step

/-- The body of a call for a new schedule. -/
structure CreateScheduleRequest (Cron : Type) where
  pipelineName : String
  yamlConfig : String
  cronExpression : Cron

/-- A call that changes a schedule. `rejection` is what parsing, the check of the permission and
validation raise for a new one. -/
inductive Request (Id Cron : Type) where
  | createSchedule (id : Id) (body : CreateScheduleRequest Cron) (rejection : Option HTTPException)
  | pauseSchedule (scheduleId : Id)
  | resumeSchedule (scheduleId : Id)
  | toggleSchedule (scheduleId : Id)
  | deleteSchedule (scheduleId : Id)

/-- The table of the schedules with its scheduler. `ids` are the ids that were given so far; the
rows of a schedule that is deleted stay in the history, where no query looks for them. -/
structure State (W Id Cron Token : Type) extends Scheduling.Scheduler.State W Id Cron Token where
  ids : List Id := []

inductive Event (W Id Cron Token : Type) where
  | scheduler (e : Scheduling.Scheduler.Event W Token)
  | request (currentUser : User) (r : Request Id Cron)

variable {W Id Cron Token : Type} [DecidableEq Id]

def scheduleNotFound : HTTPException := ⟨404, "Schedule not found"⟩
def alreadyPaused : HTTPException := ⟨400, "Schedule is already paused"⟩
def alreadyActive : HTTPException := ⟨400, "Schedule is already active"⟩
def internalServerError : HTTPException := ⟨500, "An unexpected error occurred. Check server logs."⟩

def getScheduleOr404 (s : State W Id Cron Token) (currentUser : User) (scheduleId : Id) :
    Except HTTPException (PipelineSchedule Cron) :=
  match s.schedules.get? scheduleId with
  | some schedule =>
    if schedule.userId = currentUser.id then .ok schedule else .error scheduleNotFound
  | none => .error scheduleNotFound

def put (s : State W Id Cron Token) (scheduleId : Id) (schedule : PipelineSchedule Cron) :
    State W Id Cron Token :=
  { s with schedules := s.schedules.set scheduleId schedule }

section Answers

-- `croniter(expression, now).get_next()`, `none` where it raises
variable (getNext : Cron → Nat → Option Nat)

def computeNextRun (s : State W Id Cron Token) (cronExpression : Cron) :
    Except HTTPException Nat :=
  (getNext cronExpression s.now).elim (.error internalServerError) .ok

def createSchedule (s : State W Id Cron Token) (currentUser : User) (id : Id)
    (body : CreateScheduleRequest Cron) (rejection : Option HTTPException) :
    Except HTTPException (State W Id Cron Token) := do
  let nextRun ← computeNextRun getNext s body.cronExpression
  if let some e := rejection then throw e
  let schedule : PipelineSchedule Cron :=
    { userId := currentUser.id, pipelineName := body.pipelineName, yamlConfig := body.yamlConfig
      cronExpression := body.cronExpression, isActive := true, nextRunAt := some nextRun }
  return { put s id schedule with ids := id :: s.ids }

def pauseSchedule (s : State W Id Cron Token) (currentUser : User) (scheduleId : Id) :
    Except HTTPException (State W Id Cron Token) := do
  let schedule ← getScheduleOr404 s currentUser scheduleId
  if !schedule.isActive then throw alreadyPaused
  return put s scheduleId { schedule with isActive := false, nextRunAt := none }

def resumeSchedule (s : State W Id Cron Token) (currentUser : User) (scheduleId : Id) :
    Except HTTPException (State W Id Cron Token) := do
  let schedule ← getScheduleOr404 s currentUser scheduleId
  if schedule.isActive then throw alreadyActive
  let nextRun ← computeNextRun getNext s schedule.cronExpression
  return put s scheduleId { schedule with isActive := true, nextRunAt := some nextRun }

def toggleSchedule (s : State W Id Cron Token) (currentUser : User) (scheduleId : Id) :
    Except HTTPException (State W Id Cron Token) := do
  let schedule ← getScheduleOr404 s currentUser scheduleId
  if schedule.isActive then
    return put s scheduleId { schedule with isActive := false, nextRunAt := none }
  else
    let nextRun ← computeNextRun getNext s schedule.cronExpression
    return put s scheduleId { schedule with isActive := true, nextRunAt := some nextRun }

def deleteSchedule (s : State W Id Cron Token) (currentUser : User) (scheduleId : Id) :
    Except HTTPException (State W Id Cron Token) := do
  let _ ← getScheduleOr404 s currentUser scheduleId
  return { s with schedules := s.schedules.erase scheduleId }

def answer (s : State W Id Cron Token) (currentUser : User) :
    Request Id Cron → Except HTTPException (State W Id Cron Token)
  | .createSchedule id body rejection => createSchedule getNext s currentUser id body rejection
  | .pauseSchedule scheduleId => pauseSchedule s currentUser scheduleId
  | .resumeSchedule scheduleId => resumeSchedule getNext s currentUser scheduleId
  | .toggleSchedule scheduleId => toggleSchedule getNext s currentUser scheduleId
  | .deleteSchedule scheduleId => deleteSchedule s currentUser scheduleId

/-- The id of a new schedule is one that none had. -/
def enabled (s : State W Id Cron Token) : Request Id Cron → Bool
  | .createSchedule id _ _ => decide (id ∉ s.ids)
  | _ => true

variable [DecidableEq W] [DecidableEq Token]

/-- A call that ends with an error changes nothing. -/
def step (s : State W Id Cron Token) : Event W Id Cron Token → Option (State W Id Cron Token)
  | .scheduler e => (Scheduling.Scheduler.step getNext s.toState e).map fun t => { s with toState := t }
  | .request currentUser r =>
    if enabled s r then some ((answer getNext s currentUser r).toOption.getD s) else none

end Answers

end PipelineIQ.Api.Schedules
