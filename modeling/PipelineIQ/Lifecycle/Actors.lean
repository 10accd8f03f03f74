import PipelineIQ.Models
import PipelineIQ.Pipeline.Runner

namespace PipelineIQ.Lifecycle.Actors

open PipelineIQ.Models PipelineIQ.Pipeline

/-- What committing an assigned status leaves in the row. `loaded` is the status the
session last read, `none` once a commit has expired it: a column set to the value it
was loaded with is no change and is not written. -/
def flush (loaded : Option PipelineStatus) (assigned stored : PipelineStatus) : PipelineStatus :=
  if loaded = some assigned then stored else assigned

/-- What reading an attribute leaves of the loaded status: an expired row is read again. -/
def reload (stored : PipelineStatus) (loaded : Option PipelineStatus) : Option PipelineStatus :=
  some (loaded.getD stored)

/-- What the worker reads of an execution summary. -/
structure Summary (Error Violation : Type) where
  status : Runner.PipelineStatus
  contractViolations : List (List Violation) := []
  error : Option Error := none

/-- The healing settings and `is_healable`. -/
structure Healing (Error : Type) where
  autonomousHealingEnabled : Bool
  autonomousHealingMaxAttempts : Int
  isHealable : Error → Bool

/-- The answer of the validation of a run's output against its active contract. -/
structure ContractVerdict where
  passed : Bool
  shouldBlockRun : Bool

/-- Where a worker task is, with the status its session holds. -/
inductive Worker (Error Violation : Type) where
  | queued
  | accepted
  | executing (loaded : Option PipelineStatus)
  | healing (loaded : Option PipelineStatus) (summary : Summary Error Violation)
  | retrying (loaded : Option PipelineStatus)
  | executed (loaded : Option PipelineStatus) (summary : Summary Error Violation)
  | persisting (loaded : PipelineStatus) (summary : Summary Error Violation)
  | persisted
  | failing (loaded : Option PipelineStatus)
  | finished

/-- `accesses` reads an attribute of the run and `commitsOther` commits other rows, as
the lineage callback and the healing attempts do. A task ends early by an exception, or
by the signal of a revocation. -/
inductive WorkerStep (Error Violation : Type) where
  | starts
  | marksRunning
  | accesses
  | commitsOther
  | runReturns (summary : Summary Error Violation)
  | healReturns (success : Bool)
  | refreshes
  | persists (appliedAttempts : Nat) (verdict : Option ContractVerdict)
  | raises
  | marksFailed
  | rollsBack
  | returns
  | killed

variable {Error Violation : Type}

/-- Whether a failed run enters the healing path. -/
def healable (healing : Healing Error) (summary : Summary Error Violation) : Bool :=
  healing.autonomousHealingEnabled && decide (0 < healing.autonomousHealingMaxAttempts) &&
    summary.error.any healing.isHealable

def hasContractViolations (summary : Summary Error Violation) : Bool :=
  summary.contractViolations.any fun violations => !violations.isEmpty

/-- The status that the contract check leaves assigned; `verdict` is `none` where there
is no active contract or where the check raises before it enforces one. -/
def checkAndEnforceContract (verdict : Option ContractVerdict)
    (summary : Summary Error Violation) (assigned : PipelineStatus) : PipelineStatus :=
  match verdict with
  | none => assigned
  | some verdict =>
    if summary.contractViolations.isEmpty || verdict.passed then assigned
    else if assigned ∈ [.CONTRACT_VIOLATION, .FAILED] then assigned
    else if verdict.shouldBlockRun then .CONTRACT_VIOLATION
    else assigned

/-- The status `_persist_results` assigns after it has read `loaded`, if any. -/
def persistResults (loaded : PipelineStatus) (summary : Summary Error Violation)
    (appliedAttempts : Nat) (verdict : Option ContractVerdict) : Option PipelineStatus :=
  let healedRun := loaded = .HEALED ∨ appliedAttempts > 0
  if loaded = .CANCELLED then none
  else if summary.status = .COMPLETED then
    some <| checkAndEnforceContract verdict summary <|
      if hasContractViolations summary then .CONTRACT_VIOLATION
      else if healedRun then .HEALED
      else .COMPLETED
  else some (checkAndEnforceContract verdict summary .FAILED)

/-- Apply a function to the status a session holds between commits. -/
def Worker.mapLoaded (f : Option PipelineStatus → Option PipelineStatus) :
    Worker Error Violation → Option (Worker Error Violation)
  | .executing loaded => some (.executing (f loaded))
  | .healing loaded summary => some (.healing (f loaded) summary)
  | .retrying loaded => some (.retrying (f loaded))
  | .executed loaded summary => some (.executed (f loaded) summary)
  | .failing loaded => some (.failing (f loaded))
  | _ => none

/-- The status still held when an exception reaches the handler of the task. -/
def Worker.raise : Worker Error Violation → Option (Worker Error Violation)
  | .executing loaded | .healing loaded _ | .retrying loaded | .executed loaded _ =>
    some (.failing loaded)
  | .persisting loaded _ => some (.failing (some loaded))
  | .queued | .accepted | .persisted => some (.failing none)
  | .failing _ | .finished => none

/-- A step of `execute_pipeline_task`. -/
def Worker.act (healing : Healing Error) (w : Worker Error Violation) (stored : PipelineStatus) :
    WorkerStep Error Violation → Option (Worker Error Violation × PipelineStatus)
  | .starts => match w with
    | .queued => if stored = .PENDING then some (.accepted, stored) else some (.finished, stored)
    | _ => none
  | .marksRunning => match w with
    | .accepted => some (.executing none, flush none .RUNNING stored)
    | _ => none
  | .accesses => (w.mapLoaded (reload stored)).map fun w => (w, stored)
  | .commitsOther => (w.mapLoaded fun _ => none).map fun w => (w, stored)
  | .runReturns summary => match w with
    | .executing loaded =>
      if summary.status = .COMPLETED then some (.executed loaded summary, stored)
      else if healable healing summary then
        some (.healing none summary, flush loaded .HEALING stored)
      else some (.executed loaded summary, stored)
    | .retrying loaded =>
      if summary.status = .COMPLETED then
        some (.executed none summary, flush loaded .HEALED stored)
      else some (.executed loaded summary, stored)
    | _ => none
  | .healReturns success => match w with
    | .healing loaded summary =>
      if success then some (.retrying none, stored) else some (.executed loaded summary, stored)
    | _ => none
  | .refreshes => match w with
    | .executed _ summary => some (.persisting stored summary, stored)
    | _ => none
  | .persists appliedAttempts verdict => match w with
    | .persisting loaded summary =>
      match persistResults loaded summary appliedAttempts verdict with
      | none => some (.persisted, stored)
      | some assigned => some (.persisted, flush (some loaded) assigned stored)
    | _ => none
  | .raises => w.raise.map fun w => (w, stored)
  | .marksFailed => match w with
    | .failing (some loaded) => some (.finished, flush (some loaded) .FAILED stored)
    | _ => none
  | .rollsBack => match w with
    | .failing _ => some (.finished, stored)
    | _ => none
  | .returns => match w with
    | .persisted => some (.finished, stored)
    | _ => none
  | .killed => some (.finished, stored)

/-- An endpoint that checks the status it has read and later commits another one. -/
inductive Endpoint where
  | cancel | pause | resume | stop | restart
  deriving DecidableEq, Repr

def Endpoint.allowed : Endpoint → List PipelineStatus
  | .cancel => [.PENDING, .RUNNING, .STREAMING_ACTIVE, .STREAMING_PAUSED]
  | .pause => [.STREAMING_ACTIVE]
  | .resume => [.STREAMING_PAUSED]
  | .stop => [.STREAMING_ACTIVE, .STREAMING_PAUSED]
  | .restart => [.STREAMING_STOPPED]

def Endpoint.target : Endpoint → PipelineStatus
  | .cancel => .CANCELLED
  | .pause => .STREAMING_PAUSED
  | .resume => .STREAMING_ACTIVE
  | .stop => .STREAMING_STOPPED
  | .restart => .STREAMING_ACTIVE

inductive Request where
  | received (endpoint : Endpoint)
  | checked (endpoint : Endpoint)
  | answered

inductive RequestStep where
  | reads | commits | aborts

/-- A step of a request. The status it has read is one that its endpoint allows and not
the target, so its commit always writes. -/
def Request.act (r : Request) (stored : PipelineStatus) :
    RequestStep → Option (Request × PipelineStatus)
  | .reads => match r with
    | .received endpoint =>
      if stored ∈ endpoint.allowed then some (.checked endpoint, stored)
      else some (.answered, stored)
    | _ => none
  | .commits => match r with
    | .checked endpoint => some (.answered, endpoint.target)
    | _ => none
  | .aborts => some (.answered, stored)

def reconcilableStatuses : List PipelineStatus := [.PENDING, .RUNNING, .HEALING]

def liveTaskStates : List String := ["PENDING", "STARTED", "RETRY"]

/-- The reconciler as far as one run is concerned. -/
inductive Reconciler where
  | waiting
  | candidate (loaded : Option PipelineStatus)
  | done

/-- `considers` decides about the run by its start time and the state of its Celery
task; `commitsOther` is the commit about another candidate. -/
inductive ReconcilerStep where
  | selects
  | accesses
  | commitsOther
  | considers (recent : Bool) (taskState : Option String)
  | aborts

/-- Whether a stale run is left alone. -/
def leftAlone (recent : Bool) (taskState : Option String) : Bool :=
  recent || taskState.any fun state => decide (state ∈ liveTaskStates)

def Reconciler.act (r : Reconciler) (stored : PipelineStatus) :
    ReconcilerStep → Option (Reconciler × PipelineStatus)
  | .selects => match r with
    | .waiting =>
      if stored ∈ reconcilableStatuses then some (.candidate (some stored), stored)
      else some (.done, stored)
    | _ => none
  | .accesses => match r with
    | .candidate loaded => some (.candidate (reload stored loaded), stored)
    | _ => none
  | .commitsOther => match r with
    | .candidate _ => some (.candidate none, stored)
    | _ => none
  | .considers recent taskState => match r with
    | .candidate loaded =>
      if leftAlone recent taskState then some (.done, stored)
      else some (.done, flush loaded .TIMEOUT stored)
    | _ => none
  | .aborts => some (.done, stored)

inductive Daemon where
  | queued | looping | leaving | failing | finished
  deriving DecidableEq, Repr

/-- `checks` is `_is_aborted`; `breaks` leaves the loop for another reason. -/
inductive DaemonStep where
  | findsNoConsumeStep | activates | checks | breaks | stops | raises | marksFailed | killed
  deriving DecidableEq, Repr

/-- A step of `run_streaming_pipeline`; `_set_status` updates the row without reading it. -/
def Daemon.act (d : Daemon) (stored : PipelineStatus) :
    DaemonStep → Option (Daemon × PipelineStatus)
  | .findsNoConsumeStep => if d = .queued then some (.finished, .FAILED) else none
  | .activates => if d = .queued then some (.looping, .STREAMING_ACTIVE) else none
  | .checks =>
    if d = .looping then
      if stored ∈ [.STREAMING_ACTIVE, .STREAMING_PAUSED] then some (.looping, stored)
      else some (.leaving, stored)
    else none
  | .breaks => if d = .looping then some (.leaving, stored) else none
  | .stops => if d = .leaving then some (.finished, .STREAMING_STOPPED) else none
  | .raises => if d = .failing ∨ d = .finished then none else some (.failing, stored)
  | .marksFailed => if d = .failing then some (.finished, .FAILED) else none
  | .killed => some (.finished, stored)

/-- The request that has submitted a run with a stream consume step. -/
inductive Submission where
  | queuedDaemon | answered

/-- Every writer of the status column of a run. -/
inductive Actor (Error Violation : Type) where
  | worker (w : Worker Error Violation)
  | request (r : Request)
  | reconciler (r : Reconciler)
  | daemon (d : Daemon)
  | submission (s : Submission)

inductive ActorStep (Error Violation : Type) where
  | worker (e : WorkerStep Error Violation)
  | request (e : RequestStep)
  | reconciler (e : ReconcilerStep)
  | daemon (e : DaemonStep)
  | submissionCommits

/-- One step of one actor on the stored status. -/
def act (healing : Healing Error) (a : Actor Error Violation) (stored : PipelineStatus)
    (e : ActorStep Error Violation) : Option (Actor Error Violation × PipelineStatus) :=
  match a, e with
  | .worker w, .worker e => (w.act healing stored e).map fun r => (.worker r.1, r.2)
  | .request r, .request e => (r.act stored e).map fun r => (.request r.1, r.2)
  | .reconciler r, .reconciler e => (r.act stored e).map fun r => (.reconciler r.1, r.2)
  | .daemon d, .daemon e => (d.act stored e).map fun r => (.daemon r.1, r.2)
  | .submission .queuedDaemon, .submissionCommits =>
    some (.submission .answered, .STREAMING_ACTIVE)
  | _, _ => none

end PipelineIQ.Lifecycle.Actors
