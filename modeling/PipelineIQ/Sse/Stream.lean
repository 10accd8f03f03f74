import Mathlib.Data.Rat.Init
import PipelineIQ.Models
import PipelineIQ.Sse.Signing

namespace PipelineIQ.Sse.Stream

open PipelineIQ.Lib PipelineIQ.Models PipelineIQ.Sse.Signing

/-- Seconds without a frame after which the stream writes a heartbeat. -/
def heartbeatIntervalSeconds : ℚ := 15

def terminalStatuses : List String :=
  [PipelineStatus.HEALED.value, PipelineStatus.COMPLETED.value, PipelineStatus.FAILED.value,
   PipelineStatus.CANCELLED.value, PipelineStatus.TIMEOUT.value]

def terminalEventTypes : List String :=
  ["pipeline_completed", "pipeline_failed", "pipeline_cancelled", "stream_end"]

/-- The attributes of a run that the endpoint reads. -/
structure PipelineRun where
  id : String
  name : String
  userId : Option String
  status : PipelineStatus
  errorMessage : Option String

/-- `grant` is the permission row of the user for the run's pipeline. -/
def authorizeRunAccess (run : PipelineRun) (user : User) (grant : Option PermissionLevel) :
    Except HTTPException Unit :=
  if user.role = "admin" then .ok ()
  else match run.userId with
    | none => .error ⟨403, "Not authorized to access this pipeline stream"⟩
    | some owner =>
      if owner = user.id then .ok ()
      else match grant with
        | some .OWNER | some .RUNNER | some .VIEWER => .ok ()
        | none => .error ⟨403, "Not authorized to access this pipeline stream"⟩

/-- What Redis hands to the subscriber. -/
inductive Data (Bytes : Type) where
  | dict (payload : Payload)
  | text (bytes : Bytes)
  | other

/-- One pass of the polling loop as the outside world answers it. -/
inductive Poll (Bytes : Type) where
  | disconnected
  | noMessage (now : ℚ)
  | message (data : Data Bytes) (now : ℚ)

/-- A read of the cached last event. -/
inductive CacheRead (Bytes : Type) where
  | redisError
  | missing
  | value (bytes : Bytes)

inductive Frame where
  | event (eventType : String) (payload : Payload)
  | heartbeat

/-- How far the stream got: it ended the response, the client left, or it is
still polling. -/
inductive Outcome where
  | closed | disconnected | streaming
  deriving DecidableEq, Repr

structure Session where
  frames : List Frame
  outcome : Outcome

def Session.cons (frame : Frame) (s : Session) : Session := { s with frames := frame :: s.frames }

structure Env (Bytes : Type) where
  codec : JsonCodec Bytes
  signer : Signer Bytes

variable {Bytes : Type}

def formatSseEvent (eventType : String) (payload : Payload) : Frame :=
  .event eventType (publicSsePayload payload)

/-- The event type a bare status stands for. -/
def statusToEvent : String → String
  | "HEALED" => "pipeline_completed"
  | "RUNNING" => "step_started"
  | "COMPLETED" => "step_completed"
  | "FAILED" => "step_failed"
  | "CANCELLED" => "pipeline_cancelled"
  | "TIMEOUT" => "pipeline_failed"
  | _ => "progress"

def statusEventType (payload : Payload) : String :=
  match payload.get? "status" with
  | some (.str stepStatus) => statusToEvent stepStatus
  | _ => "progress"

def extractEventType (payload : Payload) : String :=
  match payload.get? "event_type" with
  | some (.str eventType) => if eventType ≠ "" then eventType else statusEventType payload
  | _ => statusEventType payload

def isTerminalEvent (eventType : String) (payload : Payload) : Bool :=
  if eventType ∈ terminalEventTypes then true
  else match payload.get? "status" with
    | some (.str status) => decide (status ∈ terminalStatuses)
    | _ => false

def terminalEventType (status : PipelineStatus) : String :=
  if status = .COMPLETED ∨ status = .HEALED then "pipeline_completed"
  else if status = .CANCELLED then "pipeline_cancelled"
  else "pipeline_failed"

def verified (env : Env Bytes) (document : Json) : Option Payload := do
  let parsed ← document.asDict
  if verifySsePayload env.signer parsed then some parsed else none

def getCachedEvent (env : Env Bytes) : CacheRead Bytes → Option Payload
  | .redisError | .missing => none
  | .value bytes => (env.codec.loads bytes).bind (verified env)

def parseMessagePayload (env : Env Bytes) : Data Bytes → Option Payload
  | .dict payload => some payload
  | .text bytes => (env.codec.loads bytes).bind (verified env)
  | .other => none

def streamEnd (runId : String) (status : Option Json) : Frame :=
  formatSseEvent "stream_end" (Dict.ofList
    [("run_id", .str runId), ("event_type", .str "stream_end"), ("status", status.getD .null)])

/-- The polling loop of the live generator; `lastEmitAt` is when it last wrote a
frame. -/
def liveLoop (env : Env Bytes) (runId : String) (lastEmitAt : ℚ) : List (Poll Bytes) → Session
  | [] => ⟨[], .streaming⟩
  | .disconnected :: _ => ⟨[], .disconnected⟩
  | .noMessage now :: polls =>
    if now - lastEmitAt ≥ heartbeatIntervalSeconds then
      (liveLoop env runId now polls).cons .heartbeat
    else liveLoop env runId lastEmitAt polls
  | .message data now :: polls =>
    match parseMessagePayload env data with
    | none => liveLoop env runId lastEmitAt polls
    | some payload =>
      let eventType := extractEventType payload
      if isTerminalEvent eventType payload then
        ⟨[formatSseEvent eventType payload, streamEnd runId (payload.get? "status")], .closed⟩
      else (liveLoop env runId now polls).cons (formatSseEvent eventType payload)

def liveEventGenerator (env : Env Bytes) (runId initialStatus : String) (start : ℚ)
    (cache : CacheRead Bytes) (polls : List (Poll Bytes)) : Session :=
  match getCachedEvent env cache with
  | some cachedEvent =>
    let cachedEventType := extractEventType cachedEvent
    if isTerminalEvent cachedEventType cachedEvent then
      ⟨[formatSseEvent cachedEventType cachedEvent,
        streamEnd runId (cachedEvent.get? "status")], .closed⟩
    else (liveLoop env runId start polls).cons (formatSseEvent cachedEventType cachedEvent)
  | none =>
    (liveLoop env runId start polls).cons (formatSseEvent "pipeline_status" (Dict.ofList
      [("run_id", .str runId), ("event_type", .str "pipeline_status"),
       ("status", .str initialStatus)]))

def completedEventGenerator (run : PipelineRun) : Session :=
  let eventType := terminalEventType run.status
  ⟨[formatSseEvent eventType (Dict.ofList
      [("run_id", .str run.id), ("event_type", .str eventType),
       ("status", .str run.status.value), ("error_message", .option .str run.errorMessage)]),
    streamEnd run.id (some (.str run.status.value))], .closed⟩

/-- The stream endpoint after the run was looked up. -/
def streamPipelineProgress (env : Env Bytes) (runId : String) (pipelineRun : Option PipelineRun)
    (user : User) (grant : Option PermissionLevel) (start : ℚ) (cache : CacheRead Bytes)
    (polls : List (Poll Bytes)) : Except HTTPException Session := do
  match pipelineRun with
  | none => .error ⟨404, "Pipeline run '" ++ runId ++ "' not found"⟩
  | some run =>
    authorizeRunAccess run user grant
    if run.status.value ∈ terminalStatuses then return completedEventGenerator run
    else return liveEventGenerator env runId run.status.value start cache polls

end PipelineIQ.Sse.Stream
