import PipelineIQ.Lib.Strings

namespace PipelineIQ.Tasks.Webhooks

open PipelineIQ.Lib.Strings

/-! ### Rows and messages -/

/-- An identifier of the database; as a text it is never empty. -/
structure Uuid where
  text : String
  nonempty : text ≠ ""
  deriving DecidableEq

/-- `str(user_id) if user_id else ""`. -/
def userIdText : Option Uuid → String
  | some u => u.text
  | none => ""

structure Webhook where
  id : Nat
  userId : Uuid
  url : String
  events : List String
  isActive : Bool := true
  deriving DecidableEq

structure PipelineRun where
  name : String
  userId : Option Uuid

/-- What a run tells when it has ended. -/
structure Summary where
  status : String
  durationMs : Nat
  stepsCount : Nat
  rowsProcessed : Nat

structure Payload where
  event : String
  timestamp : String
  runId : Nat
  pipelineName : String
  summary : Summary
  eventType : String

structure WebhookDelivery where
  webhookId : Nat
  runId : Nat
  eventType : String
  responseStatus : Option Nat := none
  responseBody : Option String := none
  attemptNumber : Nat
  delivered : Bool := false
  errorMessage : Option String := none

def truncate (n : Nat) (s : String) : String := String.ofList (s.toList.take n)

/-! ### One delivery -/

def redirectStatuses : List Nat := [301, 302, 303, 307, 308]
def maxRedirectHops : Nat := 3

inductive Method where
  | POST | GET
  deriving DecidableEq

structure Response where
  statusCode : Nat
  text : String
  location : Option String

/-- An exception of the client: a request error or a timeout, or any other one. -/
inductive ClientError where
  | request (message : String)
  | other (message : String)

/-- The outside world during one execution: what each of the checks says against an address, if
anything, and what each request comes back with. -/
structure Net where
  objection : Nat → String → Option String
  send : Nat → Method → String → Except ClientError Response
  urljoin : String → String → String

inductive Posted where
  | response (r : Response)
  | unsafeUrl (message : String)
  | raised (e : ClientError)

/-- The requests of one delivery, each redirect checked before it is followed. -/
def followRedirects (net : Net) : Nat → Nat → Method → String → Posted
  | 0, _, _, _ => .raised (.request s!"Too many redirects (>{maxRedirectHops} hops)")
  | hops + 1, k, method, url =>
    match net.send k method url with
    | .error e => .raised e
    | .ok resp =>
      if resp.statusCode ∉ redirectStatuses then .response resp
      else match resp.location with
        | none | some "" => .response resp
        | some location =>
          let url := net.urljoin url location
          match net.objection (k + 2) url with
          | some message => .unsafeUrl message
          | none => followRedirects net hops (k + 1)
              (if resp.statusCode ∈ [301, 302, 303] then .GET else method) url

def postWithSafeRedirects (net : Net) (url : String) : Posted :=
  match net.objection 1 url with
  | some message => .unsafeUrl message
  | none => followRedirects net (maxRedirectHops + 1) 0 .POST url

/-- How one execution of the task ends: it returns, it raises an exception that is retried, or it
raises another one. -/
inductive Ending where
  | returned | retried | failed
  deriving DecidableEq

def succeeds (resp : Response) : Bool := 200 ≤ resp.statusCode && resp.statusCode < 300

def row (webhook : Webhook) (payload : Payload) (attemptNumber : Nat) : WebhookDelivery :=
  { webhookId := webhook.id, runId := payload.runId, eventType := payload.eventType, attemptNumber }

def failedRow (webhook : Webhook) (payload : Payload) (attemptNumber : Nat) (error : String) :
    WebhookDelivery :=
  { row webhook payload attemptNumber with errorMessage := some error }

def responseRow (webhook : Webhook) (payload : Payload) (attemptNumber : Nat) (resp : Response) :
    WebhookDelivery :=
  { row webhook payload attemptNumber with
    responseStatus := some resp.statusCode
    responseBody := if resp.text = "" then none else some (truncate 1000 resp.text)
    delivered := succeeds resp
    errorMessage := if succeeds resp then none else some s!"HTTP {resp.statusCode}" }

def badStatus (resp : Response) : String :=
  s!"Webhook returned {resp.statusCode}: {truncate 200 resp.text}"

/-- The rows that an execution commits for an active webhook, and how it ends. A bad status is
logged, and then raised into the handler that logs request errors. -/
def attempt (net : Net) (webhook : Webhook) (payload : Payload) (attemptNumber : Nat) :
    List WebhookDelivery × Ending :=
  if (net.objection 0 webhook.url).isSome then ([], .returned)
  else match postWithSafeRedirects net webhook.url with
    | .response resp =>
      if succeeds resp then ([responseRow webhook payload attemptNumber resp], .returned)
      else ([responseRow webhook payload attemptNumber resp,
        failedRow webhook payload attemptNumber (truncate 500 (badStatus resp))], .retried)
    | .unsafeUrl message => ([failedRow webhook payload attemptNumber
        ("Redirect target blocked: " ++ message)], .returned)
    | .raised (.request message) =>
      ([failedRow webhook payload attemptNumber (truncate 500 message)], .retried)
    | .raised (.other _) => ([], .failed)

/-! ### The tasks -/

def deliverMaxRetries : Nat := 3
def fanOutMaxRetries : Nat := 2

/-- A queued delivery; `retries` is `none` once the task is over. -/
structure DeliveryTask where
  webhookId : Nat
  payload : Payload
  retries : Option Nat := some 0

/-- A queued fan-out, with the owner that the run had when its event was raised. -/
structure FanOutTask where
  runId : Nat
  pipelineName : String
  summary : Summary
  userId : String
  owner : Option Uuid
  retries : Option Nat := some 0

/-- The database and the queues, with a record of the attempts made and of the rows they left (each
with its task), and of the webhooks enqueued (each with its fan-out task). -/
structure World where
  runs : List PipelineRun := []
  webhooks : List Webhook := []
  nextWebhookId : Nat := 0
  fanOuts : List FanOutTask := []
  deliveries : List DeliveryTask := []
  attempts : List (Nat × Nat) := []
  log : List (Nat × WebhookDelivery) := []
  enqueued : List (Nat × Webhook) := []

def eventTypeOf (summary : Summary) : String :=
  "pipeline_" ++ String.ofList (lowerCase summary.status.toList)

def payloadOf (task : FanOutTask) (timestamp : String) : Payload where
  event := eventTypeOf task.summary
  timestamp := timestamp
  runId := task.runId
  pipelineName := task.pipelineName
  summary := task.summary
  eventType := eventTypeOf task.summary

/-- The webhooks that a fan-out goes through. -/
def queried (w : World) (userId : String) : List Webhook :=
  w.webhooks.filter fun wh => wh.isActive && (userId == "" || wh.userId.text == userId)

def matched (w : World) (task : FanOutTask) : List Webhook :=
  (queried w task.userId).filter fun wh => decide (eventTypeOf task.summary ∈ wh.events)

/-- An exception in the middle of a fan-out: the query raises, or enqueuing does after some tasks. -/
inductive Fault where
  | query
  | enqueue (done : Nat)

def enqueues (w : World) (task : FanOutTask) : Option Fault → List Webhook
  | none => matched w task
  | some .query => []
  | some (.enqueue done) => (matched w task).take done

def raises (w : World) (task : FanOutTask) : Option Fault → Bool
  | none => false
  | some .query => true
  | some (.enqueue done) => done < (matched w task).length

def retryOf (maxRetries retries : Nat) : Option Nat :=
  if retries < maxRetries then some (retries + 1) else none

def deliverWebhooksTask (w : World) (i : Nat) (task : FanOutTask) (retries : Nat)
    (timestamp : String) (fault : Option Fault) : World :=
  { w with
    fanOuts := w.fanOuts.set i { task with
      retries := if raises w task fault then retryOf fanOutMaxRetries retries else none }
    deliveries := w.deliveries ++ (enqueues w task fault).map fun wh =>
      { webhookId := wh.id, payload := payloadOf task timestamp }
    enqueued := w.enqueued ++ (enqueues w task fault).map fun wh => (i, wh) }

/-- The next execution of a task after one that ended so. -/
def nextRetries (retries : Nat) : Ending → Option Nat
  | .retried => retryOf deliverMaxRetries retries
  | .returned | .failed => none

/-- A webhook that is gone or inactive gets no attempt. -/
def deliverWebhook (w : World) (i : Nat) (task : DeliveryTask) (retries : Nat) (net : Net) : World :=
  match w.webhooks.find? fun wh => decide (wh.id = task.webhookId) with
  | none => { w with deliveries := w.deliveries.set i { task with retries := none } }
  | some webhook =>
    if !webhook.isActive then
      { w with deliveries := w.deliveries.set i { task with retries := none } }
    else
      let (rows, ending) := attempt net webhook task.payload (retries + 1)
      { w with
        deliveries := w.deliveries.set i { task with retries := nextRetries retries ending }
        attempts := w.attempts ++ [(i, retries + 1)]
        log := w.log ++ rows.map fun r => (i, r) }

/-! ### Runs of the system -/

inductive Event where
  | createRun (name : String) (userId : Option Uuid)
  | createWebhook (userId : Uuid) (url : String) (events : List String)
  | deleteWebhook (id : Nat)
  | deactivateWebhook (id : Nat)
  | deleteUser (userId : Uuid)
  | finishRun (runId : Nat) (summary : Summary)
  | fanOut (index : Nat) (timestamp : String) (fault : Option Fault)
  | deliver (index : Nat) (net : Net)

/-- The runs of a deleted user have no owner, and its webhooks are deleted with it. -/
def deleteUser (w : World) (userId : Uuid) : World :=
  { w with
    runs := w.runs.map fun run => if run.userId = some userId then { run with userId := none } else run
    webhooks := w.webhooks.filter fun wh => decide (wh.userId ≠ userId) }

/-- The end of a run raises its event. -/
def finishRun (w : World) (runId : Nat) (run : PipelineRun) (summary : Summary) : World :=
  { w with fanOuts := w.fanOuts ++ [
      { runId, pipelineName := run.name, summary, userId := userIdText run.userId,
        owner := run.userId }] }

def deactivate (id : Nat) (wh : Webhook) : Webhook :=
  if wh.id = id then { wh with isActive := false } else wh

def step (w : World) : Event → Option World
  | .createRun name userId => some { w with runs := w.runs ++ [⟨name, userId⟩] }
  | .createWebhook userId url events => some { w with
      webhooks := w.webhooks ++ [⟨w.nextWebhookId, userId, url, events, true⟩]
      nextWebhookId := w.nextWebhookId + 1 }
  | .deleteWebhook id =>
    some { w with webhooks := w.webhooks.filter fun wh => decide (wh.id ≠ id) }
  | .deactivateWebhook id => some { w with webhooks := w.webhooks.map (deactivate id) }
  | .deleteUser userId => some (deleteUser w userId)
  | .finishRun runId summary => (w.runs[runId]?).map fun run => finishRun w runId run summary
  | .fanOut index timestamp fault =>
    (w.fanOuts[index]?).bind fun task => task.retries.map fun retries =>
      deliverWebhooksTask w index task retries timestamp fault
  | .deliver index net =>
    (w.deliveries[index]?).bind fun task => task.retries.map fun retries =>
      deliverWebhook w index task retries net

end PipelineIQ.Tasks.Webhooks
