import PipelineIQ.Sse.Publishers
import PipelineIQ.Sse.Stream

namespace PipelineIQ.Sse.Forwarding

open PipelineIQ.Lib PipelineIQ.Models PipelineIQ.Sse.Signing PipelineIQ.Sse.Publishers
  PipelineIQ.Sse.Stream

variable {Bytes : Type}

/-- The payload as it travels: signed. -/
def signed (env : Env Bytes) (runId : String) (e : Event) : Payload :=
  signSsePayload env.signer (e.payload runId)

/-- The message a publisher puts on the run's channel. -/
def published (env : Env Bytes) (runId : String) (e : Event) : Data Bytes :=
  .text (env.codec.dumps (Json.ofDict (signed env runId e)))

/-- The cache entry: the publishers sign once more before they store it. -/
def cacheProgressPayload (env : Env Bytes) (runId : String) (e : Event) : CacheRead Bytes :=
  .value (env.codec.dumps (Json.ofDict (signSsePayload env.signer (signed env runId e))))

/-- A polling history that delivers the published events in order, with idle
polls and dropped messages in between. -/
inductive Delivers (env : Env Bytes) (runId : String) : List (Poll Bytes) → List Event → Prop where
  | nil : Delivers env runId [] []
  | noMessage {polls events} (now : ℚ) (rest : Delivers env runId polls events) :
      Delivers env runId (.noMessage now :: polls) events
  | dropped {polls events} (data : Data Bytes) (now : ℚ)
      (unreadable : parseMessagePayload env data = none) (rest : Delivers env runId polls events) :
      Delivers env runId (.message data now :: polls) events
  | event {polls events} (e : Event) (now : ℚ) (rest : Delivers env runId polls events) :
      Delivers env runId (.message (published env runId e) now :: polls) (e :: events)

/-- The frame that forwards an event. -/
def frame (runId : String) (e : Event) : Frame :=
  .event (extractEventType (e.payload runId)) (e.payload runId)

def isEvent : Frame → Bool
  | .event .. => true
  | .heartbeat => false

/-- The frames of a session without the heartbeats. -/
def eventFrames (s : Session) : List Frame := s.frames.filter isEvent

/-- What the generator writes first when no event is cached. -/
def opening (runId initialStatus : String) : Option Event → List Frame
  | some _ => []
  | none => [formatSseEvent "pipeline_status" (Dict.ofList
      [("run_id", .str runId), ("event_type", .str "pipeline_status"),
       ("status", .str initialStatus)])]

/-- The session forwards these events and that terminal event, ends the stream
and closes. -/
def Forwards (runId initialStatus : String) (cached : Option Event) (before : List Event)
    (terminal : Event) (s : Session) : Prop :=
  s.outcome = .closed ∧
  eventFrames s = opening runId initialStatus cached ++ (before ++ [terminal]).map (frame runId) ++
    [streamEnd runId (terminal.status.map Json.str)]

/-- Events of a step or of the healing whose status is spelled like the final
status of a run. -/
def carriesTerminalStatus : Event → Bool
  | .step event => decide (event.status = .COMPLETED ∨ event.status = .FAILED)
  | .healingNonHealable runStatus .. => decide (runStatus.value ∈ terminalStatuses)
  | .healingFailed .. | .healingRetryFailed .. | .healingComplete .. | .healingSucceeded .. => true
  | _ => false

def closes (e : Event) : Bool := e.isRunTerminal || carriesTerminalStatus e

@[simp] theorem get?_signed (env : Env Bytes) (runId : String) (e : Event) {field : String}
    (h : field ≠ sseSignatureField) :
    (signed env runId e).get? field = (e.payload runId).get? field :=
  get?_sign env.signer (e.payload runId) h

theorem parse_published (env : Env Bytes) (runId : String) (e : Event) :
    parseMessagePayload env (published env runId e) = some (signed env runId e) := by
  simp [parseMessagePayload, published, env.codec.loads_dumps, verified, signed]

theorem getCachedEvent_cacheProgressPayload (env : Env Bytes) (runId : String) (e : Event) :
    getCachedEvent env (cacheProgressPayload env runId e) = some (signed env runId e) := by
  simp [getCachedEvent, cacheProgressPayload, env.codec.loads_dumps, verified, signed]

theorem extractEventType_signed (env : Env Bytes) (runId : String) (e : Event) :
    extractEventType (signed env runId e) = extractEventType (e.payload runId) := by
  have ht : (signed env runId e).get? "event_type" = (e.payload runId).get? "event_type" :=
    get?_signed env runId e (by decide)
  have hs : (signed env runId e).get? "status" = (e.payload runId).get? "status" :=
    get?_signed env runId e (by decide)
  simp only [extractEventType, statusEventType, ht, hs]

theorem formatSseEvent_signed (env : Env Bytes) (runId : String) (e : Event) :
    formatSseEvent (extractEventType (signed env runId e)) (signed env runId e) = frame runId e := by
  have hp : publicSsePayload (signed env runId e) = e.payload runId :=
    publicSsePayload_sign env.signer _ (e.get?_signature runId)
  rw [formatSseEvent, hp, extractEventType_signed, frame]

theorem isTerminalEvent_payload (runId : String) (e : Event) :
    isTerminalEvent (extractEventType (e.payload runId)) (e.payload runId) = closes e := by
  simp only [isTerminalEvent, extractEventType, statusEventType, e.get?_eventType, e.get?_status]
  cases e with
  | step event =>
    obtain ⟨_, _, _, status, _, _, _, _, _⟩ := event
    cases status <;> rfl
  | healingNonHealable runStatus => cases runStatus <;> rfl
  | terminal eventType => cases eventType <;> simp [closes, Event.isRunTerminal, Event.eventType,
      TerminalType.value, terminalEventTypes]
  | _ => rfl

/-- The generator takes an event for the last one exactly when it ends the run
or carries a status spelled like a final one. -/
theorem isTerminalEvent_signed (env : Env Bytes) (runId : String) (e : Event) :
    isTerminalEvent (extractEventType (signed env runId e)) (signed env runId e) = closes e := by
  have hs : (signed env runId e).get? "status" = (e.payload runId).get? "status" :=
    get?_signed env runId e (by decide)
  rw [← isTerminalEvent_payload runId e, extractEventType_signed]
  simp only [isTerminalEvent, hs]

theorem status_signed (env : Env Bytes) (runId : String) (e : Event) :
    (signed env runId e).get? "status" = e.status.map Json.str := by
  rw [get?_signed env runId e (by decide), e.get?_status]

@[simp] theorem eventFrames_cons_frame (runId : String) (e : Event) (s : Session) :
    eventFrames (s.cons (frame runId e)) = frame runId e :: eventFrames s := rfl

@[simp] theorem eventFrames_cons_heartbeat (s : Session) :
    eventFrames (s.cons .heartbeat) = eventFrames s := rfl

@[simp] theorem eventFrames_cons_opening (runId initialStatus : String) (s : Session) :
    eventFrames (s.cons (formatSseEvent "pipeline_status" (Dict.ofList
      [("run_id", .str runId), ("event_type", .str "pipeline_status"),
       ("status", .str initialStatus)]))) = opening runId initialStatus none ++ eventFrames s := rfl

@[simp] theorem outcome_cons (f : Frame) (s : Session) : (s.cons f).outcome = s.outcome := rfl

theorem liveLoop_published (env : Env Bytes) (runId : String) (e : Event) (last now : ℚ)
    (polls : List (Poll Bytes)) :
    liveLoop env runId last (.message (published env runId e) now :: polls) =
      if closes e then ⟨[frame runId e, streamEnd runId (e.status.map Json.str)], .closed⟩
      else (liveLoop env runId now polls).cons (frame runId e) := by
  simp only [liveLoop, parse_published, isTerminalEvent_signed, formatSseEvent_signed,
    status_signed]

/-- A delivery whose events do not close leaves the loop polling; the first
event that closes ends it, whatever comes after. -/
theorem liveLoop_delivers {env : Env Bytes} {runId : String} {polls : List (Poll Bytes)}
    {events : List Event} (h : Delivers env runId polls events) (before after : List Event)
    (e : Event) (hsplit : events = before ++ e :: after) (hb : ∀ b ∈ before, closes b = false)
    (he : closes e = true) (last : ℚ) :
    (liveLoop env runId last polls).outcome = .closed ∧
    eventFrames (liveLoop env runId last polls) =
      (before ++ [e]).map (frame runId) ++ [streamEnd runId (e.status.map Json.str)] := by
  induction h generalizing before last with
  | nil => exact absurd hsplit (by simp)
  | noMessage now rest ih =>
    have hlast := ih before hsplit hb last
    have hnow := ih before hsplit hb now
    rw [liveLoop]
    split
    · exact hnow
    · exact hlast
  | dropped data now unreadable rest ih =>
    rw [liveLoop, unreadable]
    exact ih before hsplit hb last
  | event a now rest ih =>
    rw [liveLoop_published]
    cases before with
    | nil =>
      obtain ⟨rfl, -⟩ := List.cons.inj hsplit
      rw [if_pos he]
      exact ⟨rfl, rfl⟩
    | cons b before =>
      obtain ⟨rfl, htail⟩ := List.cons.inj hsplit
      have hrec := ih before htail (fun c hc => hb c (List.mem_cons_of_mem a hc)) now
      rw [if_neg (by rw [hb a (List.mem_cons_self ..)]; exact Bool.false_ne_true)]
      refine ⟨hrec.1, ?_⟩
      rw [eventFrames_cons_frame, hrec.2]
      rfl

/-- A cached event is handled as if it were the first one delivered. -/
theorem liveEventGenerator_cached {env : Env Bytes} {runId : String} {cache : CacheRead Bytes}
    {e : Event} (hc : getCachedEvent env cache = some (signed env runId e))
    (initialStatus : String) (start : ℚ) (polls : List (Poll Bytes)) :
    liveEventGenerator env runId initialStatus start cache polls =
      liveLoop env runId start (.message (published env runId e) start :: polls) := by
  rw [liveLoop_published]
  simp only [liveEventGenerator, hc, isTerminalEvent_signed, formatSseEvent_signed, status_signed]

/-- The live generator forwards up to the first event that closes. -/
theorem liveEventGenerator_delivers {env : Env Bytes} {runId : String} {cache : CacheRead Bytes}
    {cached : Option Event} (hcache : getCachedEvent env cache = cached.map (signed env runId))
    {polls : List (Poll Bytes)} {events : List Event} (hpolls : Delivers env runId polls events)
    {before after : List Event} {e : Event} (hsplit : cached.toList ++ events = before ++ e :: after)
    (hb : ∀ b ∈ before, closes b = false) (he : closes e = true) (initialStatus : String)
    (start : ℚ) :
    Forwards runId initialStatus cached before e
      (liveEventGenerator env runId initialStatus start cache polls) := by
  cases cached with
  | some c =>
    rw [liveEventGenerator_cached hcache]
    have h := liveLoop_delivers (.event c start hpolls) before after e hsplit hb he start
    exact h
  | none =>
    have h := liveLoop_delivers hpolls before after e hsplit hb he start
    have hc : getCachedEvent env cache = none := hcache
    rw [liveEventGenerator, hc]
    refine ⟨h.1, ?_⟩
    rw [eventFrames_cons_opening, h.2, List.append_assoc]

/-- With the first run-terminal event after `before`, forwarding is right
exactly when no event before it closes. -/
theorem liveEventGenerator_forwards_iff {env : Env Bytes} {runId : String} {cache : CacheRead Bytes}
    {cached : Option Event} (hcache : getCachedEvent env cache = cached.map (signed env runId))
    {polls : List (Poll Bytes)} {events : List Event} (hpolls : Delivers env runId polls events)
    {before after : List Event} {terminal : Event}
    (hsplit : cached.toList ++ events = before ++ terminal :: after)
    (hterm : terminal.isRunTerminal = true) (initialStatus : String) (start : ℚ) :
    Forwards runId initialStatus cached before terminal
        (liveEventGenerator env runId initialStatus start cache polls) ↔
      ∀ b ∈ before, closes b = false := by
  have he : closes terminal = true := by rw [closes, hterm, Bool.true_or]
  refine ⟨?_, fun hb => liveEventGenerator_delivers hcache hpolls hsplit hb he initialStatus start⟩
  intro hf b hb
  by_contra hclose
  have hsome : (before.find? closes).isSome = true :=
    List.find?_isSome.mpr ⟨b, hb, by simpa using hclose⟩
  obtain ⟨e, hfind⟩ := Option.isSome_iff_exists.mp hsome
  obtain ⟨hce, first, rest, rfl, hfirst⟩ := List.find?_eq_some_iff_append.mp hfind
  -- the session really ends at `e`, with fewer frames than it should have
  have hsplit' : cached.toList ++ events = first ++ e :: (rest ++ terminal :: after) := by
    rw [hsplit, List.append_assoc, List.cons_append]
  have hreal := liveEventGenerator_delivers hcache hpolls hsplit'
    (fun a ha => by simpa using hfirst a ha) hce initialStatus start
  have hlen := congrArg List.length (hf.2.symm.trans hreal.2)
  simp only [List.length_append, List.length_map, List.length_cons, List.length_nil] at hlen
  omega

theorem closes_eq_carriesTerminalStatus {e : Event} (h : e.isRunTerminal = false) :
    closes e = carriesTerminalStatus e := by
  rw [closes, h, Bool.false_or]

/-- A stored final status the endpoint does not recognise. -/
theorem value_mem_terminalStatuses_iff (s : PipelineStatus) :
    s.value ∈ terminalStatuses ↔ s.Terminal ∧ s ≠ .CONTRACT_VIOLATION := by
  cases s <;> decide

theorem streamPipelineProgress_live {env : Env Bytes} {runId : String} {run : PipelineRun}
    {user : User} {grant : Option PermissionLevel} (ha : authorizeRunAccess run user grant = .ok ())
    (hs : run.status.value ∉ terminalStatuses) (start : ℚ) (cache : CacheRead Bytes)
    (polls : List (Poll Bytes)) :
    streamPipelineProgress env runId (some run) user grant start cache polls =
      .ok (liveEventGenerator env runId run.status.value start cache polls) := by
  simp only [streamPipelineProgress, ha, bind, Except.bind, if_neg hs, pure, Except.pure]

theorem streamPipelineProgress_completed {env : Env Bytes} {runId : String} {run : PipelineRun}
    {user : User} {grant : Option PermissionLevel} (ha : authorizeRunAccess run user grant = .ok ())
    (hs : run.status.value ∈ terminalStatuses) (start : ℚ) (cache : CacheRead Bytes)
    (polls : List (Poll Bytes)) :
    streamPipelineProgress env runId (some run) user grant start cache polls =
      .ok (completedEventGenerator run) := by
  simp only [streamPipelineProgress, ha, bind, Except.bind, if_pos hs, pure, Except.pure]

/-- The response for this run ends under every polling history. -/
def AlwaysCloses (env : Env Bytes) (runId : String) (run : PipelineRun) (user : User)
    (grant : Option PermissionLevel) (start : ℚ) (cache : CacheRead Bytes) : Prop :=
  ∀ polls s, streamPipelineProgress env runId (some run) user grant start cache polls = .ok s →
    s.outcome ≠ .streaming

/-- A stored final status ends the response, except that a contract violation
does so only through a cached event that closes. -/
theorem alwaysCloses_iff {env : Env Bytes} {runId : String} {run : PipelineRun} {user : User}
    {grant : Option PermissionLevel} (ha : authorizeRunAccess run user grant = .ok ())
    (hs : run.status.Terminal) {cache : CacheRead Bytes} {cached : Option Event}
    (hcache : getCachedEvent env cache = cached.map (signed env runId)) (start : ℚ) :
    AlwaysCloses env runId run user grant start cache ↔
      run.status ≠ .CONTRACT_VIOLATION ∨ ∃ e, cached = some e ∧ closes e = true := by
  by_cases hcv : run.status = .CONTRACT_VIOLATION
  · have hlive : run.status.value ∉ terminalStatuses := by rw [hcv]; decide
    have hcond : (run.status ≠ .CONTRACT_VIOLATION ∨ ∃ e, cached = some e ∧ closes e = true) ↔
        ∃ e, cached = some e ∧ closes e = true := by simp [hcv]
    simp only [AlwaysCloses, streamPipelineProgress_live ha hlive, hcond]
    cases cached with
    | none =>
      have hc : getCachedEvent env cache = none := hcache
      refine iff_of_false ?_ (by simp)
      intro h
      apply h [] _ rfl
      rw [liveEventGenerator, hc]
      rfl
    | some e =>
      simp only [liveEventGenerator_cached hcache, liveLoop_published]
      cases he : closes e with
      | true =>
        refine iff_of_true ?_ ⟨e, rfl, he⟩
        intro _ s h
        cases h
        simp
      | false =>
        refine iff_of_false ?_ (by simp [he])
        intro h
        exact h [] _ rfl rfl
  · have hstored : run.status.value ∈ terminalStatuses :=
      (value_mem_terminalStatuses_iff run.status).mpr ⟨hs, hcv⟩
    refine iff_of_true ?_ (.inl hcv)
    intro _ s h
    rw [streamPipelineProgress_completed ha hstored] at h
    cases h
    simp [completedEventGenerator]

/-- A stream forwards every event through the first run-terminal one, ends and
closes exactly when no step or healing event before it carries a final status;
a run stored in a final status is never left streaming exactly when the status
is not a contract violation or a closing event is still cached. -/
theorem stream_ends_with_run_iff (env : Env Bytes) (runId : String) (user : User) :
    (∀ (run : PipelineRun) (grant : Option PermissionLevel),
      authorizeRunAccess run user grant = .ok () → run.status.value ∉ terminalStatuses →
      ∀ (cache : CacheRead Bytes) (cached : Option Event),
        getCachedEvent env cache = cached.map (signed env runId) →
      ∀ (polls : List (Poll Bytes)) (events : List Event), Delivers env runId polls events →
      ∀ (before after : List Event) (terminal : Event),
        cached.toList ++ events = before ++ terminal :: after →
        (∀ b ∈ before, b.isRunTerminal = false) → terminal.isRunTerminal = true →
      ∀ (start : ℚ) (s : Session),
        streamPipelineProgress env runId (some run) user grant start cache polls = .ok s →
        (Forwards runId run.status.value cached before terminal s ↔
          ∀ b ∈ before, carriesTerminalStatus b = false)) ∧
    (∀ (run : PipelineRun) (grant : Option PermissionLevel),
      authorizeRunAccess run user grant = .ok () → run.status.Terminal →
      ∀ (cache : CacheRead Bytes) (cached : Option Event),
        getCachedEvent env cache = cached.map (signed env runId) →
      ∀ start : ℚ, AlwaysCloses env runId run user grant start cache ↔
        run.status ≠ .CONTRACT_VIOLATION ∨
          ∃ e, cached = some e ∧ (e.isRunTerminal = true ∨ carriesTerminalStatus e = true)) := by
  refine ⟨?_, ?_⟩
  · intro run grant ha hlive cache cached hcache polls events hpolls before after terminal hsplit
      hbefore hterm start s hs
    rw [streamPipelineProgress_live ha hlive] at hs
    cases hs
    rw [liveEventGenerator_forwards_iff hcache hpolls hsplit hterm]
    apply forall₂_congr
    intro b hb
    rw [closes_eq_carriesTerminalStatus (hbefore b hb)]
  · intro run grant ha hstatus cache cached hcache start
    rw [alwaysCloses_iff ha hstatus hcache]
    simp only [closes, Bool.or_eq_true]

/-- An environment whose documents travel unserialised. -/
def plainEnv : Env Json where
  codec := { dumps := id, loads := some, loads_dumps := fun _ => rfl }
  signer := { dumpsSorted := Json.ofDict, hmac := fun _ => "00", hmac_ne_empty := fun _ => by decide,
              environment := "production" }

def runningRun : PipelineRun :=
  { id := "r", name := "sales", userId := some "u", status := .RUNNING, errorMessage := none }

def violatedRun : PipelineRun := { runningRun with status := .CONTRACT_VIOLATION }

def owner : User := { id := "u", role := "user" }

/-- The first step of two has finished. -/
def loadCompleted : Event :=
  .step { stepName := "load", stepIndex := 0, totalSteps := 2, status := .COMPLETED }

def loadStarted : Event :=
  .step { stepName := "load", stepIndex := 0, totalSteps := 2, status := .RUNNING }

def runCompleted : Event := .terminal .pipelineCompleted .COMPLETED ""

/-- A run cancelled in its first step is forwarded to its end; a run stored as
completed is closed without any cached event. -/
theorem stream_ends_with_run_iff_cancelled :
    Forwards "r" "RUNNING" none [loadStarted] (.terminal .pipelineCancelled .CANCELLED "")
      (liveEventGenerator plainEnv "r" "RUNNING" 0 .missing
        [.message (published plainEnv "r" loadStarted) 1, .noMessage 2,
         .message (published plainEnv "r" (.terminal .pipelineCancelled .CANCELLED "")) 3]) ∧
    AlwaysCloses plainEnv "r" { runningRun with status := .COMPLETED } owner none 0 .missing := by
  have h := stream_ends_with_run_iff plainEnv "r" owner
  refine ⟨?_, ?_⟩
  · exact (h.1 runningRun none rfl (by decide) .missing none rfl _ _
      (.event loadStarted 1 (.noMessage 2 (.event _ 3 .nil))) [loadStarted] [] _ rfl (by decide) rfl
      0 _ (streamPipelineProgress_live rfl (by decide) 0 .missing _)).mpr (by decide)
  · exact (h.2 { runningRun with status := .COMPLETED } none rfl (by decide) .missing none rfl 0).mpr
      (.inl (by decide))

/-- The stream closes on the first finished step, and a run stored as a contract
violation is left streaming. -/
theorem stream_closes_on_step :
    (∃ polls, Delivers plainEnv "r" polls [loadStarted, loadCompleted, runCompleted] ∧
      ∃ s, streamPipelineProgress plainEnv "r" (some runningRun) owner none 0 .missing polls = .ok s ∧
        ¬ Forwards "r" "RUNNING" none [loadStarted, loadCompleted] runCompleted s ∧
        eventFrames s = opening "r" "RUNNING" none ++
          [frame "r" loadStarted, frame "r" loadCompleted, streamEnd "r" (some (.str "COMPLETED"))]) ∧
    violatedRun.status.Terminal ∧
    ¬ AlwaysCloses plainEnv "r" violatedRun owner none 0 .missing := by
  have hpolls : Delivers plainEnv "r"
      [.message (published plainEnv "r" loadStarted) 1,
       .message (published plainEnv "r" loadCompleted) 2,
       .message (published plainEnv "r" runCompleted) 3]
      [loadStarted, loadCompleted, runCompleted] :=
    .event loadStarted 1 (.event loadCompleted 2 (.event runCompleted 3 .nil))
  have hcache : getCachedEvent plainEnv .missing = (none : Option Event).map (signed plainEnv "r") :=
    rfl
  have hend : (none : Option Event).toList ++ [loadStarted, loadCompleted, runCompleted] =
      [loadStarted, loadCompleted] ++ runCompleted :: [] := rfl
  have hstep : (none : Option Event).toList ++ [loadStarted, loadCompleted, runCompleted] =
      [loadStarted] ++ loadCompleted :: [runCompleted] := rfl
  refine ⟨⟨_, hpolls, _, streamPipelineProgress_live rfl (by decide) 0 .missing _, ?_, ?_⟩, ?_, ?_⟩
  · intro hf
    have h := (liveEventGenerator_forwards_iff hcache hpolls hend rfl "RUNNING" 0).mp hf
    exact absurd (h loadCompleted (by simp)) (by decide)
  · exact (liveEventGenerator_delivers hcache hpolls hstep (by decide) (by decide) "RUNNING" 0).2
  · decide
  · rw [alwaysCloses_iff rfl (by decide) hcache]
    simp [violatedRun]

end PipelineIQ.Sse.Forwarding
