import Mathlib.Data.List.Basic
import PipelineIQ.Lib.Machine
import PipelineIQ.Lib.Strings

namespace PipelineIQ.Frontend.RunView

open PipelineIQ.Lib.Machine PipelineIQ.Lib.Strings

/-! ### Runs and their events -/

inductive Status where
  | pending | running | healing | healed | completed | failed | cancelled | timeout
  | contractViolation
  deriving DecidableEq, Repr

/-- The statuses at which the page of a run stops to poll. -/
def Status.terminal : Status → Bool
  | .completed | .healed | .failed | .cancelled | .contractViolation | .timeout => true
  | .pending | .running | .healing => false

inductive StepStatus where
  | pending | running | completed | failed | skipped | contractViolation
  deriving DecidableEq, Repr

structure ContractViolation where
  id : Text
  stepName : Text
  severity : Text
  deriving DecidableEq, Repr

structure StepResult where
  stepName : Text
  stepType : Text := []
  stepIndex : Nat
  status : StepStatus
  rowsIn : Option Nat
  rowsOut : Option Nat
  durationMs : Option Nat
  errorMessage : Option Text
  columnsIn : List Text := []
  columnsOut : List Text := []
  warnings : List Text := []
  contractViolations : List ContractViolation := []
  deriving DecidableEq, Repr

structure PipelineRun where
  status : Status
  errorMessage : Option Text
  stepResults : List StepResult
  deriving DecidableEq, Repr

structure StepEvent where
  stepName : Text
  stepIndex : Nat
  status : StepStatus
  rowsIn : Option Nat
  rowsOut : Option Nat
  durationMs : Option Nat
  errorMessage : Option Text
  deriving DecidableEq, Repr

def StepEvent.patch (evt : StepEvent) (step : StepResult) : StepResult :=
  { step with
    stepName := evt.stepName
    stepIndex := evt.stepIndex
    status := evt.status
    rowsIn := evt.rowsIn
    rowsOut := evt.rowsOut
    durationMs := evt.durationMs
    errorMessage := evt.errorMessage }

def StepEvent.toStepResult (evt : StepEvent) : StepResult where
  stepName := evt.stepName
  stepIndex := evt.stepIndex
  status := evt.status
  rowsIn := evt.rowsIn
  rowsOut := evt.rowsOut
  durationMs := evt.durationMs
  errorMessage := evt.errorMessage

def applyStepEvent (run : PipelineRun) (evt : StepEvent) : PipelineRun where
  status := if evt.status = .running ∧ run.status ≠ .healing then .running else run.status
  errorMessage := run.errorMessage
  stepResults :=
    match run.stepResults.findIdx? (·.stepName == evt.stepName) with
    | some idx => run.stepResults.modify idx evt.patch
    | none => run.stepResults ++ [evt.toStepResult]

/-- A violation is added to the steps of its name that do not have it. -/
def applyViolation (run : PipelineRun) (violation : ContractViolation) : PipelineRun where
  status := if violation.severity = "error".toList then .contractViolation else run.status
  errorMessage := run.errorMessage
  stepResults := run.stepResults.map fun step =>
    if step.stepName ≠ violation.stepName then step
    else if step.contractViolations.any (·.id == violation.id) then step
    else { step with contractViolations := step.contractViolations ++ [violation] }

def PipelineRun.withStatus (run : PipelineRun) (status : Status) (errorMessage : Option Text) :
    PipelineRun :=
  { run with status, errorMessage }

/-- What is shown when the first fetch fails. -/
def placeholder : PipelineRun := ⟨.pending, none, []⟩

/-! ### The view of a run -/

/-- The messages of the stream; those about attempts of healing only refresh the run. -/
inductive Message where
  | step (evt : StepEvent)
  | healing (status : Status) (errorMessage : Option Text)
  | healingAttempt
  | terminal (fallback : Status) (status : Option Status) (errorMessage : Option Text)
  | violation (violation : ContractViolation)
  deriving DecidableEq, Repr

/-- What is done with the answer of a fetch. -/
inductive Fetch where
  | initial
  | refresh
  | terminal (status : Status) (errorMessage : Option Text)
  | lost
  deriving DecidableEq, Repr

inductive Source where
  | closed | opened | waiting
  deriving DecidableEq, Repr

/-- The rows that the run has had on the server, each from a time on and the newest first; and of
the browser the run it shows, its fetches with the time of each, the event source, the number of
attempts to reconnect, and whether the answer to a terminal message has been dealt with. -/
structure View where
  now : Nat
  rows : List (Nat × PipelineRun)
  activeRun : Option PipelineRun
  fetches : List (Nat × Fetch)
  source : Source
  reconnectAttempts : Nat
  handled : Bool
  deriving DecidableEq, Repr

inductive Event where
  | elapse (milliseconds : Nat)
  | write (run : PipelineRun)
  | answered (fetch row : Nat)
  | failed (fetch : Nat) (notFound : Bool)
  | opened
  | message (m : Message)
  | error
  | reconnect
  deriving DecidableEq, Repr

def staleTime : Nat := 30000

def maxReconnects : Nat := 5

namespace View

def fetchQuery (v : View) (fetch : Fetch) : View :=
  { v with fetches := v.fetches ++ [(v.now, fetch)] }

def setRun (v : View) (f : PipelineRun → PipelineRun) : View :=
  { v with activeRun := v.activeRun.map f }

def connectSSE (v : View) : View := { v with source := .opened }

/-- A row may be an answer if it was the one of the server at a time that is not older than the
stale time before the fetch. -/
def mayAnswer (v : View) (requested row : Nat) : Bool :=
  match row with
  | 0 => true
  | newer + 1 => (v.rows[newer]?).any fun e => decide (requested < e.1 + staleTime)

def answer (v : View) (fetch : Fetch) (run : PipelineRun) : View :=
  let v := { v with activeRun := some run }
  match fetch with
  | .initial => v.connectSSE
  | .terminal .. => { v with handled := true }
  | .refresh | .lost => v

def fail (v : View) (fetch : Fetch) (notFound : Bool) : View :=
  match fetch with
  | .initial =>
    let v := { v with activeRun := some placeholder }
    if notFound then v else v.connectSSE
  | .refresh => v
  | .terminal status errorMessage =>
    { v.setRun fun run => run.withStatus status errorMessage with handled := true }
  | .lost =>
    v.setRun fun run => run.withStatus .failed (some "Connection lost to stream".toList)

def message (v : View) : Message → View
  | .step evt => v.setRun fun run => applyStepEvent run evt
  | .healing status errorMessage =>
    (v.setRun fun run => run.withStatus status errorMessage).fetchQuery .refresh
  | .healingAttempt => v.fetchQuery .refresh
  | .terminal fallback status errorMessage =>
    { v.fetchQuery (.terminal (status.getD fallback) errorMessage) with source := .closed }
  | .violation violation => v.setRun fun run => applyViolation run violation

end View

def step (v : View) : Event → Option View
  | .elapse milliseconds => some { v with now := v.now + milliseconds }
  | .write run => some { v with rows := (v.now, run) :: v.rows }
  | .answered i row =>
    match v.fetches[i]?, v.rows[row]? with
    | some (requested, fetch), some (_, run) =>
      if v.mayAnswer requested row then
        some ({ v with fetches := v.fetches.eraseIdx i }.answer fetch run)
      else none
    | _, _ => none
  | .failed i notFound =>
    (v.fetches[i]?).map fun e => { v with fetches := v.fetches.eraseIdx i }.fail e.2 notFound
  | .opened => if v.source = .opened then some { v with reconnectAttempts := 0 } else none
  | .message m => if v.source = .opened then some (v.message m) else none
  | .error =>
    if v.source = .opened then
      let v := { v with source := .closed, reconnectAttempts := v.reconnectAttempts + 1 }
      some (if v.reconnectAttempts ≤ maxReconnects then { v with source := .waiting }
        else v.fetchQuery .lost)
    else none
  | .reconnect => if v.source = .waiting then some v.connectSSE else none

/-- The hook has just been mounted for a run. -/
def start (run : PipelineRun) : View where
  now := 0
  rows := [(0, run)]
  activeRun := none
  fetches := [(0, .initial)]
  source := .closed
  reconnectAttempts := 0
  handled := false

/-! ### What the view promises -/

/-- After the terminal message has been handled, the run that is shown has ended. -/
def Converged (v : View) : Prop :=
  v.handled = true → ∃ run ∈ v.activeRun, run.status.terminal = true

def Fetch.isTerminal : Fetch → Bool
  | .terminal .. => true
  | _ => false

/-- No answer is of a time before the end of the run, once it matters: the answer to the fetch for
the terminal message, and every answer after that. Where that fetch fails, the message has named a
terminal status. -/
def Fresh (v : View) : Event → Prop
  | .answered i row => ∀ e ∈ v.fetches[i]?, ∀ r ∈ v.rows[row]?, v.mayAnswer e.1 row = true →
    (v.handled = true ∨ e.2.isTerminal = true) → r.2.status.terminal = true
  | .failed i _ => ∀ e ∈ v.fetches[i]?, ∀ status errorMessage,
    e.2 = .terminal status errorMessage → status.terminal = true
  | _ => True

/-! ### The invariant -/

/-- The first fetch is on its way, and nothing else. -/
structure Mounting (v : View) : Prop where
  closed : v.source = .closed
  handled : v.handled = false
  fetches : ∃ requested, v.fetches = [(requested, .initial)]

/-- A run is shown, and after the terminal message the stream is closed for good. -/
structure Mounted (v : View) : Prop where
  shown : v.activeRun.isSome = true
  fetches : ∀ e ∈ v.fetches, e.2 ≠ .initial
  ended : v.handled = true ∨ (∃ e ∈ v.fetches, e.2.isTerminal = true) → v.source = .closed

def Inv (v : View) : Prop := Mounting v ∨ Mounted v

section Steps

variable {v t : View} {i row requested : Nat} {fetch : Fetch} {run : PipelineRun}

theorem Mounted.setRun (h : Mounted v) (f : PipelineRun → PipelineRun) : Mounted (v.setRun f) :=
  ⟨(Option.isSome_map ..).trans h.shown, h.fetches, h.ended⟩

theorem Mounted.not_initial (h : Mounted v) (hfetch : fetch ≠ .initial) :
    ∀ e ∈ v.fetches ++ [(v.now, fetch)], e.2 ≠ .initial := by
  intro e he
  rcases List.mem_append.mp he with he | he
  · exact h.fetches e he
  · rw [List.mem_singleton.mp he]
    exact hfetch

theorem Mounted.fetchQuery (h : Mounted v) (hinitial : fetch ≠ .initial)
    (hterminal : fetch.isTerminal = false) : Mounted (v.fetchQuery fetch) := by
  refine ⟨h.shown, h.not_initial hinitial, ?_⟩
  rintro (hhandled | ⟨e, he, hend⟩)
  · exact h.ended (.inl hhandled)
  · rcases List.mem_append.mp he with he | he
    · exact h.ended (.inr ⟨e, he, hend⟩)
    · rw [List.mem_singleton.mp he, hterminal] at hend
      cases hend

theorem Mounted.not_ended (h : Mounted v) (hsource : v.source ≠ .closed) :
    v.handled = false ∧ ∀ e ∈ v.fetches, e.2.isTerminal = false := by
  constructor
  · exact Bool.eq_false_iff.mpr fun hhandled => hsource (h.ended (.inl hhandled))
  · intro e he
    exact Bool.eq_false_iff.mpr fun hend => hsource (h.ended (.inr ⟨e, he, hend⟩))

/-- While the stream is not closed, the source may change as it likes. -/
theorem Mounted.withSource (h : Mounted v) (hsource : v.source ≠ .closed) (source : Source)
    (reconnectAttempts : Nat) : Mounted { v with source, reconnectAttempts } := by
  obtain ⟨hhandled, hfetches⟩ := h.not_ended hsource
  refine ⟨h.shown, h.fetches, ?_⟩
  rintro (hended | ⟨e, he, hend⟩)
  · rw [hhandled] at hended
    cases hended
  · rw [hfetches e he] at hend
    cases hend

theorem Mounted.message (h : Mounted v) (m : Message) : Mounted (v.message m) := by
  cases m with
  | step evt => exact h.setRun _
  | violation violation => exact h.setRun _
  | healing status errorMessage => exact (h.setRun _).fetchQuery nofun rfl
  | healingAttempt => exact h.fetchQuery nofun rfl
  | terminal fallback status errorMessage =>
    exact ⟨h.shown, h.not_initial nofun, fun _ => rfl⟩

theorem message_handled (m : Message) : (v.message m).handled = v.handled := by
  cases m <;> rfl

theorem Mounted.erase (h : Mounted v) (i : Nat) :
    Mounted { v with fetches := v.fetches.eraseIdx i } := by
  refine ⟨h.shown, fun e he => h.fetches e (List.mem_of_mem_eraseIdx he), ?_⟩
  rintro (hhandled | ⟨e, he, hend⟩)
  · exact h.ended (.inl hhandled)
  · exact h.ended (.inr ⟨e, List.mem_of_mem_eraseIdx he, hend⟩)

/-- Once a run is shown, the answer of a fetch is shown in its place. -/
theorem Mounted.answer (h : Mounted v) (hfetch : (requested, fetch) ∈ v.fetches) (i : Nat) :
    Mounted ({ v with fetches := v.fetches.eraseIdx i }.answer fetch run) := by
  have herase := h.erase i
  cases fetch with
  | initial => exact absurd rfl (h.fetches _ hfetch)
  | refresh => exact ⟨rfl, herase.fetches, herase.ended⟩
  | lost => exact ⟨rfl, herase.fetches, herase.ended⟩
  | terminal status errorMessage =>
    exact ⟨rfl, herase.fetches, fun _ => h.ended (.inr ⟨_, hfetch, rfl⟩)⟩

theorem Mounted.fail (h : Mounted v) (hfetch : (requested, fetch) ∈ v.fetches) (i : Nat)
    (notFound : Bool) : Mounted ({ v with fetches := v.fetches.eraseIdx i }.fail fetch notFound) := by
  have herase := h.erase i
  cases fetch with
  | initial => exact absurd rfl (h.fetches _ hfetch)
  | refresh => exact herase
  | lost => exact herase.setRun _
  | terminal status errorMessage =>
    have hrun := herase.setRun fun run => run.withStatus status errorMessage
    exact ⟨hrun.shown, hrun.fetches, fun _ => h.ended (.inr ⟨_, hfetch, rfl⟩)⟩

theorem step_answered_iff : step v (.answered i row) = some t ↔
    ∃ requested fetch since run, v.fetches[i]? = some (requested, fetch) ∧
      v.rows[row]? = some (since, run) ∧ v.mayAnswer requested row = true ∧
      { v with fetches := v.fetches.eraseIdx i }.answer fetch run = t := by
  rw [step]
  constructor
  · intro h
    split at h
    next requested fetch since run hfetch hrun =>
      obtain ⟨hmay, h⟩ := Option.ite_none_right_eq_some.mp h
      exact ⟨requested, fetch, since, run, hfetch, hrun, hmay, Option.some.inj h⟩
    next => cases h
  · rintro ⟨requested, fetch, since, run, hfetch, hrun, hmay, rfl⟩
    simp only [hfetch, hrun, hmay, if_true]

theorem step_failed_iff {notFound : Bool} : step v (.failed i notFound) = some t ↔
    ∃ requested fetch, v.fetches[i]? = some (requested, fetch) ∧
      { v with fetches := v.fetches.eraseIdx i }.fail fetch notFound = t := by
  rw [step, Option.map_eq_some_iff]
  constructor
  · rintro ⟨⟨requested, fetch⟩, hfetch, rfl⟩
    exact ⟨requested, fetch, hfetch, rfl⟩
  · rintro ⟨requested, fetch, hfetch, rfl⟩
    exact ⟨(requested, fetch), hfetch, rfl⟩

theorem Mounting.mounted (h : Mounting v) (hfetch : v.fetches[i]? = some (requested, fetch)) :
    fetch = .initial ∧ v.fetches.eraseIdx i = [] := by
  obtain ⟨requested', hfetches⟩ := h.fetches
  rw [hfetches] at hfetch ⊢
  match i with
  | 0 =>
    cases hfetch
    exact ⟨rfl, rfl⟩
  | i + 1 => cases hfetch

theorem Inv.step {e : Event} (h : Inv v) (hstep : step v e = some t) : Inv t := by
  cases e with
  | elapse milliseconds =>
    cases hstep
    rcases h with h | h
    · exact .inl ⟨h.closed, h.handled, h.fetches⟩
    · exact .inr ⟨h.shown, h.fetches, h.ended⟩
  | write run =>
    cases hstep
    rcases h with h | h
    · exact .inl ⟨h.closed, h.handled, h.fetches⟩
    · exact .inr ⟨h.shown, h.fetches, h.ended⟩
  | answered i row =>
    obtain ⟨requested, fetch, since, run, hfetch, -, -, rfl⟩ := step_answered_iff.mp hstep
    rcases h with h | h
    · obtain ⟨rfl, hrest⟩ := h.mounted hfetch
      refine .inr ⟨rfl, ?_, ?_⟩
      · simp [View.answer, View.connectSSE, hrest]
      · simp [View.answer, View.connectSSE, hrest, h.handled]
    · exact .inr (h.answer (List.mem_of_getElem? hfetch) i)
  | failed i notFound =>
    obtain ⟨requested, fetch, hfetch, rfl⟩ := step_failed_iff.mp hstep
    rcases h with h | h
    · obtain ⟨rfl, hrest⟩ := h.mounted hfetch
      refine .inr ?_
      cases notFound with
      | true => exact ⟨rfl, by simp [View.fail, hrest], fun _ => h.closed⟩
      | false =>
        exact ⟨rfl, by simp [View.fail, View.connectSSE, hrest],
          by simp [View.fail, View.connectSSE, hrest, h.handled]⟩
    · exact .inr (h.fail (List.mem_of_getElem? hfetch) i notFound)
  | opened =>
    obtain ⟨hsource, hstep⟩ := Option.ite_none_right_eq_some.mp hstep
    cases hstep
    rcases h with h | h
    · exact absurd (h.closed.symm.trans hsource) nofun
    · exact .inr (h.withSource (hsource ▸ nofun) _ _)
  | message m =>
    obtain ⟨hsource, hstep⟩ := Option.ite_none_right_eq_some.mp hstep
    cases hstep
    rcases h with h | h
    · exact absurd (h.closed.symm.trans hsource) nofun
    · exact .inr (h.message m)
  | error =>
    obtain ⟨hsource, hstep⟩ := Option.ite_none_right_eq_some.mp hstep
    cases hstep
    rcases h with h | h
    · exact absurd (h.closed.symm.trans hsource) nofun
    · have hopen : v.source ≠ .closed := hsource ▸ nofun
      split
      · exact .inr (h.withSource hopen _ _)
      · exact .inr ((h.withSource hopen _ _).fetchQuery nofun rfl)
  | reconnect =>
    obtain ⟨hsource, hstep⟩ := Option.ite_none_right_eq_some.mp hstep
    cases hstep
    rcases h with h | h
    · exact absurd (h.closed.symm.trans hsource) nofun
    · exact .inr (h.withSource (hsource ▸ nofun) _ _)

theorem Mounting.converged (h : Mounting v) : Converged v := by
  intro hhandled
  rw [h.handled] at hhandled
  cases hhandled

theorem Inv.not_handled (h : Inv v) (hsource : v.source ≠ .closed) : v.handled = false := by
  rcases h with h | h
  · exact h.handled
  · exact (h.not_ended hsource).1

theorem converged_of_not_handled (h : v.handled = false) : Converged v := by
  intro hhandled
  rw [h] at hhandled
  cases hhandled

theorem answer_handled : (v.answer fetch run).handled = (v.handled || fetch.isTerminal) := by
  cases fetch <;> simp [View.answer, View.connectSSE, Fetch.isTerminal]

theorem answer_activeRun : (v.answer fetch run).activeRun = some run := by
  cases fetch <;> rfl

/-- An answer matters from the terminal message on. -/
theorem converged_answer_iff : Converged (v.answer fetch run) ↔
    (v.handled = true ∨ fetch.isTerminal = true → run.status.terminal = true) := by
  rw [Converged, answer_handled, answer_activeRun, Bool.or_eq_true]
  simp

theorem converged_fail_iff {notFound : Bool} (h : Inv v)
    (hfetch : v.fetches[i]? = some (requested, fetch)) (hv : Converged v) :
    Converged ({ v with fetches := v.fetches.eraseIdx i }.fail fetch notFound) ↔
      ∀ status errorMessage, fetch = .terminal status errorMessage → status.terminal = true := by
  rcases h with h | h
  · obtain ⟨rfl, -⟩ := h.mounted hfetch
    refine iff_of_true (converged_of_not_handled ?_) nofun
    cases notFound <;> exact h.handled
  · obtain ⟨run, hrun⟩ := Option.isSome_iff_exists.mp h.shown
    cases fetch with
    | initial => exact absurd rfl (h.fetches _ (List.mem_of_getElem? hfetch))
    | refresh => exact iff_of_true hv nofun
    | lost =>
      refine iff_of_true (fun _ => ?_) nofun
      exact ⟨_, Option.map_eq_some_iff.mpr ⟨run, hrun, rfl⟩, rfl⟩
    | terminal status errorMessage =>
      constructor
      · rintro ht status' errorMessage' heq
        cases heq
        obtain ⟨run', hrun', hterminal⟩ := ht rfl
        obtain ⟨shown, _, rfl⟩ := Option.map_eq_some_iff.mp hrun'
        exact hterminal
      · intro hterminal _
        exact ⟨_, Option.map_eq_some_iff.mpr ⟨run, hrun, rfl⟩, hterminal status errorMessage rfl⟩

/-- A step keeps the view converged exactly when it is fresh. -/
theorem converged_step_iff {e : Event} (h : Inv v) (hv : Converged v)
    (hstep : RunView.step v e = some t) : Converged t ↔ Fresh v e := by
  have hopen : ∀ source : Source, source ≠ .closed → v.source = source → t.handled = v.handled →
      Converged t := by
    intro source hne hsource hhandled
    exact converged_of_not_handled (hhandled.trans (h.not_handled (hsource ▸ hne)))
  cases e with
  | elapse milliseconds =>
    cases hstep
    exact iff_of_true hv trivial
  | write run =>
    cases hstep
    exact iff_of_true hv trivial
  | answered i row =>
    obtain ⟨requested, fetch, since, run, hfetch, hrow, hmay, rfl⟩ := step_answered_iff.mp hstep
    rw [converged_answer_iff, Fresh, hfetch, hrow]
    simp [hmay]
  | failed i notFound =>
    obtain ⟨requested, fetch, hfetch, rfl⟩ := step_failed_iff.mp hstep
    rw [converged_fail_iff h hfetch hv, Fresh, hfetch]
    simp
  | opened =>
    obtain ⟨hsource, hstep⟩ := Option.ite_none_right_eq_some.mp hstep
    cases hstep
    exact iff_of_true (hopen .opened nofun hsource rfl) trivial
  | message m =>
    obtain ⟨hsource, hstep⟩ := Option.ite_none_right_eq_some.mp hstep
    cases hstep
    exact iff_of_true (hopen .opened nofun hsource (message_handled m)) trivial
  | error =>
    obtain ⟨hsource, hstep⟩ := Option.ite_none_right_eq_some.mp hstep
    cases hstep
    refine iff_of_true (hopen .opened nofun hsource ?_) trivial
    split <;> rfl
  | reconnect =>
    obtain ⟨hsource, hstep⟩ := Option.ite_none_right_eq_some.mp hstep
    cases hstep
    exact iff_of_true (hopen .waiting nofun hsource rfl) trivial

theorem fresh_of_eq_none {e : Event} (h : RunView.step v e = none) : Fresh v e := by
  cases e with
  | answered i row =>
    intro e he r hr hmay
    have hsome := step_answered_iff.mpr ⟨e.1, e.2, r.1, r.2, he, hr, hmay, rfl⟩
    rw [h] at hsome
    cases hsome
  | failed i notFound =>
    intro e he
    rw [RunView.step, Option.map_eq_none_iff] at h
    rw [h] at he
    cases he
  | _ => trivial

/-- The view converges in exactly the runs in which no answer that matters is stale. -/
theorem converged_iff (run : PipelineRun) (events : List Event) :
    Always RunView.step Converged (start run) events ↔
      Along RunView.step Fresh (start run) events := by
  have hstart : Mounting (start run) := ⟨rfl, rfl, 0, rfl⟩
  exact always_iff_along_all (fun _ _ _ hi hstep => hi.step hstep) (fun _ _ => fresh_of_eq_none)
    (fun _ _ _ hi hv hstep => converged_step_iff hi hv hstep) (.inl hstart) hstart.converged

end Steps

/-- The run ends five seconds after the first fetch, whose answer is still taken then. -/
def cachedAnswer : List Event :=
  [.answered 0 0, .opened, .elapse 5000, .write ⟨.completed, none, []⟩,
    .message (.terminal .completed (some .completed) none), .answered 0 1]

theorem cachedAnswer_not_converged :
    ¬ ∀ run events, Always step Converged (start run) events := by
  intro h
  have hlast := h ⟨.running, none, []⟩ cachedAnswer cachedAnswer [] (List.append_nil _).symm _ rfl
  obtain ⟨run, hrun, hterminal⟩ := hlast rfl
  cases hrun
  cases hterminal

end PipelineIQ.Frontend.RunView
