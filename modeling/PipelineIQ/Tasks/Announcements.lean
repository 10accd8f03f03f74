import PipelineIQ.Lifecycle.Absorbing
import PipelineIQ.Sse.Publishers
import PipelineIQ.Sse.Stream
import PipelineIQ.Tasks.Webhooks

namespace PipelineIQ.Tasks.Announcements

open PipelineIQ.Models PipelineIQ.Lifecycle.Actors PipelineIQ.Lifecycle.Absorbing
open PipelineIQ.Sse.Publishers (TerminalType)
open PipelineIQ.Sse.Stream (terminalEventType)

/-- Where the end of a run is announced. -/
inductive Channel where
  | sse | notification | webhook
  deriving DecidableEq, Repr

/-- What the end of a run depends on: the status that the refresh reads, the execution, the healing
attempts and the contract, and the status that the row has when the worker commits. An announcement
is `sent` where no exception of Redis or of the broker keeps it back. -/
structure History (Error Violation : Type) where
  loaded : PipelineStatus
  summary : Summary Error Violation
  appliedAttempts : Nat
  verdict : Option ContractVerdict
  stored : PipelineStatus
  sent : Channel → Bool

/-- An announcement names the end of a run by an event type, and but for webhooks by its status. -/
structure Announcement where
  eventType : String
  status : Option PipelineStatus

variable {Error Violation : Type}

/-- The status of the row after the commit. -/
def finalStatus (h : History Error Violation) : PipelineStatus :=
  match persistResults h.loaded h.summary h.appliedAttempts h.verdict with
  | none => h.stored
  | some assigned => flush (some h.loaded) assigned h.stored

def eventType (h : History Error Violation) : TerminalType :=
  if h.loaded = .CANCELLED then .pipelineCancelled
  else if h.summary.status = .COMPLETED then .pipelineCompleted
  else .pipelineFailed

/-- The status that the webhook task is given. -/
def webhookStatus (h : History Error Violation) : String :=
  if h.summary.status = .COMPLETED then "completed" else "failed"

def webhookEventType (h : History Error Violation) : String :=
  Webhooks.eventTypeOf { status := webhookStatus h, durationMs := 0, stepsCount := 0, rowsProcessed := 0 }

/-- The status of the row is read again for each announcement, after the commit. -/
def announcement (h : History Error Violation) : Channel → Announcement
  | .sse | .notification => { eventType := (eventType h).value, status := some (finalStatus h) }
  | .webhook => { eventType := webhookEventType h, status := none }

/-- The event type that the stream endpoint gives to a stored status, and the status itself. -/
structure Denotes (a : Announcement) (status : PipelineStatus) : Prop where
  eventType : a.eventType = terminalEventType status
  status : ∀ s ∈ a.status, s = status

/-- Every announcement that is sent denotes the stored outcome, and none of a cancelled run or one
in violation of a contract names it completed. -/
structure Agreed (h : History Error Violation) : Prop where
  denotes : ∀ channel, h.sent channel = true → Denotes (announcement h channel) (finalStatus h)
  uncompleted : ∀ channel, h.sent channel = true →
    finalStatus h = .CANCELLED ∨ finalStatus h = .CONTRACT_VIOLATION →
      (announcement h channel).eventType ≠ TerminalType.pipelineCompleted.value

def healedRun (h : History Error Violation) : Prop := h.loaded = .HEALED ∨ h.appliedAttempts > 0

/-- The commit writes no status: the refresh has read a cancellation, or already the status that the
run deserves. -/
def Unwritten (h : History Error Violation) : Prop :=
  h.loaded = .CANCELLED ∨ Deserves h.summary (healedRun h) h.verdict h.loaded

/-- The steps have found violations, or the contract of the pipeline has. -/
def Breached (h : History Error Violation) : Prop :=
  h.summary.status = .COMPLETED ∧
    (hasContractViolations h.summary = true ∨ Blocked h.summary h.verdict)

/-- The row has a status of the kind that the execution ended with. -/
def SameKind (h : History Error Violation) : Prop :=
  if h.summary.status = .COMPLETED then h.stored ∈ [PipelineStatus.COMPLETED, .HEALED]
  else h.stored ∉ [PipelineStatus.COMPLETED, .HEALED, .CANCELLED]

/-- A cancellation that was read is still there, and no webhook is sent for it; a status that is
there already has not been replaced by one of another kind; and a run whose status is written has
violated no contract. -/
structure Faithful (h : History Error Violation) (channel : Channel) : Prop where
  cancelled : h.loaded = .CANCELLED →
    if channel = .webhook then SameKind h else h.stored = .CANCELLED
  unchanged : h.loaded ≠ .CANCELLED → Unwritten h → SameKind h
  written : ¬ Unwritten h → ¬ Breached h

section

variable {h : History Error Violation} {channel : Channel} {assigned : PipelineStatus}

theorem webhookEventType_eq (h : History Error Violation) : webhookEventType h =
    (if h.summary.status = .COMPLETED then TerminalType.pipelineCompleted
      else .pipelineFailed).value := by
  unfold webhookEventType webhookStatus
  split <;> rfl

theorem deserves_iff (hc : h.loaded ≠ .CANCELLED)
    (ha : persistResults h.loaded h.summary h.appliedAttempts h.verdict = some assigned)
    {status : PipelineStatus} :
    Deserves h.summary (healedRun h) h.verdict status ↔ status = assigned := by
  rw [healedRun, ← persistResults_eq_some_iff hc, ha, Option.some_inj, eq_comm]

theorem finalStatus_of_unwritten (hu : Unwritten h) : finalStatus h = h.stored := by
  unfold finalStatus
  by_cases hc : h.loaded = .CANCELLED
  · rw [persistResults, if_pos hc]
  · obtain ⟨assigned, ha⟩ := exists_persistResults hc h.summary h.appliedAttempts h.verdict
    rw [ha]
    exact flush_eq_stored_iff.mpr (.inl (congrArg some ((deserves_iff hc ha).mp (hu.resolve_left hc))))

theorem finalStatus_of_written (hu : ¬ Unwritten h) :
    Deserves h.summary (healedRun h) h.verdict (finalStatus h) := by
  obtain ⟨hc, hd⟩ := not_or.mp hu
  obtain ⟨assigned, ha⟩ := exists_persistResults hc h.summary h.appliedAttempts h.verdict
  rw [deserves_iff hc ha] at hd ⊢
  unfold finalStatus
  rw [ha]
  exact if_neg fun heq => hd (Option.some_inj.mp heq)

/-- A run that is not cancelled is announced as its execution went. -/
theorem announced_of_written (hu : ¬ Unwritten h) (channel : Channel) :
    (announcement h channel).eventType = (if h.summary.status = .COMPLETED then
      TerminalType.pipelineCompleted else .pipelineFailed).value := by
  have hc : h.loaded ≠ .CANCELLED := fun hc => hu (.inl hc)
  cases channel with
  | webhook => exact webhookEventType_eq h
  | sse | notification =>
    dsimp only [announcement]
    rw [eventType, if_neg hc]

theorem denotes_of_written_iff (hu : ¬ Unwritten h) :
    (announcement h channel).eventType = terminalEventType (finalStatus h) ↔ ¬ Breached h := by
  have hdeserves := finalStatus_of_written hu
  rw [announced_of_written hu]
  unfold Breached
  cases hfinal : finalStatus h with
  | FAILED =>
    rw [hfinal] at hdeserves
    rw [if_neg hdeserves]
    exact iff_of_true rfl fun hb => hdeserves hb.1
  | CONTRACT_VIOLATION =>
    rw [hfinal] at hdeserves
    rw [if_pos hdeserves.1]
    exact iff_of_false (by decide) (not_not.mpr hdeserves)
  | HEALED | COMPLETED =>
    rw [hfinal] at hdeserves
    obtain ⟨hcompleted, hinline, hblocked, -⟩ := hdeserves
    rw [if_pos hcompleted]
    refine iff_of_true rfl ?_
    rintro ⟨-, hv | hb⟩
    · rw [hinline] at hv
      cases hv
    · exact hblocked hb
  | _ =>
    rw [hfinal] at hdeserves
    exact hdeserves.elim

theorem terminalEventType_eq_cancelled_iff {status : PipelineStatus} :
    TerminalType.pipelineCancelled.value = terminalEventType status ↔ status = .CANCELLED := by
  cases status <;> decide

theorem sameKind_iff : (if h.summary.status = .COMPLETED then
      TerminalType.pipelineCompleted else .pipelineFailed).value = terminalEventType h.stored ↔
    SameKind h := by
  unfold SameKind
  by_cases hs : h.summary.status = .COMPLETED
  · rw [if_pos hs, if_pos hs]
    cases h.stored <;> decide
  · rw [if_neg hs, if_neg hs]
    cases h.stored <;> decide

/-- Where the commit writes no status, the announcement has to fit the row as it is. -/
theorem denotes_of_unwritten_iff (hu : Unwritten h) :
    (announcement h channel).eventType = terminalEventType (finalStatus h) ↔
      if h.loaded = .CANCELLED ∧ channel ≠ .webhook then h.stored = .CANCELLED else SameKind h := by
  rw [finalStatus_of_unwritten hu]
  cases channel with
  | webhook =>
    rw [if_neg (by simp)]
    dsimp only [announcement]
    rw [webhookEventType_eq]
    exact sameKind_iff
  | sse | notification =>
    dsimp only [announcement]
    by_cases hc : h.loaded = .CANCELLED
    · rw [if_pos ⟨hc, by decide⟩, eventType, if_pos hc]
      exact terminalEventType_eq_cancelled_iff
    · rw [if_neg (fun hboth => hc hboth.1), eventType, if_neg hc]
      exact sameKind_iff

theorem faithful_iff :
    (announcement h channel).eventType = terminalEventType (finalStatus h) ↔
      Faithful h channel := by
  by_cases hu : Unwritten h
  · rw [denotes_of_unwritten_iff hu]
    by_cases hc : h.loaded = .CANCELLED
    · by_cases hw : channel = .webhook
      · rw [if_neg (fun hboth => hboth.2 hw)]
        exact ⟨fun hk => ⟨fun _ => (if_pos hw).mpr hk, fun _ _ => hk, fun hn => absurd hu hn⟩,
          fun hf => (if_pos hw).mp (hf.cancelled hc)⟩
      · rw [if_pos ⟨hc, hw⟩]
        exact ⟨fun hs => ⟨fun _ => (if_neg hw).mpr hs, fun hn => absurd hc hn,
          fun hn => absurd hu hn⟩, fun hf => (if_neg hw).mp (hf.cancelled hc)⟩
    · rw [if_neg (fun hboth => hc hboth.1)]
      exact ⟨fun hk => ⟨fun hc' => absurd hc' hc, fun _ _ => hk, fun hn => absurd hu hn⟩,
        fun hf => hf.unchanged hc hu⟩
  · rw [denotes_of_written_iff hu]
    exact ⟨fun hb => ⟨fun hc => absurd (.inl hc) hu, fun _ hu' => absurd hu' hu, fun _ => hb⟩,
      fun hf => hf.written hu⟩

end

section Examples

/-- A run that was cancelled while its last step was running. -/
def cancelledLate : History Unit Unit where
  loaded := .CANCELLED
  summary := { status := .COMPLETED }
  appliedAttempts := 0
  verdict := none
  stored := .CANCELLED
  sent _ := true

/-- A run whose output violates the blocking contract of its pipeline. -/
def breached : History Unit Unit where
  loaded := .RUNNING
  summary := { status := .COMPLETED, contractViolations := [[]] }
  appliedAttempts := 0
  verdict := some { passed := false, shouldBlockRun := true }
  stored := .RUNNING
  sent _ := true

end Examples

end PipelineIQ.Tasks.Announcements
