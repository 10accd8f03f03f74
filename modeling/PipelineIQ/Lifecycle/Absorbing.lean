import PipelineIQ.Lib.Interleave
import PipelineIQ.Lifecycle.Actors

namespace PipelineIQ.Lifecycle.Absorbing

open PipelineIQ.Models PipelineIQ.Lib.Machine PipelineIQ.Lib.Interleave
open PipelineIQ.Lifecycle.Actors

variable {Error Violation : Type} {healing : Healing Error} {stored loaded : PipelineStatus}
  {summary : Summary Error Violation} {verdict : Option ContractVerdict}

/-- A run with everything that may write its status. -/
abbrev System (Error Violation : Type) := Shared Nat (Actor Error Violation) PipelineStatus

theorem flush_eq_stored_iff {loaded : Option PipelineStatus} {assigned : PipelineStatus} :
    flush loaded assigned stored = stored ↔ loaded = some assigned ∨ stored = assigned := by
  unfold flush
  split <;> simp_all [eq_comm]

theorem ne_of_terminal {target : PipelineStatus} (h : stored.Terminal)
    (ht : ¬ target.Terminal) : stored ≠ target := by
  rintro rfl
  exact ht h

/-- The output of a completed run breaches a contract that blocks. -/
def Blocked (summary : Summary Error Violation) (verdict : Option ContractVerdict) : Prop :=
  summary.contractViolations ≠ [] ∧ ∃ v ∈ verdict, v.passed = false ∧ v.shouldBlockRun = true

/-- The status a run deserves by what it did. -/
def Deserves (summary : Summary Error Violation) (healedRun : Prop)
    (verdict : Option ContractVerdict) : PipelineStatus → Prop
  | .FAILED => summary.status ≠ .COMPLETED
  | .CONTRACT_VIOLATION => summary.status = .COMPLETED ∧
      (hasContractViolations summary = true ∨ Blocked summary verdict)
  | .HEALED => summary.status = .COMPLETED ∧ hasContractViolations summary = false ∧
      ¬ Blocked summary verdict ∧ healedRun
  | .COMPLETED => summary.status = .COMPLETED ∧ hasContractViolations summary = false ∧
      ¬ Blocked summary verdict ∧ ¬ healedRun
  | _ => False

theorem checkAndEnforceContract_failed :
    checkAndEnforceContract verdict summary .FAILED = .FAILED := by
  cases verdict <;> simp [checkAndEnforceContract]

theorem checkAndEnforceContract_of_blocked {assigned : PipelineStatus} (h : assigned ≠ .FAILED)
    (hb : Blocked summary verdict) :
    checkAndEnforceContract verdict summary assigned = .CONTRACT_VIOLATION := by
  obtain ⟨hne, v, hv, hp, hs⟩ := hb
  cases hv
  simp only [checkAndEnforceContract, hp, hs, List.isEmpty_eq_false_iff.mpr hne, h, Bool.or_self,
    List.mem_cons, List.not_mem_nil, or_false, if_true, Bool.false_eq_true, if_false]
  split <;> simp_all

theorem checkAndEnforceContract_of_not_blocked {assigned : PipelineStatus}
    (hb : ¬ Blocked summary verdict) :
    checkAndEnforceContract verdict summary assigned = assigned := by
  cases verdict with
  | none => rfl
  | some v =>
    simp only [checkAndEnforceContract]
    split
    · rfl
    · split
      · rfl
      · split
        · next hr _ hs =>
          simp only [Bool.or_eq_true, not_or, List.isEmpty_iff, Bool.not_eq_true] at hr
          exact absurd ⟨hr.1, v, rfl, hr.2, hs⟩ hb
        · rfl

/-- The worker assigns what the run deserves, unless it has read a cancellation. -/
theorem persistResults_eq_some_iff {appliedAttempts : Nat} {assigned : PipelineStatus}
    (h : loaded ≠ .CANCELLED) :
    persistResults loaded summary appliedAttempts verdict = some assigned ↔
      Deserves summary (loaded = .HEALED ∨ appliedAttempts > 0) verdict assigned := by
  simp only [persistResults, h, if_false, checkAndEnforceContract_failed]
  by_cases hs : summary.status = .COMPLETED
  · by_cases hb : Blocked summary verdict
    · rw [if_pos hs, checkAndEnforceContract_of_blocked (by split_ifs <;> decide) hb]
      cases assigned <;> simp [Deserves, hs, hb]
    · rw [if_pos hs, checkAndEnforceContract_of_not_blocked hb]
      cases hv : hasContractViolations summary <;>
        by_cases hh : loaded = .HEALED ∨ appliedAttempts > 0 <;>
        cases assigned <;> simp [Deserves, hs, hv, hb, hh]
  · cases assigned <;> simp [Deserves, hs]

theorem exists_persistResults (h : loaded ≠ .CANCELLED) (summary : Summary Error Violation)
    (appliedAttempts : Nat) (verdict : Option ContractVerdict) :
    ∃ assigned, persistResults loaded summary appliedAttempts verdict = some assigned := by
  simp only [persistResults, h, if_false]
  split <;> exact ⟨_, rfl⟩

/-- When a worker's step does no harm to a stored terminal status. -/
def Worker.Respects (healing : Healing Error) (w : Worker Error Violation)
    (stored : PipelineStatus) (e : WorkerStep Error Violation) : Prop :=
  match w, e with
  | .accepted, .marksRunning => False
  | .executing loaded, .runReturns summary => summary.status = .COMPLETED ∨
      healable healing summary = false ∨ loaded = some .HEALING
  | .retrying loaded, .runReturns summary => summary.status ≠ .COMPLETED ∨
      loaded = some .HEALED ∨ stored = .HEALED
  -- the refresh has read a cancellation, or the status that the run deserves is there
  | .persisting loaded summary, .persists appliedAttempts verdict => loaded = .CANCELLED ∨
      Deserves summary (loaded = .HEALED ∨ appliedAttempts > 0) verdict loaded ∨
      Deserves summary (loaded = .HEALED ∨ appliedAttempts > 0) verdict stored
  | .failing (some loaded), .marksFailed => loaded = .FAILED ∨ stored = .FAILED
  | _, _ => True

def Request.Respects (r : Request) (stored : PipelineStatus) (e : RequestStep) : Prop :=
  match r, e with
  | .checked endpoint, .commits => endpoint = .cancel ∧ stored = .CANCELLED
  | _, _ => True

def Reconciler.Respects (r : Reconciler) (stored : PipelineStatus) (e : ReconcilerStep) : Prop :=
  match r, e with
  | .candidate loaded, .considers recent taskState => leftAlone recent taskState = true ∨
      loaded = some .TIMEOUT ∨ stored = .TIMEOUT
  | _, _ => True

def Daemon.Respects (d : Daemon) (stored : PipelineStatus) (e : DaemonStep) : Prop :=
  match d, e with
  | .queued, .findsNoConsumeStep => stored = .FAILED
  | .queued, .activates => False
  | .leaving, .stops => False
  | .failing, .marksFailed => stored = .FAILED
  | _, _ => True

/-- No unguarded write of another status, and no write on the strength of an outdated read. -/
def Respects (healing : Healing Error) (a : Actor Error Violation) (stored : PipelineStatus)
    (e : ActorStep Error Violation) : Prop :=
  match a, e with
  | .worker w, .worker e => Worker.Respects healing w stored e
  | .request r, .request e => Request.Respects r stored e
  | .reconciler r, .reconciler e => Reconciler.Respects r stored e
  | .daemon d, .daemon e => Daemon.Respects d stored e
  | .submission .queuedDaemon, .submissionCommits => False
  | _, _ => True

/-- The steps of a worker that commit a status. -/
def WritesStatus : WorkerStep Error Violation → Prop
  | .marksRunning | .runReturns _ | .persists _ _ | .marksFailed => True
  | _ => False

theorem Worker.keeps_of_not_writes {w : Worker Error Violation} {e : WorkerStep Error Violation}
    (h : ¬ WritesStatus e) : Keeps (Worker.act healing) w stored e := by
  cases e with
  | marksRunning | runReturns | persists | marksFailed => exact absurd trivial h
  | accesses | commitsOther | raises => exact keeps_of_eq_map rfl
  | killed => exact (keeps_iff_of_eq_some rfl).mpr rfl
  | starts =>
    rw [keeps_iff_forall_mem]
    cases w <;> simp only [Worker.act, Option.not_mem_none, false_implies, implies_true]
    split <;> simp
  | healReturns success =>
    rw [keeps_iff_forall_mem]
    cases w <;> cases success <;> simp [Worker.act]
  | refreshes | rollsBack | returns =>
    rw [keeps_iff_forall_mem]
    cases w <;> simp [Worker.act]

theorem Worker.respects_of_not_writes {w : Worker Error Violation}
    {e : WorkerStep Error Violation} (h : ¬ WritesStatus e) :
    Worker.Respects healing w stored e := by
  cases e with
  | marksRunning | runReturns | persists | marksFailed => exact absurd trivial h
  | _ => cases w <;> simp [Worker.Respects]

theorem Worker.runReturns_respects_iff_keeps (h : stored.Terminal) {w : Worker Error Violation} :
    Worker.Respects healing w stored (.runReturns summary) ↔
      Keeps (Worker.act healing) w stored (.runReturns summary) := by
  rw [keeps_iff_forall_mem]
  by_cases hs : summary.status = .COMPLETED
  · cases w <;> simp [Worker.Respects, Worker.act, hs, flush_eq_stored_iff]
  · have hne : stored ≠ .HEALING := ne_of_terminal h (by decide)
    cases hh : healable healing summary <;> cases w <;>
      simp [Worker.Respects, Worker.act, hs, hh, hne, flush_eq_stored_iff]

theorem Worker.persists_respects_iff_keeps {w : Worker Error Violation} {appliedAttempts : Nat} :
    Worker.Respects healing w stored (.persists appliedAttempts verdict) ↔
      Keeps (Worker.act healing) w stored (.persists appliedAttempts verdict) := by
  rw [keeps_iff_forall_mem]
  cases w with
  | persisting loaded summary =>
    by_cases hc : loaded = .CANCELLED
    · simp [Worker.Respects, Worker.act, persistResults, hc]
    · obtain ⟨assigned, ha⟩ := exists_persistResults hc summary appliedAttempts verdict
      have hd {status} : Deserves summary (loaded = .HEALED ∨ appliedAttempts > 0) verdict status ↔
          status = assigned := by
        rw [← persistResults_eq_some_iff hc, ha, Option.some_inj, eq_comm]
      simp only [Worker.Respects, hc, false_or, hd, Worker.act, ha]
      simp [flush_eq_stored_iff]
  | _ => simp [Worker.Respects, Worker.act]

theorem Worker.respects_iff_keeps (h : stored.Terminal) {w : Worker Error Violation}
    {e : WorkerStep Error Violation} :
    Worker.Respects healing w stored e ↔ Keeps (Worker.act healing) w stored e := by
  by_cases he : WritesStatus e
  · cases e with
    | runReturns summary => exact Worker.runReturns_respects_iff_keeps h
    | persists appliedAttempts verdict => exact Worker.persists_respects_iff_keeps
    | marksRunning =>
      have hne : stored ≠ .RUNNING := ne_of_terminal h (by decide)
      rw [keeps_iff_forall_mem]
      cases w <;> simp [Worker.Respects, Worker.act, flush_eq_stored_iff, hne]
    | marksFailed =>
      rw [keeps_iff_forall_mem]
      cases w with
      | failing loaded =>
        cases loaded <;> simp [Worker.Respects, Worker.act, flush_eq_stored_iff]
      | _ => simp [Worker.Respects, Worker.act]
    | _ => exact he.elim
  · exact iff_of_true (Worker.respects_of_not_writes he) (Worker.keeps_of_not_writes he)

theorem Request.respects_iff_keeps (h : stored.Terminal) {r : Request} {e : RequestStep} :
    Request.Respects r stored e ↔ Keeps Request.act r stored e := by
  rw [keeps_iff_forall_mem]
  cases e with
  | reads =>
    cases r <;> simp [Request.Respects, Request.act]
    split <;> simp
  | commits =>
    cases r with
    | checked endpoint =>
      have hactive : stored ≠ .STREAMING_ACTIVE := ne_of_terminal h (by decide)
      have hpaused : stored ≠ .STREAMING_PAUSED := ne_of_terminal h (by decide)
      have hstopped : stored ≠ .STREAMING_STOPPED := ne_of_terminal h (by decide)
      cases endpoint <;>
        simp [Request.Respects, Request.act, Endpoint.target, hactive, hpaused, hstopped, eq_comm]
    | _ => simp [Request.Respects, Request.act]
  | aborts => simp [Request.Respects, Request.act]

theorem Reconciler.respects_iff_keeps {r : Reconciler} {e : ReconcilerStep} :
    Reconciler.Respects r stored e ↔ Keeps Reconciler.act r stored e := by
  rw [keeps_iff_forall_mem]
  cases e with
  | selects =>
    cases r <;> simp [Reconciler.Respects, Reconciler.act]
    split <;> simp
  | considers recent taskState =>
    cases r with
    | candidate loaded =>
      cases hl : leftAlone recent taskState <;>
        simp [Reconciler.Respects, Reconciler.act, hl, flush_eq_stored_iff]
    | _ => simp [Reconciler.Respects, Reconciler.act]
  | accesses | commitsOther | aborts =>
    cases r <;> simp [Reconciler.Respects, Reconciler.act]

theorem Daemon.respects_iff_keeps (h : stored.Terminal) {d : Daemon} {e : DaemonStep} :
    Daemon.Respects d stored e ↔ Keeps Daemon.act d stored e := by
  have hactive : stored ≠ .STREAMING_ACTIVE := ne_of_terminal h (by decide)
  have hstopped : stored ≠ .STREAMING_STOPPED := ne_of_terminal h (by decide)
  rw [keeps_iff_forall_mem]
  cases e with
  | checks =>
    cases d <;> simp [Daemon.Respects, Daemon.act]
    split <;> simp
  | findsNoConsumeStep | marksFailed =>
    cases d <;> simp [Daemon.Respects, Daemon.act, eq_comm]
  | _ => cases d <;> simp [Daemon.Respects, Daemon.act, hactive.symm, hstopped.symm]

theorem respects_iff_keeps (h : stored.Terminal) {a : Actor Error Violation}
    {e : ActorStep Error Violation} :
    Respects healing a stored e ↔ Keeps (act healing) a stored e := by
  cases a with
  | worker w =>
    cases e with
    | worker e => exact (Worker.respects_iff_keeps h).trans (keeps_lift_iff rfl).symm
    | _ => exact iff_of_true trivial (keeps_of_eq_none rfl)
  | request r =>
    cases e with
    | request e => exact (Request.respects_iff_keeps h).trans (keeps_lift_iff rfl).symm
    | _ => exact iff_of_true trivial (keeps_of_eq_none rfl)
  | reconciler r =>
    cases e with
    | reconciler e => exact Reconciler.respects_iff_keeps.trans (keeps_lift_iff rfl).symm
    | _ => exact iff_of_true trivial (keeps_of_eq_none rfl)
  | daemon d =>
    cases e with
    | daemon e => exact (Daemon.respects_iff_keeps h).trans (keeps_lift_iff rfl).symm
    | _ => exact iff_of_true trivial (keeps_of_eq_none rfl)
  | submission s =>
    have hactive : stored ≠ .STREAMING_ACTIVE := ne_of_terminal h (by decide)
    rw [keeps_iff_forall_mem]
    cases s <;> cases e <;> simp [Respects, act, hactive.symm]

/-- Once a run has a terminal status, cancelled or another, no later commit changes it, in
exactly the runs whose every step respects the terminal status it finds. -/
theorem terminal_absorbing_iff (healing : Healing Error) (s : System Error Violation)
    (events : List (Nat × ActorStep Error Violation)) :
    Settles (act healing) PipelineStatus.Terminal s events ↔
      Along (step (act healing))
        (fun s e => s.value.Terminal → Respects healing (s.actors e.1) s.value e.2) s events :=
  settles_iff_along fun _ _ _ h => respects_iff_keeps h

/-- A queued run, its worker task and a request to cancel it. -/
def queuedRun : System Unit Unit where
  value := .PENDING
  actors id := if id = 0 then .worker .queued else .request (.received .cancel)

def noHealing : Healing Unit := ⟨false, 0, fun _ => false⟩

/-- The cancellation is committed after the worker has read the status. -/
def cancelled : List (Nat × ActorStep Unit Unit) :=
  [(0, .worker .starts), (1, .request .reads), (1, .request .commits)]

def finished : List (Nat × ActorStep Unit Unit) :=
  [(0, .worker .marksRunning), (0, .worker (.runReturns { status := .COMPLETED })),
    (0, .worker .refreshes), (0, .worker (.persists 0 none))]

/-- A cancelled run ends completed. -/
theorem cancelled_run_completes :
    ∃ t u, run (step (act noHealing)) queuedRun cancelled = some t ∧ t.value = .CANCELLED ∧
      run (step (act noHealing)) t finished = some u ∧ u.value = .COMPLETED ∧
      ¬ Settles (act noHealing) PipelineStatus.Terminal queuedRun (cancelled ++ finished) := by
  refine ⟨_, _, rfl, rfl, rfl, rfl, ?_⟩
  intro h
  have hv := h cancelled finished [] _ _ (List.append_nil _).symm rfl rfl (by decide)
  exact absurd hv (by decide)

end PipelineIQ.Lifecycle.Absorbing
