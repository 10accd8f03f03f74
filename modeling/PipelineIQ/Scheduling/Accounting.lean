import PipelineIQ.Scheduling.ExactlyOnce
import PipelineIQ.Scheduling.ScheduleStats

namespace PipelineIQ.Scheduling.Accounting

open PipelineIQ.Lib PipelineIQ.Lib.Machine PipelineIQ.Models PipelineIQ.Lifecycle.Actors
open PipelineIQ.Scheduling.Scheduler PipelineIQ.Scheduling.ExactlyOnce
open PipelineIQ.Scheduling.ScheduleStats

section Vocabulary

variable {W Id Cron Token Error Violation : Type}

/-- The task of a run may have written a terminal status already, and its update of the
statistics is still ahead. -/
def inFlight (s : ScheduleStats.State W Id Cron Token Error Violation) (i : Nat) : Bool :=
  !s.accounted i && match s.tasks i with
    | .executed _ _ | .persisting _ _ | .persisted => true
    | _ => false

variable [DecidableEq Id]

/-- The runs of a schedule that have ended with such a status. -/
def endedRuns (s : ScheduleStats.State W Id Cron Token Error Violation) (p : PipelineStatus → Bool)
    (id : Id) : Nat :=
  (List.range s.runs.length).countP fun i => !inFlight s i &&
    s.runs[i]?.any fun r => decide (r.scheduleId = id) && p r.status

/-- Every run that has ended is counted once, by its status, and recorded with its status; a
schedule whose runs have all ended is not shown as running. -/
structure Balanced (s₀ s : ScheduleStats.State W Id Cron Token Error Violation) : Prop where
  counted : ∀ id schedule₀ schedule, s₀.schedules.get? id = some schedule₀ →
    s.schedules.get? id = some schedule →
      schedule.successfulRuns = schedule₀.successfulRuns + endedRuns s (· == .COMPLETED) id ∧
      schedule.healedRuns = schedule₀.healedRuns + endedRuns s (· == .HEALED) id ∧
      schedule.failedRuns = schedule₀.failedRuns +
        endedRuns s (fun status => status ∈ [.FAILED, .CONTRACT_VIOLATION]) id
  kinds : ∀ i r, s.runs[i]? = some r → r.status.Terminal → inFlight s i = false →
    r.status ∈ [.COMPLETED, .HEALED, .FAILED, .CONTRACT_VIOLATION]
  recorded : ∀ i r, s.runs[i]? = some r → r.status.Terminal → inFlight s i = false →
    ∃ row ∈ s.scheduleRuns, row.runId = some i ∧ row.status = some r.status.value
  quiet : ∀ id schedule, s.schedules.get? id = some schedule →
    (∀ i r, s.runs[i]? = some r → r.scheduleId = id → r.status.Terminal ∧ inFlight s i = false) →
      schedule.lastRunStatus ≠ some "RUNNING"

/-- No run is cancelled, reconciled, or failed by an unexpected exception, and no task ends
between its terminal status and its update of the statistics; the update succeeds, and it comes
after the second commit of the scheduler, which tells the row of the firing its run. -/
def Regular (s : ScheduleStats.State W Id Cron Token Error Violation) :
    ScheduleStats.Event W Token Error Violation → Prop
  | .worker _ .marksFailed => False
  | .worker i .raises | .worker i .killed =>
    s.accounted i = true ∨ ∀ r, s.runs[i]? = some r → ¬ r.status.Terminal
  | .updatesStats i ok => ok = true ∧ ∃ row ∈ s.scheduleRuns, row.runId = some i
  | .cancels _ | .reconciles _ => False
  | _ => True

/-- Before the first tick: no run, and no schedule shown as running. -/
structure Fresh (s : ScheduleStats.State W Id Cron Token Error Violation) : Prop where
  runs : s.runs = []
  scheduleRuns : s.scheduleRuns = []
  workers : ∀ w, s.workers w = .idle
  tasks : ∀ i, s.tasks i = .queued
  accounted : ∀ i, s.accounted i = false
  quiet : ∀ id schedule, s.schedules.get? id = some schedule →
    schedule.lastRunStatus ≠ some "RUNNING"

end Vocabulary

/-! ### What a step of the scheduler does to the tables -/

section Tables

variable {W Id Cron Token : Type} [DecidableEq W] [DecidableEq Id] [DecidableEq Token]

inductive TableStep (s t : Scheduler.State W Id Cron Token) : Prop where
  | keeps (runs : t.runs = s.runs) (rows : t.scheduleRuns = s.scheduleRuns)
      (schedules : t.schedules = s.schedules)
      (held : ∀ v f, fired (t.workers v) = some f → fired (s.workers v) = some f)
  | commits (w : W) (f : Fired Id) (run : PipelineRun Id) (row : ScheduleRun Id)
      (runs : t.runs = s.runs ++ [run]) (rows : t.scheduleRuns = s.scheduleRuns ++ [row])
      (schedules : t.schedules = s.schedules)
      (held : ∀ v g, fired (t.workers v) = some g →
        if v = w then g = f else fired (s.workers v) = some g)
      (status : run.status = .PENDING) (unset : row.runId = none)
      (schedule : run.scheduleId = f.scheduleId) (runId : f.runId = s.runs.length)
      (slot : f.scheduleRunId = s.scheduleRuns.length)
  | advances (w : W) (f : Fired Id) (old new : PipelineSchedule Cron)
      (runs : t.runs = s.runs)
      (rows : t.scheduleRuns =
        s.scheduleRuns.modify f.scheduleRunId fun r => { r with runId := some f.runId })
      (schedules : t.schedules = s.schedules.set f.scheduleId new)
      (held : ∀ v g, fired (t.workers v) = some g → v ≠ w ∧ fired (s.workers v) = some g)
      (fires : fired (s.workers w) = some f) (found : s.schedules.get? f.scheduleId = some old)
      (successful : new.successfulRuns = old.successfulRuns)
      (healed : new.healedRuns = old.healedRuns) (failed : new.failedRuns = old.failedRuns)

variable {getNext : Cron → Nat → Option Nat} {s t : Scheduler.State W Id Cron Token}

omit [DecidableEq Token] in
/-- A worker that does nothing to the tables, and holds nothing that it did not hold. -/
theorem TableStep.ofWorker {w : W} {worker : Scheduler.Worker Id Token}
    (runs : t.runs = s.runs) (rows : t.scheduleRuns = s.scheduleRuns)
    (schedules : t.schedules = s.schedules)
    (workers : t.workers = Function.update s.workers w worker)
    (h : ∀ f, fired worker = some f → fired (s.workers w) = some f) : TableStep s t := by
  refine .keeps runs rows schedules fun v f hv => ?_
  rw [workers] at hv
  by_cases he : v = w
  · subst he
    rw [Function.update_self] at hv
    exact h f hv
  · rwa [Function.update_of_ne he] at hv

theorem tableStep_of_step {e : Scheduler.Event W Token}
    (h : Scheduler.step getNext s e = some t) : TableStep s t := by
  cases e with
  | passes seconds =>
    cases h
    exact .keeps rfl rfl rfl fun _ _ hv => hv
  | acts w e =>
    change Scheduler.act getNext s w e = some t at h
    unfold Scheduler.act at h
    have hnone : ∀ {worker : Scheduler.Worker Id Token}, fired worker = none →
        ∀ f, fired worker = some f → fired (s.workers w) = some f := by
      intro worker hw f hf
      rw [hw] at hf
      cases hf
    split at h
    · next lockToken answered hw =>
      cases h
      unfold acquire
      split
      · exact .ofWorker rfl rfl rfl rfl (hnone rfl)
      · exact .keeps rfl rfl rfl fun _ _ hv => hv
    · next lockToken ok hw =>
      cases h
      exact .ofWorker rfl rfl rfl rfl (hnone (by cases ok <;> rfl))
    · next tick ok hw =>
      split at h
      · next due rest hdue =>
        cases h
        unfold commitRun
        split
        · refine .commits w ⟨due.1, due.2, s.runs.length, s.scheduleRuns.length⟩ _ _ rfl rfl rfl
            (fun v g hv => ?_) rfl rfl rfl rfl rfl
          by_cases he : v = w
          · subst he
            rw [setWorker_self, fired, Option.some.injEq] at hv
            rw [if_pos rfl]
            exact hv.symm
          · rw [setWorker_other _ _ he] at hv
            rw [if_neg he]
            exact hv
        · exact .ofWorker rfl rfl rfl rfl (hnone rfl)
      · cases h
    · next tick f outcome hw =>
      cases h
      cases outcome with
      | accepted =>
        refine .ofWorker rfl rfl rfl rfl fun g hg => ?_
        rw [hw]
        exact hg
      | raised delivered => exact .ofWorker rfl rfl rfl rfl (hnone rfl)
    · next tick f ok hw =>
      cases h
      unfold advance
      split
      · next schedule hget =>
        split
        · next next hnext =>
          refine .advances w f schedule _ rfl rfl rfl (fun v g hv => ?_) (by rw [hw]; rfl) hget
            rfl rfl rfl
          by_cases he : v = w
          · subst he
            rw [setWorker_self] at hv
            cases hv
          · rw [setWorker_other _ _ he] at hv
            exact ⟨he, hv⟩
        · exact .ofWorker rfl rfl rfl rfl (hnone rfl)
      · exact .ofWorker rfl rfl rfl rfl (hnone rfl)
    · split at h
      · cases h
        exact .ofWorker rfl rfl rfl rfl (hnone rfl)
      · cases h
    · cases h
      exact .ofWorker rfl rfl rfl rfl (hnone (by split <;> rfl))
    · cases h
      exact .ofWorker rfl rfl rfl rfl (hnone rfl)
    · cases h
    · cases h
      exact .ofWorker rfl rfl rfl rfl (hnone rfl)
    · cases h

end Tables

/-! ### The status of a run at every stage of its task -/

section Stages

variable {Error Violation : Type}

/-- The statuses that a task writes for a run that has ended. -/
def outcomes : List PipelineStatus := [.COMPLETED, .HEALED, .FAILED, .CONTRACT_VIOLATION]

/-- What the status of a run can be where its task is. -/
def Stage (task : Lifecycle.Actors.Worker Error Violation) (accounted : Bool)
    (status : PipelineStatus) : Prop :=
  match accounted, task with
  | true, .persisted | true, .failing _ | true, .finished | true, .queued => status ∈ outcomes
  | true, _ => False
  | false, .executed _ _ => status = .HEALED ∨ ¬ status.Terminal
  | false, .persisting loaded _ => loaded = status ∧ (status = .HEALED ∨ ¬ status.Terminal)
  | false, .persisted => status ∈ outcomes
  | false, _ => ¬ status.Terminal

theorem flush_of {p : PipelineStatus → Prop} {loaded : Option PipelineStatus}
    {assigned stored : PipelineStatus} (hs : p stored) (ha : p assigned) :
    p (flush loaded assigned stored) := by
  unfold flush
  split
  · exact hs
  · exact ha

theorem checkAndEnforceContract_mem {verdict : Option ContractVerdict}
    {summary : Summary Error Violation} {assigned : PipelineStatus} (h : assigned ∈ outcomes) :
    checkAndEnforceContract verdict summary assigned ∈ outcomes := by
  unfold checkAndEnforceContract
  split
  · exact h
  · split
    · exact h
    · split
      · exact h
      · split
        · decide
        · exact h

theorem persistResults_mem {loaded assigned : PipelineStatus} {summary : Summary Error Violation}
    {applied : Nat} {verdict : Option ContractVerdict}
    (h : persistResults loaded summary applied verdict = some assigned) : assigned ∈ outcomes := by
  unfold persistResults at h
  dsimp only at h
  split at h
  · cases h
  · split at h
    · cases h
      apply checkAndEnforceContract_mem
      split
      · decide
      · split <;> decide
    · cases h
      exact checkAndEnforceContract_mem (by decide)

theorem persistResults_isSome {loaded : PipelineStatus} (summary : Summary Error Violation)
    (applied : Nat) (verdict : Option ContractVerdict) (h : loaded ≠ .CANCELLED) :
    (persistResults loaded summary applied verdict).isSome := by
  unfold persistResults
  dsimp only
  rw [if_neg h]
  split <;> rfl

/-- A run that its schedule has counted keeps its status. -/
theorem stage_act_accounted {healing : Healing Error}
    {task task' : Lifecycle.Actors.Worker Error Violation} {status status' : PipelineStatus}
    {e : WorkerStep Error Violation} (h : Stage task true status)
    (hact : task.act healing status e = some (task', status')) (hfails : e ≠ .marksFailed) :
    Stage task' true status' ∧ status' = status := by
  have hpending : PipelineStatus.PENDING ∉ outcomes := by decide
  cases task with
  | queued =>
    cases e with
    | starts =>
      have hne : status ≠ .PENDING := by
        rintro rfl
        exact hpending h
      simp only [Lifecycle.Actors.Worker.act, if_neg hne, Option.some.injEq, Prod.mk.injEq] at hact
      obtain ⟨rfl, rfl⟩ := hact
      exact ⟨h, rfl⟩
    | raises | killed =>
      cases hact
      exact ⟨h, rfl⟩
    | _ => cases hact
  | persisted =>
    cases e with
    | raises | killed | returns =>
      cases hact
      exact ⟨h, rfl⟩
    | _ => cases hact
  | failing loaded =>
    cases e with
    | accesses | commitsOther | rollsBack | killed =>
      cases hact
      exact ⟨h, rfl⟩
    | marksFailed => exact absurd rfl hfails
    | _ => cases hact
  | finished =>
    cases e with
    | killed =>
      cases hact
      exact ⟨h, rfl⟩
    | _ => cases hact
  | accepted | executing | healing | retrying | executed | persisting => exact h.elim

/-- What the results leave in the row is an outcome that the schedule counts. -/
theorem stage_persists {healing : Healing Error} {task' : Lifecycle.Actors.Worker Error Violation}
    {loaded status status' : PipelineStatus} {summary : Summary Error Violation}
    {applied : Nat} {verdict : Option ContractVerdict}
    (h : Stage (.persisting loaded summary) false status)
    (hact : Lifecycle.Actors.Worker.act healing (.persisting loaded summary) status
      (.persists applied verdict) = some (task', status')) : Stage task' false status' := by
  obtain ⟨rfl, hs⟩ := h
  have hne : loaded ≠ .CANCELLED := by
    rintro rfl
    rcases hs with hs | hs
    · cases hs
    · exact hs (by decide)
  obtain ⟨assigned, ha⟩ := Option.isSome_iff_exists.mp
    (persistResults_isSome summary applied verdict hne)
  simp only [Lifecycle.Actors.Worker.act, ha] at hact
  cases hact
  have hm := persistResults_mem ha
  change flush (some loaded) assigned loaded ∈ outcomes
  -- a status that is not written is the one the row has
  by_cases heq : some loaded = some assigned
  · cases heq
    rwa [flush, if_pos rfl]
  · rwa [flush, if_neg heq]

theorem stage_act_uncounted {healing : Healing Error}
    {task task' : Lifecycle.Actors.Worker Error Violation} {status status' : PipelineStatus}
    {e : WorkerStep Error Violation} (h : Stage task false status)
    (hact : task.act healing status e = some (task', status')) (hfails : e ≠ .marksFailed)
    (hends : e = .raises ∨ e = .killed → ¬ status.Terminal) (hreturns : e ≠ .returns) :
    Stage task' false status' := by
  have hrun : ¬ PipelineStatus.RUNNING.Terminal := by decide
  have hheal : ¬ PipelineStatus.HEALING.Terminal := by decide
  cases e with
  | marksFailed => exact absurd rfl hfails
  | returns => exact absurd rfl hreturns
  | killed =>
    cases hact
    exact hends (.inr rfl)
  | raises =>
    have hnot := hends (.inl rfl)
    cases task with
    | failing | finished => cases hact
    | _ =>
      cases hact
      exact hnot
  | starts =>
    cases task with
    | queued =>
      simp only [Lifecycle.Actors.Worker.act] at hact
      split at hact <;> cases hact <;> exact h
    | _ => cases hact
  | marksRunning =>
    cases task with
    | accepted =>
      cases hact
      exact hrun
    | _ => cases hact
  | accesses | commitsOther | rollsBack =>
    cases task with
    | executing | healing | retrying | executed | failing =>
      cases hact <;> exact h
    | _ => cases hact
  | runReturns summary =>
    cases task with
    | executing loaded =>
      simp only [Lifecycle.Actors.Worker.act] at hact
      split at hact
      · cases hact
        exact .inr h
      · split at hact
        · cases hact
          exact flush_of (p := fun status => ¬ status.Terminal) h hheal
        · cases hact
          exact .inr h
    | retrying loaded =>
      simp only [Lifecycle.Actors.Worker.act] at hact
      split at hact
      · cases hact
        exact flush_of (p := fun status => status = .HEALED ∨ ¬ status.Terminal) (.inr h)
          (.inl rfl)
      · cases hact
        exact .inr h
    | _ => cases hact
  | healReturns success =>
    cases task with
    | healing loaded summary =>
      cases success with
      | true =>
        cases hact
        exact h
      | false =>
        cases hact
        exact .inr h
    | _ => cases hact
  | refreshes =>
    cases task with
    | executed loaded summary =>
      cases hact
      exact ⟨rfl, h⟩
    | _ => cases hact
  | persists applied verdict =>
    cases task with
    | persisting loaded summary =>
      exact stage_persists h hact
    | _ => cases hact

/-- A step of a task that does not fail the run by an exception. -/
theorem stage_act {healing : Healing Error} {task task' : Lifecycle.Actors.Worker Error Violation}
    {accounted : Bool} {status status' : PipelineStatus} {e : WorkerStep Error Violation}
    (h : Stage task accounted status) (hact : task.act healing status e = some (task', status'))
    (hfails : e ≠ .marksFailed)
    (hends : e = .raises ∨ e = .killed → accounted = true ∨ ¬ status.Terminal)
    (hreturns : e = .returns → accounted = true) :
    Stage task' accounted status' ∧ (accounted = true → status' = status) := by
  cases accounted with
  | true =>
    obtain ⟨hstage, hstatus⟩ := stage_act_accounted h hact hfails
    exact ⟨hstage, fun _ => hstatus⟩
  | false =>
    refine ⟨stage_act_uncounted h hact hfails ?_ ?_, fun hf => by cases hf⟩
    · exact fun he => (hends he).resolve_left (by decide)
    · rintro rfl
      cases hreturns rfl

end Stages

/-! ### Runs between the two commits of the scheduler -/

section Firings

variable {W Id Cron Token : Type}

def owners (s : Scheduler.State W Id Cron Token) : List Id := s.runs.map PipelineRun.scheduleId

def runIds (s : Scheduler.State W Id Cron Token) : List (Option Nat) :=
  s.scheduleRuns.map ScheduleRun.runId

/-- The row of a firing whose run is committed is its own and has no run yet. -/
structure Firings (s : Scheduler.State W Id Cron Token) : Prop where
  run : ∀ w f, fired (s.workers w) = some f → (owners s)[f.runId]? = some f.scheduleId
  unset : ∀ w f, fired (s.workers w) = some f → some f.runId ∉ runIds s
  slot : ∀ w f, fired (s.workers w) = some f → (runIds s)[f.scheduleRunId]? = some none
  distinct : ∀ v w f g, v ≠ w → fired (s.workers v) = some f → fired (s.workers w) = some g →
    f.runId ≠ g.runId ∧ f.scheduleRunId ≠ g.scheduleRunId
  known : ∀ i, some i ∈ runIds s → i < (owners s).length

variable {s t : Scheduler.State W Id Cron Token}

/-- The columns that the firings are about, and the workers, decide. -/
theorem Firings.frame (h : Firings s) (howners : owners t = owners s) (hids : runIds t = runIds s)
    (hheld : ∀ v f, fired (t.workers v) = some f → fired (s.workers v) = some f) : Firings t where
  run w f hf := by
    rw [howners]
    exact h.run w f (hheld w f hf)
  unset w f hf := by
    rw [hids]
    exact h.unset w f (hheld w f hf)
  slot w f hf := by
    rw [hids]
    exact h.slot w f (hheld w f hf)
  distinct v w f g hvw hf hg := h.distinct v w f g hvw (hheld v f hf) (hheld w g hg)
  known i hi := by
    rw [howners]
    exact h.known i (hids ▸ hi)

theorem map_runId_modify (rows : List (ScheduleRun Id)) (j i : Nat) :
    (rows.modify j fun r => { r with runId := some i }).map ScheduleRun.runId =
      (rows.map ScheduleRun.runId).set j (some i) := by
  apply List.ext_getElem?
  intro k
  rw [List.getElem?_map, List.getElem?_modify, List.getElem?_set, List.getElem?_map, List.length_map]
  by_cases hk : j = k
  · subst hk
    rw [if_pos rfl]
    by_cases hlt : j < rows.length
    · simp [hlt]
    · simp [hlt]
  · simp [hk]

variable [DecidableEq W] [DecidableEq Id] [DecidableEq Token]

omit [DecidableEq Token] in
theorem Firings.table (h : Firings s) (ht : TableStep s t) : Firings t := by
  cases ht with
  | keeps runs rows schedules held =>
    exact h.frame (congrArg (List.map PipelineRun.scheduleId) runs)
      (congrArg (List.map ScheduleRun.runId) rows) held
  | commits w f run row runs rows schedules held status unset schedule runId slot =>
    have howners : owners t = owners s ++ [f.scheduleId] := by
      rw [owners, runs, List.map_append, List.map_singleton, schedule]
      rfl
    have hids : runIds t = runIds s ++ [none] := by
      rw [runIds, rows, List.map_append, List.map_singleton, unset]
      rfl
    have hlen : f.runId = (owners s).length := by rw [runId, owners, List.length_map]
    have hslot : f.scheduleRunId = (runIds s).length := by rw [slot, runIds, List.length_map]
    have hold : ∀ v g, fired (t.workers v) = some g → v ≠ w → fired (s.workers v) = some g := by
      intro v g hg hv
      have := held v g hg
      rwa [if_neg hv] at this
    have hnew : ∀ g, fired (t.workers w) = some g → g = f := by
      intro g hg
      have := held w g hg
      rwa [if_pos rfl] at this
    -- what another worker holds is older than both new rows
    have hbelow : ∀ v g, fired (s.workers v) = some g →
        g.runId < (owners s).length ∧ g.scheduleRunId < (runIds s).length := fun v g hg =>
      ⟨(List.getElem?_eq_some_iff.mp (h.run v g hg)).1, (List.getElem?_eq_some_iff.mp (h.slot v g hg)).1⟩
    constructor
    · intro v g hg
      rw [howners]
      by_cases hv : v = w
      · subst hv
        rw [hnew g hg, hlen, List.getElem?_concat_length]
      · rw [List.getElem?_append_left (hbelow v g (hold v g hg hv)).1]
        exact h.run v g (hold v g hg hv)
    · intro v g hg hm
      rw [hids] at hm
      have hm := (List.mem_append.mp hm).resolve_right (by simp)
      by_cases hv : v = w
      · subst hv
        have hlt := h.known _ hm
        rw [hnew g hg, hlen] at hlt
        omega
      · exact h.unset v g (hold v g hg hv) hm
    · intro v g hg
      rw [hids]
      by_cases hv : v = w
      · subst hv
        rw [hnew g hg, hslot, List.getElem?_concat_length]
      · rw [List.getElem?_append_left (hbelow v g (hold v g hg hv)).2]
        exact h.slot v g (hold v g hg hv)
    · intro u v g g' huv hg hg'
      by_cases hu : u = w
      · subst hu
        have hb := hbelow v g' (hold v g' hg' huv.symm)
        rw [hnew g hg]
        omega
      · have hb := hbelow u g (hold u g hg hu)
        by_cases hv : v = w
        · subst hv
          rw [hnew g' hg']
          omega
        · exact h.distinct u v g g' huv (hold u g hg hu) (hold v g' hg' hv)
    · intro i hi
      rw [hids] at hi
      have hlt := h.known i ((List.mem_append.mp hi).resolve_right (by simp))
      rw [howners, List.length_append]
      omega
  | advances w f old new runs rows schedules held fires found =>
    have howners : owners t = owners s := congrArg (List.map PipelineRun.scheduleId) runs
    have hids : runIds t = (runIds s).set f.scheduleRunId (some f.runId) := by
      rw [runIds, rows, map_runId_modify]
      rfl
    constructor
    · intro v g hg
      rw [howners]
      exact h.run v g (held v g hg).2
    · intro v g hg hm
      rw [hids] at hm
      rcases List.mem_or_eq_of_mem_set hm with hm | he
      · exact h.unset v g (held v g hg).2 hm
      · exact (h.distinct v w g f (held v g hg).1 (held v g hg).2 fires).1 (Option.some.inj he)
    · intro v g hg
      rw [hids, List.getElem?_set_ne]
      · exact h.slot v g (held v g hg).2
      · exact (h.distinct v w g f (held v g hg).1 (held v g hg).2 fires).2.symm
    · exact fun u v g g' huv hg hg' => h.distinct u v g g' huv (held u g hg).2 (held v g' hg').2
    · intro i hi
      rw [hids] at hi
      rw [howners]
      rcases List.mem_or_eq_of_mem_set hi with hm | he
      · exact h.known i hm
      · cases he
        exact (List.getElem?_eq_some_iff.mp (h.run w f fires)).1

end Firings

/-! ### The books -/

section Counting

/-- A count over a range where one position changes from not counted. -/
theorem countP_range_update {p q : Nat → Bool} {i n : Nat} (hi : i < n) (hp : p i = false)
    (h : ∀ j, j ≠ i → q j = p j) :
    (List.range n).countP q = (List.range n).countP p + if q i then 1 else 0 := by
  induction n with
  | zero => omega
  | succ n ih =>
    rw [List.range_succ, List.countP_append, List.countP_append, List.countP_singleton,
      List.countP_singleton]
    by_cases he : i = n
    · subst he
      have hsame : (List.range i).countP q = (List.range i).countP p := by
        apply List.countP_congr
        intro j hj
        rw [h j (by have := List.mem_range.mp hj; omega)]
      rw [hsame, hp]
      simp
    · rw [ih (by omega), h n (Ne.symm he)]
      omega

end Counting

section Ledger

variable {W Id Cron Token Error Violation : Type} [DecidableEq Id]

def counts (s : ScheduleStats.State W Id Cron Token Error Violation) (p : PipelineStatus → Bool)
    (id : Id) (i : Nat) : Bool :=
  s.accounted i && s.runs[i]?.any fun r => decide (r.scheduleId = id) && p r.status

/-- The runs of a schedule that its statistics have taken in with such a status. -/
def countedRuns (s : ScheduleStats.State W Id Cron Token Error Violation)
    (p : PipelineStatus → Bool) (id : Id) : Nat :=
  (List.range s.runs.length).countP (counts s p id)

/-- What regular events keep. -/
structure Ledger (s₀ s : ScheduleStats.State W Id Cron Token Error Violation) : Prop where
  counted : ∀ id schedule₀ schedule, s₀.schedules.get? id = some schedule₀ →
    s.schedules.get? id = some schedule →
      schedule.successfulRuns = schedule₀.successfulRuns + countedRuns s (· == .COMPLETED) id ∧
      schedule.healedRuns = schedule₀.healedRuns + countedRuns s (· == .HEALED) id ∧
      schedule.failedRuns = schedule₀.failedRuns +
        countedRuns s (fun status => status ∈ [.FAILED, .CONTRACT_VIOLATION]) id
  stage : ∀ i r, s.runs[i]? = some r → Stage (s.tasks i) (s.accounted i) r.status
  unborn : ∀ i, s.runs.length ≤ i → s.tasks i = .queued ∧ s.accounted i = false
  recorded : ∀ i r, s.runs[i]? = some r → s.accounted i = true →
    ∃ row ∈ s.scheduleRuns, row.runId = some i ∧ row.status = some (statusMap r.status)
  quiet : ∀ id schedule, s.schedules.get? id = some schedule →
    schedule.lastRunStatus = some "RUNNING" →
      ∃ i r, s.runs[i]? = some r ∧ r.scheduleId = id ∧ s.accounted i = false
  firings : Firings s.toState

variable {s₀ s t : ScheduleStats.State W Id Cron Token Error Violation}

theorem Fresh.ledger (h : Fresh s) : Ledger s s := by
  have hnone : ∀ i, s.runs[i]? = none := fun i => by rw [h.runs, List.getElem?_nil]
  have hcount : ∀ p id, countedRuns s p id = 0 := fun p id => by rw [countedRuns, h.runs]; rfl
  have hfired : ∀ w, fired (s.workers w) = none := fun w => by rw [h.workers]; rfl
  constructor
  · intro id schedule₀ schedule hs₀ hs
    rw [hs₀, Option.some.injEq] at hs
    subst hs
    rw [hcount, hcount, hcount]
    exact ⟨rfl, rfl, rfl⟩
  · intro i r hr
    rw [hnone] at hr
    cases hr
  · exact fun i _ => ⟨h.tasks i, h.accounted i⟩
  · intro i r hr
    rw [hnone] at hr
    cases hr
  · intro id schedule hs hrunning
    exact absurd hrunning (h.quiet id schedule hs)
  · constructor
    · intro w f hf
      rw [hfired] at hf
      cases hf
    · intro w f hf
      rw [hfired] at hf
      cases hf
    · intro w f hf
      rw [hfired] at hf
      cases hf
    · intro v w f g _ hf
      rw [hfired] at hf
      cases hf
    · intro i hi
      rw [runIds, h.scheduleRuns] at hi
      cases hi

omit [DecidableEq Id] in
theorem terminal_of_mem {status : PipelineStatus} (h : status ∈ outcomes) : status.Terminal := by
  cases status <;> first | decide | exact absurd h (by decide)

omit [DecidableEq Id] in
theorem not_inFlight {i : Nat} (h : s.accounted i = true) : inFlight s i = false := by
  rw [inFlight, h]
  rfl

/-- A run that has ended, and whose task is past the statistics, is counted. -/
theorem Ledger.accounted (h : Ledger s₀ s) {i : Nat} {r : PipelineRun Id}
    (hr : s.runs[i]? = some r) (hterm : r.status.Terminal) (hflight : inFlight s i = false) :
    s.accounted i = true ∧ r.status ∈ outcomes := by
  have hstage := h.stage i r hr
  cases ha : s.accounted i with
  | true =>
    rw [ha] at hstage
    refine ⟨rfl, ?_⟩
    cases ht : s.tasks i <;> rw [ht] at hstage <;> first | exact hstage | exact hstage.elim
  | false =>
    rw [ha] at hstage
    rw [inFlight, ha] at hflight
    cases ht : s.tasks i <;> rw [ht] at hstage hflight <;>
      first | exact absurd hterm hstage | cases hflight

theorem Ledger.endedRuns_eq (h : Ledger s₀ s) {p : PipelineStatus → Bool}
    (hp : ∀ status, p status = true → status.Terminal) (id : Id) :
    endedRuns s p id = countedRuns s p id := by
  apply List.countP_congr
  intro i _
  rw [counts]
  cases hr : s.runs[i]? with
  | none => simp
  | some r =>
    simp only [Option.any_some, Bool.and_eq_true, Bool.not_eq_true', decide_eq_true_eq]
    constructor
    · rintro ⟨hflight, hid, hstatus⟩
      exact ⟨(h.accounted hr (hp _ hstatus) hflight).1, hid, hstatus⟩
    · rintro ⟨ha, hid, hstatus⟩
      exact ⟨not_inFlight ha, hid, hstatus⟩

omit [DecidableEq Id] in
theorem statusMap_eq_value {status : PipelineStatus} (h : status ∈ outcomes) :
    statusMap status = status.value := by
  cases status <;> first | rfl | exact absurd h (by decide)

theorem Ledger.balanced (h : Ledger s₀ s) : Balanced s₀ s := by
  constructor
  · intro id schedule₀ schedule hs₀ hs
    rw [h.endedRuns_eq, h.endedRuns_eq, h.endedRuns_eq]
    · exact h.counted id schedule₀ schedule hs₀ hs
    all_goals
      intro status hstatus
      cases status <;> first | decide | cases hstatus
  · exact fun i r hr hterm hflight => (h.accounted hr hterm hflight).2
  · intro i r hr hterm hflight
    obtain ⟨ha, hm⟩ := h.accounted hr hterm hflight
    rw [← statusMap_eq_value hm]
    exact h.recorded i r hr ha
  · intro id schedule hs hended hrunning
    obtain ⟨i, r, hr, hid, ha⟩ := h.quiet id schedule hs hrunning
    obtain ⟨hterm, hflight⟩ := hended i r hr hid
    rw [(h.accounted hr hterm hflight).1] at ha
    cases ha

omit [DecidableEq Id] in
theorem mem_of_modify {rows : List (ScheduleRun Id)} {j i : Nat} {row : ScheduleRun Id}
    {f : ScheduleRun Id → ScheduleRun Id} (h : row ∈ rows) (hid : row.runId = some i)
    (hj : (rows.map ScheduleRun.runId)[j]? ≠ some (some i)) : row ∈ rows.modify j f := by
  obtain ⟨k, hk⟩ := List.getElem?_of_mem h
  have hne : j ≠ k := by
    rintro rfl
    rw [List.getElem?_map, hk, Option.map_some, hid] at hj
    exact hj rfl
  apply List.mem_of_getElem? (i := k)
  rw [List.getElem?_modify, hk]
  exact congrArg some (if_neg hne)

/-- The scheduler opens an account for a run, and shows its schedule as running only then. -/
theorem Ledger.table [DecidableEq W] [DecidableEq Token] (h : Ledger s₀ s)
    {u : Scheduler.State W Id Cron Token} (ht : TableStep s.toState u) :
    Ledger s₀ { s with toState := u } := by
  have hfirings : Firings u := h.firings.table ht
  cases ht with
  | keeps runs rows schedules held =>
    have hcount : ∀ p id, countedRuns { s with toState := u } p id = countedRuns s p id := by
      intro p id
      unfold countedRuns counts
      rw [runs]
    constructor
    · intro id schedule₀ schedule hs₀ hs
      rw [hcount, hcount, hcount]
      exact h.counted id schedule₀ schedule hs₀ (schedules ▸ hs)
    · exact fun i r hr => h.stage i r (runs ▸ hr)
    · exact fun i hi => h.unborn i (runs ▸ hi)
    · intro i r hr ha
      obtain ⟨row, hrow, hid⟩ := h.recorded i r (runs ▸ hr) ha
      exact ⟨row, rows ▸ hrow, hid⟩
    · intro id schedule hs hrunning
      obtain ⟨i, r, hr, hid⟩ := h.quiet id schedule (schedules ▸ hs) hrunning
      exact ⟨i, r, runs ▸ hr, hid⟩
    · exact hfirings
  | commits w f run row runs rows schedules held status unset schedule runId slot =>
    have hnew := h.unborn s.runs.length (le_refl _)
    have hlen : u.runs.length = s.runs.length + 1 := by
      rw [runs, List.length_append, List.length_singleton]
    -- a row of the new table is an old one or the new run
    have hrow : ∀ (i : Nat) (r : PipelineRun Id), u.runs[i]? = some r →
        s.runs[i]? = some r ∨ i = s.runs.length ∧ r = run := by
      intro i r hr
      rw [runs] at hr
      rcases Nat.lt_trichotomy i s.runs.length with hi | hi | hi
      · rw [List.getElem?_append_left hi] at hr
        exact .inl hr
      · rw [hi, List.getElem?_concat_length, Option.some.injEq] at hr
        exact .inr ⟨hi, hr.symm⟩
      · rw [List.getElem?_eq_none (by rw [List.length_append, List.length_singleton]; omega)] at hr
        cases hr
    have hkept : ∀ (i : Nat) (r : PipelineRun Id), s.runs[i]? = some r → u.runs[i]? = some r := by
      intro i r hr
      rw [runs, List.getElem?_append_left (List.getElem?_eq_some_iff.mp hr).1, hr]
    have hcount : ∀ p id, countedRuns { s with toState := u } p id = countedRuns s p id := by
      intro p id
      have hzero : counts { s with toState := u } p id s.runs.length = false := by
        change (s.accounted s.runs.length && _) = false
        rw [hnew.2]
        rfl
      change (List.range u.runs.length).countP _ = _
      rw [hlen, List.range_succ, List.countP_append, List.countP_singleton, hzero]
      apply List.countP_congr
      intro i hi
      unfold counts
      change (s.accounted i && u.runs[i]?.any _) = true ↔ _
      rw [runs, List.getElem?_append_left (List.mem_range.mp hi)]
    constructor
    · intro id schedule₀ schedule hs₀ hs
      rw [hcount, hcount, hcount]
      exact h.counted id schedule₀ schedule hs₀ (schedules ▸ hs)
    · intro i r hr
      rcases hrow i r hr with hr | ⟨rfl, rfl⟩
      · exact h.stage i r hr
      · change Stage (s.tasks _) (s.accounted _) r.status
        rw [hnew.1, hnew.2, status]
        intro hterm
        exact absurd hterm (by decide)
    · exact fun i hi => h.unborn i (by rw [hlen] at hi; omega)
    · intro i r hr ha
      rcases hrow i r hr with hr | ⟨rfl, rfl⟩
      · obtain ⟨row', hrow', hid⟩ := h.recorded i r hr ha
        exact ⟨row', by rw [rows]; exact List.mem_append_left _ hrow', hid⟩
      · change s.accounted _ = true at ha
        rw [hnew.2] at ha
        cases ha
    · intro id schedule hs hrunning
      obtain ⟨i, r, hr, hid⟩ := h.quiet id schedule (schedules ▸ hs) hrunning
      exact ⟨i, r, hkept i r hr, hid⟩
    · exact hfirings
  | advances w f old new runs rows schedules held fires found successful healed failed =>
    have hcount : ∀ p id, countedRuns { s with toState := u } p id = countedRuns s p id := by
      intro p id
      unfold countedRuns counts
      rw [runs]
    constructor
    · intro id schedule₀ schedule hs₀ hs
      rw [hcount, hcount, hcount]
      rw [schedules, Dict.get?_set] at hs
      split at hs
      · next he =>
        cases hs
        rw [successful, healed, failed]
        exact h.counted id schedule₀ old hs₀ (he ▸ found)
      · exact h.counted id schedule₀ schedule hs₀ hs
    · exact fun i r hr => h.stage i r (runs ▸ hr)
    · exact fun i hi => h.unborn i (runs ▸ hi)
    · intro i r hr ha
      obtain ⟨row, hrow, hid, hstatus⟩ := h.recorded i r (runs ▸ hr) ha
      refine ⟨row, ?_, hid, hstatus⟩
      rw [rows]
      apply mem_of_modify hrow hid
      have hslot := h.firings.slot w f fires
      rw [runIds] at hslot
      rw [hslot]
      simp
    · intro id schedule hs hrunning
      rw [schedules, Dict.get?_set] at hs
      split at hs
      · next he =>
        -- the run of the firing has no row yet, so its statistics are still ahead
        have howner := h.firings.run w f fires
        rw [owners, List.getElem?_map] at howner
        obtain ⟨r, hr, hid⟩ := Option.map_eq_some_iff.mp howner
        refine ⟨f.runId, r, runs ▸ hr, hid.trans he.symm, ?_⟩
        by_contra ha
        obtain ⟨row, hrow, hrid, -⟩ := h.recorded f.runId r hr (Bool.not_eq_false _ |>.mp ha)
        exact h.firings.unset w f fires (List.mem_map.mpr ⟨row, hrow, hrid⟩)
      · obtain ⟨i, r, hr, hid⟩ := h.quiet id schedule hs hrunning
        exact ⟨i, r, runs ▸ hr, hid⟩
    · exact hfirings

/-- A task moves the status of its run; once the run is counted it does not. -/
theorem Ledger.setRun (h : Ledger s₀ s) {i : Nat} {old : PipelineRun Id} (new : PipelineRun Id)
    {task : Lifecycle.Actors.Worker Error Violation} (hold : s.runs[i]? = some old)
    (hid : new.scheduleId = old.scheduleId) (hstage : Stage task (s.accounted i) new.status)
    (hkeep : s.accounted i = true → new.status = old.status) :
    Ledger s₀ { s with
      runs := s.runs.set i new
      tasks := Function.update s.tasks i task } := by
  have hi : i < s.runs.length := (List.getElem?_eq_some_iff.mp hold).1
  have hget : ∀ (j : Nat) (r : PipelineRun Id), (s.runs.set i new)[j]? = some r →
      i = j ∧ r = new ∨ i ≠ j ∧ s.runs[j]? = some r := by
    intro j r hr
    rw [List.getElem?_set] at hr
    split at hr
    · next he =>
      rw [Option.some.injEq] at hr
      exact .inl ⟨he, hr.symm⟩
    · next he => exact .inr ⟨he, hr⟩
  have hcount : ∀ p id, countedRuns { s with
      runs := s.runs.set i new
      tasks := Function.update s.tasks i task } p id = countedRuns s p id := by
    intro p id
    unfold countedRuns counts
    dsimp only
    rw [List.length_set]
    apply List.countP_congr
    intro j _
    rw [List.getElem?_set]
    by_cases he : i = j
    · subst he
      rw [if_pos rfl, if_pos hi, hold]
      cases ha : s.accounted i with
      | true => rw [Option.any_some, Option.any_some, hid, hkeep ha]
      | false => rfl
    · rw [if_neg he]
  constructor
  · intro id schedule₀ schedule hs₀ hs
    rw [hcount, hcount, hcount]
    exact h.counted id schedule₀ schedule hs₀ hs
  · intro j r hr
    dsimp only at hr ⊢
    rcases hget j r hr with ⟨rfl, rfl⟩ | ⟨hne, hr⟩
    · rw [Function.update_self]
      exact hstage
    · rw [Function.update_of_ne hne.symm]
      exact h.stage j r hr
  · intro j hj
    dsimp only at hj ⊢
    rw [List.length_set] at hj
    rw [Function.update_of_ne (by omega)]
    exact h.unborn j hj
  · intro j r hr ha
    rcases hget j r hr with ⟨rfl, rfl⟩ | ⟨-, hr⟩
    · rw [hkeep ha]
      exact h.recorded i old hold ha
    · exact h.recorded j r hr ha
  · intro id schedule hs hrunning
    obtain ⟨j, r, hr, hrid, ha⟩ := h.quiet id schedule hs hrunning
    by_cases he : i = j
    · subst he
      rw [hold, Option.some.injEq] at hr
      subst hr
      exact ⟨i, new, List.getElem?_set_self hi, hid.trans hrid, ha⟩
    · exact ⟨j, r, (List.getElem?_set_ne he).trans hr, hrid, ha⟩
  · refine h.firings.frame ?_ rfl fun _ _ hf => hf
    apply List.ext_getElem?
    intro j
    change ((s.runs.set i new).map PipelineRun.scheduleId)[j]? = (s.runs.map PipelineRun.scheduleId)[j]?
    rw [List.getElem?_map, List.getElem?_map, List.getElem?_set]
    by_cases he : i = j
    · subst he
      rw [if_pos rfl, if_pos hi, hold, Option.map_some, Option.map_some, hid]
    · rw [if_neg he]

/-- A task that only moves on. -/
theorem Ledger.setTask (h : Ledger s₀ s) {i : Nat} {task : Lifecycle.Actors.Worker Error Violation}
    (hi : i < s.runs.length)
    (hstage : ∀ r, s.runs[i]? = some r → Stage task (s.accounted i) r.status) :
    Ledger s₀ { s with tasks := Function.update s.tasks i task } := by
  have hget := List.getElem?_eq_getElem hi
  have hset := h.setRun s.runs[i] hget rfl (hstage _ hget) fun _ => rfl
  rwa [List.set_getElem_self] at hset

end Ledger

section Rows

/-- A fold that keeps its best candidate or takes the next one ends with one of them. -/
theorem foldl_pick {f : Option Nat → Nat → Option Nat}
    (hf : ∀ best j, f best j = some j ∨ f best j = best ∧ best.isSome) (js : List Nat)
    (best : Option Nat) (hne : js ≠ [] ∨ best.isSome) :
    ∃ j, js.foldl f best = some j ∧ (j ∈ js ∨ best = some j) := by
  induction js generalizing best with
  | nil =>
    obtain ⟨j, hj⟩ := Option.isSome_iff_exists.mp (hne.resolve_left fun he => he rfl)
    exact ⟨j, hj, .inr hj⟩
  | cons k ks ih =>
    rw [List.foldl_cons]
    rcases hf best k with hk | ⟨hk, hb⟩
    · rw [hk]
      obtain ⟨j, hj, hm⟩ := ih (some k) (.inr rfl)
      refine ⟨j, hj, .inl ?_⟩
      rcases hm with hm | hm
      · exact List.mem_cons_of_mem k hm
      · cases hm
        exact List.mem_cons_self
    · rw [hk]
      obtain ⟨j, hj, hm⟩ := ih best (.inr hb)
      exact ⟨j, hj, hm.imp_left (List.mem_cons_of_mem k)⟩

/-- The row that the statistics are written to is a row of the run. -/
theorem scheduleRunOf_spec {Id : Type} {rows : List (ScheduleRun Id)} {i : Nat}
    (h : ∃ row ∈ rows, row.runId = some i) :
    ∃ j row, scheduleRunOf rows i = some j ∧ rows[j]? = some row ∧ row.runId = some i := by
  obtain ⟨row, hrow, hid⟩ := h
  obtain ⟨k, hk⟩ := List.getElem?_of_mem hrow
  have hin : k ∈ (List.range rows.length).filter fun j =>
      decide ((rows[j]?.bind ScheduleRun.runId) = some i) := by
    refine List.mem_filter.mpr ⟨List.mem_range.mpr (List.getElem?_eq_some_iff.mp hk).1, ?_⟩
    rw [hk, Option.bind_some, hid]
    exact decide_eq_true rfl
  have hpick : ∃ j, scheduleRunOf rows i = some j ∧ (j ∈ (List.range rows.length).filter (fun j =>
      decide ((rows[j]?.bind ScheduleRun.runId) = some i)) ∨ none = some j) := by
    refine foldl_pick ?_ _ none (.inl (List.ne_nil_of_mem hin))
    intro best j
    cases best with
    | none => exact .inl rfl
    | some k =>
      dsimp only
      split
      · exact .inl rfl
      · exact .inr ⟨rfl, rfl⟩
  obtain ⟨j, hj, hm⟩ := hpick
  have hj' := (List.mem_filter.mp (hm.resolve_right (by simp))).2
  obtain ⟨row', hrow', hid'⟩ := Option.bind_eq_some_iff.mp (of_decide_eq_true hj')
  exact ⟨j, row', hj, hrow', hid'⟩

end Rows

section Statistics

variable {W Id Cron Token Error Violation : Type} [DecidableEq Id]
  {s₀ s : ScheduleStats.State W Id Cron Token Error Violation}

omit [DecidableEq Id] in
theorem statusMap_ne_running {status : PipelineStatus} (h : status ∈ outcomes) :
    statusMap status ≠ "RUNNING" := by
  cases status <;> first | decide | exact absurd h (by decide)

omit [DecidableEq Id] in
/-- The counter of its kind, and no other, takes a status in. -/
theorem countRun_counters (status : PipelineStatus) (schedule : PipelineSchedule Cron) :
    (countRun status schedule).successfulRuns =
        schedule.successfulRuns + (if status == .COMPLETED then 1 else 0) ∧
      (countRun status schedule).healedRuns =
        schedule.healedRuns + (if status == .HEALED then 1 else 0) ∧
      (countRun status schedule).failedRuns = schedule.failedRuns +
        (if decide (status ∈ [.FAILED, .CONTRACT_VIOLATION]) = true then 1 else 0) := by
  cases status <;> exact ⟨rfl, rfl, rfl⟩

omit [DecidableEq Id] in
theorem countRun_lastRunStatus (status : PipelineStatus) (schedule : PipelineSchedule Cron) :
    (countRun status schedule).lastRunStatus = some (statusMap status) := by
  unfold countRun
  dsimp only
  split
  · rfl
  · split
    · rfl
    · split <;> rfl

/-- Taking a run in adds one to the count of its schedule and status. -/
theorem countedRuns_account {i : Nat} {run : PipelineRun Id} (hrun : s.runs[i]? = some run)
    (ha : s.accounted i = false) {t : ScheduleStats.State W Id Cron Token Error Violation}
    (hruns : t.runs = s.runs) (hacc : t.accounted = Function.update s.accounted i true)
    (p : PipelineStatus → Bool) (id : Id) :
    countedRuns t p id =
      countedRuns s p id + if run.scheduleId = id ∧ p run.status = true then 1 else 0 := by
  have hi : i < s.runs.length := (List.getElem?_eq_some_iff.mp hrun).1
  have hat : counts t p id i = (decide (run.scheduleId = id) && p run.status) := by
    rw [counts, hruns, hacc, Function.update_self, hrun]
    rfl
  unfold countedRuns
  rw [hruns, countP_range_update (p := counts s p id) hi, hat]
  · congr 1
    simp only [Bool.and_eq_true, decide_eq_true_eq]
  · rw [counts, ha]
    rfl
  · intro j hj
    rw [counts, counts, hruns, hacc, Function.update_of_ne hj]

/-- The statistics take a run in: the row of the firing has its status from then on. -/
theorem Ledger.account (h : Ledger s₀ s) {i : Nat} {run : PipelineRun Id}
    (hrun : s.runs[i]? = some run) (htask : s.tasks i = .persisted) (ha : s.accounted i = false)
    (hrow : ∃ row ∈ s.scheduleRuns, row.runId = some i) :
    Ledger s₀ { updateScheduleStats s i run with
      accounted := Function.update s.accounted i true } := by
  have hout : run.status ∈ outcomes := by
    have hstage := h.stage i run hrun
    rwa [htask, ha] at hstage
  obtain ⟨j, row, hj, hget, hid⟩ := scheduleRunOf_spec hrow
  have hrows : (updateScheduleStats s i run).scheduleRuns =
      s.scheduleRuns.modify j (recordRun run) := by
    unfold updateScheduleStats
    rw [hj]
  -- the entry of another schedule stays, that of this one is counted
  have hschedule : ∀ id schedule, (updateScheduleStats s i run).schedules.get? id = some schedule →
      (id ≠ run.scheduleId ∧ s.schedules.get? id = some schedule) ∨
        id = run.scheduleId ∧ ∃ old, s.schedules.get? id = some old ∧
          schedule = countRun run.status old := by
    intro id schedule hs
    unfold updateScheduleStats at hs
    dsimp only at hs
    split at hs
    · next old hold =>
      rw [Dict.get?_set] at hs
      split at hs
      · next he =>
        rw [Option.some.injEq] at hs
        exact .inr ⟨he, old, he ▸ hold, hs.symm⟩
      · next he => exact .inl ⟨he, hs⟩
    · next hnone =>
      refine .inl ⟨?_, hs⟩
      rintro rfl
      rw [hnone] at hs
      cases hs
  have hcount := countedRuns_account (t := { updateScheduleStats s i run with
    accounted := Function.update s.accounted i true }) hrun ha rfl rfl
  constructor
  · intro id schedule₀ schedule hs₀ hs
    rw [hcount, hcount, hcount]
    rcases hschedule id schedule hs with ⟨hne, hs⟩ | ⟨rfl, old, hold, rfl⟩
    · simp only [hne.symm, false_and, if_false, Nat.add_zero]
      exact h.counted id schedule₀ schedule hs₀ hs
    · obtain ⟨h₁, h₂, h₃⟩ := h.counted run.scheduleId schedule₀ old hs₀ hold
      obtain ⟨c₁, c₂, c₃⟩ := countRun_counters run.status old
      simp only [true_and]
      rw [c₁, c₂, c₃, h₁, h₂, h₃]
      exact ⟨Nat.add_assoc .., Nat.add_assoc .., Nat.add_assoc ..⟩
  · intro k r hr
    change s.runs[k]? = some r at hr
    change Stage (s.tasks k) (Function.update s.accounted i true k) r.status
    by_cases hk : k = i
    · subst hk
      rw [hrun, Option.some.injEq] at hr
      subst hr
      rw [Function.update_self, htask]
      exact hout
    · rw [Function.update_of_ne hk]
      exact h.stage k r hr
  · intro k hk
    change s.runs.length ≤ k at hk
    change s.tasks k = _ ∧ Function.update s.accounted i true k = false
    have hi := (List.getElem?_eq_some_iff.mp hrun).1
    rw [Function.update_of_ne (by omega)]
    exact h.unborn k hk
  · intro k r hr hk
    change s.runs[k]? = some r at hr
    change Function.update s.accounted i true k = true at hk
    change ∃ row ∈ (updateScheduleStats s i run).scheduleRuns, _
    rw [hrows]
    by_cases he : k = i
    · subst he
      rw [hrun, Option.some.injEq] at hr
      subst hr
      refine ⟨recordRun run row, List.mem_of_getElem? (i := j) ?_, hid, rfl⟩
      rw [List.getElem?_modify, hget]
      exact congrArg some (if_pos rfl)
    · rw [Function.update_of_ne he] at hk
      obtain ⟨row', hrow', hid', hstatus⟩ := h.recorded k r hr hk
      refine ⟨row', mem_of_modify hrow' hid' ?_, hid', hstatus⟩
      rw [List.getElem?_map, hget, Option.map_some, hid]
      intro heq
      cases heq
      exact he rfl
  · intro id schedule hs hrunning
    rcases hschedule id schedule hs with ⟨hne, hs⟩ | ⟨rfl, old, hold, rfl⟩
    · obtain ⟨k, r, hr, hrid, hk⟩ := h.quiet id schedule hs hrunning
      refine ⟨k, r, hr, hrid, ?_⟩
      change Function.update s.accounted i true k = false
      rw [Function.update_of_ne, hk]
      rintro rfl
      rw [hrun, Option.some.injEq] at hr
      subst hr
      exact hne hrid.symm
    · rw [countRun_lastRunStatus, Option.some.injEq] at hrunning
      exact absurd hrunning (statusMap_ne_running hout)
  · refine h.firings.frame rfl ?_ fun _ _ hf => hf
    change (updateScheduleStats s i run).scheduleRuns.map ScheduleRun.runId =
      s.scheduleRuns.map ScheduleRun.runId
    rw [hrows]
    apply List.ext_getElem?
    intro k
    rw [List.getElem?_map, List.getElem?_map, List.getElem?_modify]
    cases s.scheduleRuns[k]? with
    | none => rfl
    | some row =>
      by_cases hk : j = k
      · subst hk
        simp [recordRun]
      · simp [hk]

end Statistics

section Runs

variable {W Id Cron Token Error Violation : Type} [DecidableEq W] [DecidableEq Id]
  [DecidableEq Token] {getNext : Cron → Nat → Option Nat} {healing : Healing Error}
  {sanitizeErrorMessage : Error → String} {exceptionMessage : Nat → String}
  {s₀ : ScheduleStats.State W Id Cron Token Error Violation}

omit [DecidableEq W] [DecidableEq Id] [DecidableEq Token] in
theorem stamp_scheduleId (now i : Nat) (task : Lifecycle.Actors.Worker Error Violation)
    (e : WorkerStep Error Violation) (run : PipelineRun Id) :
    (stamp sanitizeErrorMessage exceptionMessage now i task e run).scheduleId = run.scheduleId := by
  unfold stamp
  split
  · rfl
  · split <;> rfl
  · rfl
  · rfl

/-- One regular event. -/
theorem ledger_step (s : ScheduleStats.State W Id Cron Token Error Violation)
    (e : ScheduleStats.Event W Token Error Violation)
    (t : ScheduleStats.State W Id Cron Token Error Violation) (h : Ledger s₀ s) (hr : Regular s e)
    (hstep : ScheduleStats.step getNext healing sanitizeErrorMessage exceptionMessage s e = some t) :
    Ledger s₀ t := by
  cases e with
  | scheduler e =>
    obtain ⟨u, hu, rfl⟩ := Option.map_eq_some_iff.mp hstep
    exact h.table (tableStep_of_step hu)
  | worker i e =>
    obtain ⟨run, hrun, hstep⟩ := Option.bind_eq_some_iff.mp hstep
    unfold stepWorker at hstep
    split at hstep
    · next henabled =>
      obtain ⟨⟨task, status⟩, hact, rfl⟩ := Option.map_eq_some_iff.mp hstep
      have hstage := stage_act (h.stage i run hrun) hact
        (by
          rintro rfl
          exact hr)
        (by
          rintro (rfl | rfl) <;> exact hr.imp_right fun hr => hr run hrun)
        (by
          rintro rfl
          exact henabled)
      exact h.setRun _ hrun (stamp_scheduleId ..) hstage.1 hstage.2
    · cases hstep
  | updatesStats i ok =>
    obtain ⟨run, hrun, hstep⟩ := Option.bind_eq_some_iff.mp hstep
    split at hstep
    · next htask ha =>
      cases hstep
      obtain ⟨rfl, hrow⟩ := hr
      exact h.account hrun htask ha hrow
    · cases hstep
  | redelivers i =>
    simp only [ScheduleStats.step] at hstep
    split at hstep
    · next htask =>
      cases hstep
      have hi : i < s.runs.length := by
        by_contra hge
        have hqueued := (h.unborn i (by omega)).1
        rw [htask] at hqueued
        cases hqueued
      refine h.setTask hi fun r hget => ?_
      have hstage := h.stage i r hget
      rw [htask] at hstage
      cases ha : s.accounted i <;> rw [ha] at hstage <;> exact hstage
    · cases hstep
  | cancels i => exact hr.elim
  | reconciles i => exact hr.elim

/-- A run of the system whose events are regular: every scheduled run that has ended is counted
once and recorded, and no schedule without an active run is shown as running. -/
theorem schedule_accounting (getNext : Cron → Nat → Option Nat) (healing : Healing Error)
    (sanitizeErrorMessage : Error → String) (exceptionMessage : Nat → String)
    (s t : ScheduleStats.State W Id Cron Token Error Violation)
    (events : List (ScheduleStats.Event W Token Error Violation)) (hs : Fresh s)
    (hr : Along (ScheduleStats.step getNext healing sanitizeErrorMessage exceptionMessage) Regular
      s events)
    (h : run (ScheduleStats.step getNext healing sanitizeErrorMessage exceptionMessage) s events =
      some t) : Balanced s t :=
  (invariant_run (fun s e t => ledger_step s e t) hs.ledger hr h).balanced

end Runs

section Examples

abbrev Rows := ScheduleStats.State Bool Nat Unit Nat String String

abbrev Happening := ScheduleStats.Event Bool Nat String String

def scheduled : Rows := { toState := oneSchedule }

def noHealing : Healing String :=
  { autonomousHealingEnabled := false
    autonomousHealingMaxAttempts := 0
    isHealable := fun _ => false }

def nextRows : Rows → Happening → Option Rows :=
  ScheduleStats.step nextMinute noHealing id fun _ => "unexpected"

def started : List Happening :=
  (tickOf true 1 .accepted ++ [Scheduler.Event.acts true (.advances true)]).map .scheduler ++
    [.worker 0 .starts, .worker 0 .marksRunning]

/-- An exception outside of the steps of the pipeline fails the run. -/
def failsUnexpectedly : List Happening :=
  started ++ [.worker 0 .raises, .worker 0 .accesses, .worker 0 .marksFailed]

def stuck : List Happening := started ++ [.worker 0 .killed, .reconciles 0]

theorem fresh_scheduled : Fresh scheduled :=
  ⟨rfl, rfl, fun _ => rfl, fun _ => rfl, fun _ => rfl, fun id schedule h => by
    have hm := (Dict.get?_eq_some_iff ..).mp h
    cases List.mem_singleton.mp hm
    decide⟩

/-- A run that an unexpected exception fails, one that is cancelled and one that is reconciled
leave their rows without a status. -/
theorem unexpected_exception_uncounted :
    (∃ t, run nextRows scheduled failsUnexpectedly = some t ∧ ¬ Balanced scheduled t) ∧
      (∃ t, run nextRows scheduled (started ++ [.cancels 0]) = some t ∧ ¬ Balanced scheduled t) ∧
        ∃ t, run nextRows scheduled stuck = some t ∧ ¬ Balanced scheduled t := by
  refine ⟨⟨_, rfl, fun h => ?_⟩, ⟨_, rfl, fun h => ?_⟩, ⟨_, rfl, fun h => ?_⟩⟩ <;>
    obtain ⟨row, hrow, -, hstatus⟩ := h.recorded 0 _ rfl (by decide) rfl <;>
    cases List.mem_singleton.mp hrow <;>
    cases hstatus

def completes : List Happening :=
  started ++ [.worker 0 (.runReturns { status := .COMPLETED }), .worker 0 .refreshes,
    .worker 0 (.persists 0 none), .updatesStats 0 true, .worker 0 .returns]

theorem schedule_accounting_completes :
    ∃ t, run nextRows scheduled completes = some t ∧ endedRuns t (· == .COMPLETED) 7 = 1 ∧
      Balanced scheduled t := by
  refine ⟨_, rfl, rfl, ?_⟩
  refine schedule_accounting nextMinute noHealing id (fun _ => "unexpected") scheduled _ completes
    fresh_scheduled ?_ rfl
  exact along_cons trivial rfl <| along_cons trivial rfl <| along_cons trivial rfl <|
    along_cons trivial rfl <| along_cons trivial rfl <| along_cons trivial rfl <|
    along_cons trivial rfl <| along_cons trivial rfl <| along_cons trivial rfl <|
    along_cons trivial rfl <| along_cons ⟨rfl, _, List.mem_singleton.mpr rfl, rfl⟩ rfl <|
    along_cons trivial rfl trivial

end Examples

end PipelineIQ.Scheduling.Accounting
