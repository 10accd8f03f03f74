import PipelineIQ.Lib.Dict
import PipelineIQ.Lib.Machine
import PipelineIQ.Models

namespace PipelineIQ.Streaming.Control

open PipelineIQ.Lib PipelineIQ.Lib.Machine PipelineIQ.Models

/-- Where the task of a daemon is: in the queue, at the head of the loop, behind the checks of an
iteration, waiting in `_handle_pause`, or past the loop and about to write its last status. -/
inductive Phase where
  | queued | head | body | waiting
  | leaving (failed : Bool)
  deriving DecidableEq, Repr

/-- A task of the run that has not ended. A revoked one does not start, and is terminated where it
runs, in its own time. -/
structure Daemon where
  phase : Phase := .queued
  revoked : Bool := false
  batches : Nat := 0
  deriving DecidableEq, Repr

/-- The row of the run, whether it has a row of statistics, and its tasks. -/
structure World where
  status : PipelineStatus := .PENDING
  celeryTaskId : Option Nat := none
  streamingStats : Bool := false
  daemons : Dict Nat Daemon := ∅
  nextTask : Nat := 0
  consumed : Nat := 0

/-- How the set-up of a daemon ends: it raises or finds no step to consume with, the consumer
cannot be made, or the loop begins. -/
inductive SetUp where
  | fails | consumerFails | done
  deriving DecidableEq, Repr

/-- What an iteration comes to: the lag ends it, or messages are consumed and make a batch or not,
or one error too many ends the loop, or an exception does. -/
inductive Work where
  | cools
  | consumes (messages : Nat) (batch : Bool)
  | givesUp (messages : Nat)
  | raises (messages : Nat)
  deriving DecidableEq, Repr

/-- What happens to a task: its daemon starts, looks at the status, goes through an iteration, or
ends, by itself or by the signal of a revocation. -/
inductive Action where
  | begin (setUp : SetUp)
  | look
  | work (work : Work)
  | finish
  | terminate
  deriving DecidableEq, Repr

inductive Event where
  | pause | resume | stop | restart | cancel
  | daemon (task : Nat) (action : Action)
  deriving DecidableEq, Repr

def streaming (status : PipelineStatus) : Bool :=
  decide (status = .STREAMING_ACTIVE) || decide (status = .STREAMING_PAUSED)

/-- Queue a task for the run. -/
def delay (w : World) : World :=
  { w with
    status := .STREAMING_ACTIVE
    celeryTaskId := some w.nextTask
    daemons := w.daemons.set w.nextTask {}
    nextTask := w.nextTask + 1 }

def revoke (daemons : Dict Nat Daemon) : Option Nat → Dict Nat Daemon
  | none => daemons
  | some task => match daemons.get? task with
    | none => daemons
    | some d => daemons.set task { d with revoked := true }

/-- Revoke the task of the run and write a status. -/
def halt (w : World) (status : PipelineStatus) : World :=
  { w with status, daemons := revoke w.daemons w.celeryTaskId }

def put (w : World) (task : Nat) (d : Daemon) : World :=
  { w with daemons := w.daemons.set task d }

def drop (w : World) (task : Nat) : World := { w with daemons := w.daemons.erase task }

/-- The set-up of a daemon in the queue. The second row of statistics for a run violates its primary
key, and the session then takes no other write: the error handler writes no status. -/
def setUp (w : World) (task : Nat) (d : Daemon) : SetUp → World
  | .fails => { drop w task with status := .FAILED }
  | outcome =>
    if w.streamingStats then { drop w task with status := .STREAMING_ACTIVE }
    else
      { put w task { d with phase := match outcome with
          | .done => .head
          | _ => .leaving true } with
        status := .STREAMING_ACTIVE
        streamingStats := true }

/-- Where a look at the status sends a daemon from the head of the loop; it looks for a pause after
every tenth batch only. -/
def fromHead (status : PipelineStatus) (batches : Nat) : Phase :=
  if !streaming status then .leaving false
  else if batches % 10 = 0 ∧ 0 < batches ∧ status = .STREAMING_PAUSED then .waiting
  else .body

def fromWaiting (status : PipelineStatus) : Phase :=
  if !streaming status then .leaving false
  else if status = .STREAMING_PAUSED then .waiting
  else .body

def worked (w : World) (task : Nat) (d : Daemon) : Work → World
  | .cools => put w task { d with phase := .head }
  | .consumes messages batch =>
    { put w task { d with phase := .head, batches := d.batches + batch.toNat } with
      consumed := w.consumed + messages }
  | .givesUp messages =>
    { put w task { d with phase := .leaving false } with consumed := w.consumed + messages }
  | .raises messages =>
    { put w task { d with phase := .leaving true } with consumed := w.consumed + messages }

def act (w : World) (task : Nat) (d : Daemon) : Action → Option World
  | .begin outcome =>
    if d.phase = .queued ∧ d.revoked = false then some (setUp w task d outcome) else none
  | .look => match d.phase with
    | .head => some (put w task { d with phase := fromHead w.status d.batches })
    | .waiting => some (put w task { d with phase := fromWaiting w.status })
    | _ => none
  | .work work => if d.phase = .body then some (worked w task d work) else none
  | .finish => match d.phase with
    | .leaving failed => some { drop w task with
        status := if failed then .FAILED else .STREAMING_STOPPED }
    | _ => none
  | .terminate => if d.revoked then some (drop w task) else none

/-- A request that is refused leaves everything as it is. -/
def step (w : World) : Event → Option World
  | .pause => some (if w.status = .STREAMING_ACTIVE then { w with status := .STREAMING_PAUSED } else w)
  | .resume => some (if w.status = .STREAMING_PAUSED then { w with status := .STREAMING_ACTIVE } else w)
  | .stop => some (if streaming w.status then halt w .STREAMING_STOPPED else w)
  | .restart => some (if w.status = .STREAMING_STOPPED then delay w else w)
  | .cancel => some (if streaming w.status then halt w .CANCELLED else w)
  | .daemon task action => (w.daemons.get? task).bind fun d => act w task d action

/-- A run as the request that starts it leaves it. -/
def started : World := delay {}

/-! ### The tasks and the row -/

/-- A task that can still consume, now or once its daemon starts. -/
def Serves (w : World) (task : Nat) : Prop :=
  ∃ d, w.daemons.get? task = some d ∧ d.revoked = false

/-- The tasks of a run that was not restarted after a daemon of it had begun. -/
structure Controlled (w : World) : Prop where
  serving : streaming w.status = true ↔ ∃ task, Serves w task
  current : ∀ task, Serves w task → w.celeryTaskId = some task
  begun : ∀ task d, w.daemons.get? task = some d → d.phase ≠ .queued →
    w.streamingStats = true ∧ (d.revoked = true → streaming w.status = false)
  once : w.streamingStats = true → ∀ task d, w.daemons.get? task = some d → d.revoked = false →
    d.phase ≠ .queued
  issued : ∀ task d, w.daemons.get? task = some d → task < w.nextTask

section Steps

variable {w t : World} {task other : Nat} {d d' : Daemon} {status : PipelineStatus} {n : Nat}

theorem controlled_started : Controlled started := by
  have hget : ∀ task d, started.daemons.get? task = some d → task = 0 ∧ d = {} := by
    intro task d h
    by_cases htask : task = 0
    · subst htask
      exact ⟨rfl, (Option.some.inj h).symm⟩
    · rw [started, delay, Dict.get?_set, if_neg htask] at h
      cases h
  refine ⟨⟨fun _ => ⟨0, {}, rfl, rfl⟩, fun _ => rfl⟩, ?_, ?_, nofun, ?_⟩
  · rintro task ⟨d, hd, -⟩
    rw [(hget task d hd).1]
    rfl
  · intro task d hd hbegun
    rw [(hget task d hd).2] at hbegun
    exact absurd rfl hbegun
  · intro task d hd
    rw [(hget task d hd).1]
    exact Nat.zero_lt_one

theorem Controlled.eq_of_serves (h : Controlled w) (ht : Serves w task) (ho : Serves w other) :
    other = task :=
  Option.some.inj ((h.current other ho).symm.trans (h.current task ht))

/-- A write of the status alone, between the two that the run streams in. -/
theorem Controlled.write (h : Controlled w) (hstatus : streaming status = streaming w.status) :
    Controlled { w with status } := by
  refine ⟨?_, h.current, ?_, h.once, h.issued⟩
  · rw [hstatus]
    exact h.serving
  · intro task d hd hbegun
    rw [hstatus]
    exact h.begun task d hd hbegun

theorem get?_revoke {daemons : Dict Nat Daemon} {taskId : Option Nat}
    (h : (revoke daemons taskId).get? task = some d) :
    ∃ d', daemons.get? task = some d' ∧ d'.phase = d.phase ∧
      (d.revoked = false → d'.revoked = false ∧ taskId ≠ some task) := by
  unfold revoke at h
  cases taskId with
  | none => exact ⟨d, h, rfl, fun hd => ⟨hd, nofun⟩⟩
  | some current =>
    cases hc : daemons.get? current with
    | none =>
      simp only [hc] at h
      refine ⟨d, h, rfl, fun hd => ⟨hd, ?_⟩⟩
      rintro ⟨rfl⟩
      rw [hc] at h
      cases h
    | some c =>
      simp only [hc, Dict.get?_set] at h
      by_cases hcurrent : task = current
      · rw [if_pos hcurrent, Option.some.injEq] at h
        subst h
        exact ⟨c, hcurrent ▸ hc, rfl, nofun⟩
      · rw [if_neg hcurrent] at h
        exact ⟨d, h, rfl, fun hd => ⟨hd, fun hsome => hcurrent (Option.some.inj hsome).symm⟩⟩

theorem Controlled.halted (h : Controlled w) (hstatus : streaming status = false) :
    Controlled (halt w status) := by
  have hnone : ∀ task, ¬ Serves (halt w status) task := by
    rintro task ⟨d, hd, hrevoked⟩
    obtain ⟨d', hd', -, hold⟩ := get?_revoke hd
    exact (hold hrevoked).2 (h.current task ⟨d', hd', (hold hrevoked).1⟩)
  refine ⟨?_, ?_, ?_, ?_, ?_⟩
  · exact iff_of_false (by simp [halt, hstatus]) fun ⟨task, htask⟩ => hnone task htask
  · intro task htask
    exact absurd htask (hnone task)
  · intro task d hd hbegun
    obtain ⟨d', hd', hphase, -⟩ := get?_revoke hd
    exact ⟨(h.begun task d' hd' (hphase ▸ hbegun)).1, fun _ => hstatus⟩
  · intro _ task d hd hrevoked
    exact absurd ⟨d, hd, hrevoked⟩ (hnone task)
  · intro task d hd
    obtain ⟨d', hd', -⟩ := get?_revoke hd
    exact h.issued task d' hd'

/-- A restart of a run without a row of statistics. -/
theorem Controlled.delayed (h : Controlled w) (hstatus : streaming w.status = false)
    (hstats : w.streamingStats = false) : Controlled (delay w) := by
  have hget : ∀ task d, (delay w).daemons.get? task = some d →
      (task = w.nextTask ∧ d = {}) ∨ w.daemons.get? task = some d ∧ d.revoked = true := by
    intro task d hd
    rw [delay, Dict.get?_set] at hd
    by_cases htask : task = w.nextTask
    · rw [if_pos htask, Option.some.injEq] at hd
      exact .inl ⟨htask, hd.symm⟩
    · rw [if_neg htask] at hd
      refine .inr ⟨hd, ?_⟩
      cases hrevoked : d.revoked with
      | true => rfl
      | false =>
        have := h.serving.mpr ⟨task, d, hd, hrevoked⟩
        rw [hstatus] at this
        cases this
  refine ⟨⟨fun _ => ⟨w.nextTask, {}, by simp [delay], rfl⟩, fun _ => rfl⟩, ?_, ?_, ?_, ?_⟩
  · rintro task ⟨d, hd, hrevoked⟩
    obtain ⟨rfl, -⟩ | ⟨-, hr⟩ := hget task d hd
    · rfl
    · rw [hrevoked] at hr
      cases hr
  · intro task d hd hbegun
    obtain ⟨-, rfl⟩ | ⟨hold, -⟩ := hget task d hd
    · exact absurd rfl hbegun
    · have := (h.begun task d hold hbegun).1
      rw [hstats] at this
      cases this
  · intro hrow
    rw [show (delay w).streamingStats = w.streamingStats from rfl, hstats] at hrow
    cases hrow
  · intro task d hd
    obtain ⟨rfl, -⟩ | ⟨hold, -⟩ := hget task d hd
    · exact Nat.lt_succ_self _
    · exact Nat.lt_succ_of_lt (h.issued task d hold)

/-- A begun daemon goes on. -/
theorem Controlled.moves (h : Controlled w) (hd : w.daemons.get? task = some d)
    (hbegun : d.phase ≠ .queued) (hrevoked : d'.revoked = d.revoked) (hbegun' : d'.phase ≠ .queued) :
    Controlled { put w task d' with consumed := n } := by
  have hserves : ∀ other, Serves { put w task d' with consumed := n } other ↔ Serves w other := by
    intro other
    unfold Serves
    simp only [put, Dict.get?_set]
    by_cases ho : other = task
    · simp [ho, hd, hrevoked]
    · simp [ho]
  refine ⟨?_, ?_, ?_, ?_, ?_⟩
  · simp only [hserves]
    exact h.serving
  · intro other ho
    exact h.current other ((hserves other).mp ho)
  · intro other o ho hphase
    simp only [put, Dict.get?_set] at ho
    by_cases hother : other = task
    · rw [if_pos hother, Option.some.injEq] at ho
      subst ho
      rw [hrevoked]
      exact h.begun task d hd hbegun
    · rw [if_neg hother] at ho
      exact h.begun other o ho hphase
  · intro hstats other o ho hlive
    simp only [put, Dict.get?_set] at ho
    by_cases hother : other = task
    · rw [if_pos hother, Option.some.injEq] at ho
      exact ho ▸ hbegun'
    · rw [if_neg hother] at ho
      exact h.once hstats other o ho hlive
  · intro other o ho
    simp only [put, Dict.get?_set] at ho
    by_cases hother : other = task
    · exact hother ▸ h.issued task d hd
    · rw [if_neg hother] at ho
      exact h.issued other o ho

theorem get?_drop : (drop w task).daemons.get? other = some d ↔
    other ≠ task ∧ w.daemons.get? other = some d := by
  simp [drop]

/-- A daemon ends with the last status that it writes. -/
theorem Controlled.leaves (h : Controlled w) (hd : w.daemons.get? task = some d)
    (hrevoked : d.revoked = true → streaming w.status = false) (hstatus : streaming status = false) :
    Controlled { drop w task with status } := by
  have hnone : ∀ other, ¬ Serves { drop w task with status } other := by
    rintro other ⟨o, ho, hlive⟩
    obtain ⟨hne, ho⟩ := get?_drop.mp ho
    have hstreaming := h.serving.mpr ⟨other, o, ho, hlive⟩
    cases hr : d.revoked with
    | true =>
      rw [hrevoked hr] at hstreaming
      cases hstreaming
    | false => exact hne (h.eq_of_serves ⟨d, hd, hr⟩ ⟨o, ho, hlive⟩)
  refine ⟨?_, ?_, ?_, ?_, ?_⟩
  · exact iff_of_false (by simp [hstatus]) fun ⟨other, ho⟩ => hnone other ho
  · intro other ho
    exact absurd ho (hnone other)
  · intro other o ho hbegun
    exact ⟨(h.begun other o (get?_drop.mp ho).2 hbegun).1, fun _ => hstatus⟩
  · intro _ other o ho hlive
    exact absurd ⟨o, ho, hlive⟩ (hnone other)
  · intro other o ho
    exact h.issued other o (get?_drop.mp ho).2

theorem Controlled.terminated (h : Controlled w) (hd : w.daemons.get? task = some d)
    (hrevoked : d.revoked = true) : Controlled (drop w task) := by
  have hserves : ∀ other, Serves (drop w task) other ↔ Serves w other := by
    intro other
    unfold Serves
    simp only [get?_drop]
    constructor
    · rintro ⟨o, ⟨-, ho⟩, hlive⟩
      exact ⟨o, ho, hlive⟩
    · rintro ⟨o, ho, hlive⟩
      refine ⟨o, ⟨?_, ho⟩, hlive⟩
      rintro rfl
      rw [hd, Option.some.injEq] at ho
      rw [ho, hlive] at hrevoked
      cases hrevoked
  refine ⟨?_, ?_, ?_, ?_, ?_⟩
  · simp only [hserves]
    exact h.serving
  · intro other ho
    exact h.current other ((hserves other).mp ho)
  · intro other o ho hbegun
    exact h.begun other o (get?_drop.mp ho).2 hbegun
  · intro hstats other o ho hlive
    exact h.once hstats other o (get?_drop.mp ho).2 hlive
  · intro other o ho
    exact h.issued other o (get?_drop.mp ho).2

theorem Controlled.no_stats (h : Controlled w) (hd : w.daemons.get? task = some d)
    (hqueued : d.phase = .queued) (hlive : d.revoked = false) : w.streamingStats = false := by
  cases hstats : w.streamingStats with
  | false => rfl
  | true => exact absurd hqueued (h.once hstats task d hd hlive)

/-- The first daemon of a run to begin. -/
theorem Controlled.begins (h : Controlled w) (hd : w.daemons.get? task = some d)
    (hqueued : d.phase = .queued) (hlive : d.revoked = false) {phase : Phase}
    (hphase : phase ≠ .queued) (hstatus : streaming status = true) :
    Controlled { put w task { d with phase } with status, streamingStats := true } := by
  have hstats := h.no_stats hd hqueued hlive
  have hother : ∀ other o, other ≠ task → w.daemons.get? other = some o →
      o.phase = .queued ∧ o.revoked = true := by
    intro other o hne ho
    constructor
    · by_contra hbegun
      have hrow := (h.begun other o ho hbegun).1
      rw [hstats] at hrow
      cases hrow
    · cases hr : o.revoked with
      | true => rfl
      | false => exact absurd (h.eq_of_serves ⟨d, hd, hlive⟩ ⟨o, ho, hr⟩) hne
  have hget : ∀ other o, (put w task { d with phase }).daemons.get? other = some o →
      other = task ∧ o = { d with phase } ∨ other ≠ task ∧ w.daemons.get? other = some o := by
    intro other o ho
    rw [put, Dict.get?_set] at ho
    by_cases hne : other = task
    · rw [if_pos hne, Option.some.injEq] at ho
      exact .inl ⟨hne, ho.symm⟩
    · rw [if_neg hne] at ho
      exact .inr ⟨hne, ho⟩
  refine ⟨⟨fun _ => ⟨task, { d with phase }, by simp [put], hlive⟩, fun _ => hstatus⟩, ?_, ?_, ?_, ?_⟩
  · rintro other ⟨o, ho, hr⟩
    obtain ⟨rfl, -⟩ | ⟨hne, ho⟩ := hget other o ho
    · exact h.current other ⟨d, hd, hlive⟩
    · rw [(hother other o hne ho).2] at hr
      cases hr
  · intro other o ho hbegun
    obtain ⟨rfl, rfl⟩ | ⟨hne, ho⟩ := hget other o ho
    · refine ⟨rfl, fun hr => ?_⟩
      rw [show d.revoked = true from hr] at hlive
      cases hlive
    · exact absurd (hother other o hne ho).1 hbegun
  · intro _ other o ho hr
    obtain ⟨rfl, rfl⟩ | ⟨hne, ho⟩ := hget other o ho
    · exact hphase
    · rw [(hother other o hne ho).2] at hr
      cases hr
  · intro other o ho
    obtain ⟨rfl, -⟩ | ⟨-, ho⟩ := hget other o ho
    · exact h.issued other d hd
    · exact h.issued other o ho

/-! ### Runs -/

theorem fromHead_ne_queued (batches : Nat) : fromHead status batches ≠ .queued := by
  unfold fromHead
  split_ifs <;> exact nofun

theorem fromWaiting_ne_queued : fromWaiting status ≠ .queued := by
  unfold fromWaiting
  split_ifs <;> exact nofun

/-- No stopped run is restarted that has a row of statistics, as one has whose daemon began. -/
def RestartsUnbegun (w : World) (e : Event) : Prop :=
  e = .restart → w.status = .STREAMING_STOPPED → w.streamingStats = false

instance (w : World) (e : Event) : Decidable (RestartsUnbegun w e) :=
  inferInstanceAs (Decidable (_ → _ → _))

theorem Controlled.of_act (h : Controlled w) (hd : w.daemons.get? task = some d) {action : Action}
    (ht : act w task d action = some t) : Controlled t := by
  cases action with
  | begin outcome =>
    simp only [act, Option.ite_none_right_eq_some, Option.some.injEq] at ht
    obtain ⟨⟨hqueued, hlive⟩, rfl⟩ := ht
    have hstats := h.no_stats hd hqueued hlive
    cases outcome with
    | fails => exact h.leaves hd (by simp [hlive]) rfl
    | consumerFails =>
      simp only [setUp, hstats, Bool.false_eq_true, ↓reduceIte]
      exact h.begins hd hqueued hlive nofun rfl
    | done =>
      simp only [setUp, hstats, Bool.false_eq_true, ↓reduceIte]
      exact h.begins hd hqueued hlive nofun rfl
  | look =>
    cases hphase : d.phase with
    | head =>
      simp only [act, hphase, Option.some.injEq] at ht
      subst ht
      exact h.moves hd (by simp [hphase]) rfl (fromHead_ne_queued _)
    | waiting =>
      simp only [act, hphase, Option.some.injEq] at ht
      subst ht
      exact h.moves hd (by simp [hphase]) rfl fromWaiting_ne_queued
    | queued | body | leaving => simp [act, hphase] at ht
  | work work =>
    simp only [act, Option.ite_none_right_eq_some, Option.some.injEq] at ht
    obtain ⟨hphase, rfl⟩ := ht
    cases work <;> exact h.moves hd (by simp [hphase]) rfl nofun
  | finish =>
    cases hphase : d.phase with
    | leaving failed =>
      simp only [act, hphase, Option.some.injEq] at ht
      subst ht
      refine h.leaves hd (h.begun task d hd (by simp [hphase])).2 ?_
      cases failed <;> rfl
    | queued | head | body | waiting => simp [act, hphase] at ht
  | terminate =>
    simp only [act, Option.ite_none_right_eq_some, Option.some.injEq] at ht
    obtain ⟨hrevoked, rfl⟩ := ht
    exact h.terminated hd hrevoked

theorem Controlled.of_step (h : Controlled w) {e : Event} (hg : RestartsUnbegun w e)
    (ht : step w e = some t) : Controlled t := by
  cases e with
  | daemon task action =>
    obtain ⟨d, hd, ht⟩ := Option.bind_eq_some_iff.mp ht
    exact h.of_act hd ht
  | pause | resume =>
    simp only [step, Option.some.injEq] at ht
    subst ht
    split
    · next hstatus => exact h.write (by rw [hstatus]; rfl)
    · exact h
  | stop | cancel =>
    simp only [step, Option.some.injEq] at ht
    subst ht
    split
    · exact h.halted rfl
    · exact h
  | restart =>
    simp only [step, Option.some.injEq] at ht
    subst ht
    split
    · next hstatus => exact h.delayed (by rw [hstatus]; rfl) (hg rfl hstatus)
    · exact h

/-- While a run streams, a begun daemon is its only task that is not a revoked one in the queue. -/
theorem Controlled.only (h : Controlled w) (hstatus : streaming w.status = true)
    (hd : w.daemons.get? task = some d) (hbegun : d.phase ≠ .queued) :
    d.revoked = false ∧ ∀ other o, w.daemons.get? other = some o → other ≠ task →
      o.phase = .queued ∧ o.revoked = true := by
  have hlive : ∀ other o, w.daemons.get? other = some o → o.phase ≠ .queued →
      o.revoked = false := by
    intro other o ho hphase
    cases hr : o.revoked with
    | false => rfl
    | true =>
      have := (h.begun other o ho hphase).2 hr
      rw [hstatus] at this
      cases this
  have hserves : Serves w task := ⟨d, hd, hlive task d hd hbegun⟩
  refine ⟨hlive task d hd hbegun, ?_⟩
  intro other o ho hne
  have hrevoked : o.revoked = true := by
    cases hr : o.revoked with
    | true => rfl
    | false => exact absurd (h.eq_of_serves hserves ⟨o, ho, hr⟩) hne
  refine ⟨?_, hrevoked⟩
  by_contra hphase
  rw [hlive other o ho hphase] at hrevoked
  cases hrevoked

/-- What nothing but the loop's own step can end. -/
structure Waits (w : World) (task : Nat) : Prop where
  controlled : Controlled w
  waiting : ∃ d, w.daemons.get? task = some d ∧ d.phase = .waiting

theorem Waits.of_act (h : Waits w task) (hstatus : w.status = .STREAMING_PAUSED)
    (ho : w.daemons.get? other = some d') {action : Action} (ht : act w other d' action = some t) :
    Waits t task ∧ t.consumed = w.consumed := by
  obtain ⟨d, hd, hphase⟩ := h.waiting
  obtain ⟨hlive, hothers⟩ := h.controlled.only (by rw [hstatus]; rfl) hd (by simp [hphase])
  have hcontrolled := h.controlled.of_act ho ht
  by_cases hother : other = task
  · subst hother
    rw [hd, Option.some.injEq] at ho
    subst ho
    cases action with
    | look =>
      simp only [act, hphase, Option.some.injEq] at ht
      subst ht
      refine ⟨⟨hcontrolled, { d with phase := fromWaiting w.status }, by simp [put], ?_⟩, rfl⟩
      rw [hstatus]
      rfl
    | begin | work | finish | terminate => simp [act, hphase, hlive] at ht
  · obtain ⟨hqueued, hrevoked⟩ := hothers other d' ho hother
    cases action with
    | terminate =>
      simp only [act, hrevoked, ↓reduceIte, Option.some.injEq] at ht
      subst ht
      exact ⟨⟨hcontrolled, d, get?_drop.mpr ⟨Ne.symm hother, hd⟩, hphase⟩, rfl⟩
    | begin | look | work | finish => simp [act, hqueued, hrevoked] at ht

theorem Waits.of_step (h : Waits w task) (hstatus : w.status = .STREAMING_PAUSED) {e : Event}
    (ht : step w e = some t) (hstatus' : t.status = .STREAMING_PAUSED) :
    Waits t task ∧ t.consumed = w.consumed := by
  cases e with
  | daemon other action =>
    obtain ⟨d', ho, ht⟩ := Option.bind_eq_some_iff.mp ht
    exact h.of_act hstatus ho ht
  | pause | restart =>
    simp only [step, hstatus, reduceCtorEq, ↓reduceIte, Option.some.injEq] at ht
    subst ht
    exact ⟨h, rfl⟩
  | resume =>
    simp only [step, hstatus, ↓reduceIte, Option.some.injEq] at ht
    subst ht
    cases hstatus'
  | stop | cancel =>
    simp only [step, hstatus, show streaming .STREAMING_PAUSED = true from rfl, ↓reduceIte,
      Option.some.injEq] at ht
    subst ht
    cases hstatus'

/-- A run that waits consumes nothing as long as it is paused. -/
theorem Waits.of_run (h : Waits w task) {events : List Event}
    (hpaused : Always step (fun w => w.status = .STREAMING_PAUSED) w events)
    (ht : run step w events = some t) : t.consumed = w.consumed := by
  induction events generalizing w with
  | nil =>
    cases ht
    rfl
  | cons e events ih =>
    obtain ⟨u, hu, ht⟩ := run_cons_iff.mp ht
    obtain ⟨hw, hrest⟩ := (always_cons_iff hu).mp hpaused
    obtain ⟨hwaits, hconsumed⟩ := h.of_step hw hu hrest.head
    rw [ih hwaits hrest ht, hconsumed]

/-- Where no daemon has begun, one that starts gets to the loop and past its checks. -/
theorem Controlled.reaches_loop (h : Controlled w) (hd : w.daemons.get? task = some d)
    (hqueued : d.phase = .queued) (hlive : d.revoked = false) :
    ∃ u v, step w (.daemon task (.begin .done)) = some u ∧ step u (.daemon task .look) = some v ∧
      v.status = .STREAMING_ACTIVE ∧
      v.daemons.get? task = some { d with phase := .body } := by
  have hstats := h.no_stats hd hqueued hlive
  let u : World := { put w task { d with phase := .head } with
    status := .STREAMING_ACTIVE, streamingStats := true }
  refine ⟨u, put u task { d with phase := fromHead .STREAMING_ACTIVE d.batches }, ?_, ?_, rfl, ?_⟩
  · simp [step, hd, act, hqueued, hlive, setUp, hstats, u]
  · simp [step, act, u, put]
  · simp [put, fromHead, streaming]

/-! ### Runs with a row of statistics -/

def Begun (w : World) (task : Nat) : Prop :=
  ∃ d, w.daemons.get? task = some d ∧ d.phase ≠ .queued

theorem begun_of_put (hd : w.daemons.get? task = some d) (hphase : d.phase ≠ .queued)
    (h : Begun (put w task d') other) : Begun w other := by
  obtain ⟨o, ho, hbegun⟩ := h
  rw [put, Dict.get?_set] at ho
  by_cases hother : other = task
  · exact ⟨d, hother ▸ hd, hphase⟩
  · rw [if_neg hother] at ho
    exact ⟨o, ho, hbegun⟩

theorem begun_of_drop (h : Begun (drop w task) other) : Begun w other := by
  obtain ⟨o, ho, hbegun⟩ := h
  exact ⟨o, (get?_drop.mp ho).2, hbegun⟩

theorem begun_of_act (hstats : w.streamingStats = true) (hd : w.daemons.get? task = some d)
    {action : Action} (ht : act w task d action = some t) :
    t.streamingStats = true ∧ (Begun t other → Begun w other) := by
  cases action with
  | begin outcome =>
    simp only [act, Option.ite_none_right_eq_some, Option.some.injEq] at ht
    obtain ⟨-, rfl⟩ := ht
    cases outcome <;> simp only [setUp, hstats, ↓reduceIte] <;> exact ⟨hstats, begun_of_drop⟩
  | look =>
    cases hphase : d.phase with
    | head | waiting =>
      simp only [act, hphase, Option.some.injEq] at ht
      subst ht
      exact ⟨hstats, begun_of_put hd (by simp [hphase])⟩
    | queued | body | leaving => simp [act, hphase] at ht
  | work work =>
    simp only [act, Option.ite_none_right_eq_some, Option.some.injEq] at ht
    obtain ⟨hphase, rfl⟩ := ht
    cases work <;> exact ⟨hstats, begun_of_put hd (by simp [hphase])⟩
  | finish =>
    cases hphase : d.phase with
    | leaving failed =>
      simp only [act, hphase, Option.some.injEq] at ht
      subst ht
      exact ⟨hstats, begun_of_drop⟩
    | queued | head | body | waiting => simp [act, hphase] at ht
  | terminate =>
    simp only [act, Option.ite_none_right_eq_some, Option.some.injEq] at ht
    obtain ⟨-, rfl⟩ := ht
    exact ⟨hstats, begun_of_drop⟩

theorem begun_of_halt (h : Begun (halt w status) other) : Begun w other := by
  obtain ⟨o, ho, hbegun⟩ := h
  obtain ⟨o', ho', hphase, -⟩ := get?_revoke ho
  exact ⟨o', ho', hphase ▸ hbegun⟩

theorem begun_of_delay (h : Begun (delay w) other) : Begun w other := by
  obtain ⟨o, ho, hbegun⟩ := h
  rw [delay, Dict.get?_set] at ho
  by_cases hother : other = w.nextTask
  · rw [if_pos hother, Option.some.injEq] at ho
    exact absurd (congrArg Daemon.phase ho).symm hbegun
  · rw [if_neg hother] at ho
    exact ⟨o, ho, hbegun⟩

theorem begun_of_step (hstats : w.streamingStats = true) {e : Event} (ht : step w e = some t) :
    t.streamingStats = true ∧ (Begun t other → Begun w other) := by
  cases e with
  | daemon task action =>
    obtain ⟨d, hd, ht⟩ := Option.bind_eq_some_iff.mp ht
    exact begun_of_act hstats hd ht
  | pause | resume =>
    simp only [step, Option.some.injEq] at ht
    subst ht
    split <;> exact ⟨hstats, id⟩
  | stop | cancel =>
    simp only [step, Option.some.injEq] at ht
    subst ht
    split
    · exact ⟨hstats, begun_of_halt⟩
    · exact ⟨hstats, id⟩
  | restart =>
    simp only [step, Option.some.injEq] at ht
    subst ht
    split
    · exact ⟨hstats, begun_of_delay⟩
    · exact ⟨hstats, id⟩

/-- After the first daemon of a run has begun, no other one ever does, however often the run is
restarted. -/
theorem begun_of_run (hstats : w.streamingStats = true) {events : List Event}
    (ht : run step w events = some t) (h : Begun t other) : Begun w other := by
  induction events generalizing w with
  | nil =>
    cases ht
    exact h
  | cons e events ih =>
    obtain ⟨u, hu, ht⟩ := run_cons_iff.mp ht
    obtain ⟨hrow, hback⟩ := begun_of_step hstats hu
    exact hback (ih hrow ht)

end Steps

/-- Every run whose stopped runs are restarted only before a daemon of theirs has begun: it streams,
or is paused, exactly while a task that is not revoked is queued or lives; a daemon that waits keeps
the run from consuming for as long as it is paused; and a restart queues a task whose daemon, when it
starts, gets to the loop. -/
theorem streaming_controlled {events : List Event} {t : World}
    (hg : Along step RestartsUnbegun started events) (h : run step started events = some t) :
    (streaming t.status = true ↔ ∃ task, Serves t task) ∧
      (∀ task d later u, t.daemons.get? task = some d → d.phase = .waiting →
        Always step (fun w => w.status = .STREAMING_PAUSED) t later → run step t later = some u →
        u.consumed = t.consumed) ∧
      (∀ u, t.status = .STREAMING_STOPPED → step t .restart = some u →
        ∃ task, u.celeryTaskId = some task ∧ u.daemons.get? task = some {}) ∧
      ∀ task d, t.daemons.get? task = some d → d.phase = .queued → d.revoked = false →
        ∃ u v, step t (.daemon task (.begin .done)) = some u ∧
          step u (.daemon task .look) = some v ∧ v.status = .STREAMING_ACTIVE ∧
          v.daemons.get? task = some { d with phase := .body } := by
  have hcontrolled : Controlled t :=
    invariant_run (fun _ _ _ hw hguard hstep => hw.of_step hguard hstep) controlled_started hg h
  refine ⟨hcontrolled.serving, ?_, ?_, ?_⟩
  · intro task d later u hd hphase hpaused hu
    exact Waits.of_run ⟨hcontrolled, d, hd, hphase⟩ hpaused hu
  · intro u hstatus hu
    simp only [step, hstatus, ↓reduceIte, Option.some.injEq] at hu
    subst hu
    exact ⟨t.nextTask, rfl, by simp [delay]⟩
  · intro task d hd hqueued hlive
    exact hcontrolled.reaches_loop hd hqueued hlive

theorem streaming_controlled_paused :
    ∃ t, run step started [.stop, .restart, .daemon 1 (.begin .done), .pause] = some t ∧
      (streaming t.status = true ↔ ∃ task, Serves t task) := by
  obtain ⟨t, ht⟩ : ∃ t, run step started [.stop, .restart, .daemon 1 (.begin .done), .pause] =
      some t := ⟨_, rfl⟩
  exact ⟨t, ht, (streaming_controlled (by decide) ht).1⟩

/-- A paused run has a daemon that lives. -/
theorem paused_daemon_lives :
    ∃ events t, run step started events = some t ∧
      ¬ (t.status = .STREAMING_ACTIVE ↔ ∃ task d, t.daemons.get? task = some d) := by
  refine ⟨[.daemon 0 (.begin .done), .pause], _, rfl, ?_⟩
  intro hiff
  have hactive := hiff.mpr ⟨0, { phase := .head }, rfl⟩
  cases hactive

end PipelineIQ.Streaming.Control
