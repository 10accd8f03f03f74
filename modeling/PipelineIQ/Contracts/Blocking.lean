import Mathlib.Data.List.Induction
import PipelineIQ.Contracts.Tenancy

namespace PipelineIQ.Contracts.Blocking

open PipelineIQ.Scheduling.Scheduler

variable {Cron : Type}

/-- `timedelta(hours=1)`. -/
def blockSeconds : Nat := 3600

/-- One statement of the loop, for a consumer, with what the clock says when it is made. -/
structure Statement where
  consumerName : String
  utcnow : Nat

def Statement.affects (st : Statement) (schedule : PipelineSchedule Cron) : Bool :=
  decide (schedule.pipelineName = st.consumerName) && schedule.isActive

def Statement.update (st : Statement) (schedule : PipelineSchedule Cron) : PipelineSchedule Cron :=
  if st.affects schedule then
    { schedule with
      nextRunAt := some (st.utcnow + blockSeconds), lastRunStatus := some "BLOCKED_BY_CONTRACT" }
  else schedule

/-- The schedules and the number of them blocked, after the statements for all consumers. -/
def blockDownstreamSchedules (schedules : List (PipelineSchedule Cron)) (statements : List Statement) :
    List (PipelineSchedule Cron) × Nat :=
  statements.foldl (fun (schedules, blockedCount) st =>
    (schedules.map st.update, blockedCount + schedules.countP st.affects)) (schedules, 0)

/-! ### What the documentation says -/

/-- An active schedule of a pipeline that a consumer names. -/
def Affected (statements : List Statement) (schedule : PipelineSchedule Cron) : Prop :=
  ∃ st ∈ statements, st.affects schedule = true

/-- No schedule runs earlier than it would have. -/
def OnlyDelays (before after : List (PipelineSchedule Cron)) : Prop :=
  ∀ (i : Nat) s s', before[i]? = some s → after[i]? = some s' →
    ∀ t t', s.nextRunAt = some t → s'.nextRunAt = some t' → t ≤ t'

/-- The next run of the affected schedules is one hour further, and the others are as they were. -/
def AsDocumented (statements : List Statement) (before after : List (PipelineSchedule Cron)) : Prop :=
  ∀ (i : Nat) s s', before[i]? = some s → after[i]? = some s' →
    (Affected statements s → s'.nextRunAt = s.nextRunAt.map (· + blockSeconds)) ∧
      (¬ Affected statements s → s' = s)

/-- The last of the statements that reach a schedule. -/
def lastStatement (statements : List Statement) (schedule : PipelineSchedule Cron) :
    Option Statement :=
  statements.reverse.find? fun st => st.affects schedule

/-! ### Runs of the loop -/

section Loop

variable {statements : List Statement} {s s' : PipelineSchedule Cron}

/-- A statement changes nothing that a statement looks at. -/
theorem affects_update (st st' : Statement) (s : PipelineSchedule Cron) :
    st'.affects (st.update s) = st'.affects s := by
  unfold Statement.update
  split <;> rfl

theorem blockDownstreamSchedules_eq (schedules : List (PipelineSchedule Cron))
    (statements : List Statement) : (blockDownstreamSchedules schedules statements).1 =
      schedules.map fun s => statements.foldl (fun s st => st.update s) s := by
  have hloop : ∀ (schedules : List (PipelineSchedule Cron)) (n : Nat),
      (statements.foldl (fun (schedules, blockedCount) (st : Statement) =>
        (schedules.map st.update, blockedCount + schedules.countP st.affects)) (schedules, n)).1 =
        schedules.map fun s => statements.foldl (fun s st => st.update s) s := by
    induction statements with
    | nil => exact fun schedules _ => (List.map_id schedules).symm
    | cons st statements ih =>
      intro schedules n
      rw [List.foldl_cons, ih, List.map_map]
      rfl
  exact hloop schedules 0

theorem updates_append (st : Statement) : (statements ++ [st]).foldl (fun s st => st.update s) s =
    st.update (statements.foldl (fun s st => st.update s) s) := by
  rw [List.foldl_append]
  rfl

theorem affects_updates (st : Statement) :
    st.affects (statements.foldl (fun s st => st.update s) s) = st.affects s := by
  induction statements generalizing s with
  | nil => rfl
  | cons st' statements ih => rw [List.foldl_cons, ih, affects_update]

/-- The last statement that reaches a schedule decides on its next run. -/
theorem nextRunAt_updates :
    (statements.foldl (fun s st => st.update s) s).nextRunAt =
      match lastStatement statements s with
      | some st => some (st.utcnow + blockSeconds)
      | none => s.nextRunAt := by
  induction statements using List.reverseRecOn with
  | nil => rfl
  | append_singleton statements st ih =>
    rw [updates_append, lastStatement, List.reverse_append, List.reverse_singleton,
      List.singleton_append, List.find?_cons, Statement.update, affects_updates]
    cases hst : st.affects s with
    | true => rfl
    | false => exact ih

theorem lastStatement_eq_none_iff : lastStatement statements s = none ↔ ¬ Affected statements s := by
  rw [lastStatement, List.find?_eq_none, Affected]
  constructor
  · rintro h ⟨st, hst, haffects⟩
    exact h st (List.mem_reverse.mpr hst) haffects
  · intro h st hst haffects
    exact h ⟨st, List.mem_reverse.mp hst, haffects⟩

theorem updates_of_not_affected (h : ¬ Affected statements s) :
    statements.foldl (fun s st => st.update s) s = s := by
  induction statements with
  | nil => rfl
  | cons st statements ih =>
    have hst : st.update s = s := by
      rw [Statement.update, if_neg fun haffects => h ⟨st, List.mem_cons_self, haffects⟩]
    rw [List.foldl_cons, hst]
    exact ih fun ⟨st', hst', haffects⟩ => h ⟨st', List.mem_cons_of_mem st hst', haffects⟩

/-- With a clock that stands still this is what blocking is for the tenants of contracts. -/
theorem blockDownstreamSchedules_still {Cell Double : Type} (env : Tenancy.Environment Cell Double)
    (schedules : List (PipelineSchedule Cron)) (consumers : List Lib.Strings.Text) :
    (blockDownstreamSchedules schedules
        (consumers.map fun consumer => ⟨String.ofList consumer, env.utcnow⟩)).1 =
      Tenancy.blockDownstreamSchedules env schedules consumers := by
  rw [blockDownstreamSchedules_eq]
  induction consumers generalizing schedules with
  | nil => exact List.map_id schedules
  | cons consumer consumers ih =>
    have hone : schedules.map (Statement.update ⟨String.ofList consumer, env.utcnow⟩) =
        Tenancy.blockConsumer env schedules consumer := by
      refine List.map_congr_left fun s _ => ?_
      have hname : s.pipelineName = String.ofList consumer ↔ s.pipelineName.toList = consumer := by
        rw [← String.toList_inj, String.toList_ofList]
      simp only [Statement.update, Statement.affects, Tenancy.blockSchedule, Bool.and_eq_true,
        decide_eq_true_eq, hname]
      rfl
    rw [List.map_cons, Tenancy.blockDownstreamSchedules, List.foldl_cons, ← hone]
    change _ = Tenancy.blockDownstreamSchedules env _ consumers
    rw [← ih, List.map_map]
    rfl

end Loop

/-! ### Delays -/

section Delays

variable {schedules : List (PipelineSchedule Cron)} {statements : List Statement}

/-- A property of each schedule and what becomes of it, position by position. -/
theorem forall_blocked_iff {P : PipelineSchedule Cron → PipelineSchedule Cron → Prop} :
    (∀ (i : Nat) s s', schedules[i]? = some s →
      (blockDownstreamSchedules schedules statements).1[i]? = some s' → P s s') ↔
      ∀ s ∈ schedules, P s (statements.foldl (fun s st => st.update s) s) := by
  rw [blockDownstreamSchedules_eq]
  constructor
  · intro h s hs
    obtain ⟨i, hi⟩ := List.mem_iff_getElem?.mp hs
    exact h i s _ hi (by rw [List.getElem?_map, hi]; rfl)
  · intro h i s s' hi hi'
    rw [List.getElem?_map, hi, Option.map_some, Option.some.injEq] at hi'
    subst hi'
    exact h s (List.mem_of_getElem? hi)

theorem onlyDelays_iff :
    OnlyDelays schedules (blockDownstreamSchedules schedules statements).1 ↔
      ∀ s ∈ schedules, ∀ st, lastStatement statements s = some st →
        ∀ t, s.nextRunAt = some t → t ≤ st.utcnow + blockSeconds := by
  rw [OnlyDelays, forall_blocked_iff (P := fun s s' =>
    ∀ t t', s.nextRunAt = some t → s'.nextRunAt = some t' → t ≤ t')]
  refine forall₂_congr fun s _ => ?_
  rw [nextRunAt_updates]
  cases lastStatement statements s with
  | none =>
    refine iff_of_true ?_ nofun
    intro t t' ht ht'
    rw [ht] at ht'
    cases ht'
    exact Nat.le_refl t
  | some st =>
    constructor
    · rintro h _ ⟨⟩ t ht
      exact h t _ ht rfl
    · intro h t t' ht ht'
      cases ht'
      exact h st rfl t ht

theorem asDocumented_iff :
    AsDocumented statements schedules (blockDownstreamSchedules schedules statements).1 ↔
      ∀ s ∈ schedules, ∀ st, lastStatement statements s = some st → s.nextRunAt = some st.utcnow := by
  rw [AsDocumented, forall_blocked_iff (P := fun s s' =>
    (Affected statements s → s'.nextRunAt = s.nextRunAt.map (· + blockSeconds)) ∧
      (¬ Affected statements s → s' = s))]
  refine forall₂_congr fun s _ => ?_
  cases hst : lastStatement statements s with
  | none =>
    have hnot := lastStatement_eq_none_iff.mp hst
    exact iff_of_true ⟨fun h => absurd h hnot, updates_of_not_affected⟩ nofun
  | some st =>
    have haffected : Affected statements s := by
      by_contra hnot
      rw [lastStatement_eq_none_iff.mpr hnot] at hst
      cases hst
    rw [nextRunAt_updates, hst]
    constructor
    · rintro ⟨h, -⟩ _ ⟨⟩
      have hnext := h haffected
      cases ht : s.nextRunAt with
      | none =>
        rw [ht] at hnext
        cases hnext
      | some t =>
        rw [ht, Option.map_some, Option.some.injEq] at hnext
        rw [Nat.add_right_cancel hnext]
    · intro h
      refine ⟨fun _ => ?_, fun hnot => absurd haffected hnot⟩
      rw [h st rfl]
      rfl

/-- Blocking never makes a schedule earlier exactly where each schedule that it reaches was due within
an hour, and it does just what is documented exactly where each of them was due at that moment. -/
theorem block_delays_iff (schedules : List (PipelineSchedule Cron)) (statements : List Statement) :
    (OnlyDelays schedules (blockDownstreamSchedules schedules statements).1 ↔
      ∀ s ∈ schedules, ∀ st, lastStatement statements s = some st →
        ∀ t, s.nextRunAt = some t → t ≤ st.utcnow + blockSeconds) ∧
    (OnlyDelays schedules (blockDownstreamSchedules schedules statements).1 ∧
        AsDocumented statements schedules (blockDownstreamSchedules schedules statements).1 ↔
      ∀ s ∈ schedules, ∀ st, lastStatement statements s = some st →
        s.nextRunAt = some st.utcnow) := by
  refine ⟨onlyDelays_iff, ?_⟩
  rw [onlyDelays_iff, asDocumented_iff]
  constructor
  · exact fun h => h.2
  · intro h
    refine ⟨fun s hs st hst t ht => ?_, h⟩
    rw [h s hs st hst, Option.some.injEq] at ht
    rw [← ht]
    exact Nat.le_add_right _ _

end Delays

/-! ### A daily schedule -/

def daily : PipelineSchedule String where
  userId := "u"
  pipelineName := "report"
  yamlConfig := ""
  cronExpression := "0 0 * * *"
  isActive := true
  nextRunAt := some 86400

/-- A breach at midnight brings the run of the next midnight forward to one o'clock. -/
theorem daily_run_earlier :
    ¬ (OnlyDelays [daily] (blockDownstreamSchedules [daily] [⟨"report", 0⟩]).1 ∧
      AsDocumented [⟨"report", 0⟩] [daily] (blockDownstreamSchedules [daily] [⟨"report", 0⟩]).1) := by
  rintro ⟨hdelays, -⟩
  exact absurd (hdelays 0 daily _ rfl rfl 86400 3600 rfl rfl) (by decide)

end PipelineIQ.Contracts.Blocking
