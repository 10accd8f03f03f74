import Mathlib.Data.Finset.Card
import PipelineIQ.Scheduling.ScheduledRuns

namespace PipelineIQ.Scheduling.Pausing

open PipelineIQ.Lib PipelineIQ.Lib.Machine PipelineIQ.Models PipelineIQ.Api.Schedules
open PipelineIQ.Scheduling.ExactlyOnce PipelineIQ.Scheduling.ScheduledRuns
open PipelineIQ.Scheduling.Scheduler hiding State Event step

section Vocabulary

variable {W Id Cron Token : Type} [DecidableEq Id]

/-- The runs that a schedule has. -/
def firings (id : Id) (s : State W Id Cron Token) : Nat :=
  s.runs.countP fun r => decide (r.scheduleId = id)

/-- A worker that has found the schedule due and has not come to it yet. -/
def Holds (id : Id) (s : State W Id Cron Token) (w : W) : Prop :=
  id ∈ (remaining (s.workers w)).map Prod.fst

instance (id : Id) (s : State W Id Cron Token) : DecidablePred (Holds id s) := fun w =>
  inferInstanceAs (Decidable (id ∈ (remaining (s.workers w)).map Prod.fst))

/-- A schedule of a user that is switched off or deleted. -/
def Off (id : Id) (owner : String) (s : State W Id Cron Token) : Prop :=
  id ∈ s.ids ∧ ∀ schedule, s.schedules.get? id = some schedule →
    schedule.isActive = false ∧ schedule.userId = owner

/-- A call that switches a schedule of a user on. -/
def SwitchesOn (id : Id) (owner : String) : Event W Id Cron Token → Prop
  | .request currentUser (.resumeSchedule scheduleId)
  | .request currentUser (.toggleSchedule scheduleId) => scheduleId = id ∧ currentUser.id = owner
  | _ => False

/-- No worker has a schedule twice. -/
def Once (s : State W Id Cron Token) : Prop :=
  ∀ w, ((remaining (s.workers w)).map Prod.fst).Nodup

end Vocabulary

variable {W Id Cron Token : Type} [DecidableEq W] [DecidableEq Id] [DecidableEq Token]
  {getNext : Cron → Nat → Option Nat} {id : Id} {owner : String} {s t : State W Id Cron Token}
  {e : Event W Id Cron Token} {holders : Finset W}

omit [DecidableEq W] [DecidableEq Id] [DecidableEq Token] in
theorem Empty.once (h : Empty s) : Once s := by
  intro w
  rw [h.workers]
  exact List.nodup_nil

theorem once_step (s : State W Id Cron Token) (e : Event W Id Cron Token)
    (t : State W Id Cron Token) (hs : Once s) (h : step getNext s e = some t) : Once t := by
  intro v
  cases e with
  | scheduler e =>
    cases (tick_of_scheduler h).1 with
    | keeps _ _ held => exact ((held v).map Prod.fst).nodup (hs v)
    | checks w _ _ found held =>
      by_cases hv : v = w
      · rw [hv, found]
        exact dueSchedules_nodup
      · rw [held v hv]
        exact hs v
    | fires w due _ _ _ _ before held =>
      by_cases hv : v = w
      · have hw := hs w
        rw [before, List.map_cons, List.nodup_cons] at hw
        rw [hv]
        exact hw.2
      · rw [held v hv]
        exact hs v
    | advances _ _ _ _ _ held => exact ((held v).map Prod.fst).nodup (hs v)
  | request currentUser r =>
    cases change_of_step h <;> exact hs v

omit [DecidableEq W] [DecidableEq Token] in
theorem Off.not_due (h : Off id owner s) : id ∉ (dueSchedules s.toState).map Prod.fst := by
  intro hmem
  obtain ⟨p, hp, rfl⟩ := List.mem_map.mp hmem
  obtain ⟨schedule, hget, hactive, -⟩ := due_of_mem hp
  rw [(h.2 schedule hget).1] at hactive
  cases hactive

/-- A schedule stays off in every step but the call of its user that switches it on. -/
theorem off_step (hs : Off id owner s) (hoff : ¬ SwitchesOn id owner e)
    (h : step getNext s e = some t) : Off id owner t := by
  refine ⟨ids_subset h hs.1, fun schedule hget => ?_⟩
  have hset : ∀ {other : Id} {old new : PipelineSchedule Cron},
      (s.schedules.set other new).get? id = some schedule → s.schedules.get? other = some old →
      new.userId = old.userId → (other = id → old.isActive = false → new.isActive = false) →
      schedule.isActive = false ∧ schedule.userId = owner := by
    intro other old new hnew hold huser hactive
    rw [Dict.get?_set] at hnew
    split at hnew
    · next heq =>
      cases hnew
      subst heq
      obtain ⟨hinactive, howner⟩ := hs.2 old hold
      exact ⟨hactive rfl hinactive, huser.trans howner⟩
    · exact hs.2 schedule hnew
  cases e with
  | scheduler e =>
    cases (tick_of_scheduler h).1 with
    | keeps _ schedules =>
      rw [schedules] at hget
      exact hs.2 schedule hget
    | checks _ _ schedules =>
      rw [schedules] at hget
      exact hs.2 schedule hget
    | fires _ _ _ _ _ schedules =>
      rw [schedules] at hget
      exact hs.2 schedule hget
    | advances other old new _ schedules _ found carries active =>
      rw [schedules] at hget
      exact hset hget found (congrArg Prod.fst carries) fun _ hold => active.trans hold
  | request currentUser r =>
    cases change_of_step h with
    | refuses => exact hs.2 schedule hget
    | creates other body new fresh =>
      rw [put, Dict.get?_set] at hget
      split at hget
      · next heq =>
        subst heq
        exact absurd hs.1 fresh
      · exact hs.2 schedule hget
    | pauses _ other old found => exact hset hget found rfl fun _ _ => rfl
    | resumes _ other old _ found owned named =>
      refine hset hget found rfl fun heq _ => absurd ?_ hoff
      subst heq
      have howner := owned.symm.trans (hs.2 old found).2
      obtain rfl | rfl := named
      · exact ⟨rfl, howner⟩
      · exact ⟨rfl, howner⟩
    | deletes other old found =>
      dsimp only at hget
      rw [Dict.get?_erase] at hget
      split at hget
      · cases hget
      · exact hs.2 schedule hget

/-- The firings of a schedule that is off, with the workers that can still fire it. -/
def budget (id : Id) (holders : Finset W) (s : State W Id Cron Token) : Nat :=
  firings id s + (holders.filter (Holds id s)).card

omit [DecidableEq W] [DecidableEq Token] in
theorem filter_subset (hheld : ∀ w, Holds id t w → Holds id s w) :
    holders.filter (Holds id t) ⊆ holders.filter (Holds id s) :=
  Finset.monotone_filter_right holders fun w _ hw => hheld w hw

omit [DecidableEq W] [DecidableEq Token] in
theorem budget_le (hruns : t.runs = s.runs) (hheld : ∀ w, Holds id t w → Holds id s w) :
    budget id holders t ≤ budget id holders s := by
  have hcard : (holders.filter (Holds id t)).card ≤ (holders.filter (Holds id s)).card :=
    Finset.card_le_card (filter_subset hheld)
  rw [budget, budget, firings, firings, hruns]
  omega

omit [DecidableEq W] [DecidableEq Token] in
theorem firings_of_other {r : PipelineRun Id} {due : Id × Nat} (hruns : t.runs = s.runs ++ [r])
    (hr : occurrenceKey r = due) (hne : due.1 ≠ id) : firings id t = firings id s := by
  have hrun : ¬ decide (r.scheduleId = id) = true := by
    rw [decide_eq_true_eq]
    rintro rfl
    exact hne (congrArg Prod.fst hr).symm
  rw [firings, firings, hruns, List.countP_append, List.countP_singleton, if_neg hrun, Nat.add_zero]

/-- No step takes a schedule that is off into a worker's hands, and one that fires it uses up the
worker's hold on it. -/
theorem budget_step (hoff : Off id owner s) (honce : Once s)
    (hholders : ∀ w, Holds id s w → w ∈ holders) (h : step getNext s e = some t) : (∀ w, Holds id t w → Holds id s w) ∧
      budget id holders t ≤ budget id holders s := by
  cases e with
  | request currentUser r =>
    cases change_of_step h <;> exact ⟨fun _ hw => hw, Nat.le_refl _⟩
  | scheduler e =>
    cases (tick_of_scheduler h).1 with
    | keeps runs _ held =>
      have hkept : ∀ w, Holds id t w → Holds id s w := fun w hw =>
        ((held w).map Prod.fst).subset hw
      exact ⟨hkept, budget_le runs hkept⟩
    | checks v runs _ found held =>
      have hkept : ∀ w, Holds id t w → Holds id s w := by
        intro w hw
        by_cases hv : w = v
        · rw [Holds, hv, found] at hw
          exact absurd hw hoff.not_due
        · rwa [Holds, held w hv] at hw
      exact ⟨hkept, budget_le runs hkept⟩
    | advances _ _ _ runs _ held =>
      have hkept : ∀ w, Holds id t w → Holds id s w := fun w hw =>
        ((held w).map Prod.fst).subset hw
      exact ⟨hkept, budget_le runs hkept⟩
    | fires v due schedule run runs _ before held _ occurrence =>
      have hkept : ∀ w, Holds id t w → Holds id s w := by
        intro w hw
        by_cases hv : w = v
        · subst hv
          rw [Holds, before]
          exact List.mem_cons_of_mem _ hw
        · rwa [Holds, held w hv] at hw
      refine ⟨hkept, ?_⟩
      by_cases hid : due.1 = id
      · -- the run of the schedule itself, and its worker does not have it twice
        have hlost : ¬ Holds id t v := by
          have hv := honce v
          rw [before, List.map_cons, List.nodup_cons, hid] at hv
          exact hv.1
        have hhad : Holds id s v := by
          rw [Holds, before, List.map_cons, hid]
          exact List.mem_cons_self
        have hlt : (holders.filter (Holds id t)).card < (holders.filter (Holds id s)).card := by
          apply Finset.card_lt_card
          refine ⟨filter_subset hkept, fun hsub => hlost ?_⟩
          exact (Finset.mem_filter.mp (hsub (Finset.mem_filter.mpr ⟨hholders v hhad, hhad⟩))).2
        have hone : firings id t ≤ firings id s + 1 := by
          rw [firings, firings, runs, List.countP_append]
          exact Nat.add_le_add_left List.countP_le_length _
        rw [budget, budget]
        omega
      · have hsame := firings_of_other runs occurrence hid
        have hcard : (holders.filter (Holds id t)).card ≤ (holders.filter (Holds id s)).card :=
          Finset.card_le_card (filter_subset hkept)
        rw [budget, budget, hsame]
        omega

/-- What the steps keep while a schedule is off. -/
structure Spent (id : Id) (owner : String) (holders : Finset W) (limit : Nat)
    (s : State W Id Cron Token) : Prop where
  off : Off id owner s
  once : Once s
  held : ∀ w, Holds id s w → w ∈ holders
  budget : budget id holders s ≤ limit

theorem spent_step {limit : Nat} (s : State W Id Cron Token) (e : Event W Id Cron Token)
    (t : State W Id Cron Token) (hs : Spent id owner holders limit s)
    (he : ¬ SwitchesOn id owner e) (h : step getNext s e = some t) :
    Spent id owner holders limit t := by
  obtain ⟨hkept, hle⟩ := budget_step hs.off hs.once hs.held h
  exact ⟨off_step hs.off he h, once_step s e t hs.once h, fun w hw => hs.held w (hkept w hw),
    hle.trans hs.budget⟩

omit [DecidableEq W] [DecidableEq Token] in
theorem pauseSchedule_ok {currentUser : User} (h : pauseSchedule s currentUser id = .ok t) :
    ∃ schedule, s.schedules.get? id = some schedule ∧ schedule.userId = currentUser.id ∧
      t = put s id { schedule with isActive := false, nextRunAt := none } := by
  obtain ⟨schedule, hget, hrest⟩ := Traverse.bind_ok h
  obtain ⟨hfound, howner⟩ := getScheduleOr404_ok hget
  refine ⟨schedule, hfound, howner, ?_⟩
  cases hactive : schedule.isActive with
  | false =>
    rw [hactive] at hrest
    cases hrest
  | true =>
    rw [hactive] at hrest
    cases hrest
    rfl

/-- After a user's call that pauses a schedule, and until this user switches it on again, it stays
off and has at most one more run for each worker that had it in its hands. -/
theorem paused_fires_at_most (getNext : Cron → Nat → Option Nat) {start s u t : State W Id Cron Token}
    {earlier later : List (Event W Id Cron Token)} {currentUser : User} {id : Id}
    {holders : Finset W} (hs : Empty start) (hearlier : run (step getNext) start earlier = some s)
    (hpause : pauseSchedule s currentUser id = .ok u)
    (hholders : ∀ w, Holds id u w → w ∈ holders)
    (hlater : ∀ e ∈ later, ¬ SwitchesOn id currentUser.id e)
    (h : run (step getNext) u later = some t) :
    Off id currentUser.id t ∧ firings id t ≤ firings id u + holders.card := by
  obtain ⟨schedule, hfound, howner, rfl⟩ := pauseSchedule_ok hpause
  have hknown : Known s := by
    apply invariant_reachable known_step _ hearlier
    intro id hsome
    rw [hs.schedules] at hsome
    exact absurd rfl hsome
  have honce : Once s := invariant_reachable once_step (Empty.once hs) hearlier
  have hoff : Off id currentUser.id
      (put s id { schedule with isActive := false, nextRunAt := none }) := by
    refine ⟨hknown id ?_, fun new hnew => ?_⟩
    · rw [hfound]
      exact Option.some_ne_none schedule
    · rw [put, Dict.get?_set, if_pos rfl, Option.some.injEq] at hnew
      subst hnew
      exact ⟨rfl, howner⟩
  have hbudget : budget id holders (put s id { schedule with isActive := false, nextRunAt := none }) ≤
      firings id (put s id { schedule with isActive := false, nextRunAt := none }) + holders.card :=
    Nat.add_le_add_left (Finset.card_le_card (Finset.filter_subset _ _)) _
  have hspent := invariant_run spent_step ⟨hoff, honce, hholders, hbudget⟩
    (along_of_forall_mem hlater) h
  exact ⟨hspent.off, (Nat.le_add_right _ _).trans hspent.budget⟩

theorem firings_of_deleted (hnone : s.schedules.get? id = none) (h : step getNext s e = some t) :
    firings id t = firings id s := by
  cases e with
  | request currentUser r => cases change_of_step h <;> rfl
  | scheduler e =>
    cases (tick_of_scheduler h).1 with
    | keeps runs => rw [firings, firings, runs]
    | checks _ runs => rw [firings, firings, runs]
    | advances _ _ _ runs => rw [firings, firings, runs]
    | fires _ due schedule run runs _ _ _ found occurrence =>
      apply firings_of_other runs occurrence
      rintro rfl
      rw [hnone] at found
      cases found

/-- A schedule that its user deletes has no more runs, whatever calls are made. -/
theorem deleted_fires_never (getNext : Cron → Nat → Option Nat) {s t : State W Id Cron Token}
    {events : List (Event W Id Cron Token)} {id : Id} (hgiven : id ∈ s.ids)
    (hdeleted : s.schedules.get? id = none) (h : run (step getNext) s events = some t) :
    t.schedules.get? id = none ∧ firings id t = firings id s := by
  have hstep : ∀ (a : State W Id Cron Token) e b,
      (id ∈ a.ids ∧ a.schedules.get? id = none ∧ firings id a = firings id s) →
      step getNext a e = some b →
      id ∈ b.ids ∧ b.schedules.get? id = none ∧ firings id b = firings id s := by
    rintro a e b ⟨hid, hnone, hsame⟩ hab
    refine ⟨ids_subset hab hid, ?_, (firings_of_deleted hnone hab).trans hsame⟩
    obtain heq | hnone' | ⟨_, _, -, hfresh, -⟩ := content_cases hab id
    · rwa [hnone, Option.map_none, Option.map_eq_none_iff] at heq
    · exact hnone'
    · exact absurd hid hfresh
  exact (invariant_reachable hstep ⟨hgiven, hdeleted, rfl⟩ h).2

section Examples

/-- A check finds a schedule due, its user pauses it, and the worker fires it; later checks do
not. -/
def pausedLate : List (Event Bool Nat Unit Nat) :=
  [.scheduler (.acts true (.commitsRun true)), .scheduler (.acts true (.dispatches .accepted)),
    .scheduler (.acts true (.advances true))] ++ (release true).map .scheduler ++
    [.scheduler (.passes 600), .scheduler (.acts false (.acquires 2 true)),
      .scheduler (.acts false (.queries true)), .scheduler (.acts false .leaves)]

def checked : List (Event Bool Nat Unit Nat) :=
  [.request alice (.createSchedule 7 nightly none), .scheduler (.passes 60),
    .scheduler (.acts true (.acquires 1 true)), .scheduler (.acts true (.queries true))]

def checkedState : State Bool Nat Unit Nat :=
  (run (step nextMinute) { schedules := ∅ } checked).getD { schedules := ∅ }

def pausedState : State Bool Nat Unit Nat :=
  (pauseSchedule checkedState alice 7).toOption.getD checkedState

theorem paused_fires_at_most_late : ∃ t, run (step nextMinute) pausedState pausedLate = some t ∧
    firings 7 pausedState = 0 ∧ firings 7 t = 1 ∧ Off 7 alice.id t ∧
      firings 7 t ≤ firings 7 pausedState + ({true} : Finset Bool).card := by
  have hchecked : run (step nextMinute) { schedules := ∅ } checked = some checkedState := rfl
  have hpause : pauseSchedule checkedState alice 7 = .ok pausedState := rfl
  have hholders : ∀ w, Holds 7 pausedState w → w ∈ ({true} : Finset Bool) := by
    intro w hw
    cases w with
    | false => cases hw
    | true => exact Finset.mem_singleton_self true
  have hlater : ∀ e ∈ pausedLate, ¬ SwitchesOn 7 alice.id e := by
    intro e he
    simp only [pausedLate, release, List.map_cons, List.map_nil, List.cons_append, List.nil_append,
      List.mem_cons, List.not_mem_nil, or_false] at he
    obtain rfl | rfl | rfl | rfl | rfl | rfl | rfl | rfl | rfl | rfl := he <;> exact id
  refine ⟨_, rfl, rfl, rfl, ?_⟩
  exact paused_fires_at_most nextMinute ⟨rfl, rfl, fun _ => rfl⟩ hchecked hpause hholders hlater rfl

end Examples

end PipelineIQ.Scheduling.Pausing
