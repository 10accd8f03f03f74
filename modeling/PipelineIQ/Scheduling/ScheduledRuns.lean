import PipelineIQ.Api.Schedules
import PipelineIQ.Lib.Traverse
import PipelineIQ.Scheduling.ExactlyOnce

namespace PipelineIQ.Scheduling.ScheduledRuns

open PipelineIQ.Lib PipelineIQ.Lib.Machine PipelineIQ.Models PipelineIQ.Api.Schedules
open PipelineIQ.Scheduling.ExactlyOnce
open PipelineIQ.Scheduling.Scheduler hiding State Event step

section Vocabulary

variable {W Id Cron Token : Type} [DecidableEq Id]

/-- What a schedule keeps from the call that made it. -/
def content (schedule : PipelineSchedule Cron) : String × String × String :=
  (schedule.userId, schedule.pipelineName, schedule.yamlConfig)

/-- The call for a new schedule that leads to this content. -/
def requested (currentUser : User) (body : CreateScheduleRequest Cron) : String × String × String :=
  (currentUser.id, body.pipelineName, body.yamlConfig)

/-- A schedule that is switched on and whose time has come. -/
def Due (s : State W Id Cron Token) (id : Id) (occurrence : Nat) : Prop :=
  ∃ schedule, s.schedules.get? id = some schedule ∧ schedule.isActive = true ∧
    schedule.nextRunAt = some occurrence ∧ occurrence ≤ s.now

/-- In a list of events, a run goes back to a call of its user for a schedule with its name and its
text, and then to a check that found this schedule switched on and due. -/
def Authorised [DecidableEq W] [DecidableEq Token] (getNext : Cron → Nat → Option Nat)
    (start : State W Id Cron Token) (events : List (Event W Id Cron Token)) (r : PipelineRun Id) :
    Prop :=
  ∃ earlier currentUser body between w later u,
    events = earlier ++ .request currentUser (.createSchedule r.scheduleId body none) ::
      between ++ .scheduler (.acts w (.queries true)) :: later ∧
    (r.userId, r.name, r.yamlConfig) = requested currentUser body ∧
    run (step getNext) start (earlier ++
      .request currentUser (.createSchedule r.scheduleId body none) :: between) = some u ∧
    Due u r.scheduleId r.occurrence

/-- No schedule and no run, and no worker at work. -/
structure Empty (s : State W Id Cron Token) : Prop where
  schedules : s.schedules = ∅
  runs : s.runs = []
  workers : ∀ w, s.workers w = .idle

end Vocabulary

/-! ### What a step does -/

section Steps

variable {W Id Cron Token : Type} [DecidableEq W] [DecidableEq Id] [DecidableEq Token]

/-- A step of the scheduler: what it does to the runs, the schedules and the occurrences that the
workers have still to fire. -/
inductive Tick (s t : Scheduler.State W Id Cron Token) : Scheduler.Event W Token → Prop where
  | keeps {e} (runs : t.runs = s.runs) (schedules : t.schedules = s.schedules)
      (held : ∀ v, (remaining (t.workers v)).Sublist (remaining (s.workers v))) : Tick s t e
  | checks (w : W) (runs : t.runs = s.runs) (schedules : t.schedules = s.schedules)
      (found : remaining (t.workers w) = dueSchedules s)
      (held : ∀ v, v ≠ w → remaining (t.workers v) = remaining (s.workers v)) :
      Tick s t (.acts w (.queries true))
  | fires (w : W) (due : Id × Nat) (schedule : PipelineSchedule Cron) (run : PipelineRun Id)
      (runs : t.runs = s.runs ++ [run]) (schedules : t.schedules = s.schedules)
      (before : remaining (s.workers w) = due :: remaining (t.workers w))
      (held : ∀ v, v ≠ w → remaining (t.workers v) = remaining (s.workers v))
      (found : s.schedules.get? due.1 = some schedule) (occurrence : occurrenceKey run = due)
      (carries : (run.userId, run.name, run.yamlConfig) = content schedule) :
      Tick s t (.acts w (.commitsRun true))
  | advances {e} (id : Id) (old new : PipelineSchedule Cron) (runs : t.runs = s.runs)
      (schedules : t.schedules = s.schedules.set id new)
      (held : ∀ v, (remaining (t.workers v)).Sublist (remaining (s.workers v)))
      (found : s.schedules.get? id = some old) (carries : content new = content old)
      (active : new.isActive = old.isActive) : Tick s t e

variable {getNext : Cron → Nat → Option Nat}

omit [DecidableEq Id] [DecidableEq Token] in
theorem remaining_setWorker {s : Scheduler.State W Id Cron Token} {w : W}
    {worker : Worker Id Token} (h : (remaining worker).Sublist (remaining (s.workers w))) (v : W) :
    (remaining ((setWorker s w worker).workers v)).Sublist (remaining (s.workers v)) := by
  by_cases hv : v = w
  · rw [hv, setWorker_self]
    exact h
  · rw [setWorker_other _ _ hv]

theorem tick_of_step {s t : Scheduler.State W Id Cron Token} {e : Scheduler.Event W Token}
    (h : Scheduler.step getNext s e = some t) : Tick s t e := by
  cases e with
  | passes seconds =>
    cases h
    exact .keeps rfl rfl fun v => .refl _
  | acts w e =>
    change Scheduler.act getNext s w e = some t at h
    rw [Scheduler.act.eq_def] at h
    split at h
    · next lockToken answered hw =>
      cases h
      rw [acquire]
      split
      · exact .keeps rfl rfl (remaining_setWorker (List.nil_sublist _))
      · exact .keeps rfl rfl fun v => .refl _
    · next lockToken ok hw =>
      cases h
      cases ok with
      | false => exact .keeps rfl rfl (remaining_setWorker (List.nil_sublist _))
      | true =>
        refine .checks w rfl rfl ?_ fun v hv => ?_
        · rw [setWorker_self]
          rfl
        · rw [setWorker_other _ _ hv]
    · next tick ok hw =>
      split at h
      · next due rest hdue =>
        cases h
        have hrest : remaining (s.workers w) = due :: rest := by
          rw [hw]
          exact hdue
        have hskip : (remaining (Worker.looping { tick with dueSchedules := rest })).Sublist
            (remaining (s.workers w)) := by
          rw [hrest]
          exact List.sublist_cons_self due rest
        rw [commitRun.eq_def]
        split
        · next _ _ schedule hget =>
          refine .fires w due schedule _ rfl rfl ?_ (fun v hv => ?_) hget rfl rfl
          · rw [setWorker_self]
            exact hrest
          · rw [setWorker_other _ _ hv]
        · exact .keeps rfl rfl (remaining_setWorker hskip)
      · cases h
    · next tick f outcome hw =>
      cases h
      have hkeep : (remaining (.dispatched tick f)).Sublist (remaining (s.workers w)) := by
        rw [hw]
        exact .refl _
      have hskip : (remaining (.looping tick)).Sublist (remaining (s.workers w)) := by
        rw [hw]
        exact .refl _
      cases outcome with
      | accepted => exact .keeps rfl rfl (remaining_setWorker hkeep)
      | raised delivered => exact .keeps rfl rfl (remaining_setWorker hskip)
    · next tick f ok hw =>
      cases h
      have hskip : ∀ triggered, (remaining (.looping { tick with triggered })).Sublist
          (remaining (s.workers w)) := by
        intro triggered
        rw [hw]
        exact .refl _
      rw [advance.eq_def]
      split
      · next schedule hget =>
        split
        · exact .advances f.scheduleId schedule _ rfl rfl (remaining_setWorker (hskip _)) hget rfl rfl
        · exact .keeps rfl rfl (remaining_setWorker (hskip tick.triggered))
      · exact .keeps rfl rfl (remaining_setWorker (hskip tick.triggered))
    · split at h
      · cases h
        exact .keeps rfl rfl (remaining_setWorker (List.nil_sublist _))
      · cases h
    · cases h
      refine .keeps rfl rfl (remaining_setWorker ?_)
      split <;> exact List.nil_sublist _
    · cases h
      exact .keeps rfl rfl (remaining_setWorker (List.nil_sublist _))
    · cases h
    · cases h
      exact .keeps rfl rfl (remaining_setWorker (List.nil_sublist _))
    · cases h

/-- What a call can do to the schedules. -/
inductive Change (getNext : Cron → Nat → Option Nat) (s : State W Id Cron Token)
    (currentUser : User) : Request Id Cron → State W Id Cron Token → Prop where
  | refuses (r : Request Id Cron) : Change getNext s currentUser r s
  | creates (id : Id) (body : CreateScheduleRequest Cron) (schedule : PipelineSchedule Cron)
      (fresh : id ∉ s.ids) (carries : content schedule = requested currentUser body) :
      Change getNext s currentUser (.createSchedule id body none)
        { put s id schedule with ids := id :: s.ids }
  | pauses (r : Request Id Cron) (id : Id) (schedule : PipelineSchedule Cron)
      (found : s.schedules.get? id = some schedule) (owner : schedule.userId = currentUser.id) :
      Change getNext s currentUser r
        (put s id { schedule with isActive := false, nextRunAt := none })
  | resumes (r : Request Id Cron) (id : Id) (schedule : PipelineSchedule Cron) (nextRun : Nat)
      (found : s.schedules.get? id = some schedule) (owner : schedule.userId = currentUser.id)
      (named : r = .resumeSchedule id ∨ r = .toggleSchedule id) : Change getNext s currentUser r
        (put s id { schedule with isActive := true, nextRunAt := some nextRun })
  | deletes (id : Id) (schedule : PipelineSchedule Cron)
      (found : s.schedules.get? id = some schedule) (owner : schedule.userId = currentUser.id) :
      Change getNext s currentUser (.deleteSchedule id)
        { s with schedules := s.schedules.erase id }

omit [DecidableEq W] [DecidableEq Token] in
theorem getScheduleOr404_ok {s : State W Id Cron Token} {currentUser : User} {id : Id}
    {schedule : PipelineSchedule Cron} (h : getScheduleOr404 s currentUser id = .ok schedule) :
    s.schedules.get? id = some schedule ∧ schedule.userId = currentUser.id := by
  rw [getScheduleOr404] at h
  cases hget : s.schedules.get? id with
  | none =>
    rw [hget] at h
    cases h
  | some found =>
    rw [hget] at h
    dsimp only at h
    by_cases howner : found.userId = currentUser.id
    · rw [if_pos howner] at h
      cases h
      exact ⟨rfl, howner⟩
    · rw [if_neg howner] at h
      cases h

theorem change_of_step {s t : State W Id Cron Token} {currentUser : User} {r : Request Id Cron}
    (h : step getNext s (.request currentUser r) = some t) : Change getNext s currentUser r t := by
  rw [step] at h
  by_cases henabled : enabled s r = true
  swap
  · rw [if_neg henabled] at h
    cases h
  rw [if_pos henabled, Option.some.injEq] at h
  cases hanswer : answer getNext s currentUser r with
  | error e =>
    rw [hanswer] at h
    cases h
    exact .refuses r
  | ok t' =>
    rw [hanswer] at h
    cases h
    cases r with
    | createSchedule id body rejection =>
      obtain ⟨nextRun, -, hrest⟩ := Traverse.bind_ok hanswer
      cases rejection with
      | some e => cases hrest
      | none =>
        cases hrest
        exact .creates id body _ (of_decide_eq_true henabled) rfl
    | pauseSchedule id =>
      obtain ⟨schedule, hget, hrest⟩ := Traverse.bind_ok hanswer
      obtain ⟨hfound, howner⟩ := getScheduleOr404_ok hget
      cases hactive : schedule.isActive with
      | false =>
        rw [hactive] at hrest
        cases hrest
      | true =>
        rw [hactive] at hrest
        cases hrest
        exact .pauses _ id schedule hfound howner
    | resumeSchedule id =>
      obtain ⟨schedule, hget, hrest⟩ := Traverse.bind_ok hanswer
      obtain ⟨hfound, howner⟩ := getScheduleOr404_ok hget
      cases hactive : schedule.isActive with
      | true =>
        rw [hactive] at hrest
        cases hrest
      | false =>
        rw [hactive] at hrest
        obtain ⟨nextRun, -, hrest⟩ := Traverse.bind_ok hrest
        cases hrest
        exact .resumes _ id schedule nextRun hfound howner (.inl rfl)
    | toggleSchedule id =>
      obtain ⟨schedule, hget, hrest⟩ := Traverse.bind_ok hanswer
      obtain ⟨hfound, howner⟩ := getScheduleOr404_ok hget
      cases hactive : schedule.isActive with
      | true =>
        rw [hactive] at hrest
        cases hrest
        exact .pauses _ id schedule hfound howner
      | false =>
        rw [hactive] at hrest
        obtain ⟨nextRun, -, hrest⟩ := Traverse.bind_ok hrest
        cases hrest
        exact .resumes _ id schedule nextRun hfound howner (.inr rfl)
    | deleteSchedule id =>
      obtain ⟨schedule, hget, hrest⟩ := Traverse.bind_ok hanswer
      obtain ⟨hfound, howner⟩ := getScheduleOr404_ok hget
      cases hrest
      exact .deletes id schedule hfound howner

theorem tick_of_scheduler {s t : State W Id Cron Token} {e : Scheduler.Event W Token}
    (h : step getNext s (.scheduler e) = some t) :
    Tick s.toState t.toState e ∧ t.ids = s.ids := by
  rw [step, Option.map_eq_some_iff] at h
  obtain ⟨u, hu, rfl⟩ := h
  exact ⟨tick_of_step hu, rfl⟩

end Steps

/-! ### Where a run comes from -/

section Origin

variable {W Id Cron Token : Type} [DecidableEq W] [DecidableEq Id] [DecidableEq Token]
  {getNext : Cron → Nat → Option Nat} {s t : State W Id Cron Token}
  {e : Event W Id Cron Token}

omit [DecidableEq W] [DecidableEq Token] in
theorem due_of_mem {p : Id × Nat} (h : p ∈ dueSchedules s.toState) : Due s p.1 p.2 := by
  have hm := (List.perm_insertionSort ..).mem_iff.mp (List.mem_of_mem_take h)
  obtain ⟨⟨id, schedule⟩, he, hd⟩ := List.mem_filterMap.mp hm
  obtain ⟨occurrence, ht, rfl⟩ := Option.map_eq_some_iff.mp hd
  obtain ⟨hnext, hactive⟩ := Option.filter_eq_some_iff.mp ht
  rw [Bool.and_eq_true, decide_eq_true_eq] at hactive
  exact ⟨schedule, (Dict.get?_eq_some_iff s.schedules id schedule).mpr he, hactive.1, hnext,
    hactive.2⟩

/-- A step that puts an occurrence into a worker's hands is a check that found it due. -/
theorem due_of_held {w : W} {p : Id × Nat} (h : step getNext s e = some t)
    (hnew : p ∈ remaining (t.workers w)) (hold : p ∉ remaining (s.workers w)) :
    e = .scheduler (.acts w (.queries true)) ∧ Due s p.1 p.2 := by
  cases e with
  | scheduler e =>
    cases (tick_of_scheduler h).1 with
    | keeps _ _ held => exact absurd ((held w).subset hnew) hold
    | checks v _ _ found held =>
      by_cases hv : w = v
      · subst hv
        rw [found] at hnew
        exact ⟨rfl, due_of_mem hnew⟩
      · rw [held w hv] at hnew
        exact absurd hnew hold
    | fires v due schedule run _ _ before held =>
      by_cases hv : w = v
      · subst hv
        rw [before] at hold
        exact absurd (List.mem_cons_of_mem _ hnew) hold
      · rw [held w hv] at hnew
        exact absurd hnew hold
    | advances _ _ _ _ _ held => exact absurd ((held w).subset hnew) hold
  | request currentUser r =>
    cases change_of_step h <;> exact absurd hnew hold

/-- A step that makes a run commits the occurrence that the worker had next, with what the
schedule holds. -/
theorem held_of_run {r : PipelineRun Id} (h : step getNext s e = some t) (hnew : r ∈ t.runs)
    (hold : r ∉ s.runs) : ∃ w schedule, occurrenceKey r ∈ remaining (s.workers w) ∧
      s.schedules.get? r.scheduleId = some schedule ∧
      (r.userId, r.name, r.yamlConfig) = content schedule := by
  cases e with
  | scheduler e =>
    cases (tick_of_scheduler h).1 with
    | keeps runs => exact absurd (runs ▸ hnew) hold
    | checks w runs => exact absurd (runs ▸ hnew) hold
    | fires w due schedule run runs _ before _ found occurrence carries =>
      rw [runs, List.mem_append, List.mem_singleton] at hnew
      obtain hmem | rfl := hnew
      · exact absurd hmem hold
      · subst occurrence
        refine ⟨w, schedule, ?_, found, carries⟩
        rw [before]
        exact List.mem_cons_self
    | advances id old new runs => exact absurd (runs ▸ hnew) hold
  | request currentUser r' =>
    cases change_of_step h <;> exact absurd hnew hold

omit [DecidableEq W] [DecidableEq Token] in
theorem content_set {id other : Id} {old new : PipelineSchedule Cron}
    (found : s.schedules.get? other = some old) (carries : content new = content old) :
    ((s.schedules.set other new).get? id).map content = (s.schedules.get? id).map content := by
  rw [Dict.get?_set]
  split
  · next heq =>
    subst heq
    rw [found, Option.map_some, Option.map_some, carries]
  · rfl

/-- A step keeps what a schedule holds, unless it deletes the schedule or is the call that makes
it. -/
theorem content_cases (h : step getNext s e = some t) (id : Id) :
    (t.schedules.get? id).map content = (s.schedules.get? id).map content ∨
      t.schedules.get? id = none ∨
      ∃ currentUser body, e = .request currentUser (.createSchedule id body none) ∧ id ∉ s.ids ∧
        id ∈ t.ids ∧ (t.schedules.get? id).map content = some (requested currentUser body) := by
  cases e with
  | scheduler e =>
    apply Or.inl
    cases (tick_of_scheduler h).1 with
    | keeps _ schedules => rw [schedules]
    | checks _ _ schedules => rw [schedules]
    | fires _ _ _ _ _ schedules => rw [schedules]
    | advances other old new _ schedules _ found carries =>
      rw [schedules]
      exact content_set found carries
  | request currentUser r =>
    cases change_of_step h with
    | refuses => exact .inl rfl
    | creates other body schedule fresh carries =>
      by_cases hid : id = other
      · subst hid
        refine .inr (.inr ⟨currentUser, body, rfl, fresh, List.mem_cons_self, ?_⟩)
        rw [put, Dict.get?_set, if_pos rfl, Option.map_some, carries]
      · apply Or.inl
        rw [put, Dict.get?_set, if_neg hid]
    | pauses _ other schedule found => exact .inl (content_set found rfl)
    | resumes _ other schedule _ found => exact .inl (content_set found rfl)
    | deletes other schedule found =>
      dsimp only
      rw [Dict.get?_erase]
      by_cases hid : id = other
      · rw [if_pos hid]
        exact .inr (.inl rfl)
      · rw [if_neg hid]
        exact .inl rfl

theorem ids_subset (h : step getNext s e = some t) : s.ids ⊆ t.ids := by
  cases e with
  | scheduler e =>
    rw [(tick_of_scheduler h).2]
    exact List.Subset.refl _
  | request currentUser r =>
    cases change_of_step h with
    | creates => exact List.subset_cons_self _ _
    | _ => exact List.Subset.refl _

/-- Every schedule has an id that was given. -/
def Known (s : State W Id Cron Token) : Prop :=
  ∀ id, s.schedules.get? id ≠ none → id ∈ s.ids

/-- An id that was given, whose schedule, where there still is one, holds this. -/
def Given (id : Id) (what : String × String × String) (s : State W Id Cron Token) : Prop :=
  id ∈ s.ids ∧ ∀ schedule, s.schedules.get? id = some schedule → content schedule = what

theorem known_step (s : State W Id Cron Token) (e : Event W Id Cron Token)
    (t : State W Id Cron Token) (hs : Known s) (h : step getNext s e = some t) : Known t := by
  intro id hsome
  obtain heq | hnone | ⟨_, _, -, -, hmem, -⟩ := content_cases h id
  · apply ids_subset h
    apply hs id
    intro hnone
    rw [hnone, Option.map_none, Option.map_eq_none_iff] at heq
    exact hsome heq
  · exact absurd hnone hsome
  · exact hmem

theorem given_step {id : Id} {what : String × String × String} (s : State W Id Cron Token)
    (e : Event W Id Cron Token) (t : State W Id Cron Token) (hs : Given id what s)
    (h : step getNext s e = some t) : Given id what t := by
  refine ⟨ids_subset h hs.1, fun schedule hget => ?_⟩
  obtain heq | hnone | ⟨_, _, -, hfresh, -⟩ := content_cases h id
  · rw [hget, Option.map_some] at heq
    obtain ⟨old, hold, hsame⟩ := Option.map_eq_some_iff.mp heq.symm
    exact hsame.symm.trans (hs.2 old hold)
  · rw [hget] at hnone
    cases hnone
  · exact absurd hs.1 hfresh

/-- A step after which an id has this content for the first time is the call for it. -/
theorem created_of_content {id : Id} {what : String × String × String}
    (h : step getNext s e = some t) (hnew : (t.schedules.get? id).map content = some what)
    (hold : (s.schedules.get? id).map content ≠ some what) : ∃ currentUser body,
      e = .request currentUser (.createSchedule id body none) ∧
        requested currentUser body = what := by
  obtain heq | hnone | ⟨currentUser, body, he, -, -, hcontent⟩ := content_cases h id
  · exact absurd (heq.symm.trans hnew) hold
  · rw [hnone] at hnew
    cases hnew
  · exact ⟨currentUser, body, he, Option.some.inj (hcontent.symm.trans hnew)⟩

/-- No run of the scheduler is made without a call of its user for it, and none of a schedule that
was not found switched on and due. -/
theorem run_authorised (getNext : Cron → Nat → Option Nat) {start t : State W Id Cron Token}
    {events : List (Event W Id Cron Token)} (hs : Empty start)
    (h : run (step getNext) start events = some t) {r : PipelineRun Id} (hr : r ∈ t.runs) :
    Authorised getNext start events r := by
  have hnone : r ∉ start.runs := by
    rw [hs.runs]
    exact List.not_mem_nil
  -- back from the commit of the run to the check, and from there to the call
  obtain ⟨upTo, e, later, a, b, rfl, ha, hold, hfire, hnew⟩ :=
    exists_turn (P := fun s => r ∈ s.runs) hnone hr h
  obtain ⟨w, schedule, hheld, hget, hcontent⟩ := held_of_run hfire hnew hold
  have hidle : occurrenceKey r ∉ remaining (start.workers w) := by
    rw [hs.workers]
    exact List.not_mem_nil
  obtain ⟨before, e', after, u, v, rfl, hu, hfree, hcheck, htaken⟩ :=
    exists_turn (P := fun s => occurrenceKey r ∈ remaining (s.workers w)) hidle hheld ha
  obtain ⟨rfl, hchecked⟩ := due_of_held hcheck htaken hfree
  have hdue : Due u r.scheduleId r.occurrence := hchecked
  obtain ⟨found, hfound, -⟩ := id hdue
  have hempty : (start.schedules.get? r.scheduleId).map content ≠ some (content found) := by
    rw [hs.schedules]
    rintro ⟨⟩
  have hcontent' : (u.schedules.get? r.scheduleId).map content = some (content found) :=
    congrArg (Option.map content) hfound
  obtain ⟨earlier, e'', between, c, d, rfl, -, hbefore, hcall, hafter⟩ :=
    exists_turn (P := fun s => (s.schedules.get? r.scheduleId).map content = some (content found))
      hempty hcontent' hu
  obtain ⟨currentUser, body, rfl, hbody⟩ := created_of_content hcall hafter hbefore
  -- the id is not given again, so the commit reads what the call has put there
  have hknown : Known u := by
    apply invariant_reachable known_step _ hu
    intro id hsome
    rw [hs.schedules] at hsome
    exact absurd rfl hsome
  have hgiven : Given r.scheduleId (content found) u := by
    refine ⟨hknown r.scheduleId ?_, fun schedule hschedule => ?_⟩
    · rw [hfound]
      exact Option.some_ne_none found
    · rw [hfound, Option.some.injEq] at hschedule
      rw [hschedule]
  obtain ⟨u', hu', hrest⟩ := run_append_iff.mp ha
  rw [hu, Option.some.injEq] at hu'
  subst hu'
  have hend := (invariant_reachable given_step hgiven hrest).2 schedule hget
  refine ⟨earlier, currentUser, body, between, w, after ++ e :: later, u, ?_, ?_, hu, hdue⟩
  · rw [List.append_assoc]
    rfl
  · rw [hcontent, hend, hbody]

end Origin

section Examples

def alice : User := ⟨"alice", "user"⟩

def nightly : CreateScheduleRequest Unit :=
  { pipelineName := "sales", yamlConfig := "pipeline: \x7b\x7d", cronExpression := () }

/-- A new schedule, paused and resumed before the check that fires it. -/
def resumedThenFired : List (Event Bool Nat Unit Nat) :=
  [.request alice (.createSchedule 7 nightly none), .request alice (.pauseSchedule 7),
    .request alice (.resumeSchedule 7), .scheduler (.passes 60)] ++
    (tickOf true 1 .accepted).map .scheduler

theorem run_authorised_resumed : ∃ t,
    run (step nextMinute) { schedules := ∅ } resumedThenFired = some t ∧ t.runs.length = 1 ∧
      ∀ r ∈ t.runs, Authorised nextMinute { schedules := ∅ } resumedThenFired r := by
  refine ⟨_, rfl, rfl, fun r hr => ?_⟩
  exact run_authorised nextMinute ⟨rfl, rfl, fun _ => rfl⟩ rfl hr

end Examples

end PipelineIQ.Scheduling.ScheduledRuns
