import PipelineIQ.Lib.Machine
import PipelineIQ.Scheduling.Scheduler

namespace PipelineIQ.Scheduling.ExactlyOnce

open PipelineIQ.Lib PipelineIQ.Lib.Machine PipelineIQ.Models PipelineIQ.Scheduling.Scheduler

section Vocabulary

variable {W Id Cron Token : Type}

def occurrenceKey (r : PipelineRun Id) : Id × Nat := (r.scheduleId, r.occurrence)

/-- The schedule whose run a worker has committed without having set its next time. -/
def fired : Worker Id Token → Option (Fired Id)
  | .committed _ f | .dispatched _ f => some f
  | _ => none

def remaining : Worker Id Token → List (Id × Nat)
  | .looping tick | .committed tick _ | .dispatched tick _ => tick.dueSchedules
  | _ => []

/-- The occurrences that a worker has in its hands. -/
def pending (worker : Worker Id Token) : List (Id × Nat) :=
  ((fired worker).map fun f => (f.scheduleId, f.occurrence)).toList ++ remaining worker

def tickNow : Worker Id Token → Nat
  | .looping tick | .committed tick _ | .dispatched tick _ => tick.now
  | _ => 0

variable [DecidableEq W] [DecidableEq Id] [DecidableEq Token]

def nextRunAt (s : State W Id Cron Token) (id : Id) : Option Nat :=
  (s.schedules.get? id).bind PipelineSchedule.nextRunAt

/-- Every occurrence of a schedule has at most one run. -/
def AtMostOnce (s : State W Id Cron Token) : Prop := (s.runs.map occurrenceKey).Nodup

/-- A run that is committed as pending is in the queue, or its worker is about to send it. -/
def HandedOver (s : State W Id Cron Token) : Prop :=
  ∀ i r, s.runs[i]? = some r → r.status = .PENDING →
    i ∈ s.queue ∨ ∃ w tick f, s.workers w = .committed tick f ∧ f.runId = i

/-- No schedule is found due while another worker still has it in its hands, as after the
expiry of a lock; and between the commit of a run and the commit of its schedule's next time
nothing fails and no worker crashes. -/
def Careful (getNext : Cron → Nat → Option Nat) (s : State W Id Cron Token) : Event W Token → Prop
  | .passes _ => True
  | .acts w step => match s.workers w, step with
    | .locked _, .queries true => ∀ v, v ≠ w → ∀ p ∈ pending (s.workers v),
        ∀ q ∈ dueSchedules s, p.1 ≠ q.1
    | .committed _ _, .dispatches outcome => outcome = .accepted
    | .dispatched tick f, .advances ok => ok = true ∧ ∀ schedule,
        s.schedules.get? f.scheduleId = some schedule →
          (getNext schedule.cronExpression tick.now).isSome
    | .committed _ _, .crashes | .dispatched _ _, .crashes => False
    | _, _ => True

/-- Before the first tick nothing has run. -/
structure Initial (s : State W Id Cron Token) : Prop where
  runs : s.runs = []
  workers : ∀ w, s.workers w = .idle

/-- What the careful steps keep: a committed run is of a past occurrence of its schedule, or
of the one in some worker's hands. -/
structure Sound (s : State W Id Cron Token) : Prop where
  due : ∀ w, ∀ p ∈ pending (s.workers w), nextRunAt s p.1 = some p.2
  past : ∀ w, ∀ p ∈ pending (s.workers w), p.2 ≤ tickNow (s.workers w)
  distinct : ∀ w, ((pending (s.workers w)).map Prod.fst).Nodup
  disjoint : ∀ v w, v ≠ w → ∀ p ∈ pending (s.workers v), ∀ q ∈ pending (s.workers w), p.1 ≠ q.1
  recorded : ∀ w f, fired (s.workers w) = some f →
    (s.runs[f.runId]?).map occurrenceKey = some (f.scheduleId, f.occurrence)
  advanced : ∀ i r, s.runs[i]? = some r →
    (∃ t, nextRunAt s r.scheduleId = some t ∧ r.occurrence < t) ∨
      ∃ w f, fired (s.workers w) = some f ∧ f.runId = i
  once : AtMostOnce s
  handed : ∀ i, i < s.runs.length →
    i ∈ s.queue ∨ ∃ w tick f, s.workers w = .committed tick f ∧ f.runId = i
  sent : ∀ w tick f, s.workers w = .dispatched tick f → f.runId ∈ s.queue

end Vocabulary

variable {W Id Cron Token : Type} [DecidableEq W] [DecidableEq Id] [DecidableEq Token]
  {getNext : Cron → Nat → Option Nat} {s t : State W Id Cron Token} {w : W}
  {worker : Worker Id Token}

omit [DecidableEq W] [DecidableEq Token] in
theorem Initial.sound (h : Initial s) : Sound s := by
  have hp : ∀ w, pending (s.workers w) = [] := fun w => by rw [h.workers]; rfl
  have hf : ∀ w, fired (s.workers w) = none := fun w => by rw [h.workers]; rfl
  constructor
  · intro w p hm
    rw [hp] at hm
    cases hm
  · intro w p hm
    rw [hp] at hm
    cases hm
  · intro w
    rw [hp]
    exact List.nodup_nil
  · intro v w _ p hm
    rw [hp] at hm
    cases hm
  · intro w f hw
    rw [hf] at hw
    cases hw
  · intro i r hi
    rw [h.runs] at hi
    cases hi
  · rw [AtMostOnce, h.runs]
    exact List.nodup_nil
  · intro i hi
    rw [h.runs] at hi
    cases hi
  · intro w tick f hw
    rw [h.workers] at hw
    cases hw

omit [DecidableEq Token] in
/-- A worker without a committed run may take other occurrences into its hands, if they are due and
nobody else's. -/
theorem Sound.replace (h : Sound s) (hold : fired (s.workers w) = none)
    (hnew : fired worker = none) (hdue : ∀ p ∈ pending worker, nextRunAt s p.1 = some p.2)
    (hpast : ∀ p ∈ pending worker, p.2 ≤ tickNow worker)
    (hdistinct : ((pending worker).map Prod.fst).Nodup)
    (hdisjoint : ∀ v, v ≠ w → ∀ p ∈ pending (s.workers v), ∀ q ∈ pending worker, p.1 ≠ q.1) :
    Sound (setWorker s w worker) := by
  have hfired : ∀ v, fired ((Scheduler.setWorker s w worker).workers v) = fired (s.workers v) := by
    intro v
    by_cases hv : v = w
    · subst hv
      rw [setWorker_self, hold, hnew]
    · rw [setWorker_other s worker hv]
  constructor
  · intro v p hp
    by_cases hv : v = w
    · subst hv
      rw [setWorker_self] at hp
      exact hdue p hp
    · rw [setWorker_other s worker hv] at hp
      exact h.due v p hp
  · intro v p hp
    by_cases hv : v = w
    · subst hv
      rw [setWorker_self] at hp ⊢
      exact hpast p hp
    · rw [setWorker_other s worker hv] at hp ⊢
      exact h.past v p hp
  · intro v
    by_cases hv : v = w
    · subst hv
      rw [setWorker_self]
      exact hdistinct
    · rw [setWorker_other s worker hv]
      exact h.distinct v
  · intro u v huv p hp q hq
    by_cases hu : u = w
    · subst hu
      rw [setWorker_self] at hp
      rw [setWorker_other s worker huv.symm] at hq
      exact (hdisjoint v huv.symm q hq p hp).symm
    · rw [setWorker_other s worker hu] at hp
      by_cases hv : v = w
      · subst hv
        rw [setWorker_self] at hq
        exact hdisjoint u hu p hp q hq
      · rw [setWorker_other s worker hv] at hq
        exact h.disjoint u v huv p hp q hq
  · intro v f hf
    rw [hfired] at hf
    exact h.recorded v f hf
  · intro i r hi
    apply (h.advanced i r hi).imp_right
    rintro ⟨v, f, hf, hid⟩
    exact ⟨v, f, by rw [hfired]; exact hf, hid⟩
  · exact h.once
  · intro i hi
    apply (h.handed i hi).imp_right
    rintro ⟨v, tick, f, hv, hid⟩
    refine ⟨v, tick, f, ?_, hid⟩
    rw [setWorker_other s worker, hv]
    rintro rfl
    rw [hv] at hold
    cases hold
  · intro v tick f hv
    by_cases he : v = w
    · subst he
      rw [setWorker_self] at hv
      rw [hv] at hnew
      cases hnew
    · rw [setWorker_other s worker he] at hv
      exact h.sent v tick f hv

omit [DecidableEq Token] in
/-- A worker that has committed nothing may lay down what it has in its hands. -/
theorem Sound.setWorker (h : Sound s) (hold : fired (s.workers w) = none)
    (hnew : fired worker = none) (hsub : (remaining worker).Sublist (remaining (s.workers w)))
    (hnow : remaining worker ≠ [] → tickNow worker = tickNow (s.workers w)) :
    Sound (setWorker s w worker) := by
  have hpold : pending (s.workers w) = remaining (s.workers w) := by rw [pending, hold]; rfl
  have hpnew : pending worker = remaining worker := by rw [pending, hnew]; rfl
  have hheld : ∀ p ∈ pending worker, p ∈ pending (s.workers w) := by
    intro p hp
    rw [hpnew] at hp
    rw [hpold]
    exact hsub.subset hp
  apply h.replace hold hnew
  · exact fun p hp => h.due w p (hheld p hp)
  · intro p hp
    have hne : remaining worker ≠ [] := List.ne_nil_of_mem (hpnew ▸ hp)
    rw [hnow hne]
    exact h.past w p (hheld p hp)
  · have hd := h.distinct w
    rw [hpold] at hd
    rw [hpnew]
    exact (hsub.map Prod.fst).nodup hd
  · exact fun v hv p hp q hq => h.disjoint v w hv p hp q (hheld q hq)

omit [DecidableEq W] [DecidableEq Token] in
theorem mem_dueSchedules {p : Id × Nat} (h : p ∈ dueSchedules s) :
    nextRunAt s p.1 = some p.2 ∧ p.2 ≤ s.now := by
  have hm := (List.perm_insertionSort ..).mem_iff.mp (List.mem_of_mem_take h)
  obtain ⟨⟨id, schedule⟩, he, hd⟩ := List.mem_filterMap.mp hm
  obtain ⟨t, ht, rfl⟩ := Option.map_eq_some_iff.mp hd
  obtain ⟨hnext, hactive⟩ := Option.filter_eq_some_iff.mp ht
  have hget := (Dict.get?_eq_some_iff s.schedules id schedule).mpr he
  rw [Bool.and_eq_true, decide_eq_true_eq] at hactive
  exact ⟨by rw [nextRunAt, hget]; exact hnext, hactive.2⟩

omit [DecidableEq W] [DecidableEq Id] [DecidableEq Token] in
theorem dueSchedules_nodup : ((dueSchedules s).map Prod.fst).Nodup := by
  have hsub : ((s.schedules.entries.filterMap fun e =>
      (dueTime s.now e.2).map fun t => (e.1, t)).map Prod.fst).Sublist
        (s.schedules.entries.map Prod.fst) := by
    induction s.schedules.entries with
    | nil => exact .slnil
    | cons e rest ih =>
      rw [List.filterMap_cons]
      cases dueTime s.now e.2 with
      | none => exact ih.cons _
      | some t => exact ih.cons_cons _
  have hperm := (List.perm_insertionSort (fun a b : Id × Nat => a.2 ≤ b.2)
    (s.schedules.entries.filterMap fun e =>
      (dueTime s.now e.2).map fun t => (e.1, t))).map Prod.fst
  exact ((List.take_sublist ..).map Prod.fst).nodup
    (hperm.nodup_iff.mpr (hsub.nodup s.schedules.nodup))

omit [DecidableEq Token] in
/-- A worker takes up the due schedules that no other worker holds. -/
theorem Sound.takeUp (h : Sound s) (hw : fired (s.workers w) = none) {lockToken : Token}
    (hfree : ∀ v, v ≠ w → ∀ p ∈ pending (s.workers v), ∀ q ∈ dueSchedules s, p.1 ≠ q.1)
    (hworker : worker = .looping { lockToken, now := s.now, dueSchedules := dueSchedules s }) :
    Sound (Scheduler.setWorker s w worker) := by
  have hpending : pending worker = dueSchedules s := by rw [hworker]; rfl
  apply h.replace hw
  · rw [hworker]
    rfl
  · intro p hp
    rw [hpending] at hp
    exact (mem_dueSchedules hp).1
  · intro p hp
    rw [hpending] at hp
    rw [hworker]
    exact (mem_dueSchedules hp).2
  · rw [hpending]
    exact dueSchedules_nodup
  · rw [hpending]
    exact hfree

omit [DecidableEq W] [DecidableEq Token] in
/-- An occurrence in a worker's hands whose run is not committed has no run. -/
theorem Sound.fresh (h : Sound s) {p : Id × Nat} (hp : p ∈ pending (s.workers w))
    (hnone : fired (s.workers w) = none) : p ∉ s.runs.map occurrenceKey := by
  intro hm
  obtain ⟨r, hr, rfl⟩ := List.mem_map.mp hm
  obtain ⟨i, hi, rfl⟩ := List.getElem_of_mem hr
  have hget := List.getElem?_eq_getElem hi
  rcases h.advanced i _ hget with ⟨t, ht, hlt⟩ | ⟨v, f, hf, rfl⟩
  · have hdue := h.due w _ hp
    rw [occurrenceKey, ht, Option.some.injEq] at hdue
    omega
  · have hvw : v ≠ w := by
      rintro rfl
      rw [hnone] at hf
      cases hf
    have hrec := h.recorded v f hf
    rw [hget, Option.map_some, Option.some.injEq] at hrec
    have hv : (f.scheduleId, f.occurrence) ∈ pending (s.workers v) := by
      rw [pending, hf]
      exact List.mem_cons_self
    rw [hrec] at hp
    exact h.disjoint v w hvw _ hv _ hp rfl

omit [DecidableEq Token] in
/-- The first commit: the run of an occurrence that had none. -/
theorem Sound.commit (h : Sound s) {tick : Tick Id Token} {due : Id × Nat} {rest : List (Id × Nat)}
    (hw : s.workers w = .looping tick) (hdue : tick.dueSchedules = due :: rest)
    {run : PipelineRun Id} {scheduleRuns : List (ScheduleRun Id)} {scheduleRunId : Nat}
    (hrun : occurrenceKey run = due)
    (hworker : worker = .committed { tick with dueSchedules := rest }
      ⟨due.1, due.2, s.runs.length, scheduleRunId⟩) :
    Sound (Scheduler.setWorker
      { s with runs := s.runs ++ [run], scheduleRuns := scheduleRuns } w worker) := by
  have hold : fired (s.workers w) = none := by rw [hw]; rfl
  have hfiredw : fired worker = some ⟨due.1, due.2, s.runs.length, scheduleRunId⟩ := by
    rw [hworker]
    rfl
  have hpendingw : pending worker = pending (s.workers w) := by
    rw [hworker, hw]
    simp only [pending, fired, remaining, hdue]
    rfl
  have hself : (Scheduler.setWorker { s with runs := s.runs ++ [run], scheduleRuns := scheduleRuns }
      w worker).workers w = worker := setWorker_self ..
  have hother : ∀ v, v ≠ w → (Scheduler.setWorker
      { s with runs := s.runs ++ [run], scheduleRuns := scheduleRuns } w worker).workers v =
        s.workers v := fun v hv => setWorker_other _ _ hv
  have hpending : ∀ v, pending ((Scheduler.setWorker
      { s with runs := s.runs ++ [run], scheduleRuns := scheduleRuns } w worker).workers v) =
        pending (s.workers v) := by
    intro v
    by_cases hv : v = w
    · rw [hv, hself, hpendingw]
    · rw [hother v hv]
  have hnow : ∀ v, tickNow ((Scheduler.setWorker
      { s with runs := s.runs ++ [run], scheduleRuns := scheduleRuns } w worker).workers v) =
        tickNow (s.workers v) := by
    intro v
    by_cases hv : v = w
    · rw [hv, hself, hworker, hw]
      rfl
    · rw [hother v hv]
  have hmem : due ∈ pending (s.workers w) := by
    rw [pending, hold, hw, remaining, hdue]
    exact List.mem_cons_self
  constructor
  · intro v p hp
    rw [hpending] at hp
    exact h.due v p hp
  · intro v p hp
    rw [hpending] at hp
    rw [hnow]
    exact h.past v p hp
  · intro v
    rw [hpending]
    exact h.distinct v
  · intro u v huv
    rw [hpending, hpending]
    exact h.disjoint u v huv
  · intro v f hf
    by_cases hv : v = w
    · rw [hv, hself, hfiredw, Option.some.injEq] at hf
      subst hf
      change ((s.runs ++ [run])[s.runs.length]?).map occurrenceKey = some due
      rw [List.getElem?_concat_length, Option.map_some, hrun]
    · rw [hother v hv] at hf
      have hrec := h.recorded v f hf
      have hlt : f.runId < s.runs.length := by
        by_contra hge
        rw [List.getElem?_eq_none (by omega)] at hrec
        cases hrec
      change ((s.runs ++ [run])[f.runId]?).map occurrenceKey = _
      rw [List.getElem?_append_left hlt]
      exact hrec
  · intro i r hi
    change (s.runs ++ [run])[i]? = some r at hi
    by_cases hlt : i < s.runs.length
    · rw [List.getElem?_append_left hlt] at hi
      apply (h.advanced i r hi).imp_right
      rintro ⟨v, f, hf, hid⟩
      refine ⟨v, f, ?_, hid⟩
      rw [hother, hf]
      rintro rfl
      rw [hold] at hf
      cases hf
    · have hi' : i = s.runs.length := by
        by_contra hne
        rw [List.getElem?_eq_none (by rw [List.length_append, List.length_singleton]; omega)] at hi
        cases hi
      exact .inr ⟨w, _, by rw [hself]; exact hfiredw, hi'.symm⟩
  · change ((s.runs ++ [run]).map occurrenceKey).Nodup
    rw [List.map_append, List.map_singleton, hrun, List.nodup_append]
    refine ⟨h.once, List.nodup_singleton due, ?_⟩
    rintro a ha b hb rfl
    rw [List.mem_singleton] at hb
    subst hb
    exact h.fresh hmem hold ha
  · intro i hi
    change i < (s.runs ++ [run]).length at hi
    rw [List.length_append, List.length_singleton] at hi
    by_cases hlt : i < s.runs.length
    · apply (h.handed i hlt).imp_right
      rintro ⟨v, tick, f, hv, hid⟩
      refine ⟨v, tick, f, ?_, hid⟩
      rw [hother, hv]
      rintro rfl
      rw [hv] at hold
      cases hold
    · exact .inr ⟨w, _, _, by rw [hself, hworker], by change s.runs.length = i; omega⟩
  · intro v tick f hv
    by_cases he : v = w
    · rw [he, hself, hworker] at hv
      cases hv
    · rw [hother v he] at hv
      exact h.sent v tick f hv

omit [DecidableEq Token] in
/-- The run that is sent is in the queue from then on. -/
theorem Sound.send (h : Sound s) {tick : Tick Id Token} {f : Fired Id}
    (hw : s.workers w = .committed tick f) :
    Sound (Scheduler.setWorker { s with queue := s.queue ++ [f.runId] } w (.dispatched tick f)) := by
  have hself : (Scheduler.setWorker { s with queue := s.queue ++ [f.runId] } w
      (.dispatched tick f)).workers w = .dispatched tick f := setWorker_self ..
  have hother : ∀ v, v ≠ w → (Scheduler.setWorker { s with queue := s.queue ++ [f.runId] } w
      (.dispatched tick f)).workers v = s.workers v := fun v hv => setWorker_other _ _ hv
  have hsame : ∀ v, pending ((Scheduler.setWorker { s with queue := s.queue ++ [f.runId] } w
      (.dispatched tick f)).workers v) = pending (s.workers v) ∧
        tickNow ((Scheduler.setWorker { s with queue := s.queue ++ [f.runId] } w
          (.dispatched tick f)).workers v) = tickNow (s.workers v) ∧
        fired ((Scheduler.setWorker { s with queue := s.queue ++ [f.runId] } w
          (.dispatched tick f)).workers v) = fired (s.workers v) := by
    intro v
    by_cases hv : v = w
    · rw [hv, hself, hw]
      exact ⟨rfl, rfl, rfl⟩
    · rw [hother v hv]
      exact ⟨rfl, rfl, rfl⟩
  constructor
  · intro v p hp
    rw [(hsame v).1] at hp
    exact h.due v p hp
  · intro v p hp
    rw [(hsame v).1] at hp
    rw [(hsame v).2.1]
    exact h.past v p hp
  · intro v
    rw [(hsame v).1]
    exact h.distinct v
  · intro u v huv
    rw [(hsame u).1, (hsame v).1]
    exact h.disjoint u v huv
  · intro v g hg
    rw [(hsame v).2.2] at hg
    exact h.recorded v g hg
  · intro i r hi
    apply (h.advanced i r hi).imp_right
    rintro ⟨v, g, hg, hid⟩
    exact ⟨v, g, by rw [(hsame v).2.2]; exact hg, hid⟩
  · exact h.once
  · intro i hi
    rcases h.handed i hi with hq | ⟨v, tick', g, hv, hid⟩
    · exact .inl (List.mem_append_left _ hq)
    · by_cases he : v = w
      · rw [he, hw] at hv
        cases hv
        exact .inl (hid ▸ List.mem_append_right _ List.mem_cons_self)
      · exact .inr ⟨v, tick', g, by rw [hother v he, hv], hid⟩
  · intro v tick' g hv
    by_cases he : v = w
    · rw [he, hself] at hv
      cases hv
      exact List.mem_append_right _ List.mem_cons_self
    · rw [hother v he] at hv
      exact List.mem_append_left _ (h.sent v tick' g hv)

omit [DecidableEq Token] in
/-- The second commit: the schedule moves on to a time after the tick. -/
theorem Sound.advance (h : Sound s) {tick : Tick Id Token} {f : Fired Id}
    (hw : s.workers w = .dispatched tick f) {schedule : PipelineSchedule Cron} {next : Nat}
    (hnext : schedule.nextRunAt = some next) (hlt : tick.now < next)
    {scheduleRuns : List (ScheduleRun Id)}
    (hworker : worker = .looping { tick with triggered := tick.triggered + 1 }) :
    Sound (Scheduler.setWorker { s with
      schedules := s.schedules.set f.scheduleId schedule, scheduleRuns := scheduleRuns } w worker) := by
  have hfired : fired (s.workers w) = some f := by rw [hw]; rfl
  have hpendingw : pending (s.workers w) = (f.scheduleId, f.occurrence) :: pending worker := by
    rw [hworker, hw]
    rfl
  have hheld : (f.scheduleId, f.occurrence) ∈ pending (s.workers w) := by
    rw [hpendingw]
    exact List.mem_cons_self
  have hself : (Scheduler.setWorker { s with
      schedules := s.schedules.set f.scheduleId schedule, scheduleRuns := scheduleRuns }
        w worker).workers w = worker := setWorker_self ..
  have hother : ∀ v, v ≠ w → (Scheduler.setWorker { s with
      schedules := s.schedules.set f.scheduleId schedule, scheduleRuns := scheduleRuns }
        w worker).workers v = s.workers v := fun v hv => setWorker_other _ _ hv
  have htime : ∀ id, nextRunAt (Scheduler.setWorker { s with
      schedules := s.schedules.set f.scheduleId schedule, scheduleRuns := scheduleRuns } w worker) id =
        if id = f.scheduleId then some next else nextRunAt s id := by
    intro id
    change ((s.schedules.set f.scheduleId schedule).get? id).bind _ = _
    rw [Dict.get?_set]
    split
    · exact hnext
    · rfl
  -- the schedule that moves on is in nobody's hands any more
  have hkept : ∀ v, ∀ p ∈ pending ((Scheduler.setWorker { s with
      schedules := s.schedules.set f.scheduleId schedule, scheduleRuns := scheduleRuns }
        w worker).workers v), p ∈ pending (s.workers v) ∧ p.1 ≠ f.scheduleId := by
    intro v p hp
    by_cases hv : v = w
    · rw [hv, hself] at hp
      rw [hv, hpendingw]
      refine ⟨List.mem_cons_of_mem _ hp, ?_⟩
      have hd := h.distinct w
      rw [hpendingw, List.map_cons, List.nodup_cons] at hd
      intro he
      exact hd.1 (List.mem_map.mpr ⟨p, hp, he⟩)
    · rw [hother v hv] at hp
      exact ⟨hp, h.disjoint v w hv p hp _ hheld⟩
  constructor
  · intro v p hp
    obtain ⟨hp, hne⟩ := hkept v p hp
    rw [htime, if_neg hne]
    exact h.due v p hp
  · intro v p hp
    have hle := h.past v p (hkept v p hp).1
    by_cases hv : v = w
    · rw [hv, hw] at hle
      rw [hv, hself, hworker]
      exact hle
    · rwa [hother v hv]
  · intro v
    by_cases hv : v = w
    · rw [hv, hself]
      have hd := h.distinct w
      rw [hpendingw, List.map_cons, List.nodup_cons] at hd
      exact hd.2
    · rw [hother v hv]
      exact h.distinct v
  · exact fun u v huv p hp q hq => h.disjoint u v huv p (hkept u p hp).1 q (hkept v q hq).1
  · intro v g hg
    by_cases hv : v = w
    · rw [hv, hself, hworker] at hg
      cases hg
    · rw [hother v hv] at hg
      exact h.recorded v g hg
  · intro i r hi
    rw [htime]
    rcases h.advanced i r hi with ⟨old, hold, hle⟩ | ⟨v, g, hg, hid⟩
    · by_cases hid : r.scheduleId = f.scheduleId
      · rw [if_pos hid]
        have hdue := h.due w _ hheld
        rw [← hid, hold, Option.some.injEq] at hdue
        have hpast := h.past w _ hheld
        rw [hw] at hpast
        exact .inl ⟨next, rfl, by change f.occurrence ≤ tick.now at hpast; change old = f.occurrence at hdue; omega⟩
      · rw [if_neg hid]
        exact .inl ⟨old, hold, hle⟩
    · by_cases hv : v = w
      · rw [hv, hfired, Option.some.injEq] at hg
        subst hg
        have hrec := h.recorded w f hfired
        change s.runs[i]? = some r at hi
        rw [hid, hi, Option.map_some, Option.some.injEq, occurrenceKey, Prod.mk.injEq] at hrec
        rw [if_pos hrec.1]
        have hpast := h.past w _ hheld
        rw [hw] at hpast
        exact .inl ⟨next, rfl, by change f.occurrence ≤ tick.now at hpast; omega⟩
      · exact .inr ⟨v, g, by rw [hother v hv]; exact hg, hid⟩
  · exact h.once
  · intro i hi
    rcases h.handed i hi with hq | ⟨v, tick', g, hv, hid⟩
    · exact .inl hq
    · refine .inr ⟨v, tick', g, ?_, hid⟩
      rw [hother, hv]
      rintro rfl
      rw [hv] at hw
      cases hw
  · intro v tick' g hv
    by_cases he : v = w
    · rw [he, hself, hworker] at hv
      cases hv
    · rw [hother v he] at hv
      exact h.sent v tick' g hv

omit [DecidableEq Token] in
/-- A worker without a committed run that stops holding anything. -/
theorem Sound.drop (h : Sound s) (hold : fired (s.workers w) = none) (hnew : fired worker = none)
    (hempty : remaining worker = []) : Sound (Scheduler.setWorker s w worker) :=
  h.setWorker hold hnew (by rw [hempty]; exact List.nil_sublist _) fun hne => absurd hempty hne

omit [DecidableEq Token] in
/-- A worker that goes on to the next due schedule. -/
theorem Sound.skip (h : Sound s) {tick : Tick Id Token} {due : Id × Nat} {rest : List (Id × Nat)}
    (hw : s.workers w = .looping tick) (hdue : tick.dueSchedules = due :: rest) :
    Sound (Scheduler.setWorker s w (.looping { tick with dueSchedules := rest })) := by
  apply h.setWorker
  · rw [hw]
    rfl
  · rfl
  · rw [hw, remaining, remaining, hdue]
    exact List.sublist_cons_self due rest
  · intro _
    rw [hw]
    rfl

/-- One careful step. -/
theorem sound_step (hnext : ∀ cron now t, getNext cron now = some t → now < t)
    (s : State W Id Cron Token) (e : Event W Token) (t : State W Id Cron Token) (h : Sound s)
    (hc : Careful getNext s e) (hstep : step getNext s e = some t) : Sound t := by
  cases e with
  | passes seconds =>
    cases hstep
    exact ⟨h.due, h.past, h.distinct, h.disjoint, h.recorded, h.advanced, h.once, h.handed, h.sent⟩
  | acts w e =>
    change act getNext s w e = some t at hstep
    unfold act at hstep
    split at hstep
    · next lockToken answered hw =>
      cases hstep
      unfold acquire
      split
      · have hl : Sound (Scheduler.setWorker s w (.locked lockToken)) :=
          h.drop (by rw [hw]; rfl) rfl rfl
        exact ⟨hl.due, hl.past, hl.distinct, hl.disjoint, hl.recorded, hl.advanced, hl.once,
          hl.handed, hl.sent⟩
      · exact h
    · next lockToken ok hw =>
      cases hstep
      have hf : fired (s.workers w) = none := by rw [hw]; rfl
      cases ok with
      | false => exact h.drop hf rfl rfl
      | true =>
        simp only [Careful, hw] at hc
        exact h.takeUp hf hc rfl
    · next tick ok hw =>
      split at hstep
      · next due rest hdue =>
        cases hstep
        unfold commitRun
        split
        · exact h.commit hw hdue rfl rfl
        · exact h.skip hw hdue
      · cases hstep
    · next tick f outcome hw =>
      cases hstep
      simp only [Careful, hw] at hc
      subst hc
      exact h.send hw
    · next tick f ok hw =>
      cases hstep
      simp only [Careful, hw] at hc
      obtain ⟨rfl, hcron⟩ := hc
      have hdue := h.due w (f.scheduleId, f.occurrence) (by rw [hw]; exact List.mem_cons_self)
      obtain ⟨schedule, hget, -⟩ := Option.bind_eq_some_iff.mp hdue
      obtain ⟨next, hn⟩ := Option.isSome_iff_exists.mp (hcron schedule hget)
      unfold advance
      rw [hget]
      dsimp only
      rw [hn]
      exact h.advance hw rfl (hnext _ _ _ hn) rfl
    · next tick hw =>
      split at hstep
      · cases hstep
        exact h.drop (by rw [hw]; rfl) rfl rfl
      · cases hstep
    · next lockToken hw =>
      cases hstep
      apply h.drop
      · rw [hw]
        rfl
      · split <;> rfl
      · split <;> rfl
    · next hw =>
      cases hstep
      have hl : Sound (Scheduler.setWorker s w .idle) := h.drop (by rw [hw]; rfl) rfl rfl
      exact ⟨hl.due, hl.past, hl.distinct, hl.disjoint, hl.recorded, hl.advanced, hl.once,
        hl.handed, hl.sent⟩
    · cases hstep
    · cases hstep
      apply h.drop
      · cases hw : s.workers w with
        | committed tick f =>
          simp only [Careful, hw] at hc
        | dispatched tick f =>
          simp only [Careful, hw] at hc
        | _ => rfl
      · rfl
      · rfl
    · cases hstep

/-- A run of the scheduler's workers in which no schedule is found due while another worker
still has it in its hands, and nothing fails between the commit of a run and the commit of the
next time of its schedule: every occurrence has at most one run, and every pending run has been
handed to the queue or is about to be. -/
theorem scheduler_exactly_once (getNext : Cron → Nat → Option Nat)
    (hnext : ∀ cron now t, getNext cron now = some t → now < t) (s t : State W Id Cron Token)
    (events : List (Event W Token)) (hs : Initial s)
    (hc : Along (step getNext) (Careful getNext) s events)
    (h : run (step getNext) s events = some t) : AtMostOnce t ∧ HandedOver t := by
  have hsound : Sound t := invariant_run (fun s e t => sound_step hnext s e t) hs.sound hc h
  refine ⟨hsound.once, fun i r hi _ => hsound.handed i ?_⟩
  by_contra hge
  rw [List.getElem?_eq_none (by omega)] at hi
  cases hi

section Examples

/-- A schedule of a job every minute, due from the start. -/
def everyMinute : PipelineSchedule Unit :=
  { userId := "u", pipelineName := "p", yamlConfig := "name: p", cronExpression := ()
    isActive := true, nextRunAt := some 0 }

def nextMinute (_ : Unit) (now : Nat) : Option Nat := some (now + 60)

def oneSchedule : State Bool Nat Unit Nat := { schedules := Dict.ofList [(7, everyMinute)] }

def tickOf (w : Bool) (lockToken : Nat) (outcome : Dispatch) : List (Event Bool Nat) :=
  [.acts w (.acquires lockToken true), .acts w (.queries true), .acts w (.commitsRun true),
    .acts w (.dispatches outcome)]

def release (w : Bool) : List (Event Bool Nat) :=
  [.acts w .leaves, .acts w .readsLock, .acts w .deletesLock]

/-- The broker refuses the task, and the next tick finds the schedule due as before. -/
def refused : List (Event Bool Nat) :=
  tickOf true 1 (.raised false) ++ release true ++ [.passes 60] ++ tickOf true 2 .accepted

/-- The lock of a slow worker expires, and a second worker takes up the same schedule. -/
def expired : List (Event Bool Nat) :=
  [.acts true (.acquires 1 true), .acts true (.queries true), .passes 55] ++
    tickOf false 2 .accepted ++ [.acts true (.commitsRun true)]

/-- After a refused task a pending run is never sent and its occurrence has a second run; after
the expiry of the lock an occurrence has two runs as well. -/
theorem failed_dispatch_repeats :
    (∃ t, run (step nextMinute) oneSchedule refused = some t ∧ ¬ AtMostOnce t ∧ ¬ HandedOver t) ∧
      ∃ t, run (step nextMinute) oneSchedule expired = some t ∧ ¬ AtMostOnce t := by
  refine ⟨⟨_, rfl, ?_, ?_⟩, ⟨_, rfl, ?_⟩⟩
  · unfold AtMostOnce
    decide
  · intro h
    rcases h 0 _ rfl rfl with hq | ⟨w, tick, f, hw, hid⟩
    · revert hq
      decide
    · cases w <;> cases hw
  · unfold AtMostOnce
    decide

def smooth : List (Event Bool Nat) :=
  tickOf true 1 .accepted ++ [.acts true (.advances true)] ++ release true ++ [.passes 60] ++
    tickOf false 2 .accepted

theorem scheduler_exactly_once_smooth : ∃ t, run (step nextMinute) oneSchedule smooth = some t ∧
    t.runs.length = 2 ∧ AtMostOnce t ∧ HandedOver t := by
  refine ⟨_, rfl, rfl, ?_⟩
  refine scheduler_exactly_once nextMinute ?_ oneSchedule _ smooth ⟨rfl, fun _ => rfl⟩ ?_ rfl
  · intro cron now t h
    cases h
    omega
  · have hfree : ∀ (s : State Bool Nat Unit Nat) (w : Bool), s.workers (!w) = .idle →
        ∀ v, v ≠ w → ∀ p ∈ pending (s.workers v), ∀ q ∈ dueSchedules s, p.1 ≠ q.1 := by
      intro s w hw v hv p hp
      rw [Bool.eq_not.mpr hv, hw] at hp
      cases hp
    refine along_cons trivial rfl <| along_cons (hfree _ true rfl) rfl <| along_cons trivial rfl <|
      along_cons rfl rfl <| along_cons ⟨rfl, fun _ _ => rfl⟩ rfl <| along_cons trivial rfl <|
      along_cons trivial rfl <| along_cons trivial rfl <| along_cons trivial rfl <|
      along_cons trivial rfl <| along_cons (hfree _ false rfl) rfl <| along_cons trivial rfl <|
      along_cons rfl rfl trivial

end Examples

end PipelineIQ.Scheduling.ExactlyOnce
