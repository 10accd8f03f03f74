import PipelineIQ.Lifecycle.Absorbing

namespace PipelineIQ.Lifecycle.Redelivery

open PipelineIQ.Models PipelineIQ.Lib.Machine PipelineIQ.Lib.Interleave
open PipelineIQ.Lifecycle.Actors PipelineIQ.Lifecycle.Absorbing

variable {Error Violation : Type} {healing : Healing Error}

/-- An event of one of the actors of a run. -/
abbrev Event (Error Violation : Type) := Nat × ActorStep Error Violation

/-- The task of a run was delivered any number of times, and there may be requests to cancel it. -/
def Delivered (s : System Error Violation) : Prop :=
  ∀ id, s.actors id = .worker .queued ∨ s.actors id = .request (.received .cancel)

/-- In some state of the run, a delivery is in the execution of the pipeline. -/
def Executes (healing : Healing Error) (s : System Error Violation)
    (events : List (Event Error Violation)) (delivery : Nat) : Prop :=
  ∃ earlier later t loaded, events = earlier ++ later ∧ run (step (act healing)) s earlier = some t ∧
    t.actors delivery = .worker (.executing loaded)

/-- Whether a list of events has no delivery mark the run as running. -/
def NoneMarks (events : List (Event Error Violation)) : Prop :=
  ∀ delivery, (delivery, .worker .marksRunning) ∉ events

structure AtMostOnce (healing : Healing Error) (s : System Error Violation)
    (events : List (Event Error Violation)) : Prop where
  once : ∀ delivery other, Executes healing s events delivery → Executes healing s events other →
    delivery = other
  cancelled : ∀ earlier request later, events = earlier ++ (request, .request .commits) :: later →
    NoneMarks earlier → ∀ delivery, ¬ Executes healing s events delivery

/-- Between the check of a delivery and the commit that marks the run as running, no other delivery
marks it and no cancellation is committed. -/
def Undisturbed (events : List (Event Error Violation)) : Prop :=
  ∀ earlier delivery between later, events = earlier ++ (delivery, .worker .starts) ::
      (between ++ (delivery, .worker .marksRunning) :: later) →
    (∀ other ≠ delivery, (other, .worker .marksRunning) ∉ between) ∧
      ∀ request, (request, .request .commits) ∉ between

/-! ### Steps -/

def Begun : Worker Error Violation → Prop
  | .queued | .accepted => False
  | _ => True

def Executing : Worker Error Violation → Prop
  | .executing _ => True
  | _ => False

section Steps

variable {s t u : System Error Violation} {e : Event Error Violation} {delivery : Nat}
  {events earlier later : List (Event Error Violation)}

/-- A request to cancel the run, or one that is answered. -/
def Cancels (r : Request) : Prop := r = .received .cancel ∨ r = .checked .cancel ∨ r = .answered

/-- The actors of a delivered run. -/
def Kinds (s : System Error Violation) : Prop :=
  ∀ id, (∃ w, s.actors id = .worker w) ∨ ∃ r, s.actors id = .request r ∧ Cancels r

theorem Delivered.kinds (h : Delivered s) : Kinds s := by
  intro id
  rcases h id with h | h
  · exact .inl ⟨_, h⟩
  · exact .inr ⟨_, h, .inl rfl⟩

theorem flush_ne {loaded : Option PipelineStatus} {assigned stored : PipelineStatus}
    (ha : assigned ≠ .PENDING) (hs : stored ≠ .PENDING) :
    flush loaded assigned stored ≠ .PENDING := by
  unfold flush
  split
  · exact hs
  · exact ha

/-- No step of a worker makes a run pending. -/
theorem Worker.act_ne {w w' : Worker Error Violation} {stored stored' : PipelineStatus}
    {e : WorkerStep Error Violation} (h : w.act healing stored e = some (w', stored'))
    (hs : stored ≠ .PENDING) : stored' ≠ .PENDING := by
  by_cases he : WritesStatus e
  · cases e with
    | marksRunning =>
      cases w with
      | accepted =>
        cases h
        exact flush_ne (by decide) hs
      | _ => cases h
    | runReturns summary =>
      cases w with
      | executing loaded =>
        simp only [Worker.act] at h
        split at h
        · cases h
          exact hs
        · split at h
          · cases h
            exact flush_ne (by decide) hs
          · cases h
            exact hs
      | retrying loaded =>
        simp only [Worker.act] at h
        split at h
        · cases h
          exact flush_ne (by decide) hs
        · cases h
          exact hs
      | _ => cases h
    | persists appliedAttempts verdict =>
      cases w with
      | persisting loaded summary =>
        simp only [Worker.act] at h
        split at h
        next =>
          cases h
          exact hs
        next assigned hassigned =>
          cases h
          refine flush_ne ?_ hs
          rintro rfl
          by_cases hc : loaded = .CANCELLED
          · rw [persistResults, if_pos hc] at hassigned
            cases hassigned
          · exact (persistResults_eq_some_iff hc).mp hassigned
      | _ => cases h
    | marksFailed =>
      cases w with
      | failing loaded =>
        cases loaded with
        | none => cases h
        | some loaded =>
          cases h
          exact flush_ne (by decide) hs
      | _ => cases h
    | _ => exact he.elim
  · rw [Worker.keeps_of_not_writes he _ _ h]
    exact hs

/-- A delivery checks the status, then marks the run, and does neither again. -/
theorem Worker.act_cases {w w' : Worker Error Violation} {stored stored' : PipelineStatus}
    {e : WorkerStep Error Violation} (h : w.act healing stored e = some (w', stored')) :
    (w = .queued ∧ e = .starts ∧ w' = .accepted ∧ stored = .PENDING) ∨
      (w = .accepted ∧ e = .marksRunning ∧ w' = .executing none ∧ stored' = .RUNNING) ∨
      (Begun w' ∧ (Executing w' → Executing w) ∧ e ≠ .marksRunning) := by
  cases e with
  | starts =>
    cases w with
    | queued =>
      simp only [Worker.act] at h
      split at h
      next hpending =>
        cases h
        exact .inl ⟨rfl, rfl, rfl, hpending⟩
      next =>
        cases h
        exact .inr (.inr ⟨trivial, False.elim, by rintro ⟨⟩⟩)
    | _ => cases h
  | marksRunning =>
    cases w with
    | accepted =>
      cases h
      exact .inr (.inl ⟨rfl, rfl, rfl, rfl⟩)
    | _ => cases h
  | accesses | commitsOther =>
    cases w with
    | executing | healing | retrying | executed | failing =>
      cases h
      exact .inr (.inr ⟨trivial, id, by rintro ⟨⟩⟩)
    | _ => cases h
  | runReturns summary =>
    cases w with
    | executing loaded | retrying loaded =>
      simp only [Worker.act] at h
      split_ifs at h <;>
      · cases h
        exact .inr (.inr ⟨trivial, False.elim, by rintro ⟨⟩⟩)
    | _ => cases h
  | healReturns success =>
    cases w with
    | healing loaded summary =>
      cases success <;>
      · cases h
        exact .inr (.inr ⟨trivial, False.elim, by rintro ⟨⟩⟩)
    | _ => cases h
  | persists appliedAttempts verdict =>
    cases w with
    | persisting loaded summary =>
      simp only [Worker.act] at h
      split at h <;>
      · cases h
        exact .inr (.inr ⟨trivial, False.elim, by rintro ⟨⟩⟩)
    | _ => cases h
  | marksFailed =>
    cases w with
    | failing loaded =>
      cases loaded with
      | none => cases h
      | some loaded =>
        cases h
        exact .inr (.inr ⟨trivial, False.elim, by rintro ⟨⟩⟩)
    | _ => cases h
  | refreshes | raises | rollsBack | returns | killed =>
    cases w <;> cases h <;> exact .inr (.inr ⟨trivial, False.elim, by rintro ⟨⟩⟩)

theorem act_eq_worker {a : Actor Error Violation} {w' : Worker Error Violation}
    {stored stored' : PipelineStatus} {e : ActorStep Error Violation}
    (h : act healing a stored e = some (.worker w', stored')) :
    ∃ w step, a = .worker w ∧ e = .worker step ∧ w.act healing stored step = some (w', stored') := by
  cases a with
  | worker w =>
    cases e with
    | worker step =>
      obtain ⟨⟨w'', stored''⟩, hact, heq⟩ := Option.map_eq_some_iff.mp h
      cases heq
      exact ⟨w, step, rfl, rfl, hact⟩
    | _ => cases h
  | request r =>
    cases e with
    | request step =>
      obtain ⟨_, -, heq⟩ := Option.map_eq_some_iff.mp h
      cases heq
    | _ => cases h
  | reconciler r =>
    cases e with
    | reconciler step =>
      obtain ⟨_, -, heq⟩ := Option.map_eq_some_iff.mp h
      cases heq
    | _ => cases h
  | daemon d =>
    cases e with
    | daemon step =>
      obtain ⟨_, -, heq⟩ := Option.map_eq_some_iff.mp h
      cases heq
    | _ => cases h
  | submission r => cases r <;> cases e <;> cases h

/-- A delivery is what it was before a step, or has taken the step itself. -/
theorem worker_of_step {w' : Worker Error Violation} (h : step (act healing) s e = some t)
    (hw : t.actors delivery = .worker w') :
    ∃ w, s.actors delivery = .worker w ∧ (w = w' ∨ ∃ step, e = (delivery, .worker step) ∧
      w.act healing s.value step = some (w', t.value)) := by
  obtain ⟨a, stored, hact, rfl⟩ := step_eq_some_iff.mp h
  dsimp only at hw
  by_cases hd : delivery = e.1
  · subst hd
    rw [Function.update_self] at hw
    subst hw
    obtain ⟨w, step, hw, he, hact⟩ := act_eq_worker hact
    exact ⟨w, hw, .inr ⟨step, by rw [← he], hact⟩⟩
  · rw [Function.update_of_ne hd] at hw
    exact ⟨w', hw, .inl rfl⟩

theorem marksRunning_step
    (h : step (act healing) s (delivery, .worker .marksRunning) = some t) :
    s.actors delivery = .worker .accepted ∧ t.value = .RUNNING ∧
      t.actors delivery = .worker (.executing none) := by
  obtain ⟨a, stored, hact, rfl⟩ := step_eq_some_iff.mp h
  dsimp only at hact ⊢
  rw [Function.update_self]
  cases hw : s.actors delivery with
  | worker w =>
    rw [hw] at hact
    cases w with
    | accepted =>
      cases hact
      exact ⟨rfl, rfl, rfl⟩
    | _ => cases hact
  | submission r =>
    rw [hw] at hact
    cases r <;> cases hact
  | _ =>
    rw [hw] at hact
    cases hact

theorem Cancels.act {r r' : Request} {stored stored' : PipelineStatus} {e : RequestStep}
    (hr : Cancels r) (h : r.act stored e = some (r', stored')) :
    Cancels r' ∧ (stored' = stored ∨ stored' = .CANCELLED) ∧
      (e = .commits → stored' = .CANCELLED) := by
  cases e with
  | reads =>
    rcases hr with rfl | rfl | rfl
    · simp only [Request.act] at h
      split at h
      · cases h
        exact ⟨.inr (.inl rfl), .inl rfl, by rintro ⟨⟩⟩
      · cases h
        exact ⟨.inr (.inr rfl), .inl rfl, by rintro ⟨⟩⟩
    · cases h
    · cases h
  | commits =>
    rcases hr with rfl | rfl | rfl
    · cases h
    · cases h
      exact ⟨.inr (.inr rfl), .inr rfl, fun _ => rfl⟩
    · cases h
  | aborts =>
    cases h
    exact ⟨.inr (.inr rfl), .inl rfl, by rintro ⟨⟩⟩

theorem Kinds.of_step (hs : Kinds s) (h : step (act healing) s e = some t) :
    Kinds t ∧ (s.value ≠ .PENDING → t.value ≠ .PENDING) := by
  obtain ⟨a, stored, hact, rfl⟩ := step_eq_some_iff.mp h
  have hkinds : ((∃ w, a = .worker w) ∨ ∃ r, a = .request r ∧ Cancels r) →
      Kinds { value := stored, actors := Function.update s.actors e.1 a } := by
    intro ha id
    dsimp only
    by_cases hid : id = e.1
    · rw [hid, Function.update_self]
      exact ha
    · rw [Function.update_of_ne hid]
      exact hs id
  rcases hs e.1 with ⟨w, hw⟩ | ⟨r, hr, hcancels⟩
  · rw [hw] at hact
    cases he : e.2 with
    | worker step =>
      rw [he] at hact
      obtain ⟨⟨w', stored'⟩, hw', heq⟩ := Option.map_eq_some_iff.mp hact
      cases heq
      exact ⟨hkinds (.inl ⟨w', rfl⟩), Worker.act_ne hw'⟩
    | _ =>
      rw [he] at hact
      cases hact
  · rw [hr] at hact
    cases he : e.2 with
    | request step =>
      rw [he] at hact
      obtain ⟨⟨r', stored'⟩, hr', heq⟩ := Option.map_eq_some_iff.mp hact
      cases heq
      obtain ⟨hcancels', hstored, -⟩ := hcancels.act hr'
      refine ⟨hkinds (.inr ⟨r', rfl, hcancels'⟩), ?_⟩
      intro hne
      rcases hstored with hstored | hstored
      · rwa [← hstored] at hne
      · exact fun hpending => by cases hstored.symm.trans hpending
    | _ =>
      rw [he] at hact
      cases hact

/-- The requests of a delivered run commit a cancellation. -/
theorem Kinds.commits_step {request : Nat} (hs : Kinds s)
    (h : step (act healing) s (request, .request .commits) = some t) : t.value = .CANCELLED := by
  obtain ⟨a, stored, hact, rfl⟩ := step_eq_some_iff.mp h
  rcases hs request with ⟨w, hw⟩ | ⟨r, hr, hcancels⟩
  · rw [hw] at hact
    cases hact
  · rw [hr] at hact
    obtain ⟨⟨r', stored'⟩, hr', heq⟩ := Option.map_eq_some_iff.mp hact
    cases heq
    exact (hcancels.act hr').2.2 rfl

end Steps

/-! ### Runs -/

section Runs

variable {s t u : System Error Violation} {delivery other request : Nat}
  {events earlier later : List (Event Error Violation)}

theorem kinds_of_run (hs : Kinds s) (h : run (step (act healing)) s events = some t) : Kinds t :=
  invariant_reachable (fun _ _ _ hs h => (hs.of_step h).1) hs h

/-- A run that is not pending is never pending again. -/
theorem Kinds.run_ne (hs : Kinds s) (hne : s.value ≠ .PENDING)
    (h : run (step (act healing)) s events = some t) : t.value ≠ .PENDING := by
  have hstep : ∀ (s : System Error Violation) e t, Kinds s ∧ s.value ≠ .PENDING →
      step (act healing) s e = some t → Kinds t ∧ t.value ≠ .PENDING := by
    rintro s e t ⟨hs, hne⟩ h
    exact ⟨(hs.of_step h).1, (hs.of_step h).2 hne⟩
  exact (invariant_reachable hstep ⟨hs, hne⟩ h).2

/-- While a run is pending, no delivery has marked it and no cancellation was committed. -/
theorem Kinds.unwritten_of_pending (hs : Kinds s)
    (h : run (step (act healing)) s events = some t) (ht : t.value = .PENDING) :
    (∀ delivery, (delivery, .worker .marksRunning) ∉ events) ∧
      ∀ request, (request, .request .commits) ∉ events := by
  have hwrite : ∀ e ∈ events, ∃ u v, Kinds u ∧ step (act healing) u e = some v ∧
      v.value = .PENDING := by
    intro e he
    obtain ⟨earlier, later, rfl⟩ := List.append_of_mem he
    obtain ⟨u, hu, hlater⟩ := run_append_iff.mp h
    obtain ⟨v, hv, hlater⟩ := run_cons_iff.mp hlater
    refine ⟨u, v, kinds_of_run hs hu, hv, ?_⟩
    by_contra hne
    exact ((kinds_of_run hs hu).of_step hv).1.run_ne hne hlater ht
  constructor
  · intro delivery he
    obtain ⟨u, v, -, hv, hpending⟩ := hwrite _ he
    rw [(marksRunning_step hv).2.1] at hpending
    cases hpending
  · intro request he
    obtain ⟨u, v, hu, hv, hpending⟩ := hwrite _ he
    rw [hu.commits_step hv] at hpending
    cases hpending

/-- A delivery is there from the start. -/
theorem Delivered.queued (hs : Delivered s) (h : run (step (act healing)) s events = some t)
    {w : Worker Error Violation} (ht : t.actors delivery = .worker w) :
    s.actors delivery = .worker .queued := by
  rcases hs delivery with hd | hd
  · exact hd
  · exfalso
    have hnot : ¬ ∃ w, s.actors delivery = .worker w := by
      rintro ⟨w, hw⟩
      rw [hd] at hw
      cases hw
    obtain ⟨_, e, _, u, v, -, -, hnot, hv, w, hw⟩ :=
      exists_turn (P := fun u : System Error Violation => ∃ w, u.actors delivery = .worker w) hnot ⟨w, ht⟩ h
    obtain ⟨w', hw', -⟩ := worker_of_step hv hw
    exact hnot ⟨w', hw'⟩

/-- A delivery that marks the run has found it pending before. -/
theorem Delivered.checked (hs : Delivered s) (h : run (step (act healing)) s earlier = some t)
    (hv : step (act healing) t (delivery, .worker .marksRunning) = some u) :
    ∃ before between v, earlier = before ++ (delivery, .worker .starts) :: between ∧
      run (step (act healing)) s before = some v ∧ v.value = .PENDING := by
  have haccepted := (marksRunning_step hv).1
  have hnot : ¬ s.actors delivery = .worker .accepted := by
    rw [hs.queued h haccepted]
    rintro ⟨⟩
  obtain ⟨before, e, between, v, w, hsplit, hbefore, hnot, hstep, haccepted⟩ :=
    exists_turn (P := fun u : System Error Violation => u.actors delivery = .worker .accepted) hnot haccepted h
  obtain ⟨w', hw', rfl | ⟨step, rfl, hact⟩⟩ := worker_of_step hstep haccepted
  · exact absurd hw' hnot
  · rcases Worker.act_cases hact with ⟨-, rfl, -, hpending⟩ | ⟨-, -, h, -⟩ | ⟨h, -, -⟩
    · exact ⟨before, between, v, hsplit, hbefore, hpending⟩
    · cases h
    · exact h.elim

/-- The deliveries that execute the pipeline are those that mark the run. -/
theorem Delivered.executes_iff (hs : Delivered s)
    (h : run (step (act healing)) s events = some t) :
    Executes healing s events delivery ↔ (delivery, .worker .marksRunning) ∈ events := by
  constructor
  · rintro ⟨earlier, later, u, loaded, rfl, hu, hexecuting⟩
    have hnot : ¬ ∃ loaded, s.actors delivery = .worker (.executing loaded) := by
      rw [hs.queued hu hexecuting]
      rintro ⟨_, ⟨⟩⟩
    obtain ⟨before, e, between, v, w, rfl, -, hnot, hstep, loaded, hexecuting⟩ :=
      exists_turn (P := fun u : System Error Violation => ∃ loaded, u.actors delivery = .worker (.executing loaded)) hnot
        ⟨loaded, hexecuting⟩ hu
    obtain ⟨w', hw', rfl | ⟨step, rfl, hact⟩⟩ := worker_of_step hstep hexecuting
    · exact absurd ⟨loaded, hw'⟩ hnot
    · rcases Worker.act_cases hact with ⟨-, -, h, -⟩ | ⟨-, rfl, -, -⟩ | ⟨-, h, -⟩
      · cases h
      · simp
      · cases w' with
        | executing loaded => exact absurd ⟨loaded, hw'⟩ hnot
        | _ => exact (h trivial).elim
  · intro hmem
    obtain ⟨earlier, later, rfl⟩ := List.append_of_mem hmem
    obtain ⟨u, hu, hlater⟩ := run_append_iff.mp h
    obtain ⟨v, hv, hlater⟩ := run_cons_iff.mp hlater
    refine ⟨earlier ++ [(delivery, .worker .marksRunning)], later, v, none, ?_, ?_, ?_⟩
    · rw [List.append_assoc]
      rfl
    · exact run_append_iff.mpr ⟨u, hu, run_cons_iff.mpr ⟨v, hv, rfl⟩⟩
    · exact (marksRunning_step hv).2.2

theorem begun_of_step (hs : ∀ w, s.actors delivery = .worker w → Begun w)
    {e : Event Error Violation} (h : step (act healing) s e = some t) :
    ∀ w, t.actors delivery = .worker w → Begun w := by
  intro w' hw'
  obtain ⟨w, hw, rfl | ⟨step, rfl, hact⟩⟩ := worker_of_step h hw'
  · exact hs w hw
  · rcases Worker.act_cases hact with ⟨rfl, -⟩ | ⟨-, -, rfl, -⟩ | ⟨hbegun, -⟩
    · exact (hs _ hw).elim
    · trivial
    · exact hbegun

/-- A delivery marks the run once. -/
theorem marks_once (h : run (step (act healing)) s events = some t)
    {middle : List (Event Error Violation)}
    (hsplit : events = earlier ++ (delivery, .worker .marksRunning) ::
      (middle ++ (delivery, .worker .marksRunning) :: later)) : False := by
  rw [hsplit] at h
  obtain ⟨u, -, h⟩ := run_append_iff.mp h
  obtain ⟨v, hv, h⟩ := run_cons_iff.mp h
  obtain ⟨w, hw, h⟩ := run_append_iff.mp h
  obtain ⟨x, hx, -⟩ := run_cons_iff.mp h
  have hbegun : ∀ worker, v.actors delivery = .worker worker → Begun worker := by
    intro worker hworker
    rw [(marksRunning_step hv).2.2] at hworker
    cases hworker
    trivial
  exact invariant_reachable (fun _ _ _ hs h => begun_of_step hs h) hbegun hw _
    (marksRunning_step hx).1

/-- A delivery that marks the run after another one, or after a cancellation, was disturbed. -/
theorem Undisturbed.first (hundisturbed : Undisturbed events) (hs : Delivered s)
    (h : run (step (act healing)) s events = some t)
    (hsplit : events = earlier ++ (delivery, .worker .marksRunning) :: later) :
    (∀ other ≠ delivery, (other, .worker .marksRunning) ∉ earlier) ∧
      ∀ request, (request, .request .commits) ∉ earlier := by
  rw [hsplit] at h
  obtain ⟨u, hu, hlater⟩ := run_append_iff.mp h
  obtain ⟨v, hv, -⟩ := run_cons_iff.mp hlater
  obtain ⟨before, between, w, rfl, hbefore, hpending⟩ := hs.checked hu hv
  obtain ⟨hmarks, hcommits⟩ := hs.kinds.unwritten_of_pending hbefore hpending
  have hbetween := hundisturbed before delivery between later (by rw [hsplit, List.append_assoc]; rfl)
  constructor
  · intro other hne hmem
    rcases List.mem_append.mp hmem with hmem | hmem
    · exact hmarks other hmem
    · rcases List.mem_cons.mp hmem with hmem | hmem
      · cases hmem
      · exact hbetween.1 other hne hmem
  · intro request hmem
    rcases List.mem_append.mp hmem with hmem | hmem
    · exact hcommits request hmem
    · rcases List.mem_cons.mp hmem with hmem | hmem
      · cases hmem
      · exact hbetween.2 request hmem

theorem Undisturbed.atMostOnce (hundisturbed : Undisturbed events) (hs : Delivered s)
    (h : run (step (act healing)) s events = some t) : AtMostOnce healing s events := by
  have hfirst : ∀ delivery other, (delivery, .worker .marksRunning) ∈ events →
      (other, .worker .marksRunning) ∈ events → other ≠ delivery → ∃ earlier later,
        events = earlier ++ (delivery, .worker .marksRunning) :: later ∧
          (other, .worker .marksRunning) ∈ later := by
    intro delivery other hdelivery hother hne
    obtain ⟨earlier, later, hsplit⟩ := List.append_of_mem hdelivery
    refine ⟨earlier, later, hsplit, ?_⟩
    rw [hsplit] at hother
    rcases List.mem_append.mp hother with hother | hother
    · exact absurd hother ((hundisturbed.first hs h hsplit).1 other hne)
    · rcases List.mem_cons.mp hother with hother | hother
      · cases hother
        exact absurd rfl hne
      · exact hother
  refine ⟨?_, ?_⟩
  · intro delivery other hdelivery hother
    rw [hs.executes_iff h] at hdelivery hother
    by_contra hne
    obtain ⟨earlier, later, hsplit, hlater⟩ :=
      hfirst delivery other hdelivery hother (Ne.symm hne)
    obtain ⟨middle, later, rfl⟩ := List.append_of_mem hlater
    have hsplit' : events = (earlier ++ (delivery, .worker .marksRunning) :: middle) ++
        (other, .worker .marksRunning) :: later := by
      rw [hsplit, List.append_assoc]
      rfl
    exact (hundisturbed.first hs h hsplit').1 delivery hne
      (List.mem_append_right earlier List.mem_cons_self)
  · intro earlier request later hsplit hnone delivery hexecutes
    rw [hs.executes_iff h, hsplit] at hexecutes
    rcases List.mem_append.mp hexecutes with hmem | hmem
    · exact hnone delivery hmem
    · rcases List.mem_cons.mp hmem with hmem | hmem
      · cases hmem
      · obtain ⟨middle, later, rfl⟩ := List.append_of_mem hmem
        have hsplit' : events = (earlier ++ (request, .request .commits) :: middle) ++
            (delivery, .worker .marksRunning) :: later := by
          rw [hsplit, List.append_assoc]
          rfl
        exact (hundisturbed.first hs h hsplit').2 request
          (List.mem_append_right earlier List.mem_cons_self)

theorem AtMostOnce.undisturbed (honce : AtMostOnce healing s events) (hs : Delivered s)
    (h : run (step (act healing)) s events = some t) : Undisturbed events := by
  intro earlier delivery between later hsplit
  have hmarks : (delivery, .worker .marksRunning) ∈ events := by
    rw [hsplit]
    simp
  have hdelivery := (hs.executes_iff h).mpr hmarks
  constructor
  · intro other hne hmem
    have hother : (other, .worker .marksRunning) ∈ events := by
      rw [hsplit]
      simp [hmem]
    exact hne (honce.once other delivery ((hs.executes_iff h).mpr hother) hdelivery)
  · intro request hmem
    obtain ⟨first, second, rfl⟩ := List.append_of_mem hmem
    have hcommit : events = (earlier ++ (delivery, .worker .starts) :: first) ++
        (request, .request .commits) ::
          (second ++ (delivery, .worker .marksRunning) :: later) := by
      rw [hsplit]
      simp
    -- the run is marked before the cancellation, so by this delivery itself
    have hmarked : ¬ NoneMarks (earlier ++ (delivery, .worker .starts) :: first) := fun hnone =>
      honce.cancelled _ _ _ hcommit hnone delivery hdelivery
    unfold NoneMarks at hmarked
    push Not at hmarked
    obtain ⟨other, hmem⟩ := hmarked
    have hother : (other, .worker .marksRunning) ∈ events := by
      rw [hcommit]
      exact List.mem_append_left _ hmem
    have heq := honce.once other delivery ((hs.executes_iff h).mpr hother) hdelivery
    subst heq
    obtain ⟨before, middle, hbefore⟩ := List.append_of_mem hmem
    have hagain : events = before ++ (other, .worker .marksRunning) ::
        ((middle ++ (request, .request .commits) :: second) ++
          (other, .worker .marksRunning) :: later) := by
      rw [hcommit, hbefore]
      simp
    exact marks_once h hagain

/-- However a task was delivered, the pipeline is executed at most once, and not after a
cancellation, exactly when no delivery is disturbed between its check and its mark. -/
theorem at_most_once_iff (hs : Delivered s) (h : run (step (act healing)) s events = some t) :
    AtMostOnce healing s events ↔ Undisturbed events :=
  ⟨fun honce => honce.undisturbed hs h, fun hundisturbed => hundisturbed.atMostOnce hs h⟩

/-- A pending run whose task was delivered again, and a request to cancel it. -/
def redelivered : System Unit Unit where
  value := .PENDING
  actors id := if id = 1 then .request (.received .cancel) else .worker .queued

theorem redelivered_delivered : Delivered redelivered := by
  intro id
  by_cases h : id = 1
  · exact .inr (if_pos h)
  · exact .inl (if_neg h)

/-- Both deliveries check the status before either marks the run. -/
def racing : List (Event Unit Unit) :=
  [(0, .worker .starts), (2, .worker .starts), (0, .worker .marksRunning),
    (2, .worker .marksRunning)]

theorem at_most_once_iff_racing : AtMostOnce noHealing redelivered racing ↔ Undisturbed racing :=
  at_most_once_iff redelivered_delivered rfl

/-- Two deliveries execute the pipeline; and a delivery executes a pipeline that was cancelled before
any had marked it. -/
theorem executed_twice_and_after_cancellation :
    (∃ t, run (step (act noHealing)) redelivered racing = some t) ∧
      ¬ AtMostOnce noHealing redelivered racing ∧
    (∃ t, run (step (act noHealing)) redelivered
        (cancelled ++ [(0, .worker .marksRunning)]) = some t) ∧
      ¬ AtMostOnce noHealing redelivered (cancelled ++ [(0, .worker .marksRunning)]) := by
  refine ⟨⟨_, rfl⟩, ?_, ⟨_, rfl⟩, ?_⟩
  · intro h
    have hfirst : Executes noHealing redelivered racing 0 := ⟨racing, [], _, none, rfl, rfl, rfl⟩
    have hsecond : Executes noHealing redelivered racing 2 := ⟨racing, [], _, none, rfl, rfl, rfl⟩
    exact absurd (h.once 0 2 hfirst hsecond) (by decide)
  · intro h
    refine h.cancelled [(0, .worker .starts), (1, .request .reads)] 1
      [(0, .worker .marksRunning)] rfl ?_ 0
      ⟨cancelled ++ [(0, .worker .marksRunning)], [], _, none, rfl, rfl, rfl⟩
    intro delivery hmem
    simp at hmem

end Runs

end PipelineIQ.Lifecycle.Redelivery
