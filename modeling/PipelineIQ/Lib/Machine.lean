import Mathlib.Data.Option.Basic

namespace PipelineIQ.Lib.Machine

variable {σ ε : Type*} (step : σ → ε → Option σ)

/-- The state a machine reaches through a list of events, `none` when one of
them is not enabled. -/
def run : σ → List ε → Option σ
  | s, [] => some s
  | s, e :: events => (step s e).bind fun t => run t events

/-- Every event of a run meets the guard in the state it happens in. -/
def Along (guard : σ → ε → Prop) : σ → List ε → Prop
  | _, [] => True
  | s, e :: events => guard s e ∧ ∀ t, step s e = some t → Along guard t events

instance decidableAlong (guard : σ → ε → Prop) [∀ s e, Decidable (guard s e)] :
    ∀ (s : σ) (events : List ε), Decidable (Along step guard s events)
  | _, [] => .isTrue trivial
  | s, e :: events => match h : step s e with
    | none => decidable_of_iff (guard s e) (by simp [Along, h])
    | some t =>
      haveI := decidableAlong guard t events
      decidable_of_iff (guard s e ∧ Along step guard t events) (by simp [Along, h])

variable {step} {guard : σ → ε → Prop} {s t : σ} {e : ε} {events later : List ε}

@[simp] theorem run_nil : run step s [] = some s := rfl

theorem run_cons_iff : run step s (e :: events) = some t ↔
    ∃ u, step s e = some u ∧ run step u events = some t :=
  Option.bind_eq_some_iff

theorem run_append_iff : run step s (events ++ later) = some t ↔
    ∃ u, run step s events = some u ∧ run step u later = some t := by
  induction events generalizing s with
  | nil => simp
  | cons a events ih =>
    simp only [List.cons_append, run_cons_iff, ih]
    exact ⟨fun ⟨u, hu, v, hv, ht⟩ => ⟨v, ⟨u, hu, hv⟩, ht⟩,
      fun ⟨v, ⟨u, hu, hv⟩, ht⟩ => ⟨u, hu, v, hv, ht⟩⟩

theorem along_cons (hg : guard s e) (h : step s e = some t) (ht : Along step guard t events) :
    Along step guard s (e :: events) := by
  refine ⟨hg, fun u hu => ?_⟩
  rw [h] at hu
  cases hu
  exact ht

theorem along_append_iff : Along step guard s (events ++ later) ↔
    Along step guard s events ∧ ∀ u, run step s events = some u → Along step guard u later := by
  induction events generalizing s with
  | nil => simp [Along]
  | cons a events ih =>
    simp only [List.cons_append, Along, ih, run_cons_iff]
    exact ⟨fun ⟨hg, h⟩ => ⟨⟨hg, fun u hu => (h u hu).1⟩, fun v ⟨u, hu, hv⟩ => (h u hu).2 v hv⟩,
      fun ⟨⟨hg, h⟩, hl⟩ => ⟨hg, fun u hu => ⟨h u hu, fun v hv => hl v ⟨u, hu, hv⟩⟩⟩⟩

/-- A guard on the events alone. -/
theorem along_of_forall_mem {p : ε → Prop} (h : ∀ e ∈ events, p e) :
    Along step (fun _ => p) s events := by
  induction events generalizing s with
  | nil => trivial
  | cons e events ih =>
    exact ⟨h e (List.mem_cons_self ..), fun _ _ => ih fun a ha => h a (List.mem_cons_of_mem e ha)⟩

theorem along_congr {guard' : σ → ε → Prop} (h : ∀ s e, guard s e ↔ guard' s e) :
    Along step guard s events ↔ Along step guard' s events := by
  induction events generalizing s with
  | nil => exact Iff.rfl
  | cons e events ih => simp only [Along, h, ih]

/-- What one guarded step keeps, a guarded run keeps. -/
theorem invariant_run {I : σ → Prop}
    (hstep : ∀ s e t, I s → guard s e → step s e = some t → I t) (hs : I s)
    (hg : Along step guard s events) (h : run step s events = some t) : I t := by
  induction events generalizing s with
  | nil =>
    cases h
    exact hs
  | cons e events ih =>
    obtain ⟨u, hu, ht⟩ := run_cons_iff.mp h
    exact ih (hstep s e u hs hg.1 hu) (hg.2 u hu) ht

/-- A state property holds in every state that a list of events leads through. -/
def Always (step : σ → ε → Option σ) (P : σ → Prop) (s : σ) (events : List ε) : Prop :=
  ∀ earlier later, events = earlier ++ later → ∀ t, run step s earlier = some t → P t

theorem Always.head {P : σ → Prop} (h : Always step P s events) : P s := h [] events rfl s rfl

theorem always_nil_iff {P : σ → Prop} : Always step P s [] ↔ P s := by
  constructor
  · exact Always.head
  · intro hs earlier later hsplit u hu
    rw [(List.append_eq_nil_iff.mp hsplit.symm).1] at hu
    cases hu
    exact hs

theorem always_cons_iff {P : σ → Prop} (h : step s e = some t) :
    Always step P s (e :: events) ↔ P s ∧ Always step P t events := by
  constructor
  · intro halways
    refine ⟨halways.head, ?_⟩
    rintro earlier later rfl u hu
    exact halways (e :: earlier) later rfl u (run_cons_iff.mpr ⟨t, h, hu⟩)
  · rintro ⟨hs, hrest⟩ earlier later hsplit u hu
    cases earlier with
    | nil =>
      cases hu
      exact hs
    | cons a earlier =>
      obtain ⟨rfl, rfl⟩ := List.cons.inj hsplit
      obtain ⟨w, hw, hu⟩ := run_cons_iff.mp hu
      rw [h] at hw
      cases hw
      exact hrest earlier later rfl u hu

theorem always_of_eq_none {P : σ → Prop} (h : step s e = none) (hs : P s) :
    Always step P s (e :: events) := by
  intro earlier later hsplit u hu
  cases earlier with
  | nil =>
    cases hu
    exact hs
  | cons a earlier =>
    obtain ⟨rfl, -⟩ := List.cons.inj hsplit
    obtain ⟨w, hw, -⟩ := run_cons_iff.mp hu
    rw [h] at hw
    cases hw

theorem along_cons_iff (h : step s e = some t) :
    Along step guard s (e :: events) ↔ guard s e ∧ Along step guard t events := by
  constructor
  · rintro ⟨hg, hrest⟩
    exact ⟨hg, hrest t h⟩
  · rintro ⟨hg, hrest⟩
    exact along_cons hg h hrest

theorem along_of_eq_none (h : step s e = none) (hg : guard s e) :
    Along step guard s (e :: events) := by
  refine ⟨hg, ?_⟩
  intro t ht
  rw [h] at ht
  cases ht

/-- Where a step keeps a property exactly when it meets the guard, a run that can be taken keeps
it throughout exactly when it meets the guard throughout. An invariant may be used on the way. -/
theorem always_iff_along {P I : σ → Prop} (hI : ∀ s e t, I s → step s e = some t → I t)
    (hstep : ∀ s e t, I s → P s → step s e = some t → (P t ↔ guard s e)) (hi : I s) (hs : P s)
    (h : run step s events = some t) : Always step P s events ↔ Along step guard s events := by
  induction events generalizing s with
  | nil => exact iff_of_true (always_nil_iff.mpr hs) trivial
  | cons e events ih =>
    obtain ⟨u, hu, ht⟩ := run_cons_iff.mp h
    have hi' := hI s e u hi hu
    rw [always_cons_iff hu, along_cons_iff hu]
    constructor
    · rintro ⟨-, hrest⟩
      exact ⟨(hstep s e u hi hs hu).mp hrest.head, (ih hi' hrest.head ht).mp hrest⟩
    · rintro ⟨hguard, hrest⟩
      exact ⟨hs, (ih hi' ((hstep s e u hi hs hu).mpr hguard) ht).mpr hrest⟩

/-- The same for every list of events, where the guard asks nothing of one that cannot happen. -/
theorem always_iff_along_all {P I : σ → Prop} (hI : ∀ s e t, I s → step s e = some t → I t)
    (hnone : ∀ s e, step s e = none → guard s e)
    (hstep : ∀ s e t, I s → P s → step s e = some t → (P t ↔ guard s e)) (hi : I s) (hs : P s) :
    Always step P s events ↔ Along step guard s events := by
  induction events generalizing s with
  | nil => exact iff_of_true (always_nil_iff.mpr hs) trivial
  | cons e events ih =>
    cases h : step s e with
    | none => exact iff_of_true (always_of_eq_none h hs) (along_of_eq_none h (hnone s e h))
    | some t =>
      have hi' := hI s e t hi h
      rw [always_cons_iff h, along_cons_iff h]
      constructor
      · rintro ⟨-, hrest⟩
        exact ⟨(hstep s e t hi hs h).mp hrest.head, (ih hi' hrest.head).mp hrest⟩
      · rintro ⟨hguard, hrest⟩
        exact ⟨hs, (ih hi' ((hstep s e t hi hs h).mpr hguard)).mpr hrest⟩

/-- Where a step keeps a property only when it meets the guard, a run that keeps it throughout meets
the guard throughout. -/
theorem along_of_always {P : σ → Prop} (hnone : ∀ s e, step s e = none → guard s e)
    (hstep : ∀ s e t, P s → step s e = some t → P t → guard s e)
    (h : Always step P s events) : Along step guard s events := by
  induction events generalizing s with
  | nil => trivial
  | cons e events ih =>
    cases hnext : step s e with
    | none => exact along_of_eq_none hnext (hnone s e hnext)
    | some t =>
      have hrest := ((always_cons_iff hnext).mp h).2
      exact along_cons (hstep s e t h.head hnext hrest.head) hnext (ih hrest)

/-- What every guarded step keeps holds in every state of a guarded run. -/
theorem always_of_along {P : σ → Prop} (hstep : ∀ s e t, P s → guard s e → step s e = some t → P t)
    (hs : P s) (h : Along step guard s events) : Always step P s events := by
  rintro earlier later rfl t ht
  exact invariant_run hstep hs (along_append_iff.mp h).1 ht

/-- What every step keeps, every run keeps. -/
theorem invariant_reachable {I : σ → Prop} (hstep : ∀ s e t, I s → step s e = some t → I t)
    (hs : I s) (h : run step s events = some t) : I t := by
  have hg : Along step (fun _ _ => True) s events := along_of_forall_mem fun _ _ => trivial
  exact invariant_run (fun s e t hi _ ht => hstep s e t hi ht) hs hg h

/-- A property that a run brings about is brought about by one of its steps. -/
theorem exists_turn {P : σ → Prop} (hs : ¬ P s) (ht : P t) (h : run step s events = some t) :
    ∃ earlier e rest u v, events = earlier ++ e :: rest ∧ run step s earlier = some u ∧ ¬ P u ∧
      step u e = some v ∧ P v := by
  induction events generalizing s with
  | nil =>
    cases h
    exact absurd ht hs
  | cons e events ih =>
    obtain ⟨u, hu, hrest⟩ := run_cons_iff.mp h
    by_cases hP : P u
    · exact ⟨[], e, events, s, u, rfl, rfl, hs, hu, hP⟩
    · obtain ⟨earlier, e', rest, v, w, rfl, hv, hnot, hstep, hP⟩ := ih hP hrest
      exact ⟨e :: earlier, e', rest, v, w, rfl, run_cons_iff.mpr ⟨u, hu, hv⟩, hnot, hstep, hP⟩

end PipelineIQ.Lib.Machine
