import Mathlib.Logic.Function.Basic
import PipelineIQ.Lib.Machine

namespace PipelineIQ.Lib.Interleave

open Machine

/-- One shared value and the local states of the actors that read and write it. -/
structure Shared (Id L V : Type*) where
  value : V
  actors : Id → L

variable {Id L V E : Type*} [DecidableEq Id] (act : L → V → E → Option (L × V))

/-- One actor takes one step on its own state and the shared value. -/
def step (s : Shared Id L V) (e : Id × E) : Option (Shared Id L V) :=
  (act (s.actors e.1) s.value e.2).map fun r =>
    { value := r.2, actors := Function.update s.actors e.1 r.1 }

/-- Once a run has brought the value into `T`, nothing later in it changes the value. -/
def Settles (T : V → Prop) (s : Shared Id L V) (events : List (Id × E)) : Prop :=
  ∀ before between later t u, events = before ++ between ++ later →
    run (step act) s before = some t → run (step act) t between = some u →
    T t.value → u.value = t.value

/-- No step of an actor in this state changes the value. -/
def Keeps (l : L) (v : V) (e : E) : Prop :=
  ∀ l' v', act l v e = some (l', v') → v' = v

variable {act} {T : V → Prop} {guard : L → V → E → Prop} {s t : Shared Id L V} {e : Id × E}
  {events : List (Id × E)}

theorem step_eq_some_iff : step act s e = some t ↔
    ∃ l v, act (s.actors e.1) s.value e.2 = some (l, v) ∧
      t = { value := v, actors := Function.update s.actors e.1 l } := by
  simp only [step, Option.map_eq_some_iff, Prod.exists]
  exact exists₂_congr fun l v => and_congr_right fun _ => eq_comm

theorem keeps_of_eq_none {l : L} {v : V} {e : E} (h : act l v e = none) : Keeps act l v e := by
  intro l' v' hs
  rw [h] at hs
  cases hs

theorem keeps_iff_forall_mem {l : L} {v : V} {e : E} :
    Keeps act l v e ↔ ∀ r ∈ act l v e, r.2 = v :=
  ⟨fun h r hr => h r.1 r.2 hr, fun h l' v' hs => h (l', v') hs⟩

theorem keeps_iff_of_eq_some {l l' : L} {v v' : V} {e : E} (h : act l v e = some (l', v')) :
    Keeps act l v e ↔ v' = v := by
  constructor
  · intro hk
    exact hk l' v' h
  · rintro rfl k u hs
    rw [h] at hs
    cases hs
    rfl

/-- A step of a kind of actor, taken as a step of any actor. -/
theorem keeps_lift_iff {L' E' : Type*} {act' : L' → V → E' → Option (L' × V)} {l : L} {l' : L'}
    {v : V} {e : E} {e' : E'} {f : L' → L}
    (h : act l v e = (act' l' v e').map fun r => (f r.1, r.2)) :
    Keeps act l v e ↔ Keeps act' l' v e' := by
  rw [keeps_iff_forall_mem, keeps_iff_forall_mem, h]
  simp only [Option.mem_map, forall_exists_index, and_imp, forall_apply_eq_imp_iff₂]

/-- A step that only reads. -/
theorem keeps_of_eq_map {l : L} {v : V} {e : E} {o : Option L}
    (h : act l v e = o.map fun l' => (l', v)) : Keeps act l v e := by
  cases o with
  | none => exact keeps_of_eq_none h
  | some l' => exact (keeps_iff_of_eq_some h).mpr rfl

theorem Keeps.step (h : Keeps act (s.actors e.1) s.value e.2) (hs : step act s e = some t) :
    t.value = s.value := by
  obtain ⟨l, v, hv, rfl⟩ := step_eq_some_iff.mp hs
  exact h l v hv

/-- A run whose steps keep every value of `T` stays with the first one it meets. -/
theorem value_of_along (h : ∀ l v e, T v → guard l v e → Keeps act l v e)
    (hg : Along (step act) (fun s e => T s.value → guard (s.actors e.1) s.value e.2) s events)
    (hr : run (step act) s events = some t) (hs : T s.value) : t.value = s.value := by
  induction events generalizing s with
  | nil =>
    cases hr
    rfl
  | cons e events ih =>
    obtain ⟨u, hu, ht⟩ := run_cons_iff.mp hr
    have hv : u.value = s.value := (h _ _ _ hs (hg.1 hs)).step hu
    rw [ih (hg.2 u hu) ht (hv ▸ hs), hv]

/-- A run settles exactly when each of its steps keeps the values of `T`. -/
theorem settles_iff_along (h : ∀ l v e, T v → (guard l v e ↔ Keeps act l v e)) :
    Settles act T s events ↔
      Along (step act) (fun s e => T s.value → guard (s.actors e.1) s.value e.2) s events := by
  constructor
  · intro hset
    induction events generalizing s with
    | nil => trivial
    | cons e events ih =>
      refine ⟨?_, ?_⟩
      · intro hs
        apply (h _ _ _ hs).mpr
        intro l v hv
        have he := step_eq_some_iff.mpr ⟨l, v, hv, rfl⟩
        exact hset [] [e] events s _ rfl rfl (run_cons_iff.mpr ⟨_, he, rfl⟩) hs
      · intro u hu
        apply ih
        intro before between later t v hsplit ht hv hT
        apply hset (e :: before) between later t v _ (run_cons_iff.mpr ⟨u, hu, ht⟩) hv hT
        rw [hsplit]
        rfl
  · rintro hg before between later t u rfl ht hu hT
    rw [List.append_assoc] at hg
    have hbetween := (along_append_iff.mp ((along_append_iff.mp hg).2 t ht)).1
    exact value_of_along (fun l v e hv => (h l v e hv).mp) hbetween hu hT

end PipelineIQ.Lib.Interleave
