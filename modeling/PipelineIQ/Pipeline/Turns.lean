import PipelineIQ.Lib.Traverse
import PipelineIQ.Pipeline.Eviction

namespace PipelineIQ.Pipeline.Turns

open PipelineIQ.Lib PipelineIQ.Lib.Traverse PipelineIQ.Pipeline.Runner PipelineIQ.Pipeline.Eviction

variable {K Table Violation : Type} [DecidableEq K] [Truthy K] {env : Env K Table Violation}
  {steps : List (Step K)} {s : State K Table Violation} {i : Nat}

/-! ### The turns of a run -/

theorem loop_append {total index : Nat} (xs ys : List (Step K))
    (s : State K Table Violation) : loop env total index (xs ++ ys) s =
      loop env total index xs s >>= loop env total (index + xs.length) ys := by
  induction xs generalizing index s with
  | nil => rfl
  | cons r xs ih =>
    rw [List.cons_append, loop, loop, bind_assoc]
    congr 1
    funext t
    rw [ih, List.length_cons, Nat.add_assoc, Nat.add_comm 1]

theorem stateBefore_succ (hi : i < steps.length) :
    stateBefore env steps (i + 1) =
      stateBefore env steps i >>= loopBody env steps.length i steps[i] := by
  rw [stateBefore, List.take_succ_eq_append_getElem hi, loop_append,
    List.length_take, Nat.min_eq_left (Nat.le_of_lt hi), Nat.zero_add, stateBefore]
  congr 1
  funext s
  rw [loop]
  cases loopBody env steps.length i steps[i] s <;> rfl

theorem loopBody_returned {total index : Nat} {r : Step K}
    {result : StepExecutionResult K Table Violation}
    (h : env.execute s.tableRegistry r = .returned result) :
    ∃ t, loopBody env total index r s = .ok t := by
  unfold loopBody executeSingleStep
  simp only [emit, h]
  exact ⟨_, rfl⟩

/-- A run that gets to a step has done a turn at every step before it. -/
theorem turn_of_run (hi : i ≤ steps.length) (h : stateBefore env steps i = .ok s) {j : Nat}
    (hj : j < i) : ∃ t t', stateBefore env steps j = .ok t ∧
      loopBody env steps.length j steps[j] t = .ok t' := by
  induction i generalizing s with
  | zero => omega
  | succ i ih =>
    rw [stateBefore_succ hi] at h
    obtain ⟨u, hu, hturn⟩ := bind_ok h
    by_cases hij : j = i
    · subst hij
      exact ⟨u, s, hu, hturn⟩
    · exact ih (by omega) hu (by omega)

/-- The counts are the reads to come; an output still to be read is kept, and every entry is the
output of a step before. -/
structure Held (steps : List (Step K)) (i : Nat) (s : State K Table Violation) :
    Prop where
  counts : ∀ k, s.remaining.get? k =
    if uses steps k = 0 then none else some (uses (steps.drop i) k : Int)
  kept : ∀ k ∈ (steps.take i).map Step.name, 0 < uses (steps.drop i) k →
    (s.tableRegistry.get? k).isSome
  names : ∀ k, (s.tableRegistry.get? k).isSome → k ∈ (steps.take i).map Step.name

theorem held_initial : Held steps 0 (initial steps : State K Table Violation) := by
  refine ⟨fun k => ?_, fun k hk => ?_, fun k hk => ?_⟩
  · rw [List.drop_zero]
    exact get?_computeConsumerCounts steps k
  · cases hk
  · cases hk

theorem held_step {t : State K Table Violation} {total : Nat} (hi : i < steps.length)
    (h : Held steps i s) (hturn : loopBody env total i steps[i] s = .ok t) :
    Held steps (i + 1) t := by
  obtain ⟨result, -, hstore⟩ := loopBody_ok hturn
  rw [storeAndEvict] at hstore
  have hregistry := congrArg Prod.fst hstore
  have hremaining := congrArg Prod.snd hstore
  dsimp only at hregistry hremaining
  have hname (k : K) : k ∈ (steps.take (i + 1)).map Step.name ↔
      k ∈ (steps.take i).map Step.name ∨ k = steps[i].name := by
    rw [List.take_succ_eq_append_getElem hi, List.map_append, List.mem_append]
    simp
  refine ⟨fun k => ?_, fun k hk hread => ?_, fun k hk => ?_⟩
  · have hd := uses_drop steps i hi k
    rw [hremaining, remaining_foldl_consume, h.counts]
    split
    · rfl
    · rw [Option.map_some, Option.some.injEq]
      omega
  · have hd := uses_drop steps i hi k
    rw [hregistry, registry_foldl_consume, h.counts, Dict.get?_set]
    rw [if_neg]
    · split
      · rfl
      · next hne =>
        exact h.kept k (((hname k).mp hk).resolve_right hne) (by omega)
    · rintro ⟨-, -, n, hn, hle⟩
      split at hn
      · cases hn
      · cases hn
        omega
  · rw [hregistry, registry_foldl_consume, Dict.get?_set] at hk
    split at hk
    · cases hk
    · rw [hname]
      split at hk
      · next hown => exact .inr hown
      · exact .inl (h.names k hk)

theorem held_stateBefore (hi : i ≤ steps.length) (h : stateBefore env steps i = .ok s) :
    Held steps i s := by
  induction i generalizing s with
  | zero =>
    cases h
    exact held_initial
  | succ i ih =>
    rw [stateBefore_succ hi] at h
    obtain ⟨u, hu, hturn⟩ := bind_ok h
    exact held_step hi (ih (by omega) hu) hturn

end PipelineIQ.Pipeline.Turns
