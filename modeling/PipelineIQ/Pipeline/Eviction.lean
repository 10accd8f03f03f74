import Mathlib.Algebra.GroupWithZero.Nat
import Mathlib.Data.List.Count
import PipelineIQ.Pipeline.Runner

namespace PipelineIQ.Pipeline.Eviction

open PipelineIQ.Lib PipelineIQ.Pipeline.Runner

variable {K Table Violation : Type} [DecidableEq K] [Truthy K]

/-- How often an output is read by a list of steps, with multiplicity. -/
def uses (steps : List (Step K)) (ref : K) : Nat := (steps.flatMap stepInputs).count ref

/-- Every input of a step is the name of an earlier step. -/
def RefersBack (steps : List (Step K)) : Prop :=
  ∀ k (hk : k < steps.length), ∀ ref ∈ stepInputs steps[k], ref ∈ (steps.take k).map Step.name

instance (steps : List (Step K)) : Decidable (RefersBack steps) :=
  inferInstanceAs (Decidable (∀ k (hk : k < steps.length), ∀ ref ∈ stepInputs steps[k],
    ref ∈ (steps.take k).map Step.name))

omit [DecidableEq K] in
theorem RefersBack.exists_index {steps : List (Step K)} (hr : RefersBack steps) {k : Nat}
    (hk : k < steps.length) {ref : K} (hm : ref ∈ stepInputs steps[k]) :
    ∃ j, ∃ hj : j < k, steps[j].name = ref := by
  obtain ⟨step, hstep, hname⟩ := List.mem_map.mp (hr k hk ref hm)
  obtain ⟨j, hj, rfl⟩ := List.getElem_of_mem hstep
  rw [List.length_take] at hj
  rw [List.getElem_take] at hname
  exact ⟨j, by omega, hname⟩

theorem uses_append (xs ys : List (Step K)) (ref : K) :
    uses (xs ++ ys) ref = uses xs ref + uses ys ref := by
  simp only [uses, List.flatMap_append, List.count_append]

theorem uses_drop (steps : List (Step K)) (i : Nat) (hi : i < steps.length) (ref : K) :
    uses (steps.drop i) ref = (stepInputs steps[i]).count ref + uses (steps.drop (i + 1)) ref := by
  rw [List.drop_eq_getElem_cons hi]
  simp only [uses, List.flatMap_cons, List.count_append]

theorem uses_take_drop (steps : List (Step K)) (i : Nat) (ref : K) :
    uses steps ref = uses (steps.take i) ref + uses (steps.drop i) ref := by
  rw [← uses_append, List.take_append_drop]

theorem uses_pos_iff (steps : List (Step K)) (ref : K) :
    0 < uses steps ref ↔ ∃ k, ∃ hk : k < steps.length, ref ∈ stepInputs steps[k] := by
  simp only [uses, List.count_pos_iff, List.mem_flatMap]
  constructor
  · rintro ⟨step, hm, hr⟩
    obtain ⟨k, hk, rfl⟩ := List.getElem_of_mem hm
    exact ⟨k, hk, hr⟩
  · rintro ⟨k, hk, hr⟩
    exact ⟨steps[k], List.getElem_mem hk, hr⟩

theorem uses_drop_pos_iff (steps : List (Step K)) (i : Nat) (ref : K) :
    0 < uses (steps.drop i) ref ↔
      ∃ k, ∃ hk : k < steps.length, i ≤ k ∧ ref ∈ stepInputs steps[k] := by
  rw [uses_pos_iff]
  constructor
  · rintro ⟨k, hk, hr⟩
    rw [List.length_drop] at hk
    rw [List.getElem_drop] at hr
    exact ⟨i + k, by omega, by omega, hr⟩
  · rintro ⟨k, hk, hik, hr⟩
    obtain ⟨d, rfl⟩ := Nat.exists_eq_add_of_le hik
    exact ⟨d, by rw [List.length_drop]; omega, by rw [List.getElem_drop]; exact hr⟩

omit [Truthy K] in
theorem get?_foldl_countInput (refs : List K) (counts : Dict K Int) (ref : K) :
    (refs.foldl countInput counts).get? ref =
      if refs.count ref = 0 then counts.get? ref
      else some ((counts.get? ref).getD 0 + refs.count ref) := by
  induction refs generalizing counts with
  | nil => simp
  | cons a refs ih =>
    rw [List.foldl_cons, ih]
    by_cases ha : a = ref
    · subst a
      simp only [countInput, Dict.get?_set, ↓reduceIte, Option.getD_some, List.count_cons_self]
      by_cases hc : refs.count ref = 0
      · simp [hc]
      · simp only [hc, ↓reduceIte, Nat.add_eq_zero_iff, Nat.one_ne_zero, and_false,
          Option.some.injEq]
        omega
    · simp [countInput, Ne.symm ha, List.count_cons_of_ne ha]

/-- The counts computed up front are the numbers of uses; an output that
nothing reads has no entry. -/
theorem get?_computeConsumerCounts (steps : List (Step K)) (ref : K) :
    (computeConsumerCounts steps).get? ref =
      if uses steps ref = 0 then none else some (uses steps ref : Int) := by
  have hfold : computeConsumerCounts steps = (steps.flatMap stepInputs).foldl countInput ∅ := by
    rw [List.foldl_flatMap]
    rfl
  have hc : (steps.flatMap stepInputs).count ref = uses steps ref := rfl
  rw [hfold, get?_foldl_countInput, hc]
  by_cases h : uses steps ref = 0
  · rw [if_pos h, if_pos h, Dict.get?_empty]
  · rw [if_neg h, if_neg h, Dict.get?_empty, Option.getD_none, Int.zero_add]

omit [Truthy K] in
theorem remaining_foldl_consume (stepName : K) (refs : List K) (registry : Dict K Table)
    (remaining : Dict K Int) (ref : K) :
    (refs.foldl (consume stepName) (registry, remaining)).2.get? ref =
      (remaining.get? ref).map (fun n : Int => n - (refs.count ref : Int)) := by
  induction refs generalizing registry remaining with
  | nil => simp
  | cons a refs ih =>
    rw [List.foldl_cons]
    cases hg : remaining.get? a with
    | none =>
      have hc : consume stepName (registry, remaining) a = (registry, remaining) := by
        simp [consume, hg]
      rw [hc, ih]
      by_cases ha : a = ref
      · subst a; simp [hg]
      · rw [List.count_cons_of_ne ha]
    | some n =>
      simp only [consume, hg]
      rw [ih]
      by_cases ha : a = ref
      · subst a
        simp only [Dict.get?_set, ↓reduceIte, Option.map_some, hg, List.count_cons_self,
          Option.some.injEq]
        omega
      · rw [Dict.get?_set, if_neg (Ne.symm ha), List.count_cons_of_ne ha]

omit [Truthy K] in
/-- An entry leaves the registry exactly when its count reaches zero here. -/
theorem registry_foldl_consume (stepName : K) (refs : List K) (registry : Dict K Table)
    (remaining : Dict K Int) (ref : K) :
    (refs.foldl (consume stepName) (registry, remaining)).1.get? ref =
      if ref ≠ stepName ∧ ref ∈ refs ∧
          ∃ n, remaining.get? ref = some n ∧ n - refs.count ref ≤ 0
      then none else registry.get? ref := by
  induction refs generalizing registry remaining with
  | nil => simp
  | cons a refs ih =>
    rw [List.foldl_cons]
    cases hg : remaining.get? a with
    | none =>
      have hc : consume stepName (registry, remaining) a = (registry, remaining) := by
        simp [consume, hg]
      rw [hc, ih]
      by_cases ha : a = ref
      · subst a; simp [hg]
      · simp [List.count_cons_of_ne ha, Ne.symm ha]
    | some n =>
      simp only [consume, hg]
      rw [ih]
      by_cases ha : a = ref
      · subst a
        simp only [Dict.get?_set, ↓reduceIte, hg, List.count_cons_self, List.mem_cons, true_or,
          true_and, Option.some.injEq, exists_eq_left']
        by_cases hs : ref = stepName
        · simp [hs]
        · by_cases hz : n - 1 ≤ 0
          · have hle : n - ((refs.count ref + 1 : Nat) : Int) ≤ 0 := by omega
            simp only [ne_eq, hs, not_false_eq_true, true_and, hz, hle, ↓reduceIte, and_self,
              Dict.get?_erase, ite_self]
          · by_cases hm : ref ∈ refs
            · simp [hs, hz, hm, Int.sub_sub, Int.add_comm]
            · have hc : refs.count ref = 0 := List.count_eq_zero.mpr hm
              simp [hs, hz, hm, hc]
      · have hreg : (if n - 1 ≤ 0 ∧ a ≠ stepName then registry.erase a else registry).get? ref =
            registry.get? ref := by
          split <;> simp [Ne.symm ha]
        rw [hreg]
        simp [Ne.symm ha, List.count_cons_of_ne ha]

/-- A table is still wanted before step `i` when nothing ever reads it or some
step from `i` on does. -/
def Wanted (steps : List (Step K)) (i : Nat) (name : K) : Prop :=
  uses steps name = 0 ∨ 0 < uses (steps.drop i) name

/-- The loop invariant: counts are the uses still to come, and the registry
holds exactly the wanted outputs of the steps that have run. -/
structure Resident (steps : List (Step K)) (i : Nat) (s : State K Table Violation) : Prop where
  length : s.stepResults.length = i
  counts : ∀ ref, s.remaining.get? ref =
    if uses steps ref = 0 then none else some (uses (steps.drop i) ref : Int)
  tables : ∀ name table, s.tableRegistry.get? name = some table ↔
    ∃ j : Nat, (steps[j]?).map Step.name = some name ∧
      (s.stepResults[j]?).map StepExecutionResult.outputTable = some table ∧ Wanted steps i name

theorem resident_initial (steps : List (Step K)) :
    Resident steps 0 (initial steps : State K Table Violation) := by
  refine ⟨rfl, ?_, ?_⟩
  · intro ref
    rw [List.drop_zero]
    exact get?_computeConsumerCounts steps ref
  · intro name table
    simp [initial]

/-- What one pass of the loop does to the state it starts from. -/
theorem loopBody_ok {env : Env K Table Violation} {total index : Nat} {step : Step K}
    {s t : State K Table Violation} (h : loopBody env total index step s = .ok t) :
    ∃ result : StepExecutionResult K Table Violation,
      t.stepResults = s.stepResults ++ [result] ∧
      (t.tableRegistry, t.remaining) = storeAndEvict s.tableRegistry step.name
        result.outputTable (stepInputs step) s.remaining := by
  unfold loopBody executeSingleStep at h
  cases he : env.execute s.tableRegistry step with
  | stepError message => simp [emit, he, bind, Except.bind] at h
  | otherError message => simp [emit, he, bind, Except.bind] at h
  | returned result =>
    simp only [emit, he, bind, Except.bind, pure, Except.pure, Except.ok.injEq] at h
    subst h
    exact ⟨{ result with contractViolations := _ }, rfl, rfl⟩

omit [DecidableEq K] [Truthy K] in
theorem name_index_unique {steps : List (Step K)} (hn : (steps.map Step.name).Nodup) {i j : Nat}
    (name : K) (hi : (steps[i]?).map Step.name = some name)
    (hj : (steps[j]?).map Step.name = some name) : i = j := by
  rw [← List.getElem?_map] at hi hj
  obtain ⟨hi', -⟩ := List.getElem?_eq_some_iff.mp hi
  exact (List.getElem?_inj hi' hn).mp (hi.trans hj.symm)

/-- No step up to `i` reads the output of step `i`. -/
theorem uses_take_self {steps : List (Step K)} (hn : (steps.map Step.name).Nodup)
    (hr : RefersBack steps) {i : Nat} (hi : i < steps.length) :
    uses (steps.take (i + 1)) steps[i].name = 0 := by
  by_contra hne
  obtain ⟨k, hk, hm⟩ := (uses_pos_iff _ _).mp (Nat.pos_of_ne_zero hne)
  rw [List.length_take] at hk
  rw [List.getElem_take] at hm
  obtain ⟨j, hj, hname⟩ := hr.exists_index (by omega) hm
  have hij : i = j := name_index_unique hn steps[i].name
    (by simp [List.getElem?_eq_getElem hi])
    (by rw [List.getElem?_eq_getElem (by omega), Option.map_some, hname])
  omega

theorem wanted_self {steps : List (Step K)} (hn : (steps.map Step.name).Nodup)
    (hr : RefersBack steps) {i : Nat} (hi : i < steps.length) :
    Wanted steps (i + 1) steps[i].name := by
  have h := uses_take_drop steps (i + 1) steps[i].name
  rw [uses_take_self hn hr hi, Nat.zero_add] at h
  unfold Wanted
  omega

/-- One pass of the loop keeps the invariant. -/
theorem resident_step {steps : List (Step K)} (hn : (steps.map Step.name).Nodup)
    (hr : RefersBack steps) {env : Env K Table Violation} {total i : Nat} (hi : i < steps.length)
    {s t : State K Table Violation} (hs : Resident steps i s)
    (h : loopBody env total i steps[i] s = .ok t) : Resident steps (i + 1) t := by
  obtain ⟨result, hres, hstore⟩ := loopBody_ok h
  have hreg : t.tableRegistry = (storeAndEvict s.tableRegistry steps[i].name
      result.outputTable (stepInputs steps[i]) s.remaining).1 := congrArg Prod.fst hstore
  have hrem : t.remaining = (storeAndEvict s.tableRegistry steps[i].name
      result.outputTable (stepInputs steps[i]) s.remaining).2 := congrArg Prod.snd hstore
  have hlen : t.stepResults.length = i + 1 := by simp [hres, hs.length]
  have hname : (steps[i]?).map Step.name = some steps[i].name := by
    simp [List.getElem?_eq_getElem hi]
  refine ⟨hlen, ?_, ?_⟩
  · intro ref
    have hd := uses_drop steps i hi ref
    rw [hrem, storeAndEvict, remaining_foldl_consume, hs.counts]
    by_cases hu : uses steps ref = 0
    · simp [hu]
    · simp only [hu, ↓reduceIte, Option.map_some, Option.some.injEq]
      omega
  · intro name table
    have hd := uses_drop steps i hi name
    have hsplit := uses_take_drop steps i name
    rw [hreg, storeAndEvict, registry_foldl_consume, Dict.get?_set]
    by_cases hself : name = steps[i].name
    · -- the table just stored
      subst hself
      have hw := wanted_self hn hr hi
      simp only [ne_eq, not_true_eq_false, false_and, ↓reduceIte, Option.some.injEq]
      constructor
      · rintro rfl
        refine ⟨i, hname, ?_, hw⟩
        rw [hres, List.getElem?_append_right (Nat.le_of_eq hs.length)]
        simp [hs.length]
      · rintro ⟨j, hj, htab, -⟩
        have hij := name_index_unique hn _ hname hj
        subst hij
        rw [hres, List.getElem?_append_right (Nat.le_of_eq hs.length)] at htab
        simpa [hs.length] using htab
    · -- an earlier table: the results before `i` are unchanged
      have hold : ∀ j : Nat, (steps[j]?).map Step.name = some name →
          (t.stepResults[j]?).map StepExecutionResult.outputTable =
            (s.stepResults[j]?).map StepExecutionResult.outputTable := by
        intro j hj
        have hne : j ≠ i := by
          rintro rfl
          rw [hname] at hj
          exact hself (Option.some.inj hj).symm
        rw [hres]
        by_cases hlt : j < i
        · rw [List.getElem?_append_left (by rw [hs.length]; exact hlt)]
        · rw [List.getElem?_eq_none (by simp [hs.length]; omega),
            List.getElem?_eq_none (by rw [hs.length]; omega)]
      simp only [ne_eq, hself, not_false_eq_true, true_and, ↓reduceIte]
      by_cases hm : name ∈ stepInputs steps[i]
      · have hcount : 0 < (stepInputs steps[i]).count name := List.count_pos_iff.mpr hm
        have hu : uses steps name ≠ 0 := by omega
        have hrest : (∃ n, s.remaining.get? name = some n ∧
            n - (stepInputs steps[i]).count name ≤ 0) ↔ uses (steps.drop (i + 1)) name = 0 := by
          rw [hs.counts, if_neg hu]
          simp only [Option.some.injEq, exists_eq_left']
          omega
        simp only [hm, true_and, hrest]
        by_cases hz : uses (steps.drop (i + 1)) name = 0
        · simp [hz, Wanted, hu]
        · simp only [hz, ↓reduceIte, hs.tables]
          have hw : Wanted steps i name ↔ Wanted steps (i + 1) name := by
            unfold Wanted
            omega
          rw [hw]
          exact exists_congr (fun j => and_congr_right (fun hj => by rw [hold j hj]))
      · have hcount : (stepInputs steps[i]).count name = 0 := List.count_eq_zero.mpr hm
        have hw : Wanted steps i name ↔ Wanted steps (i + 1) name := by
          unfold Wanted
          omega
        simp only [hm, false_and, ↓reduceIte, hs.tables, hw]
        exact exists_congr (fun j => and_congr_right (fun hj => by rw [hold j hj]))

/-- The invariant holds at every index the loop reaches. -/
theorem resident_loop {steps : List (Step K)} (hn : (steps.map Step.name).Nodup)
    (hr : RefersBack steps) {env : Env K Table Violation} {total : Nat} (n i : Nat)
    (hi : i + n ≤ steps.length) {s t : State K Table Violation} (hs : Resident steps i s)
    (h : loop env total i ((steps.drop i).take n) s = .ok t) : Resident steps (i + n) t := by
  induction n generalizing i s with
  | zero =>
    simp only [List.take_zero, loop, Except.ok.injEq] at h
    exact h ▸ hs
  | succ n ih =>
    have hlt : i < steps.length := by omega
    rw [List.drop_eq_getElem_cons hlt, List.take_succ_cons] at h
    cases hb : loopBody env total i steps[i] s with
    | error e => simp [loop, hb, bind, Except.bind] at h
    | ok u =>
      simp only [loop, hb, bind, Except.bind] at h
      have hu := resident_step hn hr hlt hs hb
      have hrec := ih (i + 1) (by omega) hu h
      rwa [Nat.add_assoc, Nat.add_comm 1 n] at hrec

theorem resident_stateBefore {steps : List (Step K)} (hn : (steps.map Step.name).Nodup)
    (hr : RefersBack steps) {env : Env K Table Violation} {i : Nat} (hi : i ≤ steps.length)
    {s : State K Table Violation} (h : stateBefore env steps i = .ok s) : Resident steps i s := by
  have hl := resident_loop hn hr i 0 (by omega) (resident_initial steps) (by simpa [stateBefore] using h)
  simpa using hl

/-- Every input of the step that runs next is in the registry. -/
theorem Resident.input {steps : List (Step K)} {i : Nat} {s : State K Table Violation}
    (hres : Resident steps i s) (hr : RefersBack steps) (hi : i < steps.length) {ref : K}
    (hm : ref ∈ stepInputs steps[i]) :
    ∃ j, ∃ hj : j < i, ∃ table, steps[j].name = ref ∧
      (s.stepResults[j]?).map StepExecutionResult.outputTable = some table ∧
      s.tableRegistry.get? ref = some table := by
  obtain ⟨j, hj, hname⟩ := hr.exists_index hi hm
  have hlen : j < s.stepResults.length := by rw [hres.length]; exact hj
  have htab : (s.stepResults[j]?).map StepExecutionResult.outputTable =
      some (s.stepResults[j]).outputTable := by rw [List.getElem?_eq_getElem hlen]; rfl
  refine ⟨j, hj, _, hname, htab, (hres.tables ref _).mpr ⟨j, ?_, htab, ?_⟩⟩
  · rw [List.getElem?_eq_getElem (by omega), Option.map_some, hname]
  · exact .inr ((uses_drop_pos_iff steps i ref).mpr ⟨i, hi, Nat.le_refl i, hm⟩)

/-- A step list as the parser accepts it: unique names, references to earlier
steps only. Before each step the registry holds exactly the outputs that nothing
reads or that this or a later step reads, so every input lookup succeeds. -/
theorem registry_exact (env : Env K Table Violation) (steps : List (Step K))
    (hn : (steps.map Step.name).Nodup) (hr : RefersBack steps) (i : Nat)
    (hi : i < steps.length) (s : State K Table Violation)
    (h : stateBefore env steps i = .ok s) :
    (∀ name table, s.tableRegistry.get? name = some table ↔
      ∃ j, ∃ hj : j < i, steps[j].name = name ∧
        (s.stepResults[j]?).map StepExecutionResult.outputTable = some table ∧
        ((∀ k (hk : k < steps.length), name ∉ stepInputs steps[k]) ∨
          ∃ k, ∃ hk : k < steps.length, i ≤ k ∧ name ∈ stepInputs steps[k])) ∧
    (∀ ref ∈ stepInputs steps[i], ∃ j, ∃ hj : j < i, ∃ table, steps[j].name = ref ∧
      (s.stepResults[j]?).map StepExecutionResult.outputTable = some table ∧
      s.tableRegistry.get? ref = some table) := by
  have hres := resident_stateBefore hn hr (Nat.le_of_lt hi) h
  have hwanted : ∀ name, Wanted steps i name ↔
      ((∀ k (hk : k < steps.length), name ∉ stepInputs steps[k]) ∨
        ∃ k, ∃ hk : k < steps.length, i ≤ k ∧ name ∈ stepInputs steps[k]) := by
    intro name
    have hz : uses steps name = 0 ↔ ¬ 0 < uses steps name := by omega
    rw [Wanted, uses_drop_pos_iff, hz, uses_pos_iff]
    simp only [not_exists]
  constructor
  · intro name table
    rw [hres.tables]
    constructor
    · rintro ⟨j, hj, htab, hw⟩
      have hlt : j < i := by
        by_contra hge
        rw [List.getElem?_eq_none (by rw [hres.length]; omega)] at htab
        cases htab
      rw [List.getElem?_eq_getElem (by omega), Option.map_some, Option.some.injEq] at hj
      exact ⟨j, hlt, hj, htab, (hwanted name).mp hw⟩
    · rintro ⟨j, hj, hname, htab, hw⟩
      refine ⟨j, ?_, htab, (hwanted name).mpr hw⟩
      rw [List.getElem?_eq_getElem (by omega), Option.map_some, hname]
  · exact fun ref hm => hres.input hr hi hm

/-- A load, a self-join of it and a save. -/
def selfJoin : List (Step String) :=
  [{ name := "load" },
   { name := "pairs", left := some "load", right := some "load" },
   { name := "save", input := some "pairs" }]

/-- An executor whose tables are the row counts it reads plus one. -/
def countingEnv : Env String Nat Unit where
  execute registry step := .returned
    { stepName := step.name, rowsIn := 0, rowsOut := 0, durationMs := 0,
      outputTable := ((stepInputs step).map (fun r => (registry.get? r).getD 0)).sum + 1 }
  validateStepContract _ _ := some []

/-- Before the save only the self-join is left: its two reads released the load. -/
theorem registry_exact_selfJoin :
    ∃ s : State String Nat Unit, stateBefore countingEnv selfJoin 2 = .ok s ∧
      s.tableRegistry.entries = [("pairs", 3)] ∧
      ∃ table, s.tableRegistry.get? "pairs" = some table := by
  refine ⟨_, rfl, rfl, ?_⟩
  obtain ⟨_, _, table, _, _, h⟩ := (registry_exact countingEnv selfJoin (by decide) (by decide)
    2 (by decide) _ rfl).2 "pairs" (by decide)
  exact ⟨table, h⟩

end PipelineIQ.Pipeline.Eviction
