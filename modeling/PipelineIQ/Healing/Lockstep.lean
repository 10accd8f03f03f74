import PipelineIQ.Healing.Sandbox

namespace PipelineIQ.Healing.Lockstep

open PipelineIQ.Lib PipelineIQ.Lib.Yaml PipelineIQ.Lib.Traverse PipelineIQ.Pipeline
open PipelineIQ.Pipeline.Parser PipelineIQ.Healing.Sandbox
open PipelineIQ.Pipeline.Eviction (remaining_foldl_consume registry_foldl_consume loopBody_ok)

variable {Table Violation : Type}

def isSave (step : StepConfig) : Bool :=
  match step.stepType with
  | .inl .save => true
  | _ => false

/-! ### One step of both loops -/

/-- A step as both loops read it, among the saves of its pipeline. -/
structure Reads (saves : List Key) (step : StepConfig) (s : Runner.Step Key) : Prop where
  name : step.name.toKey = some s.name
  dependencies : (stepDependencies step).mapM Node.toKey = some (Runner.stepInputs s)
  own : s.name ∉ Runner.stepInputs s
  save : s.name ∈ saves ↔ isSave step = true

variable {saves : List Key} {step : StepConfig} {r : Runner.Step Key}
  {s s' : Runner.State Key Table Violation} {b b' : State Table}
  {env : Runner.Env Key Table Violation} {engine : Engine Table}
  {sampledTables : Key → Option Table}

theorem foldl_release {name : Key} {refs : List Key} (h : name ∉ refs)
    (x : Dict Key Table × Dict Key Int) :
    refs.foldl release x = refs.foldl (Runner.consume name) x := by
  induction refs generalizing x with
  | nil => rfl
  | cons ref refs ih =>
    obtain ⟨hne, hrest⟩ := List.ne_and_not_mem_of_not_mem_cons h
    have hone : release x ref = Runner.consume name x ref := by
      unfold release Runner.consume
      cases x.2.get? ref with
      | none => rfl
      | some n => simp only [ne_eq, Ne.symm hne, not_false_eq_true, and_true]
    rw [List.foldl_cons, List.foldl_cons, ih hrest, hone]

theorem mapM_hashed {vs : List Node} {ks : List Key} (h : vs.mapM Node.toKey = some ks) :
    vs.mapM hashed = .ok ks := by
  rw [mapM_some_iff] at h
  rw [mapM_ok_iff]
  refine h.imp ?_
  intro v k hk
  rw [hashed, hk]

theorem hashed_ok {v : Node} {k : Key} (h : hashed v = .ok k) : v.toKey = some k := by
  unfold hashed at h
  split at h
  · next hk =>
    cases h
    exact hk
  · cases h

theorem releaseDependencies_eq (hr : Reads saves step r) (b : State Table) :
    ∃ b', releaseDependencies step b = .ok b' := by
  rw [releaseDependencies, mapM_hashed hr.dependencies]
  exact ⟨_, rfl⟩

theorem releaseDependencies_ok (hr : Reads saves step r)
    (h : releaseDependencies step b = .ok b') :
    (b'.tableRegistry, b'.downstreamCounts) =
      (Runner.stepInputs r).foldl (Runner.consume r.name) (b.tableRegistry, b.downstreamCounts) := by
  rw [releaseDependencies, mapM_hashed hr.dependencies] at h
  cases h
  exact foldl_release hr.own _

theorem store_eq (hr : Reads saves step r) (table : Table) (b : State Table) :
    store step table b = .ok
      { b with tableRegistry := b.tableRegistry.set r.name table, lastResult := some table } := by
  rw [store, hashed, hr.name]
  rfl

theorem store_ok (hr : Reads saves step r) {table : Table} (h : store step table b = .ok b') :
    b' = { b with tableRegistry := b.tableRegistry.set r.name table, lastResult := some table } :=
  (Except.ok.inj ((store_eq hr table b).symm.trans h)).symm

/-- What the registry of the sandbox takes in: the output, except of a save. -/
def Takes (step : StepConfig) (name : Key) (before after : Dict Key Table) : Prop :=
  if isSave step then after = before else ∃ table, after = before.set name table

/-- All that one turn of the sandbox's loop does to the registry and the counts. -/
theorem sandbox_step (hr : Reads saves step r)
    (h : loopBody engine sampledTables b step = .ok b') :
    ∃ registry, Takes step r.name b.tableRegistry registry ∧
      (b'.tableRegistry, b'.downstreamCounts) =
        (Runner.stepInputs r).foldl (Runner.consume r.name) (registry, b.downstreamCounts) := by
  unfold loopBody at h
  split at h
  · next htype =>
    have hsave : ¬ isSave step = true := by
      rw [isSave, htype]
      exact Bool.false_ne_true
    obtain ⟨fileId, -, h⟩ := bind_ok h
    split at h
    · cases h
    · next table _ =>
      rw [store_ok hr h]
      refine ⟨b.tableRegistry.set r.name table, ?_, ?_⟩
      · rw [Takes, if_neg hsave]
        exact ⟨table, rfl⟩
      · have hdeps := hr.dependencies
        rw [stepDependencies, htype] at hdeps
        rw [← Option.some.inj hdeps]
        rfl
  · next htype =>
    obtain ⟨k, -, h⟩ := bind_ok h
    refine ⟨b.tableRegistry, ?_, ?_⟩
    · rw [Takes, if_pos (by rw [isSave, htype])]
    · exact (releaseDependencies_ok hr h :)
  · next hload hsave =>
    obtain ⟨table, -, h⟩ := bind_ok h
    obtain ⟨c, hstore, h⟩ := bind_ok h
    rw [store_ok hr hstore] at h
    refine ⟨b.tableRegistry.set r.name table, ?_, releaseDependencies_ok hr h⟩
    have hnot : ¬ isSave step = true := by
      unfold isSave
      split
      · next htype => exact absurd htype hsave
      · exact Bool.false_ne_true
    rw [Takes, if_neg hnot]
    exact ⟨table, rfl⟩

/-! ### Both loops in lockstep -/

/-- The counts agree, and the sandbox has the tables of the runner except those of saves. -/
structure Sim (saves : List Key) (s : Runner.State Key Table Violation) (b : State Table) :
    Prop where
  counts : ∀ k, b.downstreamCounts.get? k = s.remaining.get? k
  tables : ∀ k, (b.tableRegistry.get? k).isSome ↔ (s.tableRegistry.get? k).isSome ∧ k ∉ saves

theorem takes_tables (hr : Reads saves step r) {registry before after : Dict Key Table}
    (table : Table) (htakes : Takes step r.name before after)
    (h : ∀ k, (before.get? k).isSome ↔ (registry.get? k).isSome ∧ k ∉ saves) (k : Key) :
    (after.get? k).isSome ↔ ((registry.set r.name table).get? k).isSome ∧ k ∉ saves := by
  unfold Takes at htakes
  split at htakes
  · next hsave =>
    subst htakes
    rw [h k, Dict.get?_set]
    by_cases hk : k = r.name
    · subst hk
      simp [hr.save.mpr hsave]
    · rw [if_neg hk]
  · next hsave =>
    obtain ⟨table', rfl⟩ := htakes
    rw [Dict.get?_set, Dict.get?_set]
    by_cases hk : k = r.name
    · subst hk
      have hnot : r.name ∉ saves := fun hmem => hsave (hr.save.mp hmem)
      simp [hnot]
    · rw [if_neg hk, if_neg hk]
      exact h k

theorem sim_step {total index : Nat} (hr : Reads saves step r) (h : Sim saves s b)
    (hs : Runner.loopBody env total index r s = .ok s')
    (hb : loopBody engine sampledTables b step = .ok b') : Sim saves s' b' := by
  obtain ⟨result, -, hstore⟩ := loopBody_ok hs
  obtain ⟨registry, htakes, hrelease⟩ := sandbox_step hr hb
  rw [Runner.storeAndEvict] at hstore
  have hregistry := congrArg Prod.fst hstore
  have hremaining := congrArg Prod.snd hstore
  have hregistry' := congrArg Prod.fst hrelease
  have hcounts' := congrArg Prod.snd hrelease
  dsimp only at hregistry hremaining hregistry' hcounts'
  have htables := takes_tables hr result.outputTable htakes h.tables
  constructor
  · intro k
    rw [hremaining, hcounts', remaining_foldl_consume, remaining_foldl_consume, h.counts]
  · intro k
    rw [hregistry, hregistry', registry_foldl_consume, registry_foldl_consume, h.counts]
    split
    · simp
    · exact htables k

theorem sim_run {total index : Nat} {cs : List StepConfig} {rs : List (Runner.Step Key)}
    (hreads : List.Forall₂ (Reads saves) cs rs) (h : Sim saves s b)
    (hs : Runner.loop env total index rs s = .ok s')
    (hb : cs.foldlM (loopBody engine sampledTables) b = .ok b') : Sim saves s' b' := by
  induction hreads generalizing index s b with
  | nil =>
    cases hs
    cases hb
    exact h
  | cons hr _ ih =>
    obtain ⟨b₁, hb₁, hb⟩ := foldlM_cons_ok_iff.mp hb
    obtain ⟨s₁, hs₁, hs⟩ := bind_ok hs
    exact ih (sim_step hr h hs₁ hb₁) hs hb

/-- Both count the reads of every reference before the first step. -/
theorem dependencyCounts_eq {cs : List StepConfig} {rs : List (Runner.Step Key)}
    (hreads : List.Forall₂ (Reads saves) cs rs) :
    dependencyCounts cs = .ok (Runner.computeConsumerCounts rs) := by
  have hone : ∀ (vs : List Node) (ks : List Key) (counts : Dict Key Int),
      vs.mapM Node.toKey = some ks →
      vs.foldlM countDependency counts = .ok (ks.foldl Runner.countInput counts) := by
    intro vs ks counts h
    rw [mapM_some_iff] at h
    induction h generalizing counts with
    | nil => rfl
    | cons hk _ ih =>
      rw [List.foldlM_cons, countDependency, hashed, hk]
      exact ih _
  have hall : ∀ counts : Dict Key Int, (cs.flatMap stepDependencies).foldlM countDependency counts =
      .ok ((rs.flatMap Runner.stepInputs).foldl Runner.countInput counts) := by
    induction hreads with
    | nil => exact fun _ => rfl
    | cons hr _ ih =>
      intro counts
      rw [List.flatMap_cons, List.foldlM_append, hone _ _ _ hr.dependencies, List.flatMap_cons,
        List.foldl_append]
      exact ih _
  rw [dependencyCounts, hall, Runner.computeConsumerCounts, List.foldl_flatMap]

theorem sim_stateBefore {steps : List (Runner.Step Key)} {config : PipelineConfig} {i : Nat}
    (hreads : List.Forall₂ (Reads saves) config.steps steps)
    (hs : Runner.stateBefore env steps i = .ok s)
    (hb : stateBefore engine sampledTables config.steps i = .ok b) : Sim saves s b := by
  rw [stateBefore, dependencyCounts_eq hreads] at hb
  refine sim_run (List.forall₂_take i hreads) ?_ hs hb
  exact ⟨fun _ => rfl, fun k => by simp [Runner.initial]⟩

theorem sandbox_stateBefore_succ {cs : List StepConfig} (hi : i < cs.length) :
    stateBefore engine sampledTables cs (i + 1) =
      stateBefore engine sampledTables cs i >>= fun b => loopBody engine sampledTables b cs[i] := by
  rw [stateBefore, stateBefore, bind_assoc, List.take_succ_eq_append_getElem hi]
  congr 1
  funext counts
  rw [List.foldlM_append]
  congr 1
  funext b
  exact List.foldlM_cons.trans (bind_pure _)

end PipelineIQ.Healing.Lockstep
