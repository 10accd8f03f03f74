import PipelineIQ.Api.Contracts
import PipelineIQ.Contracts.FailClosed
import PipelineIQ.Lifecycle.Absorbing
import PipelineIQ.Scheduling.Scheduler

namespace PipelineIQ.Contracts.Tenancy

open PipelineIQ.Lib PipelineIQ.Lib.Strings PipelineIQ.Lib.Traverse PipelineIQ.Lib.Yaml PipelineIQ.Models PipelineIQ.Contracts.Validator
open PipelineIQ.Api.Pipelines (PipelinePermission)
open PipelineIQ.Lifecycle.Actors (Summary persistResults hasContractViolations)
open PipelineIQ.Lifecycle.Absorbing (exists_persistResults)
open PipelineIQ.Scheduling.Scheduler (PipelineSchedule)

abbrev ContractRow := Api.Contracts.PipelineContract

/-- What the end of a run reads of the database. Every contract has a creator. -/
structure Db (Cron : Type) where
  users : List User
  permissions : List PipelinePermission := []
  contracts : List ContractRow := []
  schedules : List (PipelineSchedule Cron) := []
  creators : ∀ c ∈ contracts, ∃ u ∈ users, u.id = c.userId

structure StepExecutionResult (Cell : Type) where
  stepName : String
  stepType : String
  outputTable : Option (Table Cell)
  contractViolations : List ContractViolation := []

/-- A run at its end: its row as it is read again, and the summary of its execution. -/
structure Run (Cell : Type) where
  name : String
  userId : String
  loaded : PipelineStatus
  appliedAttempts : Nat := 0
  status : Pipeline.Runner.PipelineStatus
  stepResults : List (StepExecutionResult Cell)

/-- What the check takes from elsewhere: the kernels of the validator, the YAML reader, the
database's order by descending version, and the publishing of an event, which may raise. The calls
of `utcnow` in one check are taken to answer one time. -/
structure Environment (Cell Double : Type) where
  kernels : Kernels Cell Double
  load : String → Loaded
  load_empty : load "{}" = .document (.map [])
  load_entry : load "a: 1" = .document (.map [(key "a", .int 1)])
  byVersion : List ContractRow → List ContractRow
  byVersion_perm : ∀ contracts, (byVersion contracts).Perm contracts
  byVersion_sorted : ∀ contracts, (byVersion contracts).Pairwise fun c c' => c'.version ≤ c.version
  publishes : ContractViolation → Bool
  utcnow : Nat

structure ContractViolationRecord where
  stepName : String
  stepIndex : Nat
  stepType : String
  violation : ContractViolation

/-- What is in the database at the end of a run. -/
structure Outcome (Cron : Type) where
  status : PipelineStatus
  violations : List ContractViolationRecord
  schedules : List (PipelineSchedule Cron)

/-! ### The end of a run -/

section Persist

variable {Cell Double Cron : Type} [DecidableEq Cell] (env : Environment Cell Double)

def Run.summary (run : Run Cell) : Summary Unit ContractViolation where
  status := run.status
  contractViolations := run.stepResults.map StepExecutionResult.contractViolations

/-- The violations that the steps themselves have found. -/
def inlineViolations (run : Run Cell) : List ContractViolationRecord :=
  run.stepResults.zipIdx.flatMap fun (result, idx) => result.contractViolations.map fun v =>
    { stepName := result.stepName, stepIndex := idx, stepType := result.stepType, violation := v }

def activeContract (db : Db Cron) (pipelineName : String) : Option ContractRow :=
  (env.byVersion (db.contracts.filter fun c =>
    decide (c.pipelineName = pipelineName) && c.isActive)).head?

def severity : Api.Contracts.ContractSeverity → ContractSeverity
  | .WARN => .WARN
  | .BLOCK => .BLOCK

def read (c : ContractRow) : PipelineContract where
  yamlContent := env.load c.yamlContent
  severity := severity c.severity
  consumers := c.consumers.map String.toList

/-- The violations of a contract by the output of a run; none where the validation raises. -/
def foundViolations (run : Run Cell) (c : ContractRow) : List ContractViolation :=
  (run.stepResults.getLast?.bind fun final =>
    validateAgainstContract env.kernels final.outputTable (env.load c.yamlContent)).elim []
      ContractValidationResult.violations

/-- The loop that stores and publishes violations, and whether it gets to its end. -/
def storeViolations : List ContractViolation → List ContractViolation × Bool
  | [] => ([], true)
  | v :: violations =>
    if env.publishes v then
      ((v :: (storeViolations violations).1), (storeViolations violations).2)
    else ([v], false)

def record (run : Run Cell) (final : StepExecutionResult Cell) (v : ContractViolation) :
    ContractViolationRecord where
  stepName := final.stepName
  stepIndex := run.stepResults.length - 1
  stepType := final.stepType
  violation := v

def postRunViolations (run : Run Cell) (contract : Option ContractRow) :
    List ContractViolationRecord :=
  match run.stepResults.getLast?, contract with
  | some final, some c => (storeViolations env (foundViolations env run c)).1.map (record run final)
  | _, _ => []

def blockSchedule (schedule : PipelineSchedule Cron) : PipelineSchedule Cron :=
  { schedule with
    nextRunAt := some (env.utcnow + 3600), lastRunStatus := some "BLOCKED_BY_CONTRACT" }

def blockConsumer (schedules : List (PipelineSchedule Cron)) (consumer : Text) :
    List (PipelineSchedule Cron) :=
  schedules.map fun schedule =>
    if schedule.pipelineName.toList = consumer ∧ schedule.isActive then blockSchedule env schedule
    else schedule

def blockDownstreamSchedules (schedules : List (PipelineSchedule Cron)) (consumers : List Text) :
    List (PipelineSchedule Cron) :=
  consumers.foldl (blockConsumer env) schedules

def enforce (db : Db Cron) (run : Run Cell) (assigned : PipelineStatus) : Enforced :=
  let contract := activeContract env db run.name
  checkAndEnforceContract env.kernels true
    (contract.all fun c => (storeViolations env (foundViolations env run c)).2)
    (contract.map (read env)) (run.stepResults.map StepExecutionResult.outputTable) assigned

/-- `_persist_results`, as far as contracts are concerned. -/
def persist (db : Db Cron) (run : Run Cell) : Outcome Cron :=
  match persistResults run.loaded run.summary run.appliedAttempts none with
  | none =>
    { status := run.loaded, violations := inlineViolations run, schedules := db.schedules }
  | some assigned =>
    { status := (enforce env db run assigned).status
      violations := inlineViolations run ++ postRunViolations env run (activeContract env db run.name)
      schedules := blockDownstreamSchedules env db.schedules (enforce env db run assigned).blocked }

/-! ### Tenancy -/

/-- The user of the run, an administrator, or a user with a permission on its pipeline. -/
def permitted (db : Db Cron) (run : Run Cell) (userId : String) : Bool :=
  decide (userId = run.userId) ||
  db.users.any (fun u => decide (u.id = userId ∧ u.role = "admin")) ||
  db.permissions.any fun p => decide (p.pipelineName = run.name ∧ p.userId = userId)

/-- Two databases differ at most in the contracts of users without permission on the pipeline. -/
structure Agree (db db' : Db Cron) (run : Run Cell) : Prop where
  users : db'.users = db.users
  permissions : db'.permissions = db.permissions
  schedules : db'.schedules = db.schedules
  contracts : (db'.contracts.filter fun c => permitted db run c.userId) =
    db.contracts.filter fun c => permitted db run c.userId

structure Tenant (db : Db Cron) (run : Run Cell) : Prop where
  independent : ∀ db', Agree db db' run → persist env db' run = persist env db run
  own : ∀ (i : Nat) (s s' : PipelineSchedule Cron), db.schedules[i]? = some s →
    (persist env db run).schedules[i]? = some s' → s' ≠ s → s.userId = run.userId

/-- No contract is looked at. -/
def Unchecked (run : Run Cell) : Prop := run.loaded = .CANCELLED ∨ run.stepResults = []

/-- The output of a run breaches a contract that blocks it. -/
structure Blocks (run : Run Cell) (c : ContractRow) : Prop where
  severity : c.severity = .BLOCK
  completed : run.status = .COMPLETED
  inline : ∀ result ∈ run.stepResults, result.contractViolations = []
  error : ∃ v ∈ foundViolations env run c, v.severity = "error"
  published : ∀ v ∈ foundViolations env run c, env.publishes v = true

/-- Everyone has permission on the pipeline, and a contract that blocks the run names only consumers
whose schedules are the user's own, or are blocked already. -/
structure Closed (db : Db Cron) (run : Run Cell) : Prop where
  users : ∀ u ∈ db.users, permitted db run u.id = true
  consumers : ∀ c ∈ activeContract env db run.name, Blocks env run c →
    ∀ s ∈ db.schedules, s.isActive = true → s.pipelineName ∈ c.consumers →
      blockSchedule env s ≠ s → s.userId = run.userId

end Persist

/-! ### What the check does -/

section Check

variable {Cell Double Cron : Type} {env : Environment Cell Double} {run : Run Cell}
  {assigned : PipelineStatus}

theorem blockDownstreamSchedules_eq (consumers : List Text) (schedules : List (PipelineSchedule Cron)) :
    blockDownstreamSchedules env schedules consumers = schedules.map fun schedule =>
      if schedule.pipelineName.toList ∈ consumers ∧ schedule.isActive = true then
        blockSchedule env schedule
      else schedule := by
  induction consumers generalizing schedules with
  | nil => simp [blockDownstreamSchedules]
  | cons consumer consumers ih =>
    change blockDownstreamSchedules env (blockConsumer env schedules consumer) consumers = _
    rw [ih, blockConsumer, List.map_map]
    refine List.map_congr_left fun schedule _ => ?_
    by_cases hactive : schedule.isActive = true
    · by_cases hname : schedule.pipelineName.toList = consumer
      · by_cases hin : consumer ∈ consumers
        · simp [Function.comp, hactive, hname, blockSchedule, hin]
        · simp [Function.comp, hactive, hname, blockSchedule, hin]
      · simp [Function.comp, hactive, hname]
    · simp [Function.comp, hactive]

theorem storeViolations_completes_iff {violations : List ContractViolation} :
    (storeViolations env violations).2 = true ↔ ∀ v ∈ violations, env.publishes v = true := by
  induction violations with
  | nil => simp [storeViolations]
  | cons v violations ih =>
    rw [storeViolations, List.forall_mem_cons]
    by_cases hv : env.publishes v = true
    · rw [if_pos hv, ih]
      exact (and_iff_right hv).symm
    · rw [if_neg hv]
      exact iff_of_false Bool.false_ne_true fun h => hv h.1

/-- What is stored was found. -/
theorem storeViolations_subset {violations : List ContractViolation} {v : ContractViolation}
    (h : v ∈ (storeViolations env violations).1) : v ∈ violations := by
  induction violations with
  | nil => exact h
  | cons w violations ih =>
    rw [storeViolations] at h
    split at h
    · rcases List.mem_cons.mp h with rfl | h
      · exact List.mem_cons_self
      · exact List.mem_cons_of_mem w (ih h)
    · rw [List.mem_singleton.mp h]
      exact List.mem_cons_self

/-- The first violation is stored in any case. -/
theorem storeViolations_singleton (v : ContractViolation) :
    (storeViolations env [v]).1 = [v] := by
  rw [storeViolations]
  split <;> rfl

/-- A run is not failed and has no violation of its own yet. -/
theorem open_iff (h : persistResults run.loaded run.summary run.appliedAttempts none = some assigned) :
    assigned ∉ [PipelineStatus.CONTRACT_VIOLATION, .FAILED] ↔
      run.status = .COMPLETED ∧ ∀ result ∈ run.stepResults, result.contractViolations = [] := by
  have hinline : hasContractViolations run.summary = true ↔
      ¬ ∀ result ∈ run.stepResults, result.contractViolations = [] := by
    simp [hasContractViolations, Run.summary]
  rw [persistResults] at h
  dsimp only [Lifecycle.Actors.checkAndEnforceContract] at h
  split at h
  · cases h
  · split at h
    next hcompleted =>
      change run.status = .COMPLETED at hcompleted
      cases h
      by_cases hv : hasContractViolations run.summary = true
      · rw [if_pos hv]
        exact iff_of_false (by decide) fun h => hinline.mp hv h.2
      · rw [if_neg hv]
        refine iff_of_true ?_ ⟨hcompleted, not_not.mp fun h => hv (hinline.mpr h)⟩
        split <;> decide
    next hcompleted =>
      cases h
      exact iff_of_false (by decide) fun h => hcompleted h.1

theorem shouldBlockRun_iff {validation : ContractValidationResult}
    (hpassed : validation.passed = false) {severity : ContractSeverity} :
    (buildBreachReport validation severity.value).shouldBlockRun = true ↔
      severity = .BLOCK ∧ ∃ v ∈ validation.violations, v.severity = "error" := by
  rw [buildBreachReport, hpassed]
  cases severity with
  | WARN => simp [ContractSeverity.value]
  | BLOCK => simp [ContractSeverity.value, List.countP_pos_iff]

variable [DecidableEq Cell] {db db' : Db Cron}

theorem violations_of_passed {outputTable : Option (Table Cell)} {yaml : Loaded}
    {validation : ContractValidationResult}
    (h : validateAgainstContract env.kernels outputTable yaml = some validation) :
    validation.passed = validation.violations.isEmpty := by
  obtain ⟨contract, -, h⟩ := Option.bind_eq_some_iff.mp h
  split at h
  · cases h
    rfl
  · split at h
    · cases h
      rfl
    · obtain ⟨violations, -, rfl⟩ := Option.map_eq_some_iff.mp h
      rfl

/-- The consumers whose schedules are moved are those of a contract that blocks the run. -/
theorem mem_blocked_iff {consumer : Text}
    (h : persistResults run.loaded run.summary run.appliedAttempts none = some assigned) :
    consumer ∈ (enforce env db run assigned).blocked ↔ ∃ c ∈ activeContract env db run.name,
      Blocks env run c ∧ consumer ∈ c.consumers.map String.toList := by
  unfold enforce checkAndEnforceContract
  cases hactive : activeContract env db run.name with
  | none => simp
  | some c =>
    rw [List.getLast?_map]
    simp only [Option.mem_some_iff, exists_eq_left', Option.all_some, Option.map_some,
      Bool.not_true, Bool.false_eq_true, if_false]
    cases hlast : run.stepResults.getLast? with
    | none =>
      refine iff_of_false (by simp) ?_
      rintro ⟨⟨-, -, -, ⟨v, hv, -⟩, -⟩, -⟩
      simp [foundViolations, hlast] at hv
    | some final =>
      have hfound : ∀ validation, validateAgainstContract env.kernels final.outputTable
          (env.load c.yamlContent) = some validation →
            foundViolations env run c = validation.violations := by
        intro validation hvalidation
        rw [foundViolations, hlast, Option.bind_some, hvalidation]
        rfl
      simp only [Option.map_some, read]
      cases hvalidation : validateAgainstContract env.kernels final.outputTable
          (env.load c.yamlContent) with
      | none =>
        refine iff_of_false (by simp) ?_
        rintro ⟨⟨-, -, -, ⟨v, hv, -⟩, -⟩, -⟩
        rw [foundViolations, hlast, Option.bind_some, hvalidation] at hv
        cases hv
      | some validation =>
        have hviolations := hfound validation hvalidation
        dsimp only
        by_cases hpassed : validation.passed = true
        · rw [if_pos hpassed]
          refine iff_of_false (by simp) ?_
          rintro ⟨⟨-, -, -, ⟨v, hv, -⟩, -⟩, -⟩
          rw [violations_of_passed hvalidation, List.isEmpty_iff] at hpassed
          rw [hviolations, hpassed] at hv
          cases hv
        · rw [if_neg hpassed]
          rw [Bool.not_eq_true] at hpassed
          by_cases hstored : (storeViolations env (foundViolations env run c)).2 = true
          · rw [hstored]
            by_cases hopen : assigned ∉ [PipelineStatus.CONTRACT_VIOLATION, .FAILED]
            · obtain ⟨hcompleted, hinline⟩ := (open_iff h).mp hopen
              rw [Bool.not_true, if_neg Bool.false_ne_true, if_neg hopen]
              by_cases hblock : (buildBreachReport validation
                  (severity c.severity).value).shouldBlockRun = true
              · rw [if_pos hblock]
                obtain ⟨hseverity, herror⟩ := (shouldBlockRun_iff hpassed).mp hblock
                rw [← hviolations] at herror
                have hrow : c.severity = .BLOCK := by
                  cases hc : c.severity with
                  | WARN =>
                    rw [hc] at hseverity
                    cases hseverity
                  | BLOCK => rfl
                exact (and_iff_right ⟨hrow, hcompleted, hinline, herror,
                  storeViolations_completes_iff.mp hstored⟩).symm
              · rw [if_neg hblock]
                refine iff_of_false (by simp) ?_
                rintro ⟨⟨hseverity, -, -, herror, -⟩, -⟩
                rw [hviolations] at herror
                refine hblock ((shouldBlockRun_iff hpassed).mpr ⟨?_, herror⟩)
                rw [hseverity]
                rfl
            · rw [not_not] at hopen
              rw [Bool.not_true, if_neg Bool.false_ne_true, if_pos hopen]
              refine iff_of_false (by simp) ?_
              rintro ⟨hblocks, -⟩
              exact (open_iff h).mpr ⟨hblocks.completed, hblocks.inline⟩ hopen
          · rw [Bool.not_eq_true] at hstored
            rw [hstored, Bool.not_false, if_pos rfl]
            refine iff_of_false (by simp) ?_
            rintro ⟨hblocks, -⟩
            rw [storeViolations_completes_iff.mpr hblocks.published] at hstored
            cases hstored

end Check

/-! ### Independence -/

section Independence

variable {Cell Double Cron : Type} [DecidableEq Cell] {env : Environment Cell Double}
  {run : Run Cell} {db db' : Db Cron}

omit [DecidableEq Cell] in
theorem persistResults_eq_none (h : run.loaded = .CANCELLED) :
    persistResults run.loaded run.summary run.appliedAttempts none = none := by
  rw [persistResults, if_pos h]

theorem persist_of_unchecked (h : Unchecked run) : persist env db run =
    { status := (persistResults run.loaded run.summary run.appliedAttempts none).getD run.loaded
      violations := inlineViolations run
      schedules := db.schedules } := by
  unfold persist
  cases hassigned : persistResults run.loaded run.summary run.appliedAttempts none with
  | none => rfl
  | some assigned =>
    have hempty : run.stepResults = [] := by
      rcases h with h | h
      · rw [persistResults_eq_none h] at hassigned
        cases hassigned
      · exact h
    have henforce : enforce env db run assigned = { status := assigned } := by
      unfold enforce checkAndEnforceContract
      rw [hempty]
      cases activeContract env db run.name <;> rfl
    have hpost : postRunViolations env run (activeContract env db run.name) = [] := by
      unfold postRunViolations
      rw [hempty]
      rfl
    dsimp only
    rw [henforce, hpost, List.append_nil]
    rfl

theorem tenant_of_unchecked (h : Unchecked run) : Tenant env db run where
  independent := by
    intro db' hagree
    rw [persist_of_unchecked h, persist_of_unchecked h, hagree.schedules]
  own := by
    intro i s s' hs hs' hne
    rw [persist_of_unchecked h] at hs'
    rw [hs] at hs'
    cases hs'
    exact absurd rfl hne

omit [DecidableEq Cell] in
/-- Where everyone has permission, no contract is anyone else's. -/
theorem Agree.eq (h : Agree db db' run) (hall : ∀ u ∈ db.users, permitted db run u.id = true) :
    db' = db := by
  have hself : ∀ contracts : List ContractRow, (∀ c ∈ contracts, ∃ u ∈ db.users, u.id = c.userId) →
      (contracts.filter fun c => permitted db run c.userId) = contracts := by
    intro contracts hcreators
    refine List.filter_eq_self.mpr fun c hc => ?_
    obtain ⟨u, hu, hid⟩ := hcreators c hc
    rw [← hid]
    exact hall u hu
  have hcontracts := h.contracts
  rw [hself _ db.creators, hself _ (h.users ▸ db'.creators)] at hcontracts
  obtain ⟨users, permissions, contracts, schedules, creators⟩ := db
  obtain ⟨users', permissions', contracts', schedules', creators'⟩ := db'
  obtain ⟨rfl, rfl, rfl, -⟩ := h
  cases hcontracts
  rfl

/-- A schedule that a checked run changes is an active one of a consumer of its contract. -/
theorem own_iff {assigned : PipelineStatus}
    (h : persistResults run.loaded run.summary run.appliedAttempts none = some assigned) :
    (∀ (i : Nat) (s s' : PipelineSchedule Cron), db.schedules[i]? = some s →
        (persist env db run).schedules[i]? = some s' → s' ≠ s → s.userId = run.userId) ↔
      ∀ c ∈ activeContract env db run.name, Blocks env run c → ∀ s ∈ db.schedules,
        s.isActive = true → s.pipelineName ∈ c.consumers → blockSchedule env s ≠ s →
          s.userId = run.userId := by
  have hschedules : (persist env db run).schedules = db.schedules.map fun schedule =>
      if schedule.pipelineName.toList ∈ (enforce env db run assigned).blocked ∧
          schedule.isActive = true then blockSchedule env schedule else schedule := by
    rw [persist, h]
    exact blockDownstreamSchedules_eq _ _
  have hconsumer : ∀ (name : String) (c : ContractRow),
      name.toList ∈ c.consumers.map String.toList ↔ name ∈ c.consumers := by
    intro name c
    exact List.mem_map_of_injective fun _ _ => String.toList_injective
  rw [hschedules]
  constructor
  · intro hown c hc hblocks s hs hactive hname hne
    obtain ⟨i, hi⟩ := List.mem_iff_getElem?.mp hs
    refine hown i s (blockSchedule env s) hi ?_ hne
    rw [List.getElem?_map, hi, Option.map_some, if_pos]
    exact ⟨(mem_blocked_iff h).mpr ⟨c, hc, hblocks, (hconsumer _ _).mpr hname⟩, hactive⟩
  · intro hclosed i s s' hs hs' hne
    rw [List.getElem?_map, hs, Option.map_some, Option.some_inj] at hs'
    split at hs'
    next hmoved =>
      obtain ⟨c, hc, hblocks, hname⟩ := (mem_blocked_iff h).mp hmoved.1
      subst hs'
      exact hclosed c hc hblocks s (List.mem_of_getElem? hs) hmoved.2 ((hconsumer _ _).mp hname) hne
    next => exact absurd hs'.symm hne

theorem tenant_of_closed (h : Closed env db run) : Tenant env db run := by
  by_cases hcancelled : run.loaded = .CANCELLED
  · exact tenant_of_unchecked (.inl hcancelled)
  · obtain ⟨assigned, hassigned⟩ :=
      exists_persistResults hcancelled run.summary run.appliedAttempts none
    refine ⟨?_, (own_iff hassigned).mpr h.consumers⟩
    intro db' hagree
    rw [hagree.eq h.users]

/-! A contract of a user without permission -/

omit [DecidableEq Cell] in
theorem activeContract_newest {c : ContractRow} (hmem : c ∈ db.contracts)
    (hname : c.pipelineName = run.name) (hactive : c.isActive = true)
    (hnewest : ∀ c' ∈ db.contracts, c' ≠ c → c'.version < c.version) :
    activeContract env db run.name = some c := by
  unfold activeContract
  have hc : c ∈ db.contracts.filter fun c =>
      decide (c.pipelineName = run.name) && c.isActive :=
    List.mem_filter.mpr ⟨hmem, by simp [hname, hactive]⟩
  have hsub : ∀ c' ∈ env.byVersion (db.contracts.filter fun c =>
      decide (c.pipelineName = run.name) && c.isActive), c' ∈ db.contracts := by
    intro c' hc'
    exact List.mem_of_mem_filter ((env.byVersion_perm _).mem_iff.mp hc')
  rw [← (env.byVersion_perm _).mem_iff] at hc
  have hsorted := env.byVersion_sorted (db.contracts.filter fun c =>
    decide (c.pipelineName = run.name) && c.isActive)
  cases hlist : env.byVersion (db.contracts.filter fun c =>
      decide (c.pipelineName = run.name) && c.isActive) with
  | nil =>
    rw [hlist] at hc
    cases hc
  | cons first rest =>
    rw [hlist] at hc hsorted hsub
    by_cases hfirst : first = c
    · rw [hfirst]
      rfl
    · rcases List.mem_cons.mp hc with hc | hc
      · exact absurd hc.symm hfirst
      · have hle := List.rel_of_pairwise_cons hsorted hc
        have hlt := hnewest first (hsub first List.mem_cons_self) hfirst
        exact absurd hle (Nat.not_le_of_gt hlt)

/-- The only contract of a user, newer than any other. -/
def intruder (db : Db Cron) (run : Run Cell) (userId yamlContent : String) : ContractRow where
  id := (db.contracts.map Api.Contracts.PipelineContract.id).max?.getD 0 + 1
  pipelineName := run.name
  version := (db.contracts.map Api.Contracts.PipelineContract.version).max?.getD 0 + 1
  yamlContent := yamlContent
  severity := .WARN
  consumers := []
  userId := userId

def intrude (db : Db Cron) (run : Run Cell) (u : {u : User // u ∈ db.users}) (yamlContent : String) :
    Db Cron :=
  { db with
    contracts := (db.contracts.filter fun c => permitted db run c.userId) ++
      [intruder db run u.1.id yamlContent]
    creators := by
      intro c hc
      rcases List.mem_append.mp hc with hc | hc
      · exact db.creators c (List.mem_of_mem_filter hc)
      · rw [List.mem_singleton.mp hc]
        exact ⟨u.1, u.2, rfl⟩ }

omit [DecidableEq Cell] in
theorem agree_intrude {u : {u : User // u ∈ db.users}} (hu : permitted db run u.1.id = false)
    (yamlContent : String) : Agree db (intrude db run u yamlContent) run where
  users := rfl
  permissions := rfl
  schedules := rfl
  contracts := by
    have hintruder : permitted db run (intruder db run u.1.id yamlContent).userId = false := hu
    dsimp only [intrude]
    rw [List.filter_append, List.filter_filter, List.filter_cons_of_neg (by rw [hintruder]; decide)]
    simp

omit [DecidableEq Cell] in
theorem activeContract_intrude (u : {u : User // u ∈ db.users}) (yamlContent : String) :
    activeContract env (intrude db run u yamlContent) run.name =
      some (intruder db run u.1.id yamlContent) := by
  refine activeContract_newest (List.mem_append_right _ List.mem_cons_self) rfl rfl ?_
  intro c hc hne
  rcases List.mem_append.mp hc with hc | hc
  · have hmem := List.mem_map_of_mem (f := Api.Contracts.PipelineContract.version)
      (List.mem_of_mem_filter hc)
    exact Nat.lt_succ_of_le (List.le_max?_getD_of_mem hmem)
  · exact absurd (List.mem_singleton.mp hc) hne

theorem foundViolations_empty {c : ContractRow} {final : StepExecutionResult Cell}
    (hlast : run.stepResults.getLast? = some final) (hyaml : c.yamlContent = "{}") :
    foundViolations env run c = [parseError] := by
  rw [foundViolations, hlast, Option.bind_some, hyaml, env.load_empty]
  rfl

theorem checks_entry (table : Table Cell) :
    checks env.kernels table [(key "a", .int 1)] = some (unexpectedColumns table []) := by
  have hmissing : ∀ (name : String) (node : Node), key name ≠ key "a" →
      Entries.getD [(key "a", .int 1)] (key name) node = node := by
    intro name node hne
    unfold Entries.getD
    rw [Dict.find, if_neg hne.symm]
    rfl
  have hcolumns : mapping [(key "a", .int 1)] "columns" = some [] := by
    unfold mapping
    rw [hmissing _ _ (by decide)]
    rfl
  have hthresholds : mapping [(key "a", .int 1)] "null_thresholds" = some [] := by
    unfold mapping
    rw [hmissing _ _ (by decide)]
    rfl
  unfold checks
  rw [hcolumns, hthresholds, hmissing _ _ (by decide), hmissing _ _ (by decide)]
  simp [collect, checkMinRows, checkMaxRows, checkRows]

theorem foundViolations_entry {c : ContractRow} (hyaml : c.yamlContent = "a: 1") :
    ∀ v ∈ foundViolations env run c, v.rule ≠ "parse_error" := by
  intro v hv
  unfold foundViolations at hv
  cases hlast : run.stepResults.getLast? with
  | none =>
    rw [hlast] at hv
    cases hv
  | some final =>
    rw [hlast, Option.bind_some, hyaml, env.load_entry] at hv
    unfold validateAgainstContract at hv
    rw [parseContract, Option.bind_some, if_neg (by decide)] at hv
    cases houtput : final.outputTable with
    | none =>
      rw [houtput] at hv
      rw [List.mem_singleton.mp hv]
      decide
    | some table =>
      rw [houtput] at hv
      dsimp only at hv
      rw [checks_entry] at hv
      obtain ⟨name, -, rfl⟩ := List.mem_map.mp hv
      dsimp only
      decide

/-- A user without permission can make two contracts that a checked run answers differently. -/
theorem not_independent (env : Environment Cell Double) {final : StepExecutionResult Cell}
    (hcancelled : run.loaded ≠ .CANCELLED)
    (hlast : run.stepResults.getLast? = some final) (u : {u : User // u ∈ db.users}) :
    (persist env (intrude db run u "{}") run).violations ≠
      (persist env (intrude db run u "a: 1") run).violations := by
  obtain ⟨assigned, hassigned⟩ :=
    exists_persistResults hcancelled run.summary run.appliedAttempts none
  intro heq
  unfold persist at heq
  rw [hassigned] at heq
  dsimp only at heq
  rw [activeContract_intrude, activeContract_intrude, List.append_cancel_left_eq] at heq
  unfold postRunViolations at heq
  rw [hlast] at heq
  dsimp only at heq
  rw [foundViolations_empty hlast rfl, storeViolations_singleton, List.map_singleton] at heq
  have hmem : record run final parseError ∈ (storeViolations env (foundViolations env run
      (intruder db run u.1.id "a: 1"))).1.map (record run final) := by
    rw [← heq]
    exact List.mem_singleton_self _
  obtain ⟨v, hv, hrecord⟩ := List.mem_map.mp hmem
  have hv' : v = parseError := congrArg ContractViolationRecord.violation hrecord
  refine foundViolations_entry rfl v (storeViolations_subset hv) ?_
  rw [hv']
  rfl

/-- What a run leaves behind is independent of the contracts of users without permission, and keeps
to the user's own schedules, exactly when no contract is looked at, or there are no such users and
no contract that blocks the run has a consumer with a schedule of another user. -/
theorem tenant_iff (env : Environment Cell Double) (db : Db Cron) (run : Run Cell) :
    Tenant env db run ↔ Unchecked run ∨ Closed env db run := by
  constructor
  · intro htenant
    by_cases hunchecked : Unchecked run
    · exact .inl hunchecked
    · obtain ⟨hcancelled, hresults⟩ := not_or.mp hunchecked
      obtain ⟨assigned, hassigned⟩ :=
        exists_persistResults hcancelled run.summary run.appliedAttempts none
      refine .inr ⟨?_, (own_iff hassigned).mp htenant.own⟩
      intro u hu
      by_contra hpermitted
      rw [Bool.not_eq_true] at hpermitted
      have hlast := List.getLast?_eq_some_getLast hresults
      refine not_independent env hcancelled hlast ⟨u, hu⟩ ?_
      rw [htenant.independent _ (agree_intrude hpermitted "{}"),
        htenant.independent _ (agree_intrude hpermitted "a: 1")]
  · rintro (h | h)
    · exact tenant_of_unchecked h
    · exact tenant_of_closed h

end Independence

section Examples

def environment : Environment String Nat where
  kernels := FailClosed.smallKernels
  load yaml := if yaml = "{}" then .document (.map [])
    else if yaml = "a: 1" then .document (.map [(key "a", .int 1)])
    else .yamlError
  load_empty := rfl
  load_entry := rfl
  byVersion := List.insertionSort fun c c' => c'.version ≤ c.version
  byVersion_perm := List.perm_insertionSort _
  byVersion_sorted contracts := by
    have : Std.Total fun c c' : ContractRow => c'.version ≤ c.version :=
      ⟨fun c c' => Nat.le_total c'.version c.version⟩
    have : IsTrans ContractRow fun c c' => c'.version ≤ c.version :=
      ⟨fun _ _ _ h h' => Nat.le_trans h' h⟩
    exact List.pairwise_insertionSort _ contracts
  publishes _ := true
  utcnow := 0

def ana : User := ⟨"ana", "admin"⟩

def bob : User := ⟨"bob", "user"⟩

def cleo : User := ⟨"cleo", "user"⟩

def billing : PipelineSchedule Unit where
  userId := "cleo"
  pipelineName := "billing"
  yamlConfig := ""
  cronExpression := ()
  isActive := true

def bobsContract : ContractRow where
  id := 0
  pipelineName := "sales"
  version := 1
  yamlContent := "{}"
  severity := .BLOCK
  consumers := ["billing"]
  userId := "bob"

def without : Db Unit where
  users := [ana, bob, cleo]
  schedules := [billing]
  creators _ hc := by cases hc

def squatted : Db Unit where
  users := [ana, bob, cleo]
  contracts := [bobsContract]
  schedules := [billing]
  creators := by
    intro c hc
    rw [List.mem_singleton.mp hc]
    exact ⟨bob, by decide, rfl⟩

def anasRun : Run String where
  name := "sales"
  userId := "ana"
  loaded := .RUNNING
  status := .COMPLETED
  stepResults := [⟨"totals", "aggregate", some FailClosed.output, []⟩]

/-- A user makes a contract on a name that is new, and later an administrator runs a pipeline of
this name: the contract decides how the run ends, and moves the schedule of a third user. -/
theorem squatted_contract_enforced :
    (Api.Contracts.createContract {} {} bob "sales" ⟨"{}", .BLOCK, ["billing"]⟩).toOption.map
        Api.Contracts.Db.contracts = some squatted.contracts ∧
      permitted squatted anasRun bob.id = false ∧
      (persist environment without anasRun).status = .COMPLETED ∧
      (persist environment squatted anasRun).status = .CONTRACT_VIOLATION ∧
      (persist environment squatted anasRun).schedules = [blockSchedule environment billing] ∧
      ¬ Tenant environment squatted anasRun := by
  refine ⟨by decide, by decide, rfl, rfl, rfl, ?_⟩
  intro h
  exact absurd (h.own 0 billing (blockSchedule environment billing) rfl rfl nofun) (by decide)

end Examples

end PipelineIQ.Contracts.Tenancy
