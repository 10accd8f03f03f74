import PipelineIQ.Api.Pipelines
import PipelineIQ.Lib.Machine

namespace PipelineIQ.Api.WritePermission

open PipelineIQ.Lib PipelineIQ.Models PipelineIQ.Pipeline.Versioning PipelineIQ.Api.Pipelines

variable {Yaml Steps : Type}

/-- The requests of users and the jobs they cause. -/
inductive Event (Yaml Steps : Type) where
  | runPipeline (user : User) (name : Option String) (yamlConfig : Yaml)
      (rejection : Option HTTPException)
  | createSchedule (user : User) (pipelineName : String) (yamlConfig : Yaml)
      (rejection : Option HTTPException)
  | toggleSchedule (user : User) (index : Nat)
  | fireSchedule (index : Nat)
  | healRun (index : Nat) (steps : Steps)
  | finishRun (index : Nat)
  | restoreVersion (user : User) (pipelineName : String) (versionNumber : Nat)
  | grantPermission (user : User) (pipelineName target : String) (level : PermissionLevel)
  | revokePermission (user : User) (pipelineName target : String)
  | createContract (contract : PipelineContract)

/-- The database with two records of the past: the write permissions checked and
held, and for every version row the user it was written for and its name. -/
structure World (Yaml : Type) where
  db : Db Yaml
  checks : List (String × String) := []
  authors : List (String × String) := []

def start : World Yaml := { db := {} }

def reply (w : World Yaml) (r : Reply Yaml) : World Yaml :=
  { w with db := r.db, checks := w.checks ++ r.checked }

def written (w : World Yaml) (userId : String) (result : Db Yaml × Option String) : World Yaml :=
  { w with
    db := result.1
    authors := w.authors ++ result.2.toList.map fun name => (userId, name) }

def step [DecidableEq Yaml] (env : Env Yaml Steps) (w : World Yaml) : Event Yaml Steps → Option (World Yaml)
  | .runPipeline user name yamlConfig rejection =>
    some (reply w (runPipeline env w.db user name yamlConfig rejection))
  | .createSchedule user pipelineName yamlConfig rejection =>
    some (reply w (createSchedule env w.db user pipelineName yamlConfig rejection))
  | .toggleSchedule user index => some (reply w (toggleSchedule w.db user index))
  | .fireSchedule index => some { w with db := fireSchedule w.db index }
  | .healRun index steps =>
    (w.db.runs[index]?).map fun run => written w run.userId (healRun env w.db index run steps)
  | .finishRun index =>
    (w.db.runs[index]?).map fun run => written w run.userId (saveVersionIfNeeded env w.db index run)
  | .restoreVersion user pipelineName versionNumber =>
    let result := restoreVersion w.db user pipelineName versionNumber
    some (written (reply w result.1) user.id (result.1.db, result.2))
  | .grantPermission user pipelineName target level =>
    some (reply w (grantPermission w.db user pipelineName target level))
  | .revokePermission user pipelineName target =>
    some (reply w (revokePermission w.db user pipelineName target))
  | .createContract contract =>
    some { w with db := { w.db with contracts := w.db.contracts ++ [contract] } }

/-- The name a request is checked under is the name in its YAML. -/
def SameName (env : Env Yaml Steps) : Event Yaml Steps → Prop
  | .runPipeline _ name yamlConfig _ =>
    ∀ config, env.getParsedPipeline yamlConfig = .ok config →
      name = none ∨ name = some "" ∨ name = some config.name
  | .createSchedule _ pipelineName yamlConfig _ =>
    ∀ config, env.getParsedPipeline yamlConfig = .ok config → pipelineName = config.name
  | _ => True

variable {env : Env Yaml Steps} {w t : World Yaml} {e : Event Yaml Steps}

/-- A text that may be saved for a user: the name in it was checked for that user. -/
def Cleared (env : Env Yaml Steps) (checks : List (String × String)) (userId : String)
    (yamlConfig : Yaml) : Prop :=
  ∀ config, env.getParsedPipeline yamlConfig = .ok config → (userId, config.name) ∈ checks

/-- Every stored run and schedule is cleared, and every version written was. -/
structure Checked (env : Env Yaml Steps) (w : World Yaml) : Prop where
  runs : ∀ run ∈ w.db.runs, Cleared env w.checks run.userId run.yamlConfig
  schedules : ∀ schedule ∈ w.db.schedules,
    Cleared env w.checks schedule.userId schedule.yamlConfig
  authors : ∀ author ∈ w.authors, author ∈ w.checks

theorem Cleared.mono {checks more : List (String × String)} {userId : String} {yamlConfig : Yaml}
    (h : Cleared env checks userId yamlConfig) : Cleared env (checks ++ more) userId yamlConfig :=
  fun config hc => List.mem_append_left more (h config hc)

theorem checked_start : Checked env (start : World Yaml) := by
  refine ⟨?_, ?_, ?_⟩ <;> simp [start]

/-- A reply that stores only cleared texts keeps the invariant. -/
theorem Checked.reply (hw : Checked env w) (r : Reply Yaml)
    (hruns : ∀ run ∈ r.db.runs, run ∈ w.db.runs ∨
      Cleared env (w.checks ++ r.checked) run.userId run.yamlConfig)
    (hschedules : ∀ schedule ∈ r.db.schedules, schedule ∈ w.db.schedules ∨
      Cleared env (w.checks ++ r.checked) schedule.userId schedule.yamlConfig) :
    Checked env (WritePermission.reply w r) := by
  refine ⟨?_, ?_, ?_⟩
  · intro run hr
    cases hruns run hr with
    | inl hold => exact (hw.runs run hold).mono
    | inr hnew => exact hnew
  · intro schedule hs
    cases hschedules schedule hs with
    | inl hold => exact (hw.schedules schedule hold).mono
    | inr hnew => exact hnew
  · intro author ha
    exact List.mem_append_left _ (hw.authors author ha)

/-- What the run endpoint stores: nothing, or one run under the name it checked. -/
theorem runPipeline_cases (env : Env Yaml Steps) (db : Db Yaml) (user : User)
    (name : Option String) (yamlConfig : Yaml) (rejection : Option HTTPException) :
    (runPipeline env db user name yamlConfig rejection).db.versions = db.versions ∧
    (runPipeline env db user name yamlConfig rejection).db.schedules = db.schedules ∧
    ((runPipeline env db user name yamlConfig rejection).db.runs = db.runs ∨
      ∃ config, env.getParsedPipeline yamlConfig = .ok config ∧
        (runPipeline env db user name yamlConfig rejection).checked =
          [(user.id, effectiveName name config)] ∧
        (runPipeline env db user name yamlConfig rejection).db.runs =
          db.runs ++ [⟨effectiveName name config, user.id, yamlConfig⟩]) := by
  rw [runPipeline]
  cases env.getParsedPipeline yamlConfig with
  | error e => exact ⟨rfl, rfl, .inl rfl⟩
  | ok config =>
    dsimp only
    cases checkPipelinePermission db user (effectiveName name config) writeLevels true with
    | error e => exact ⟨rfl, rfl, .inl rfl⟩
    | ok permissions =>
      cases rejection with
      | some e => exact ⟨rfl, rfl, .inl rfl⟩
      | none => exact ⟨rfl, rfl, .inr ⟨config, rfl, rfl, rfl⟩⟩

theorem createSchedule_cases (env : Env Yaml Steps) (db : Db Yaml) (user : User)
    (pipelineName : String) (yamlConfig : Yaml) (rejection : Option HTTPException) :
    (createSchedule env db user pipelineName yamlConfig rejection).db.versions = db.versions ∧
    (createSchedule env db user pipelineName yamlConfig rejection).db.runs = db.runs ∧
    ((createSchedule env db user pipelineName yamlConfig rejection).db.schedules = db.schedules ∨
      (createSchedule env db user pipelineName yamlConfig rejection).checked =
          [(user.id, pipelineName)] ∧
        (createSchedule env db user pipelineName yamlConfig rejection).db.schedules =
          db.schedules ++ [⟨user.id, pipelineName, yamlConfig, true⟩]) := by
  rw [createSchedule]
  cases env.getParsedPipeline yamlConfig with
  | error e => exact ⟨rfl, rfl, .inl rfl⟩
  | ok config =>
    dsimp only
    cases checkPipelinePermission db user pipelineName writeLevels true with
    | error e => exact ⟨rfl, rfl, .inl rfl⟩
    | ok permissions =>
      cases rejection with
      | some e => exact ⟨rfl, rfl, .inl rfl⟩
      | none => exact ⟨rfl, rfl, .inr ⟨rfl, rfl⟩⟩

theorem effectiveName_eq {name : Option String} {config : Config Steps}
    (h : name = none ∨ name = some "" ∨ name = some config.name) :
    effectiveName name config = config.name := by
  obtain rfl | rfl | rfl := h
  · rfl
  · rfl
  · rw [effectiveName]
    split <;> rfl

/-- A write under names checked for the user keeps the invariant. -/
theorem Checked.written (hw : Checked env w) (userId : String) (result : Db Yaml × Option String)
    (hruns : ∀ run ∈ result.1.runs, Cleared env w.checks run.userId run.yamlConfig)
    (hschedules : result.1.schedules = w.db.schedules)
    (hnames : ∀ name ∈ result.2, (userId, name) ∈ w.checks) :
    Checked env (WritePermission.written w userId result) := by
  refine ⟨hruns, ?_, ?_⟩
  · intro schedule hs
    exact hw.schedules schedule (hschedules ▸ hs)
  · intro author ha
    cases List.mem_append.mp ha with
    | inl hold => exact hw.authors author hold
    | inr hnew =>
      obtain ⟨name, hname, rfl⟩ := List.mem_map.mp hnew
      exact hnames name (Option.mem_toList.mp hname)

variable [DecidableEq Yaml]

/-- A save writes under the parsed name of the run's text and touches nothing else. -/
theorem saveVersionIfNeeded_cases (env : Env Yaml Steps) (db : Db Yaml) (index : Nat)
    (run : PipelineRun Yaml) :
    (saveVersionIfNeeded env db index run).1.runs = db.runs ∧
    (saveVersionIfNeeded env db index run).1.schedules = db.schedules ∧
    ∀ name ∈ (saveVersionIfNeeded env db index run).2,
      ∃ config, env.getParsedPipeline run.yamlConfig = .ok config ∧ name = config.name := by
  rw [saveVersionIfNeeded]
  cases env.getParsedPipeline run.yamlConfig with
  | error e => exact ⟨rfl, rfl, by simp⟩
  | ok config =>
    dsimp only
    split
    · exact ⟨rfl, rfl, by simp⟩
    · refine ⟨rfl, rfl, ?_⟩
      intro name hn
      exact ⟨config, rfl, (Option.some.inj hn).symm⟩

theorem checked_saveVersionIfNeeded (hw : Checked env w) (index : Nat) (run : PipelineRun Yaml)
    (hclear : Cleared env w.checks run.userId run.yamlConfig) {db : Db Yaml}
    (hruns : ∀ r ∈ db.runs, Cleared env w.checks r.userId r.yamlConfig)
    (hschedules : db.schedules = w.db.schedules) :
    Checked env (written w run.userId (saveVersionIfNeeded env db index run)) := by
  obtain ⟨hr, hs, hn⟩ := saveVersionIfNeeded_cases env db index run
  apply hw.written
  · rw [hr]
    exact hruns
  · rw [hs, hschedules]
  · intro name hname
    obtain ⟨config, hc, rfl⟩ := hn name hname
    exact hclear config hc

/-- A healed run is as cleared as it was: only its steps change. -/
theorem checked_healRun (hw : Checked env w) {index : Nat} {run : PipelineRun Yaml}
    (hrun : run ∈ w.db.runs) (steps : Steps) :
    Checked env (written w run.userId (healRun env w.db index run steps)) := by
  have hclear := hw.runs run hrun
  rw [healRun]
  cases hc : env.getParsedPipeline run.yamlConfig with
  | error e =>
    apply hw.written
    · exact hw.runs
    · rfl
    · simp
  | ok config =>
    have hhealed : Cleared env w.checks run.userId (env.dump { config with steps }) := by
      intro config' hc'
      rw [env.dump_name _ config' hc']
      exact hclear config hc
    apply checked_saveVersionIfNeeded hw index { run with yamlConfig := env.dump { config with steps } }
    · exact hhealed
    · intro r hr
      obtain hr | rfl := List.mem_or_eq_of_mem_set hr
      · exact hw.runs r hr
      · exact hhealed
    · rfl

omit [DecidableEq Yaml] in
theorem checked_restoreVersion (hw : Checked env w) (user : User) (pipelineName : String)
    (versionNumber : Nat) :
    Checked env (written (reply w (restoreVersion w.db user pipelineName versionNumber).1) user.id
      ((restoreVersion w.db user pipelineName versionNumber).1.db,
        (restoreVersion w.db user pipelineName versionNumber).2)) := by
  have hkeep : (restoreVersion w.db user pipelineName versionNumber).1.db.runs = w.db.runs ∧
      (restoreVersion w.db user pipelineName versionNumber).1.db.schedules = w.db.schedules ∧
      ∀ name ∈ (restoreVersion w.db user pipelineName versionNumber).2,
        (user.id, name) ∈ (restoreVersion w.db user pipelineName versionNumber).1.checked := by
    rw [restoreVersion]
    cases checkVersionPermission w.db user pipelineName writeLevels with
    | error e => exact ⟨rfl, rfl, by simp⟩
    | ok _ =>
      dsimp only
      split
      · exact ⟨rfl, rfl, by simp⟩
      · exact ⟨rfl, rfl, by simp⟩
  obtain ⟨hr, hs, hn⟩ := hkeep
  have hreply := hw.reply (restoreVersion w.db user pipelineName versionNumber).1
    (fun run h => .inl (hr ▸ h)) (fun schedule h => .inl (hs ▸ h))
  apply hreply.written
  · exact hreply.runs
  · rfl
  · intro name hname
    exact List.mem_append_right _ (hn name hname)

/-- One event with matching names keeps every stored text cleared. -/
theorem checked_step (hw : Checked env w) (hg : SameName env e) (h : step env w e = some t) :
    Checked env t := by
  have hkeep : ∀ r : Reply Yaml, r.db.runs = w.db.runs → r.db.schedules = w.db.schedules →
      Checked env (reply w r) := by
    intro r hr hs
    exact hw.reply r (fun run hm => .inl (hr ▸ hm)) (fun schedule hm => .inl (hs ▸ hm))
  cases e with
  | runPipeline user name yamlConfig rejection =>
    cases h
    obtain ⟨-, hs, hr⟩ := runPipeline_cases env w.db user name yamlConfig rejection
    cases hr with
    | inl hr => exact hkeep _ hr hs
    | inr hr =>
      obtain ⟨config, hc, hchecked, hruns⟩ := hr
      apply hw.reply
      · intro run hm
        rw [hruns] at hm
        cases List.mem_append.mp hm with
        | inl hold => exact .inl hold
        | inr hnew =>
          right
          intro config' hc'
          rw [List.mem_singleton.mp hnew] at hc' ⊢
          rw [hc] at hc'
          cases hc'
          rw [hchecked, effectiveName_eq (hg config hc)]
          exact List.mem_append_right _ (List.mem_singleton_self _)
      · intro schedule hm
        exact .inl (hs ▸ hm)
  | createSchedule user pipelineName yamlConfig rejection =>
    cases h
    obtain ⟨-, hr, hs⟩ := createSchedule_cases env w.db user pipelineName yamlConfig rejection
    cases hs with
    | inl hs => exact hkeep _ hr hs
    | inr hs =>
      obtain ⟨hchecked, hschedules⟩ := hs
      apply hw.reply
      · intro run hm
        exact .inl (hr ▸ hm)
      · intro schedule hm
        rw [hschedules] at hm
        cases List.mem_append.mp hm with
        | inl hold => exact .inl hold
        | inr hnew =>
          right
          intro config hc
          rw [List.mem_singleton.mp hnew] at hc ⊢
          rw [hchecked, hg config hc]
          exact List.mem_append_right _ (List.mem_singleton_self _)
  | toggleSchedule user index =>
    cases h
    rw [toggleSchedule]
    cases hi : w.db.schedules[index]? with
    | none => exact hkeep _ rfl rfl
    | some schedule =>
      dsimp only
      split
      · apply hw.reply
        · intro run hm
          exact .inl hm
        · intro other hm
          obtain hm | rfl := List.mem_or_eq_of_mem_set hm
          · exact .inl hm
          · exact .inr (hw.schedules schedule (List.mem_of_getElem? hi)).mono
      · exact hkeep _ rfl rfl
  | fireSchedule index =>
    cases h
    refine ⟨?_, ?_, hw.authors⟩
    · intro run hm
      dsimp only at hm
      rw [fireSchedule] at hm
      cases hi : w.db.schedules[index]? with
      | none => rw [hi] at hm; exact hw.runs run hm
      | some schedule =>
        simp only [hi] at hm
        split at hm
        · cases List.mem_append.mp hm with
          | inl hold => exact hw.runs run hold
          | inr hnew =>
            rw [List.mem_singleton.mp hnew]
            exact hw.schedules schedule (List.mem_of_getElem? hi)
        · exact hw.runs run hm
    · intro schedule hm
      apply hw.schedules schedule
      dsimp only at hm
      rw [fireSchedule] at hm
      split at hm
      · split at hm <;> exact hm
      · exact hm
  | healRun index steps =>
    obtain ⟨run, hi, rfl⟩ := Option.map_eq_some_iff.mp h
    exact checked_healRun hw (List.mem_of_getElem? hi) steps
  | finishRun index =>
    obtain ⟨run, hi, rfl⟩ := Option.map_eq_some_iff.mp h
    exact checked_saveVersionIfNeeded hw index run (hw.runs run (List.mem_of_getElem? hi)) hw.runs rfl
  | restoreVersion user pipelineName versionNumber =>
    cases h
    exact checked_restoreVersion hw user pipelineName versionNumber
  | grantPermission user pipelineName target level =>
    cases h
    apply hkeep
    · rw [grantPermission]
      repeat' split
      all_goals rfl
    · rw [grantPermission]
      repeat' split
      all_goals rfl
  | revokePermission user pipelineName target =>
    cases h
    apply hkeep
    · rw [revokePermission]
      repeat' split
      all_goals rfl
    · rw [revokePermission]
      repeat' split
      all_goals rfl
  | createContract contract =>
    cases h
    exact ⟨hw.runs, hw.schedules, hw.authors⟩

/-- Every version row has its author, in order. -/
def Accounted (w : World Yaml) : Prop :=
  w.authors.map Prod.snd = w.db.versions.map PipelineVersion.pipelineName

omit [DecidableEq Yaml] in
theorem Accounted.written (hw : Accounted w) (userId : String) (result : Db Yaml × Option String)
    (h : result.1.versions.map PipelineVersion.pipelineName =
      w.db.versions.map PipelineVersion.pipelineName ++ result.2.toList) :
    Accounted (WritePermission.written w userId result) := by
  rw [Accounted] at hw
  simp only [Accounted, WritePermission.written, List.map_append, List.map_map, hw, h]
  congr 1
  exact (List.map_id _)

theorem saveVersionIfNeeded_versions (env : Env Yaml Steps) (db : Db Yaml) (index : Nat)
    (run : PipelineRun Yaml) :
    (saveVersionIfNeeded env db index run).1.versions.map PipelineVersion.pipelineName =
      db.versions.map PipelineVersion.pipelineName ++
        (saveVersionIfNeeded env db index run).2.toList := by
  rw [saveVersionIfNeeded]
  split
  · simp
  · split
    · simp
    · simp [saveVersion]

theorem accounted_step (hw : Accounted w) (h : step env w e = some t) : Accounted t := by
  have hkeep : ∀ r : Reply Yaml, r.db.versions = w.db.versions → Accounted (reply w r) := by
    intro r hr
    simp only [Accounted, reply, hr]
    exact hw
  cases e with
  | runPipeline user name yamlConfig rejection =>
    cases h
    exact hkeep _ (runPipeline_cases env w.db user name yamlConfig rejection).1
  | createSchedule user pipelineName yamlConfig rejection =>
    cases h
    exact hkeep _ (createSchedule_cases env w.db user pipelineName yamlConfig rejection).1
  | toggleSchedule user index =>
    cases h
    apply hkeep
    rw [toggleSchedule]
    repeat' split
    all_goals rfl
  | fireSchedule index =>
    cases h
    have hv : (fireSchedule w.db index).versions = w.db.versions := by
      rw [fireSchedule]
      repeat' split
      all_goals rfl
    simp only [Accounted, hv]
    exact hw
  | healRun index steps =>
    obtain ⟨run, hi, rfl⟩ := Option.map_eq_some_iff.mp h
    apply hw.written
    rw [healRun]
    split
    · simp
    · exact saveVersionIfNeeded_versions env _ index _
  | finishRun index =>
    obtain ⟨run, hi, rfl⟩ := Option.map_eq_some_iff.mp h
    exact hw.written run.userId _ (saveVersionIfNeeded_versions env w.db index run)
  | restoreVersion user pipelineName versionNumber =>
    cases h
    have hv : (restoreVersion w.db user pipelineName versionNumber).1.db.versions.map
        PipelineVersion.pipelineName = w.db.versions.map PipelineVersion.pipelineName ++
          (restoreVersion w.db user pipelineName versionNumber).2.toList := by
      rw [restoreVersion]
      split
      · simp
      · dsimp only
        split
        · simp
        · simp [saveVersion]
    have hw' : w.authors.map Prod.snd = w.db.versions.map PipelineVersion.pipelineName := hw
    simp only [Accounted, written, reply, List.map_append, List.map_map, hw', hv]
    congr 1
    exact List.map_id _
  | grantPermission user pipelineName target level =>
    cases h
    apply hkeep
    rw [grantPermission]
    repeat' split
    all_goals rfl
  | revokePermission user pipelineName target =>
    cases h
    apply hkeep
    rw [revokePermission]
    repeat' split
    all_goals rfl
  | createContract contract =>
    cases h
    exact hw

omit [DecidableEq Yaml] in
/-- What a passed check says: an admin, the owner of the name's contract, or a user
with a row of a required level, which may have just been granted. -/
theorem checkPipelinePermission_ok {db : Db Yaml} {user : User} {pipelineName : String}
    {requiredLevels : List PermissionLevel} {grantOwner : Bool}
    {permissions : List PipelinePermission}
    (h : checkPipelinePermission db user pipelineName requiredLevels grantOwner = .ok permissions) :
    user.role = "admin" ∨ (∃ contract ∈ db.contracts, contract.pipelineName = pipelineName ∧
        contract.userId = user.id) ∨
      ∃ permission ∈ permissions, permission.pipelineName = pipelineName ∧
        permission.userId = user.id ∧
        (permission.permissionLevel ∈ requiredLevels ∨ permission.permissionLevel = .OWNER) := by
  rw [checkPipelinePermission] at h
  split at h
  · next ha => exact .inl ha
  · split at h
    · next hc =>
      obtain ⟨contract, hm, hcontract⟩ := List.any_eq_true.mp hc
      exact .inr (.inl ⟨contract, hm, of_decide_eq_true hcontract⟩)
    · cases hf : findPermission db user pipelineName with
      | none =>
        rw [hf] at h
        dsimp only at h
        split at h
        · cases h
          exact .inr (.inr ⟨⟨pipelineName, user.id, .OWNER⟩, by simp, rfl, rfl, .inr rfl⟩)
        · cases h
      | some permission =>
        rw [hf] at h
        dsimp only at h
        split at h
        · next hl =>
          cases h
          rw [findPermission] at hf
          have hconcerns : concerns pipelineName user.id permission = true := List.find?_some hf
          have hp := of_decide_eq_true hconcerns
          exact .inr (.inr ⟨permission, List.mem_of_find?_eq_some hf, hp.1, hp.2, .inl hl⟩)
        · cases h

/-- When every run request and schedule names the pipeline as its YAML does, every
version row was written for a user whose write permission on its name had been
checked. -/
theorem versions_were_checked (env : Env Yaml Steps) (events : List (Event Yaml Steps))
    (w : World Yaml) (hguard : ∀ e ∈ events, SameName env e)
    (h : Machine.run (step env) start events = some w) (i : Nat) (version : PipelineVersion Yaml)
    (hi : w.db.versions[i]? = some version) :
    ∃ userId, w.authors[i]? = some (userId, version.pipelineName) ∧
      (userId, version.pipelineName) ∈ w.checks := by
  have hg : Machine.Along (step env) (fun _ => SameName env) start events :=
    Machine.along_of_forall_mem hguard
  have hw : Checked env w :=
    Machine.invariant_run (fun _ _ _ hw hg h => checked_step hw hg h) checked_start hg h
  have hstart : Accounted (start : World Yaml) := rfl
  have hn : Accounted w :=
    Machine.invariant_reachable (fun _ _ _ hw h => accounted_step hw h) hstart h
  have hname : (w.authors.map Prod.snd)[i]? = some version.pipelineName := by
    rw [hn, List.getElem?_map, hi, Option.map_some]
  rw [List.getElem?_map] at hname
  obtain ⟨⟨userId, name⟩, ha, rfl⟩ := Option.map_eq_some_iff.mp hname
  exact ⟨userId, ha, hw.authors _ (List.mem_of_getElem? ha)⟩

/-- Texts that are their own configuration. -/
def plainEnv : Env (String × Nat) Nat where
  getParsedPipeline yaml := .ok ⟨yaml.1, yaml.2⟩
  dump config := (config.name, config.steps)
  dump_name := by
    intro config config' h
    cases h
    rfl

def alice : User := ⟨"alice", "user"⟩

def mallory : User := ⟨"mallory", "user"⟩

/-- A run under the name in its YAML, healed and finished: two versions. -/
def ownRun : List (Event (String × Nat) Nat) :=
  [.runPipeline alice none ("payroll", 1) none, .healRun 0 2, .finishRun 0,
   .restoreVersion alice "payroll" 1]

theorem versions_were_checked_ownRun :
    ∃ w, Machine.run (step plainEnv) start ownRun = some w ∧ w.db.versions.length = 2 ∧
      ∃ userId, w.authors[0]? = some (userId, "payroll") ∧ (userId, "payroll") ∈ w.checks := by
  have hguard : ∀ e ∈ ownRun, SameName plainEnv e := by
    intro e he
    simp only [ownRun, List.mem_cons, List.not_mem_nil, or_false] at he
    obtain rfl | rfl | rfl | rfl := he
    · exact fun _ _ => .inl rfl
    all_goals trivial
  exact ⟨_, rfl, rfl, versions_were_checked plainEnv ownRun _ hguard rfl 0 _ rfl⟩

/-- Alice's run makes her the owner of payroll. Mallory then submits payroll's name
in the YAML of a run called scratch. -/
def foreignName : List (Event (String × Nat) Nat) :=
  [.runPipeline alice none ("payroll", 1) none, .finishRun 0,
   .runPipeline mallory (some "scratch") ("payroll", 666) none, .finishRun 1]

/-- The worker saves Mallory's text as the next version of payroll, a name on which
no check of hers was made and on which she has no permission. -/
theorem version_under_foreign_name :
    ∃ w : World (String × Nat), Machine.run (step plainEnv) start foreignName = some w ∧
      w.db.versions = [⟨"payroll", 1, ("payroll", 1), some 0⟩,
        ⟨"payroll", 2, ("payroll", 666), some 1⟩] ∧
      w.authors = [("alice", "payroll"), ("mallory", "payroll")] ∧
      ("mallory", "payroll") ∉ w.checks ∧ findPermission w.db mallory "payroll" = none :=
  ⟨_, rfl, rfl, rfl, by decide, rfl⟩

end PipelineIQ.Api.WritePermission
