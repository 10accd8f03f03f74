import PipelineIQ.Api.Pipelines
import PipelineIQ.Lib.Machine

namespace PipelineIQ.Api.RunRequests

open PipelineIQ.Lib.Machine PipelineIQ.Models PipelineIQ.Api.Pipelines

/-! ### Concurrent run requests -/

/-- What a request does next: one of the queries of the permission check, the commit of its grant,
the validation, or the commit of its run. -/
inductive Phase where
  | ownContract | permission | usedByRun | usedByContract | usedByPermission
  | granting | validating | creating | accepted
  | rejected (e : HTTPException)
  deriving DecidableEq

/-- A run request in progress; `granted` records that it has added an owner to the table. -/
structure RunRequest (Yaml : Type) where
  user : User
  pipelineName : String
  yamlConfig : Yaml
  phase : Phase
  granted : Bool := false

structure World (Yaml : Type) where
  db : Db Yaml
  requests : List (RunRequest Yaml) := []

variable {Yaml Steps : Type}

/-- The start of a request: its text is parsed, and an administrator skips the permission check. -/
def receive (env : Env Yaml Steps) (user : User) (name : Option String) (yamlConfig : Yaml) :
    RunRequest Yaml :=
  match env.getParsedPipeline yamlConfig with
  | .error e => { user, pipelineName := name.getD "", yamlConfig, phase := .rejected e }
  | .ok config =>
    { user, pipelineName := effectiveName name config, yamlConfig
      phase := if user.role = "admin" then .validating else .ownContract }

/-- What a query of the permission check leads to. -/
def check (db : Db Yaml) (r : RunRequest Yaml) : Phase → Option Phase
  | .ownContract => some <|
    if db.contracts.any (fun contract =>
      decide (contract.pipelineName = r.pipelineName ∧ contract.userId = r.user.id)) then
      .validating
    else .permission
  | .permission => some <| match findPermission db r.user r.pipelineName with
    | none => .usedByRun
    | some permission =>
      if permission.permissionLevel ∈ writeLevels then .validating
      else .rejected (insufficient writeLevels "perform this action on" r.pipelineName)
  | .usedByRun => some <|
    if db.runs.any (fun run => decide (run.name = r.pipelineName)) then .rejected notFound
    else .usedByContract
  | .usedByContract => some <|
    if db.contracts.any (fun contract => decide (contract.pipelineName = r.pipelineName)) then
      .rejected notFound
    else .usedByPermission
  | .usedByPermission => some <|
    if db.permissions.any (fun permission => decide (permission.pipelineName = r.pipelineName)) then
      .rejected notFound
    else .granting
  | .granting | .validating | .creating | .accepted | .rejected _ => none

def grant (db : Db Yaml) (r : RunRequest Yaml) : Db Yaml :=
  { db with permissions := db.permissions ++ [⟨r.pipelineName, r.user.id, .OWNER⟩] }

def createRun (db : Db Yaml) (r : RunRequest Yaml) : Db Yaml :=
  { db with runs := db.runs ++ [⟨r.pipelineName, r.user.id, r.yamlConfig⟩] }

/-- The next step of a request, but for the validation. -/
def proceed (db : Db Yaml) (r : RunRequest Yaml) : Option (RunRequest Yaml × Db Yaml) :=
  match r.phase with
  | .granting => some ({ r with phase := .validating, granted := true }, grant db r)
  | .creating => some ({ r with phase := .accepted }, createRun db r)
  | phase => (check db r phase).map fun next => ({ r with phase := next }, db)

/-- The validation of the configuration passes, or raises. -/
def validate (r : RunRequest Yaml) (rejection : Option HTTPException) : Option (RunRequest Yaml) :=
  if r.phase = .validating then
    some { r with phase := match rejection with
      | some e => .rejected e
      | none => .creating }
  else none

inductive Event (Yaml : Type) where
  | receive (user : User) (name : Option String) (yamlConfig : Yaml)
  | proceed (index : Nat)
  | validate (index : Nat) (rejection : Option HTTPException)

def step (env : Env Yaml Steps) (w : World Yaml) : Event Yaml → Option (World Yaml)
  | .receive user name yamlConfig =>
    some { w with requests := w.requests ++ [receive env user name yamlConfig] }
  | .proceed index => (w.requests[index]?).bind fun r => (proceed w.db r).map fun (r', db') =>
    { w with db := db', requests := w.requests.set index r' }
  | .validate index rejection => (w.requests[index]?).bind fun r => (validate r rejection).map fun r' =>
    { w with requests := w.requests.set index r' }

/-! ### A request that is handled alone -/

variable {env : Env Yaml Steps} {db db' : Db Yaml} {r r' : RunRequest Yaml} {w u v : World Yaml}

def Leads (env : Env Yaml Steps) (w v : World Yaml) : Prop :=
  ∃ events, run (step env) w events = some v

theorem Leads.refl : Leads env w w := ⟨[], rfl⟩

theorem Leads.head {e : Event Yaml} (h : step env w e = some u) (hlater : Leads env u v) :
    Leads env w v := by
  obtain ⟨events, hevents⟩ := hlater
  exact ⟨e :: events, run_cons_iff.mpr ⟨u, h, hevents⟩⟩

theorem Leads.trans (h : Leads env w u) (hlater : Leads env u v) : Leads env w v := by
  obtain ⟨events, hevents⟩ := h
  obtain ⟨later, hv⟩ := hlater
  exact ⟨events ++ later, run_append_iff.mpr ⟨u, hevents, hv⟩⟩

theorem leads_proceed (h : proceed db r = some (r', db')) (hlater : Leads env ⟨db', [r']⟩ v) :
    Leads env ⟨db, [r]⟩ v := by
  have hstep : step env ⟨db, [r]⟩ (.proceed 0) = some ⟨db', [r']⟩ := by
    simp [step, h]
  exact .head hstep hlater

theorem leads_validate {rejection : Option HTTPException} (h : validate r rejection = some r')
    (hlater : Leads env ⟨db, [r']⟩ v) : Leads env ⟨db, [r]⟩ v := by
  have hstep : step env ⟨db, [r]⟩ (.validate 0 rejection) = some ⟨db, [r']⟩ := by
    simp [step, h]
  exact .head hstep hlater

theorem leads_query {phase next : Phase} (hphase : r.phase = phase)
    (hcheck : check db r phase = some next)
    (hlater : Leads env ⟨db, [{ r with phase := next }]⟩ v) : Leads env ⟨db, [r]⟩ v := by
  refine leads_proceed ?_ hlater
  subst hphase
  unfold proceed
  split
  next hgranting =>
    rw [hgranting] at hcheck
    cases hcheck
  next hcreating =>
    rw [hcreating] at hcheck
    cases hcheck
  next => rw [hcheck, Option.map_some]

/-- The queries for a name in use, and the grant where they find nothing. -/
theorem leads_grant (hphase : r.phase = .usedByRun) :
    if nameInUse db r.pipelineName = false then
      Leads env ⟨db, [r]⟩ ⟨grant db r, [{ r with phase := .validating, granted := true }]⟩
    else Leads env ⟨db, [r]⟩ ⟨db, [{ r with phase := .rejected notFound }]⟩ := by
  by_cases hrun : (db.runs.any fun run => decide (run.name = r.pipelineName)) = true
  · rw [if_neg (by simp [nameInUse, hrun])]
    exact leads_query hphase (congrArg some (if_pos hrun)) .refl
  · by_cases hcontract : (db.contracts.any fun contract =>
        decide (contract.pipelineName = r.pipelineName)) = true
    · rw [if_neg (by simp [nameInUse, hcontract])]
      refine leads_query hphase (congrArg some (if_neg hrun)) ?_
      exact leads_query rfl (congrArg some (if_pos hcontract)) .refl
    · by_cases hpermission : (db.permissions.any fun permission =>
          decide (permission.pipelineName = r.pipelineName)) = true
      · rw [if_neg (by simp [nameInUse, hpermission])]
        refine leads_query hphase (congrArg some (if_neg hrun)) ?_
        refine leads_query rfl (congrArg some (if_neg hcontract)) ?_
        exact leads_query rfl (congrArg some (if_pos hpermission)) .refl
      · have hunused : nameInUse db r.pipelineName = false := by
          rw [nameInUse, Bool.eq_false_iff.mpr hrun, Bool.eq_false_iff.mpr hcontract,
            Bool.eq_false_iff.mpr hpermission]
          rfl
        rw [if_pos hunused]
        refine leads_query hphase (congrArg some (if_neg hrun)) ?_
        refine leads_query rfl (congrArg some (if_neg hcontract)) ?_
        refine leads_query rfl (congrArg some (if_neg hpermission)) ?_
        exact leads_proceed rfl .refl

/-- The queries of a request, one after the other, are the permission check of the endpoint. -/
theorem leads_check (hphase : r.phase = .ownContract) (hrole : r.user.role ≠ "admin") :
    match checkPipelinePermission db r.user r.pipelineName writeLevels true with
    | .error e => Leads env ⟨db, [r]⟩ ⟨db, [{ r with phase := .rejected e }]⟩
    | .ok permissions => ∃ granted,
      Leads env ⟨db, [r]⟩ ⟨{ db with permissions }, [{ r with phase := .validating, granted }]⟩ := by
  unfold checkPipelinePermission
  rw [if_neg hrole]
  by_cases hown : (db.contracts.any fun contract =>
      decide (contract.pipelineName = r.pipelineName ∧ contract.userId = r.user.id)) = true
  · rw [if_pos hown]
    exact ⟨r.granted, leads_query hphase (congrArg some (if_pos hown)) .refl⟩
  · rw [if_neg hown]
    cases hfound : findPermission db r.user r.pipelineName with
    | some permission =>
      have hcheck : check db r .permission = some (if permission.permissionLevel ∈ writeLevels then
          .validating else
            .rejected (insufficient writeLevels "perform this action on" r.pipelineName)) := by
        rw [check, hfound]
      by_cases hlevel : permission.permissionLevel ∈ writeLevels
      · rw [if_pos hlevel] at hcheck
        dsimp only
        rw [if_pos hlevel]
        refine ⟨r.granted, leads_query hphase (congrArg some (if_neg hown)) ?_⟩
        exact leads_query rfl hcheck .refl
      · rw [if_neg hlevel] at hcheck
        dsimp only
        rw [if_neg hlevel]
        refine leads_query hphase (congrArg some (if_neg hown)) ?_
        exact leads_query rfl hcheck .refl
    | none =>
      have hcheck : check db r .permission = some .usedByRun := by rw [check, hfound]
      have hgrant := @leads_grant _ _ env db { r with phase := .usedByRun } rfl
      by_cases hunused : nameInUse db r.pipelineName = false
      · rw [if_pos hunused] at hgrant
        simp only [hunused, and_self, if_true]
        refine ⟨true, leads_query hphase (congrArg some (if_neg hown)) ?_⟩
        exact leads_query rfl hcheck hgrant
      · rw [if_neg hunused] at hgrant
        simp only [hunused]
        refine leads_query hphase (congrArg some (if_neg hown)) ?_
        exact leads_query rfl hcheck hgrant

theorem leads_validating (hphase : r.phase = .validating) (rejection : Option HTTPException) :
    match rejection with
    | some e => Leads env ⟨db, [r]⟩ ⟨db, [{ r with phase := .rejected e }]⟩
    | none => Leads env ⟨db, [r]⟩ ⟨createRun db r, [{ r with phase := .accepted }]⟩ := by
  cases rejection with
  | some e =>
    have hvalidate : validate r (some e) = some { r with phase := .rejected e } := if_pos hphase
    exact leads_validate hvalidate .refl
  | none =>
    have hvalidate : validate r none = some { r with phase := .creating } := if_pos hphase
    exact leads_validate hvalidate (leads_proceed rfl .refl)

/-- How a reply ends a request. -/
def endOf : Option HTTPException → Phase
  | some e => .rejected e
  | none => .accepted

/-- A request that no other one interferes with is handled as by the endpoint in one piece. -/
theorem runPipeline_alone (user : User) (name : Option String) (yamlConfig : Yaml)
    (rejection : Option HTTPException) :
    ∃ r, Leads env ⟨db, []⟩ ⟨(runPipeline env db user name yamlConfig rejection).db, [r]⟩ ∧
      r.phase = endOf (runPipeline env db user name yamlConfig rejection).error := by
  have hreceive : step env ⟨db, []⟩ (.receive user name yamlConfig) =
    some ⟨db, [receive env user name yamlConfig]⟩ := rfl
  unfold runPipeline
  unfold receive at hreceive
  cases hparse : env.getParsedPipeline yamlConfig with
  | error e =>
    rw [hparse] at hreceive
    exact ⟨_, .head hreceive .refl, rfl⟩
  | ok config =>
    rw [hparse] at hreceive
    dsimp only at hreceive ⊢
    -- a request that has passed the check goes through the validation
    have hvalidating : ∀ (granted : Bool) (permissions : List PipelinePermission),
        let r : RunRequest Yaml :=
          ⟨user, effectiveName name config, yamlConfig, .validating, granted⟩
        let db := { db with permissions }
        match rejection with
        | some e => Leads env ⟨db, [r]⟩ ⟨db, [{ r with phase := .rejected e }]⟩
        | none => Leads env ⟨db, [r]⟩ ⟨createRun db r, [{ r with phase := .accepted }]⟩ :=
      fun granted permissions => leads_validating rfl rejection
    by_cases hrole : user.role = "admin"
    · have hcheck : checkPipelinePermission db user (effectiveName name config) writeLevels true =
          .ok db.permissions := if_pos hrole
      rw [if_pos hrole] at hreceive
      rw [hcheck]
      have hthen := hvalidating false db.permissions
      cases rejection with
      | some e => exact ⟨_, .head hreceive hthen, rfl⟩
      | none => exact ⟨_, .head hreceive hthen, rfl⟩
    · rw [if_neg hrole] at hreceive
      have hcheck := @leads_check _ _ env db
        ⟨user, effectiveName name config, yamlConfig, .ownContract, false⟩ rfl hrole
      cases hresult : checkPipelinePermission db user (effectiveName name config) writeLevels true with
      | error e =>
        rw [hresult] at hcheck
        exact ⟨_, .head hreceive hcheck, rfl⟩
      | ok permissions =>
        rw [hresult] at hcheck
        obtain ⟨granted, hgranted⟩ := hcheck
        have hthen := hvalidating granted permissions
        cases rejection with
        | some e => exact ⟨_, .head hreceive (hgranted.trans hthen), rfl⟩
        | none => exact ⟨_, .head hreceive (hgranted.trans hthen), rfl⟩

end PipelineIQ.Api.RunRequests
