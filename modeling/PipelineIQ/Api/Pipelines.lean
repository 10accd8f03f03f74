import PipelineIQ.Models
import PipelineIQ.Pipeline.Versioning

namespace PipelineIQ.Api.Pipelines

open PipelineIQ.Models PipelineIQ.Pipeline.Versioning

structure PipelinePermission where
  pipelineName : String
  userId : String
  permissionLevel : PermissionLevel
  deriving DecidableEq, Repr

structure PipelineContract where
  pipelineName : String
  userId : String
  deriving DecidableEq, Repr

structure PipelineRun (Yaml : Type) where
  name : String
  userId : String
  yamlConfig : Yaml

structure PipelineSchedule (Yaml : Type) where
  userId : String
  pipelineName : String
  yamlConfig : Yaml
  isActive : Bool

/-- The tables the endpoints and the worker share. A run and a schedule are known
by their position. -/
structure Db (Yaml : Type) where
  permissions : List PipelinePermission := []
  contracts : List PipelineContract := []
  runs : List (PipelineRun Yaml) := []
  schedules : List (PipelineSchedule Yaml) := []
  versions : List (PipelineVersion Yaml) := []

/-- A parsed pipeline: its name and its steps. -/
structure Config (Steps : Type) where
  name : String
  steps : Steps

/-- The pipeline parser and the dump a healing patch writes its text with. A dumped
pipeline that parses at all has the name it was dumped with. -/
structure Env (Yaml Steps : Type) where
  getParsedPipeline : Yaml → Except HTTPException (Config Steps)
  dump : Config Steps → Yaml
  dump_name : ∀ config config', getParsedPipeline (dump config) = .ok config' →
    config'.name = config.name

/-- What handling a request leaves behind: the database, the write permissions that
were checked and held (user and pipeline name), and the error it ends with. -/
structure Reply (Yaml : Type) where
  db : Db Yaml
  checked : List (String × String) := []
  error : Option HTTPException := none

variable {Yaml Steps : Type}

def nameInUse (db : Db Yaml) (pipelineName : String) : Bool :=
  db.runs.any (fun run => decide (run.name = pipelineName)) ||
  db.contracts.any (fun contract => decide (contract.pipelineName = pipelineName)) ||
  db.permissions.any (fun permission => decide (permission.pipelineName = pipelineName))

def concerns (pipelineName target : String) (permission : PipelinePermission) : Bool :=
  decide (permission.pipelineName = pipelineName ∧ permission.userId = target)

def findPermission (db : Db Yaml) (user : User) (pipelineName : String) :
    Option PipelinePermission :=
  db.permissions.find? (concerns pipelineName user.id)

def insufficient (requiredLevels : List PermissionLevel) (action pipelineName : String) :
    HTTPException :=
  ⟨403, "User lacks required permissions (" ++
    String.intercalate ", " (requiredLevels.map PermissionLevel.value) ++ ") to " ++ action ++
    " pipeline '" ++ pipelineName ++ "'"⟩

def notFound : HTTPException := ⟨404, "Pipeline run or pipeline not found, or access denied."⟩

/-- Check a user's permission on a pipeline name; a new name can be granted to its
first user. The result is the permission table after the check. -/
def checkPipelinePermission (db : Db Yaml) (user : User) (pipelineName : String)
    (requiredLevels : List PermissionLevel) (grantOwner : Bool) :
    Except HTTPException (List PipelinePermission) :=
  if user.role = "admin" then .ok db.permissions
  else if db.contracts.any (fun contract =>
      decide (contract.pipelineName = pipelineName ∧ contract.userId = user.id)) then
    .ok db.permissions
  else match findPermission db user pipelineName with
    | none =>
      if grantOwner ∧ nameInUse db pipelineName = false then
        .ok (db.permissions ++ [⟨pipelineName, user.id, .OWNER⟩])
      else .error notFound
    | some permission =>
      if permission.permissionLevel ∈ requiredLevels then .ok db.permissions
      else .error (insufficient requiredLevels "perform this action on" pipelineName)

def writeLevels : List PermissionLevel := [.OWNER, .RUNNER]

/-- `body.name or config.name`: an absent or empty name is the parsed one. -/
def effectiveName (name : Option String) (config : Config Steps) : String :=
  match name with
  | some n => if n = "" then config.name else n
  | none => config.name

/-- The run endpoint, also under its legacy path. `rejection` is what validation of
the configuration raises. -/
def runPipeline (env : Env Yaml Steps) (db : Db Yaml) (user : User) (name : Option String)
    (yamlConfig : Yaml) (rejection : Option HTTPException) : Reply Yaml :=
  match env.getParsedPipeline yamlConfig with
  | .error e => { db, error := some e }
  | .ok config =>
    let pipelineName := effectiveName name config
    match checkPipelinePermission db user pipelineName writeLevels true with
    | .error e => { db, error := some e }
    | .ok permissions =>
      let db := { db with permissions }
      let checked := [(user.id, pipelineName)]
      match rejection with
      | some e => { db, checked, error := some e }
      | none => { db := { db with runs := db.runs ++ [⟨pipelineName, user.id, yamlConfig⟩] }, checked }

def createSchedule (env : Env Yaml Steps) (db : Db Yaml) (user : User) (pipelineName : String)
    (yamlConfig : Yaml) (rejection : Option HTTPException) : Reply Yaml :=
  match env.getParsedPipeline yamlConfig with
  | .error e => { db, error := some ⟨400, "Scheduled pipeline YAML is invalid: " ++ e.detail⟩ }
  | .ok _ =>
    match checkPipelinePermission db user pipelineName writeLevels true with
    | .error e => { db, error := some e }
    | .ok permissions =>
      let db := { db with permissions }
      let checked := [(user.id, pipelineName)]
      match rejection with
      | some e => { db, checked, error := some e }
      | none =>
        { db := { db with
            schedules := db.schedules ++ [⟨user.id, pipelineName, yamlConfig, true⟩] }
          checked }

/-- Pause or resume a schedule of the user. -/
def toggleSchedule (db : Db Yaml) (user : User) (index : Nat) : Reply Yaml :=
  match db.schedules[index]? with
  | some schedule =>
    if schedule.userId = user.id then
      { db := { db with
          schedules := db.schedules.set index { schedule with isActive := !schedule.isActive } } }
    else { db, error := some ⟨404, "Schedule not found"⟩ }
  | none => { db, error := some ⟨404, "Schedule not found"⟩ }

/-- A due schedule creates a run under its own pipeline name. -/
def fireSchedule (db : Db Yaml) (index : Nat) : Db Yaml :=
  match db.schedules[index]? with
  | some schedule =>
    if schedule.isActive then
      { db with
        runs := db.runs ++ [⟨schedule.pipelineName, schedule.userId, schedule.yamlConfig⟩] }
    else db
  | none => db

def isOwner (db : Db Yaml) (user : User) (pipelineName : String) : Bool :=
  user.role == "admin" || db.permissions.any fun permission =>
    decide (permission.pipelineName = pipelineName ∧ permission.userId = user.id ∧
      permission.permissionLevel = .OWNER)

def requireOwnerError : HTTPException :=
  ⟨403, "Only pipeline owners or admins can manage permissions"⟩

def setLevel (pipelineName target : String) (level : PermissionLevel)
    (permission : PipelinePermission) : PipelinePermission :=
  if concerns pipelineName target permission then { permission with permissionLevel := level }
  else permission

/-- Grant a level: a row the target already has is updated. -/
def grantPermission (db : Db Yaml) (user : User) (pipelineName target : String)
    (level : PermissionLevel) : Reply Yaml :=
  if isOwner db user pipelineName then
    if db.permissions.any (concerns pipelineName target) then
      { db := { db with permissions := db.permissions.map (setLevel pipelineName target level) } }
    else { db := { db with permissions := db.permissions ++ [⟨pipelineName, target, level⟩] } }
  else { db, error := some requireOwnerError }

def revokePermission (db : Db Yaml) (user : User) (pipelineName target : String) : Reply Yaml :=
  if isOwner db user pipelineName then
    if db.permissions.any (concerns pipelineName target) then
      { db := { db with
          permissions := db.permissions.filter fun p => !concerns pipelineName target p } }
    else { db, error := some ⟨404, "Permission not found"⟩ }
  else { db, error := some requireOwnerError }

/-- The check of the version endpoints: a permission row or nothing. -/
def checkVersionPermission (db : Db Yaml) (user : User) (pipelineName : String)
    (requiredLevels : List PermissionLevel) : Except HTTPException Unit :=
  if user.role = "admin" then .ok ()
  else match findPermission db user pipelineName with
    | none => .error notFound
    | some permission =>
      if permission.permissionLevel ∈ requiredLevels then .ok ()
      else .error (insufficient requiredLevels "access" pipelineName)

/-- Restore an old version as a new one of the same name; also returns the name a
version was written under. -/
def restoreVersion (db : Db Yaml) (user : User) (pipelineName : String) (versionNumber : Nat) :
    Reply Yaml × Option String :=
  match checkVersionPermission db user pipelineName writeLevels with
  | .error e => ({ db, error := some e }, none)
  | .ok _ =>
    let checked := [(user.id, pipelineName)]
    match db.versions.find? (fun v =>
        decide (v.pipelineName = pipelineName ∧ v.versionNumber = versionNumber)) with
    | none => ({ db, checked, error := some ⟨404, "Version not found"⟩ }, none)
    | some old =>
      ({ db := { db with versions := saveVersion db.versions pipelineName old.yamlConfig none }
         checked }, some pipelineName)

variable [DecidableEq Yaml]

/-- The worker's save: under the name parsed from the run's text, unless the latest
version of that name has the same text. -/
def saveVersionIfNeeded (env : Env Yaml Steps) (db : Db Yaml) (index : Nat)
    (run : PipelineRun Yaml) : Db Yaml × Option String :=
  match env.getParsedPipeline run.yamlConfig with
  | .error _ => (db, none)
  | .ok config =>
    if (latestVersion db.versions config.name).map PipelineVersion.yamlConfig =
        some run.yamlConfig then (db, none)
    else
      ({ db with versions := saveVersion db.versions config.name run.yamlConfig (some index) },
        some config.name)

/-- A successful healing replaces the steps in the run's text and saves a version. -/
def healRun (env : Env Yaml Steps) (db : Db Yaml) (index : Nat) (run : PipelineRun Yaml)
    (steps : Steps) : Db Yaml × Option String :=
  match env.getParsedPipeline run.yamlConfig with
  | .error _ => (db, none)
  | .ok config =>
    let healed := { run with yamlConfig := env.dump { config with steps } }
    saveVersionIfNeeded env { db with runs := db.runs.set index healed } index healed

end PipelineIQ.Api.Pipelines
