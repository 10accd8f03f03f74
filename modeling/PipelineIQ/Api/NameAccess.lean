import Mathlib.Data.Set.Defs
import PipelineIQ.Api.ContractVersions
import PipelineIQ.Api.Pipelines

namespace PipelineIQ.Api.NameAccess

open PipelineIQ.Lib.Machine PipelineIQ.Lib.Traverse PipelineIQ.Models
open PipelineIQ.Api.Pipelines hiding Db PipelineContract
open PipelineIQ.Api.Contracts (PipelineContract Tables contractQuery findContract deactivate
  addContract ensurePipelineContractAccess)

/-- The tables whose rows belong to a pipeline by its name. -/
structure World (Yaml : Type) where
  permissions : List PipelinePermission := []
  contracts : Contracts.Db := {}
  runs : List (PipelineRun Yaml) := []
  schedules : List (PipelineSchedule Yaml) := []

/-- A call of a user about a pipeline. -/
inductive Request (Yaml : Type) where
  | runPipeline (name : Option String) (yamlConfig : Yaml) (rejection : Option HTTPException)
  | createSchedule (pipelineName : String) (yamlConfig : Yaml) (rejection : Option HTTPException)
  | toggleSchedule (index : Nat)
  | contract (pipelineName : String) (request : Contracts.Request)
  | grantPermission (pipelineName target : String) (level : PermissionLevel)
  | revokePermission (pipelineName target : String)

inductive Event (Yaml : Type) where
  | asks (user : User) (request : Request Yaml)
  | fires (index : Nat)

variable {Yaml Steps : Type}

/-- What the endpoints of the runs, the schedules and the permissions see. -/
def World.db (w : World Yaml) : Pipelines.Db Yaml :=
  { permissions := w.permissions
    contracts := w.contracts.contracts.map fun c => ⟨c.pipelineName, c.userId⟩
    runs := w.runs
    schedules := w.schedules }

/-- What the endpoints of the contracts see of the other tables. -/
def World.tables (w : World Yaml) : Tables :=
  { permissions := w.permissions, runs := w.runs.map PipelineRun.name }

def stored (w : World Yaml) (db : Pipelines.Db Yaml) : World Yaml :=
  { w with permissions := db.permissions, runs := db.runs, schedules := db.schedules }

def answer (env : Env Yaml Steps) (w : World Yaml) (user : User) : Request Yaml → World Yaml
  | .runPipeline name yamlConfig rejection =>
    stored w (runPipeline env w.db user name yamlConfig rejection).db
  | .createSchedule pipelineName yamlConfig rejection =>
    stored w (createSchedule env w.db user pipelineName yamlConfig rejection).db
  | .toggleSchedule index => stored w (toggleSchedule w.db user index).db
  | .contract pipelineName request =>
    { w with contracts :=
        (Contracts.step w.contracts ⟨w.tables, user, pipelineName, request⟩).getD w.contracts }
  | .grantPermission pipelineName target level =>
    stored w (grantPermission w.db user pipelineName target level).db
  | .revokePermission pipelineName target =>
    stored w (revokePermission w.db user pipelineName target).db

def step (env : Env Yaml Steps) (w : World Yaml) : Event Yaml → Option (World Yaml)
  | .asks user request => some (answer env w user request)
  | .fires index => some (stored w (fireSchedule w.db index))

/-! ### What belongs to a name -/

/-- The rows of a pipeline. -/
@[ext] structure View (Yaml : Type) where
  permissions : List PipelinePermission
  contracts : List PipelineContract
  runs : List (PipelineRun Yaml)
  schedules : List (PipelineSchedule Yaml)

def view (name : String) (w : World Yaml) : View Yaml where
  permissions := w.permissions.filter fun p => decide (p.pipelineName = name)
  contracts := w.contracts.contracts.filter fun c => decide (c.pipelineName = name)
  runs := w.runs.filter fun r => decide (r.name = name)
  schedules := w.schedules.filter fun s => decide (s.pipelineName = name)

/-- Every row belongs to one of these users. -/
structure View.Of (insiders : Set String) (v : View Yaml) : Prop where
  permissions : ∀ p ∈ v.permissions, p.userId ∈ insiders
  contracts : ∀ c ∈ v.contracts, c.userId ∈ insiders
  runs : ∀ r ∈ v.runs, r.userId ∈ insiders
  schedules : ∀ s ∈ v.schedules, s.userId ∈ insiders

/-- A name that has a run, with all that belongs to it in the hands of these users. -/
structure Confined (insiders : Set String) (name : String) (w : World Yaml) : Prop where
  view : (view name w).Of insiders
  used : ∃ r ∈ w.runs, r.name = name
  ids : (w.contracts.contracts.map PipelineContract.id).Nodup
  old : ∀ c ∈ w.contracts.contracts, c.id < w.contracts.nextId

/-- The administrators are among these users, and none of them lets another user in. -/
def Loyal (insiders : Set String) (name : String) : Event Yaml → Prop
  | .asks user (.grantPermission pipelineName target _) =>
    (user.role = "admin" → user.id ∈ insiders) ∧
      (pipelineName = name → user.id ∈ insiders → target ∈ insiders)
  | .asks user _ => user.role = "admin" → user.id ∈ insiders
  | .fires _ => True

end PipelineIQ.Api.NameAccess
