import Mathlib.Data.List.Nodup
import PipelineIQ.Api.Pipelines

namespace PipelineIQ.Api.Contracts

open PipelineIQ.Models
open PipelineIQ.Api.Pipelines (PipelinePermission)

inductive ContractSeverity where
  | WARN | BLOCK
  deriving DecidableEq, Repr

structure PipelineContract where
  id : Nat
  pipelineName : String
  version : Nat
  yamlContent : String
  severity : ContractSeverity
  consumers : List String
  userId : String
  isActive : Bool := true
  deriving DecidableEq, Repr

/-- The body of a create or an update call. -/
structure ContractRequest where
  yamlContent : String
  severity : ContractSeverity := .WARN
  consumers : List String := []

/-- The contracts table; `nextId` is the identifier that no contract had yet. -/
structure Db where
  contracts : List PipelineContract := []
  nextId : Nat := 0

/-- The other tables a call reads: the permissions and the names of the runs. -/
structure Tables where
  permissions : List PipelinePermission := []
  runs : List String := []

/-! ### The endpoints -/

def notAuthorized : HTTPException := ⟨403, "Not authorized for this pipeline"⟩

def ensurePipelineContractAccess (tables : Tables) (db : Db) (currentUser : User)
    (pipelineName : String) (requiredLevels : List PermissionLevel) (allowNew : Bool) :
    Except HTTPException Unit :=
  if currentUser.role = "admin" then .ok ()
  else if db.contracts.any fun c =>
      decide (c.pipelineName = pipelineName ∧ c.userId = currentUser.id) then .ok ()
  else if (tables.permissions.find? fun p =>
      decide (p.pipelineName = pipelineName ∧ p.userId = currentUser.id)).any fun p =>
        decide (p.permissionLevel ∈ requiredLevels) then .ok ()
  else if allowNew && !(decide (pipelineName ∈ tables.runs) ||
      db.contracts.any (fun c => decide (c.pipelineName = pipelineName)) ||
      tables.permissions.any (fun p => decide (p.pipelineName = pipelineName))) then .ok ()
  else .error notAuthorized

/-- The contracts that the caller can see. -/
def contractQuery (db : Db) (currentUser : User) : List PipelineContract :=
  if currentUser.role = "admin" then db.contracts
  else db.contracts.filter fun c => decide (c.userId = currentUser.id)

def addContract (db : Db) (currentUser : User) (pipelineName : String) (version : Nat)
    (body : ContractRequest) : Db :=
  { contracts := db.contracts ++ [
      { id := db.nextId
        pipelineName
        version
        yamlContent := body.yamlContent
        severity := body.severity
        consumers := body.consumers
        userId := currentUser.id }]
    nextId := db.nextId + 1 }

def nextVersion (db : Db) (currentUser : User) (pipelineName : String) : Nat :=
  match (((contractQuery db currentUser).filter fun c =>
      decide (c.pipelineName = pipelineName)).map PipelineContract.version).max? with
  | some latest => latest + 1
  | none => 1

def createContract (tables : Tables) (db : Db) (currentUser : User) (pipelineName : String)
    (body : ContractRequest) : Except HTTPException Db := do
  ensurePipelineContractAccess tables db currentUser pipelineName [.OWNER] true
  return addContract db currentUser pipelineName (nextVersion db currentUser pipelineName) body

def contractNotFound (pipelineName : String) (contractId : Nat) : HTTPException :=
  ⟨404, "Contract " ++ toString contractId ++ " not found for pipeline " ++ pipelineName⟩

def findContract (db : Db) (currentUser : User) (pipelineName : String) (contractId : Nat) :
    Except HTTPException PipelineContract :=
  match (contractQuery db currentUser).find? fun c =>
      decide (c.id = contractId ∧ c.pipelineName = pipelineName) with
  | some existing => .ok existing
  | none => .error (contractNotFound pipelineName contractId)

def deactivate (contractId : Nat) (c : PipelineContract) : PipelineContract :=
  if c.id = contractId then { c with isActive := false } else c

/-- The existing version is deactivated and a new one is made. -/
def updateContract (tables : Tables) (db : Db) (currentUser : User) (pipelineName : String)
    (contractId : Nat) (body : ContractRequest) : Except HTTPException Db := do
  ensurePipelineContractAccess tables db currentUser pipelineName [.OWNER] false
  let existing ← findContract db currentUser pipelineName contractId
  return addContract { db with contracts := db.contracts.map (deactivate existing.id) } currentUser
    pipelineName (existing.version + 1) body

def deleteContract (tables : Tables) (db : Db) (currentUser : User) (pipelineName : String)
    (contractId : Nat) : Except HTTPException Db := do
  ensurePipelineContractAccess tables db currentUser pipelineName [.OWNER] false
  let contract ← findContract db currentUser pipelineName contractId
  return { db with contracts := db.contracts.filter fun c => decide (c.id ≠ contract.id) }

/-! ### Sequences of calls -/

inductive Request where
  | create (body : ContractRequest)
  | update (contractId : Nat) (body : ContractRequest)
  | delete (contractId : Nat)

/-- A call of the API, with what the other tables hold at its time. -/
structure Call where
  tables : Tables
  currentUser : User
  pipelineName : String
  request : Request

def answer (db : Db) (call : Call) : Except HTTPException Db :=
  match call.request with
  | .create body => createContract call.tables db call.currentUser call.pipelineName body
  | .update contractId body =>
    updateContract call.tables db call.currentUser call.pipelineName contractId body
  | .delete contractId =>
    deleteContract call.tables db call.currentUser call.pipelineName contractId

/-- A call that ends with an error changes nothing. -/
def step (db : Db) (call : Call) : Option Db :=
  match answer db call with
  | .ok db' => some db'
  | .error _ => some db

/-- The contracts of a pipeline and a user. -/
def own (db : Db) (pipelineName userId : String) : List PipelineContract :=
  db.contracts.filter fun c => decide (c.pipelineName = pipelineName ∧ c.userId = userId)

/-- Each pipeline and user has at most one active contract and no two of one version. -/
structure Exclusive (db : Db) : Prop where
  active : ∀ pipelineName userId, (own db pipelineName userId).countP PipelineContract.isActive ≤ 1
  versions : ∀ pipelineName userId, ((own db pipelineName userId).map PipelineContract.version).Nodup

/-- The condition of a call: a contract is created where none of the caller's is active, and
updated where no other one of the caller's is active and none has the next version. -/
def Orderly (db : Db) (call : Call) : Prop :=
  match call.request with
  | .create _ =>
    ensurePipelineContractAccess call.tables db call.currentUser call.pipelineName [.OWNER] true =
        .ok () →
      ∀ c ∈ own db call.pipelineName call.currentUser.id, c.isActive = false
  | .update contractId _ =>
    ensurePipelineContractAccess call.tables db call.currentUser call.pipelineName [.OWNER] false =
        .ok () →
      ∀ existing, findContract db call.currentUser call.pipelineName contractId = .ok existing →
        ∀ c ∈ own db call.pipelineName call.currentUser.id,
          (c.isActive → c.id = existing.id) ∧ c.version ≠ existing.version + 1
  | .delete _ => True

end PipelineIQ.Api.Contracts
