import Mathlib.Init

namespace PipelineIQ.Models

/-- Lifecycle states of a pipeline run, as the database stores them. -/
inductive PipelineStatus where
  | PENDING | RUNNING | HEALING | HEALED | COMPLETED | CONTRACT_VIOLATION | FAILED | CANCELLED
  | TIMEOUT | STREAMING_ACTIVE | STREAMING_PAUSED | STREAMING_STOPPED
  deriving DecidableEq, Repr

def PipelineStatus.value : PipelineStatus → String
  | .PENDING => "PENDING"
  | .RUNNING => "RUNNING"
  | .HEALING => "HEALING"
  | .HEALED => "HEALED"
  | .COMPLETED => "COMPLETED"
  | .CONTRACT_VIOLATION => "CONTRACT_VIOLATION"
  | .FAILED => "FAILED"
  | .CANCELLED => "CANCELLED"
  | .TIMEOUT => "TIMEOUT"
  | .STREAMING_ACTIVE => "STREAMING_ACTIVE"
  | .STREAMING_PAUSED => "STREAMING_PAUSED"
  | .STREAMING_STOPPED => "STREAMING_STOPPED"

/-- The statuses a run ends in. -/
def PipelineStatus.Terminal (s : PipelineStatus) : Prop :=
  s ∈ [.COMPLETED, .HEALED, .FAILED, .CANCELLED, .TIMEOUT, .CONTRACT_VIOLATION]

instance (s : PipelineStatus) : Decidable s.Terminal :=
  inferInstanceAs (Decidable (s ∈ [.COMPLETED, .HEALED, .FAILED, .CANCELLED, .TIMEOUT,
    .CONTRACT_VIOLATION]))

inductive PermissionLevel where
  | OWNER | RUNNER | VIEWER
  deriving DecidableEq, Repr

def PermissionLevel.value : PermissionLevel → String
  | .OWNER => "owner"
  | .RUNNER => "runner"
  | .VIEWER => "viewer"

structure User where
  id : String
  role : String
  deriving DecidableEq, Repr

/-- The error response of an endpoint. -/
structure HTTPException where
  statusCode : Nat
  detail : String
  deriving DecidableEq, Repr

end PipelineIQ.Models
