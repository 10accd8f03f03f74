import Mathlib.Init

namespace PipelineIQ.Pipeline.Versioning

/-- A stored version; `runId` is the index of the run that produced it. -/
structure PipelineVersion (Yaml : Type) where
  pipelineName : String
  versionNumber : Nat
  yamlConfig : Yaml
  runId : Option Nat
  deriving Repr

variable {Yaml : Type}

/-- The version of a name with the highest number. -/
def latestVersion (versions : List (PipelineVersion Yaml)) (pipelineName : String) :
    Option (PipelineVersion Yaml) :=
  (versions.filter fun v => decide (v.pipelineName = pipelineName)).foldl
    (fun latest v => match latest with
      | none => some v
      | some l => if l.versionNumber < v.versionNumber then some v else some l) none

def nextVersion (versions : List (PipelineVersion Yaml)) (pipelineName : String) : Nat :=
  match latestVersion versions pipelineName with
  | some latest => latest.versionNumber + 1
  | none => 1

/-- A save that meets no concurrent one. -/
def saveVersion (versions : List (PipelineVersion Yaml)) (pipelineName : String)
    (yamlConfig : Yaml) (runId : Option Nat) : List (PipelineVersion Yaml) :=
  versions ++ [⟨pipelineName, nextVersion versions pipelineName, yamlConfig, runId⟩]

end PipelineIQ.Pipeline.Versioning
