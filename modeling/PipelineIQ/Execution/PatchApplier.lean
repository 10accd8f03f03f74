import PipelineIQ.Lib.Machine
import PipelineIQ.Pipeline.Parser

namespace PipelineIQ.Execution.PatchApplier

open PipelineIQ.Lib PipelineIQ.Lib.Strings PipelineIQ.Lib.Yaml PipelineIQ.Pipeline.Parser

structure PatchItem where
  stepName : Text
  field : Text
  oldValue : Node
  newValue : Node

inductive PatchError where
  | rootNotMapping
  | missingPipeline
  | missingSteps
  | unknownStep (name : Text)
  | noField (field : Text)
  | noListField (field : Text)
  | noDictField (field : Text)
  | unhashable (value : Node)

/-- `new_value if item == old_value else item`. -/
def replaced (old new item : Node) : Node := if item.same old then new else item

section Handlers

variable (step : Entries) (field : Text) (old new : Node)

def patchScalarField : Except PatchError Entries :=
  match step.get? (.text field) with
  | none => .error (.noField field)
  | some _ => .ok (step.set (.text field) new)

def patchListField : Except PatchError Entries :=
  match step.get? (.text field) with
  | some (.seq items) => .ok (step.set (.text field) (.seq (items.map (replaced old new))))
  | _ => .error (.noListField field)

def patchSortField : Except PatchError Entries :=
  match step.get? (.text field) with
  | some (.seq items) => .ok (step.set (.text field) (.seq (items.map (replaced old new))))
  | _ => .ok (step.set (.text field) new)

/-- The key after the replacement, `none` where the new value cannot be a key. -/
def replacedKey (k : Key) : Option Key := if old.toKey = some k then new.toKey else some k

/-- Entries are assigned in turn, so that a key met again replaces the earlier entry. -/
def patchMapping (entries : Entries) : Except PatchError Entries :=
  entries.foldlM (fun (updated : Entries) e =>
    match replacedKey old new e.1 with
    | none => .error (.unhashable new)
    | some k => .ok (updated.set k (replaced old new e.2))) []

def patchMappingField : Except PatchError Entries :=
  match step.get? (.text field) with
  | some (.map entries) => do
    let updated ← patchMapping old new entries
    pure (step.set (.text field) (.map updated))
  | _ => .error (.noDictField field)

def patchAggregation : Node → Node
  | .map entries =>
    match Dict.find (key "column") entries with
    | some column => if column.same old then .map (Dict.assign (key "column") new entries)
        else .map entries
    | none => if Node.null.same old then .map (Dict.assign (key "column") new entries)
        else .map entries
  | v => v

def patchAggregationsField : Except PatchError Entries :=
  match step.get? (.text field) with
  | some (.seq items) => .ok (step.set (.text field) (.seq (items.map (patchAggregation old new))))
  | _ => .error (.noListField field)

end Handlers

inductive Handler where
  | scalar | list | sort | mapping | aggregations
  deriving DecidableEq, Repr

def handlers : List (String × Handler) :=
  [("column", .scalar), ("on", .scalar), ("left", .scalar), ("right", .scalar), ("input", .scalar),
    ("value", .scalar), ("file_id", .scalar), ("columns", .list), ("group_by", .list),
    ("by", .sort), ("mapping", .mapping), ("aggregations", .aggregations)]

def handlerOf (field : Text) : Handler :=
  ((handlers.find? fun e => e.1.toList = field).map (·.2)).getD .scalar

def patchStep (item : PatchItem) (step : Entries) : Except PatchError Entries :=
  match handlerOf item.field with
  | .scalar => patchScalarField step item.field item.newValue
  | .list => patchListField step item.field item.oldValue item.newValue
  | .sort => patchSortField step item.field item.oldValue item.newValue
  | .mapping => patchMappingField step item.field item.oldValue item.newValue
  | .aggregations => patchAggregationsField step item.field item.oldValue item.newValue

/-- `step_map.get(name)`: of several steps with one name the last. -/
def stepMap (name : Text) : List Node → Option Nat
  | [] => none
  | step :: steps =>
    match stepMap name steps with
    | some i => some (i + 1)
    | none => match step with
      | .map entries => match Dict.find (key "name") entries with
        | some (.text t) => if t = name then some 0 else none
        | _ => none
      | _ => none

/-- `named` are the steps as they were loaded: a step is found under its first name. -/
def applyPatchItem (named : List Node) (steps : List Node) (item : PatchItem) :
    Except PatchError (List Node) :=
  match stepMap item.stepName named with
  | none => .error (.unknownStep item.stepName)
  | some i => match steps[i]? with
    | some (.map step) => do
      let step ← patchStep item step
      pure (steps.set i (.map step))
    | _ => .error (.unknownStep item.stepName)

/-- The document with other steps in the place of its own. -/
def setSteps (document : Entries) (steps : List Node) : Entries :=
  match document.get? (key "pipeline") with
  | some (.map pipeline) =>
    document.set (key "pipeline") (.map (Entries.set pipeline (key "steps") (.seq steps)))
  | _ => document.set (key "steps") (.seq steps)

def patchDocument (document : Entries) (patch : List PatchItem) : Except PatchError Entries :=
  match pipelineOf document with
  | none => .error .missingPipeline
  | some pipelineConfig => match pipelineConfig.get? (key "steps") with
    | some (.seq steps) => do
      let steps' ← patch.foldlM (applyPatchItem steps) steps
      pure (setSteps document steps')
    | _ => .error .missingSteps

def applyPatch (yaml : PyYaml) (text : Text) (patch : List PatchItem) : Except PatchError Text :=
  match yaml.safeLoad text with
  | some (.map document) => do
    let document' ← patchDocument document patch
    pure (yaml.safeDump (.map document'))
  | _ => .error .rootNotMapping

end PipelineIQ.Execution.PatchApplier
