import Mathlib.Data.Rat.Defs
import Mathlib.Algebra.Order.Ring.Unbundled.Rat
import PipelineIQ.Lib.Strings
import PipelineIQ.Lib.Yaml
import PipelineIQ.Pipeline.Parser

namespace PipelineIQ.Healing.Attempts

open PipelineIQ.Lib PipelineIQ.Lib.Strings PipelineIQ.Lib.Yaml
open PipelineIQ.Pipeline.Parser (Python)

/-! ### Errors of the model -/

def quotaIndicators : List String :=
  ["429", "quota", "resource_exhausted", "limit: 0", "free-tier", "rate_limit",
    "RESOURCE_EXHAUSTED"]

/-- The message for a quota error, `none` for any other. -/
def isQuotaError (error : Text) : Option String :=
  let errorStr := lowerCase error
  if quotaIndicators.any fun indicator => occurs (lowerCase indicator.toList) errorStr then
    if occurs "limit: 0".toList errorStr then
      some "AI service temporarily unavailable (quota exceeded). Try again later."
    else if occurs "429".toList errorStr then
      some "AI service rate limited. Waiting before retry..."
    else some "AI quota exceeded. Please wait and try again."
  else none

def getUserFriendlyError (error : Text) : Text :=
  match isQuotaError error with
  | some message => message.toList
  | none =>
    let errorStr := lowerCase error
    if occurs "json".toList errorStr ∧ occurs "parse".toList errorStr then
      "AI returned invalid response format".toList
    else if occurs "timeout".toList errorStr then "AI service request timed out".toList
    else if occurs "connection".toList errorStr ∨ occurs "network".toList errorStr then
      "Network error connecting to AI service".toList
    else "AI error: ".toList ++ error.take 100

/-! ### Responses of the model -/

def typeName : Node → String
  | .null => "NoneType"
  | .bool _ => "bool"
  | .int _ => "int"
  | .float _ => "float"
  | .text _ => "str"
  | .seq _ => "list"
  | .map _ => "dict"

/-- The value of an `int` or a `float`; a boolean is an `int`. -/
def numeric : Node → Option ℚ
  | .bool b => some (if b then 1 else 0)
  | .int n => some n
  | .float q => some q
  | _ => none

/-- The required fields of a patch, sorted. -/
def requiredPatchFields : List String := ["field", "new_value", "old_value", "step_name"]

/-- The first item that is no object or lacks a field. -/
def invalidItem : Nat → List Node → Option Text
  | _, [] => none
  | index, .map entries :: rest =>
    match requiredPatchFields.filter fun field => (Entries.get? entries (key field)).isNone with
    | [] => invalidItem (index + 1) rest
    | missing => some ("patches[".toList ++ (toString index).toList ++ "] missing fields: [".toList ++
        (", ".intercalate (missing.map fun field => "'" ++ field ++ "'")).toList ++ "]".toList)
  | index, _ :: _ =>
    some ("patches[".toList ++ (toString index).toList ++ "] must be an object".toList)

/-- `patch.get(name)`. -/
def get (patch : Node) (name : String) : Node :=
  match patch with
  | .map entries => Entries.getD entries (key name) .null
  | _ => .null

/-- The error of a response, `none` for a valid one. -/
def validateHealingPatch (py : Python) (patch : Node) : Option Text :=
  if patch.isMap = false then some ("Expected dict, got ".toList ++ (typeName patch).toList)
  else match numeric (get patch "confidence") with
    | none => some "Missing or invalid 'confidence' field".toList
    | some confidence =>
      if confidence < 0 ∨ 1 < confidence then
        some ("'confidence' must be between 0.0 and 1.0, got ".toList ++
          py.str (get patch "confidence"))
      else match get patch "change_description" with
        | .text _ => match get patch "patches" with
          | .seq patches => invalidItem 0 patches
          | _ => some "Missing or invalid 'patches' field".toList
        | _ => some "Missing or invalid 'change_description' field".toList

/-- The text inside a code fence. -/
def unfence (rawResponse : Text) : Text :=
  let cleaned := strip rawResponse
  let backtick := Char.ofNat 96
  if [backtick, backtick, backtick].isPrefixOf cleaned then
    let cleaned := (cleaned.dropWhile (· = backtick)).rdropWhile (· = backtick)
    if "json".toList.isPrefixOf cleaned then strip (cleaned.drop 4) else cleaned
  else cleaned

/-! ### The loop over the attempts -/

inductive HealingAttemptStatus where
  | CREATED | NON_HEALABLE | AI_INVALID | VALIDATION_FAILED | APPLIED | FAILED
  deriving DecidableEq, Repr

structure SandboxResult where
  success : Bool
  outputRows : Nat := 0
  outputColumns : List Text := []
  error : Option Text := none

/-- A row of the attempt log. -/
structure HealingAttempt where
  attemptNumber : Nat
  status : HealingAttemptStatus
  geminiPatch : Option Node := none
  sandboxResult : Option SandboxResult := none
  applied : Bool := false
  confidence : Option ℚ := none
  proposedYaml : Option Text := none
  aiError : Option Text := none
  parserValid : Option Bool := none
  sandboxPassed : Option Bool := none
  validationErrors : Option (List Text) := none

def HealingAttempt.aiValid (row : HealingAttempt) : Bool :=
  row.geminiPatch.isSome && row.aiError.isNone

structure HealingResult where
  success : Bool
  patchedYaml : Option Text := none
  confidence : ℚ := 0
  description : Text := []
  attempts : Nat := 0
  error : Option Text := none
  patch : Option Node := none

/-- What the loop calls: the model, the parsers, the applier and the sandbox. Each may answer
differently at each attempt; an error is the text of the exception. -/
structure Services where
  callGemini : Nat → Except Text Text
  loads : Text → Except Text Node
  python : Python
  applyPatch : Nat → Node → Except Text Text
  runPatchInSandbox : Nat → Text → SandboxResult

/-- The end of an attempt: the loop goes on, is broken off, or returns. -/
inductive Ending where
  | next
  | broken
  | returned (result : HealingResult)

def MAX_HEALING_RETRIES : Nat := 3

variable (services : Services)

def parseGeminiPatch (rawResponse : Text) : Except Text Node := services.loads (unfence rawResponse)

/-- `None` where the patch is null. -/
def nonNull : Node → Option Node
  | .null => none
  | patch => some patch

/-- The attempt with a response, from the parser to the sandbox. -/
def attemptPatch (attemptNumber : Nat) (rawResponse : Text) : HealingAttempt × Ending :=
  match parseGeminiPatch services rawResponse with
  | .error exc =>
    ({ attemptNumber, status := .AI_INVALID, aiError := some ("Invalid JSON patch: ".toList ++ exc),
       geminiPatch := some (.map [(key "raw_response", .text (rawResponse.take 1000))]) }, .next)
  | .ok patch =>
    match validateHealingPatch services.python patch with
    | some validationError =>
      ({ attemptNumber, status := .AI_INVALID, aiError := some validationError,
         geminiPatch := nonNull patch }, .next)
    | none =>
      if (get patch "patches").truthy = false then
        ({ attemptNumber, status := .AI_INVALID,
           aiError := some "Gemini returned no patch operations".toList,
           geminiPatch := some patch }, .next)
      else match services.applyPatch attemptNumber patch with
        | .error exc =>
          ({ attemptNumber, status := .VALIDATION_FAILED,
             aiError := some ("Patch application failed: ".toList ++ exc),
             geminiPatch := some patch, validationErrors := some [exc] }, .next)
        | .ok patchedYaml =>
          let sandboxResult := services.runPatchInSandbox attemptNumber patchedYaml
          if sandboxResult.success = false then
            ({ attemptNumber, status := .VALIDATION_FAILED, geminiPatch := some patch,
               sandboxResult := some sandboxResult, proposedYaml := some patchedYaml,
               parserValid := some true, sandboxPassed := some false,
               validationErrors := sandboxResult.error.bind fun error =>
                 if error.isEmpty then none else some [error] }, .next)
          else
            let confidence := (numeric (get patch "confidence")).getD 0
            ({ attemptNumber, status := .APPLIED, geminiPatch := some patch,
               sandboxResult := some sandboxResult, proposedYaml := some patchedYaml,
               parserValid := some true, sandboxPassed := some true, applied := true,
               confidence := some confidence },
             .returned
              { success := true, patchedYaml := some patchedYaml, confidence,
                description := services.python.str (get patch "change_description"),
                attempts := attemptNumber, patch := some patch })

/-- The body of the loop. -/
def attempt (attemptNumber : Nat) : HealingAttempt × Ending :=
  match services.callGemini attemptNumber with
  | .error exc =>
    ({ attemptNumber, status := .FAILED, aiError := some (getUserFriendlyError exc) },
     if (isQuotaError exc).isSome then .broken else .next)
  | .ok rawResponse => attemptPatch services attemptNumber rawResponse

def exhausted : HealingResult where
  success := false
  attempts := MAX_HEALING_RETRIES
  error := some ("Healing failed after ".toList ++ (toString MAX_HEALING_RETRIES).toList ++
    " attempts".toList)

def loop : List Nat → List HealingAttempt → List HealingAttempt × HealingResult
  | [], rows => (rows, exhausted)
  | attemptNumber :: rest, rows =>
    let (row, ending) := attempt services attemptNumber
    match ending with
    | .next => loop rest (rows ++ [row])
    | .broken => (rows ++ [row], exhausted)
    | .returned result => (rows ++ [row], result)

/-- The rows that are recorded, and the result. -/
def attemptHeal : List HealingAttempt × HealingResult :=
  loop services (List.range' 1 MAX_HEALING_RETRIES) []

end PipelineIQ.Healing.Attempts
