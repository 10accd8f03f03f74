import Mathlib.Data.Set.Basic
import PipelineIQ.Execution.SqlSafety
import PipelineIQ.Pipeline.Runner
import PipelineIQ.Security.ColumnSecurity

namespace PipelineIQ.Security.Noninterference

open PipelineIQ.Lib PipelineIQ.Lib.Strings PipelineIQ.Security.ColumnSecurity
open PipelineIQ.Execution.SqlBuilder (Unicode validateSqlStepQuery)
open PipelineIQ.Pipeline.Runner (Outcome StepExecutionResult)

/-- The config of a step, by what runs it: the loading of a file, a query, or any other executor. -/
inductive StepConfig (Other : Type) where
  | load (fileId : Text)
  | sql (query : Text)
  | other (config : Other)

variable {Content Value Dtype Table Violation Other : Type}

/-- The files below the working directory, by their paths. -/
abbrev Files (Content : Type) := Text → Option Content

/-- What a run is given and what it calls. Every executor but the two for files and queries reads
the registry and its config alone; the engine is given the files too, as its queries can name them.
A call that raises yields the text of its exception. -/
structure Environment (Content Value Dtype Table Violation Other : Type) where
  unicode : Unicode
  pandas : Pandas Value Dtype
  uploadDir : Text
  readCsv : Content → Except String (Frame Value Dtype)
  readJson : Content → Except String (Frame Value Dtype)
  filePaths : Text → Option Text
  policies : Text → Option FilePolicies
  fromPandas : Frame Value Dtype → Except String Table
  numRows : Table → Nat
  duckdb : Text → Table → Files Content → Except String Table
  otherExecutor : Other → Dict String Table → Pipeline.Runner.Step String →
    Outcome String Table Violation
  put : String → Table → Option String
  duration : String → Nat
  validateStepContract : Pipeline.Runner.Step String → Table → Option (List Violation)

/-- The part of a file name from its last dot, where there is something on both sides of it. -/
def suffix (path : Text) : Text :=
  let name := ((path.splitOn '/').getLast?).getD []
  let stem := name.rdropWhile (· ≠ '.')
  if stem.length ≤ 1 || stem.length = name.length then []
  else name.drop (stem.length - 1)

section Executors

variable (env : Environment Content Value Dtype Table Violation Other) (files : Files Content)

def reader (extension : Text) : Option (Content → Except String (Frame Value Dtype)) :=
  if extension = ".csv".toList then some env.readCsv
  else if extension = ".json".toList then some env.readJson
  else none

def stepError (stepName : String) (message : String) : String :=
  s!"Step '{stepName}': {message}"

def storedPath (fileId : Text) : Text := (env.filePaths fileId).getD []

/-- The path of a stored file for the storage on the local disk. -/
def fullPath (path : Text) : Text := env.uploadDir ++ '/' :: path

def download (path : Text) : Except String Content :=
  match files (fullPath env path) with
  | some content => .ok content
  | none => .error s!"File not found: {String.ofList path}"

/-- `_read_file`, with the message of the step error that it raises. -/
def readFile (stepName : String) (filePath : Text) : Except String (Frame Value Dtype) :=
  let extension := lowerCase (suffix filePath)
  match reader env extension with
  | none => .error (stepError stepName (s!"Unsupported file format '{String.ofList extension}' for " ++
      s!"'{String.ofList filePath}'. Supported formats: ['.csv', '.json']"))
  | some read => match (do let content ← download env files filePath; read content) with
    | .ok df => .ok df
    | .error reason => .error (stepError stepName
        s!"Failed to read file '{String.ofList filePath}': {reason}")

def validRole : Option Text → Text
  | none | some [] => "viewer".toList
  | some role => role

/-- The policies of a file, put to work on what was read of it. -/
def enforce (userRole : Option Text) (fileId : Text) (df : Frame Value Dtype) :
    Option (Frame Value Dtype) := do
  let policies ← env.policies fileId
  applyColumnPolicies env.pandas (validRole userRole) policies.records df

def executeLoad (userRole : Option Text) (stepName : String) (fileId : Text) :
    Outcome String Table Violation :=
  match readFile env files stepName (storedPath env fileId) with
  | .error message => .stepError message
  | .ok df => match enforce env userRole fileId df with
    | none => .otherError
        "Column security policy enforcement failed; pipeline execution stopped."
    | some df => match env.fromPandas df with
      | .error message => .otherError message
      | .ok table => .returned
        { stepName, outputTable := table, rowsIn := df.rows, rowsOut := df.rows,
          durationMs := env.duration stepName }

def executeSql (registry : Dict String Table) (step : Pipeline.Runner.Step String) (query : Text) :
    Outcome String Table Violation :=
  match (step.input.filter (· ≠ "")).bind registry.get? with
  | none => .otherError ("SQL steps are only supported via DuckDBExecutor. " ++
      "The SmartExecutor should route these requests to DuckDB.")
  | some input => match validateSqlStepQuery env.unicode true query with
    | .error message => .otherError message
    | .ok sql => match env.duckdb sql input files with
      | .error message => .otherError message
      | .ok table => .returned
        { stepName := step.name, outputTable := table, rowsIn := env.numRows input,
          rowsOut := env.numRows table, durationMs := env.duration step.name }

/-- Storing the table of a step on the bus, which can raise too. -/
def putOnBus (stepName : String) : Outcome String Table Violation → Outcome String Table Violation
  | .returned result => match env.put stepName result.outputTable with
    | some message => .otherError message
    | none => .returned result
  | outcome => outcome

variable (userRole : Option Text) (config : String → StepConfig Other)

def executeStep (registry : Dict String Table) (step : Pipeline.Runner.Step String) :
    Outcome String Table Violation :=
  match config step.name with
  | .load fileId => executeLoad env files userRole step.name fileId
  | .sql query => executeSql env files registry step query
  | .other c => env.otherExecutor c registry step

/-- The collaborators of the runner in one run of a pipeline. -/
def runnerEnv : Pipeline.Runner.Env String Table Violation where
  execute registry step := putOnBus env step.name (executeStep env files userRole config registry step)
  validateStepContract := env.validateStepContract

end Executors

/-! ### Two environments of the runner -/

section Congruence

open Pipeline.Runner

variable {K Table Violation : Type} [DecidableEq K] [Truthy K] {env env' : Env K Table Violation}
  {steps : List (Step K)}

theorem loop_congr (total : Nat)
    (h : ∀ registry, ∀ step ∈ steps, env.execute registry step = env'.execute registry step)
    (hcontract : env.validateStepContract = env'.validateStepContract) (index : Nat)
    (s : State K Table Violation) : loop env total index steps s = loop env' total index steps s := by
  induction steps generalizing index s with
  | nil => rfl
  | cons step steps ih =>
    have hbody : loopBody env total index step s = loopBody env' total index step s := by
      unfold loopBody executeSingleStep
      simp only [h _ step List.mem_cons_self, hcontract]
    rw [loop, loop, hbody]
    refine congrArg _ (funext fun s => ?_)
    exact ih (fun registry step hs => h registry step (List.mem_cons_of_mem _ hs)) (index + 1) s

theorem execute_congr
    (h : ∀ registry, ∀ step ∈ steps, env.execute registry step = env'.execute registry step)
    (hcontract : env.validateStepContract = env'.validateStepContract) :
    execute env steps = execute env' steps := by
  unfold execute
  rw [loop_congr steps.length h hcontract]

theorem stateBefore_congr
    (h : ∀ registry, ∀ step ∈ steps, env.execute registry step = env'.execute registry step)
    (hcontract : env.validateStepContract = env'.validateStepContract) (i : Nat) :
    stateBefore env steps i = stateBefore env' steps i := by
  apply loop_congr steps.length _ hcontract
  intro registry step hstep
  exact h registry step (List.mem_of_mem_take hstep)

end Congruence

/-! ### Two runs -/

section Runs

variable (env : Environment Content Value Dtype Table Violation Other) (userRole : Option Text)
  (config : String → StepConfig Other) (steps : List (Pipeline.Runner.Step String))
  (files files' : Files Content)

/-- A file that a step of the pipeline loads. -/
def Loads (stepName : String) (fileId : Text) : Prop :=
  (∃ step ∈ steps, step.name = stepName) ∧ config stepName = .load fileId

/-- A file with a column that its policies hide from the role, in part at least. -/
def Restricted (fileId : Text) : Prop :=
  ∃ policies, env.policies fileId = some policies ∧
    ∃ name, ruling (validRole userRole) policies.records name ≠ .visible

/-- The same disk, but for values that the policies hide from the role in the loaded files. -/
structure DifferInHidden : Prop where
  loaded : ∀ stepName fileId, Loads config steps stepName fileId →
    files (fullPath env (storedPath env fileId)) = files' (fullPath env (storedPath env fileId)) ∨
      Restricted env userRole fileId ∧ ∃ f f',
        readFile env files stepName (storedPath env fileId) = .ok f ∧
        readFile env files' stepName (storedPath env fileId) = .ok f' ∧
        ∀ policies, env.policies fileId = some policies →
          SameView env.pandas (validRole userRole) policies.records f f'
  others : ∀ path, (∀ stepName fileId, Loads config steps stepName fileId →
    path ≠ fullPath env (storedPath env fileId)) → files path = files' path

/-- A query sees nothing of the disk but the files that it names. -/
def ReadsNamed (reads : Text → Set Text) : Prop :=
  ∀ sql input (files files' : Files Content), (∀ path ∈ reads sql, files path = files' path) →
    env.duckdb sql input files = env.duckdb sql input files'

/-- No query of the pipeline names a file that it loads under a policy for the role. -/
def QueriesAvoid (reads : Text → Set Text) : Prop :=
  ∀ step ∈ steps, ∀ query sql, config step.name = .sql query →
    validateSqlStepQuery env.unicode true query = .ok sql →
    ∀ stepName fileId, Loads config steps stepName fileId → Restricted env userRole fileId →
      fullPath env (storedPath env fileId) ∉ reads sql

/-- The restricted columns of the loaded files kept their names. -/
def ColumnsNamed : Prop :=
  ∀ stepName fileId, Loads config steps stepName fileId → ∀ policies f,
    env.policies fileId = some policies →
    readFile env files stepName (storedPath env fileId) = .ok f →
    NamesKept (validRole userRole) policies.records f

variable {env userRole config steps files files'}

theorem readFile_congr {stepName : String} {path : Text}
    (h : files (fullPath env path) = files' (fullPath env path)) :
    readFile env files stepName path = readFile env files' stepName path := by
  unfold readFile download
  rw [h]

theorem executeLoad_congr {stepName : String} {fileId : Text}
    (h : DifferInHidden env userRole config steps files files')
    (hnamed : ColumnsNamed env userRole config steps files)
    (hload : Loads config steps stepName fileId) :
    executeLoad env files userRole stepName fileId =
      executeLoad env files' userRole stepName fileId := by
  obtain hsame | ⟨-, f, f', hf, hf', hview⟩ := h.loaded stepName fileId hload
  · unfold executeLoad
    rw [readFile_congr hsame]
  · have henforce : enforce env userRole fileId f = enforce env userRole fileId f' := by
      unfold enforce
      cases hp : env.policies fileId with
      | none => rfl
      | some policies =>
        exact applyColumnPolicies_eq policies.unique (hview policies hp)
          (hnamed stepName fileId hload policies f hp hf)
    unfold executeLoad
    rw [hf, hf']
    simp only [henforce]

theorem agree_of_reads {reads : Text → Set Text} {step : Pipeline.Runner.Step String}
    {query sql path : Text} (h : DifferInHidden env userRole config steps files files')
    (havoid : QueriesAvoid env userRole config steps reads) (hstep : step ∈ steps)
    (hquery : config step.name = .sql query)
    (hsql : validateSqlStepQuery env.unicode true query = .ok sql) (hpath : path ∈ reads sql) :
    files path = files' path := by
  by_cases hloaded : ∃ stepName fileId, Loads config steps stepName fileId ∧
      path = fullPath env (storedPath env fileId)
  · obtain ⟨stepName, fileId, hload, rfl⟩ := hloaded
    obtain hsame | ⟨hrestricted, -⟩ := h.loaded stepName fileId hload
    · exact hsame
    · exact absurd hpath (havoid step hstep query sql hquery hsql stepName fileId hload hrestricted)
  · push Not at hloaded
    exact h.others path hloaded

theorem executeSql_congr {registry : Dict String Table} {step : Pipeline.Runner.Step String}
    {query : Text}
    (h : ∀ sql input, validateSqlStepQuery env.unicode true query = .ok sql →
      env.duckdb sql input files = env.duckdb sql input files') :
    executeSql env files registry step query = executeSql env files' registry step query := by
  unfold executeSql
  split
  · rfl
  · next input _ =>
    split
    · rfl
    · next sql hsql => rw [h sql input hsql]

theorem executeStep_congr {reads : Text → Set Text} (hreads : ReadsNamed env reads)
    (h : DifferInHidden env userRole config steps files files')
    (hnamed : ColumnsNamed env userRole config steps files)
    (havoid : QueriesAvoid env userRole config steps reads) (registry : Dict String Table)
    {step : Pipeline.Runner.Step String} (hstep : step ∈ steps) :
    executeStep env files userRole config registry step =
      executeStep env files' userRole config registry step := by
  unfold executeStep
  cases hconfig : config step.name with
  | load fileId => exact executeLoad_congr h hnamed ⟨⟨step, hstep, rfl⟩, hconfig⟩
  | other c => rfl
  | sql query =>
    apply executeSql_congr
    intro sql input hsql
    apply hreads
    intro path hpath
    exact agree_of_reads h havoid hstep hconfig hsql hpath

/-- What a role is not to see of the files makes no difference to a run: not to a table, an error
or an event, at any step. Of a masked column a run gets the masks. -/
theorem policies_noninterfering {reads : Text → Set Text} (hreads : ReadsNamed env reads)
    (h : DifferInHidden env userRole config steps files files')
    (hnamed : ColumnsNamed env userRole config steps files)
    (havoid : QueriesAvoid env userRole config steps reads) :
    Pipeline.Runner.execute (runnerEnv env files userRole config) steps =
        Pipeline.Runner.execute (runnerEnv env files' userRole config) steps ∧
      (∀ i, Pipeline.Runner.stateBefore (runnerEnv env files userRole config) steps i =
        Pipeline.Runner.stateBefore (runnerEnv env files' userRole config) steps i) ∧
      ∀ stepName fileId, Loads config steps stepName fileId → ∀ policies f g,
        env.policies fileId = some policies →
        readFile env files stepName (storedPath env fileId) = .ok f →
        enforce env userRole fileId f = some g →
        ∀ label pattern masked,
          ruling (validRole userRole) policies.records label.name = .masked pattern →
          g.columns.get? label = some masked →
          ∃ c, f.columns.get? label = some c ∧ maskColumn env.pandas pattern c = some masked := by
  have hexecute : ∀ registry, ∀ step ∈ steps,
      (runnerEnv env files userRole config).execute registry step =
        (runnerEnv env files' userRole config).execute registry step := by
    intro registry step hstep
    exact congrArg (putOnBus env step.name)
      (executeStep_congr hreads h hnamed havoid registry hstep)
  refine ⟨execute_congr hexecute rfl, stateBefore_congr hexecute rfl, ?_⟩
  intro stepName fileId hload policies f g hp hf hg label pattern masked hmasked hget
  rw [enforce, hp, Option.bind_eq_bind, Option.bind_some] at hg
  cases label with
  | text name =>
    rw [get?_applyColumnPolicies policies.unique hg,
      show ruling _ policies.records name = .masked pattern from hmasked] at hget
    exact Option.bind_eq_some_iff.mp hget
  | converted name =>
    rw [get?_converted hg] at hget
    have hvisible := hnamed stepName fileId hload policies f hp hf name
      ((Dict.mem_keys_iff _ _).mpr ⟨masked, hget⟩)
    rw [show ruling _ policies.records name = .masked pattern from hmasked] at hvisible
    cases hvisible

end Runs

/-! ### A stored file in a query -/

section Staff

def staffId : Text := "0f8fad5b-d9cb-469f-a165-70867728950e".toList
def staffPath : Text := "uploads/0f8fad5b-d9cb-469f-a165-70867728950e.csv".toList
def salary : Label := .text "salary".toList

def staff : Frame Text Unit where
  rows := 1
  columns := (Dict.empty.set (.text "name".toList) ⟨(), ["Ada".toList]⟩).set salary
    ⟨(), ["90".toList]⟩

def staffRaised : Frame Text Unit :=
  { staff with columns := staff.columns.set salary ⟨(), ["120".toList]⟩ }

def staffPolicies : FilePolicies where
  records := [{ columnName := "salary".toList, policy := .redacted },
    { columnName := "name".toList, policy := .masked, maskPattern := some "name".toList }]
  unique := by decide

def disk (df : Frame Text Unit) : Files (Frame Text Unit) := fun path =>
  if path = staffPath then some df else none

/-- The file that a query selects from, where it begins as such queries do. -/
def selectedFile (sql : Text) : Option Text :=
  let start := "SELECT * FROM '".toList
  if start.isPrefixOf sql then some ((sql.drop start.length).takeWhile (· ≠ '\''))
  else none

/-- An engine for two kinds of queries: all of a file, and all of the input. -/
def selectAll (sql : Text) (input : Frame Text Unit) (files : Files (Frame Text Unit)) :
    Except String (Frame Text Unit) :=
  match selectedFile sql with
  | none => .ok input
  | some path => match files path with
    | some df => .ok df
    | none => .error "IO Error: No files found that match the pattern"

def staffEnv : Environment (Frame Text Unit) Text Unit (Frame Text Unit) Unit Unit where
  unicode := Execution.SqlSafety.asciiPatterns
  pandas := ⟨fun _ => some true, id, id, fun c => if c.isDigit then some (c.toNat - 48) else none,
    fun _ _ => ()⟩
  uploadDir := "uploads".toList
  readCsv := .ok
  readJson := .ok
  filePaths fileId := if fileId = staffId then some (staffId ++ ".csv".toList) else none
  policies fileId := if fileId = staffId then some staffPolicies else some ⟨[], List.nodup_nil⟩
  fromPandas := .ok
  numRows := Frame.rows
  duckdb := selectAll
  otherExecutor _ _ _ := .otherError ""
  put _ _ := none
  duration _ := 0
  validateStepContract _ _ := some []

def staffSteps : List (Pipeline.Runner.Step String) :=
  [{ name := "load" }, { name := "query", input := some "load" }]

def staffConfig (query : String) (stepName : String) : StepConfig Unit :=
  if stepName = "load" then .load staffId else .sql query.toList

theorem staff_loads {query stepName : String} {fileId : Text}
    (h : Loads (staffConfig query) staffSteps stepName fileId) : fileId = staffId := by
  have hconfig := h.2
  unfold staffConfig at hconfig
  split at hconfig
  · cases hconfig
    rfl
  · cases hconfig

theorem staff_differ (query : String) :
    DifferInHidden staffEnv none (staffConfig query) staffSteps (disk staff) (disk staffRaised) := by
  constructor
  · intro stepName fileId hload
    cases staff_loads hload
    refine .inr ⟨⟨staffPolicies, rfl, "salary".toList, by decide⟩, staff, staffRaised, ?_, ?_, ?_⟩
    · rfl
    · rfl
    · intro policies hp
      cases hp
      exact sameView_set (by decide) (by decide)
  · intro path hpath
    have hne : path ≠ staffPath := hpath "load" staffId ⟨⟨_, List.mem_cons_self, rfl⟩, rfl⟩
    simp [disk, hne]

theorem staff_named (query : String) :
    ColumnsNamed staffEnv none (staffConfig query) staffSteps (disk staff) := by
  intro stepName fileId hload policies f hp hf name hname
  cases staff_loads hload
  have hread : readFile staffEnv (disk staff) stepName (storedPath staffEnv staffId) = .ok staff :=
    rfl
  rw [hread] at hf
  cases hf
  exact absurd hname (by simp [Dict.keys, staff, Dict.set, Dict.assign, salary, Dict.empty])

/-- The files that the engine reads for a query. -/
def selectedFiles (sql : Text) : Set Text := {path | selectedFile sql = some path}

theorem selectAll_reads : ReadsNamed staffEnv selectedFiles := by
  intro sql input files files' h
  change selectAll sql input files = selectAll sql input files'
  unfold selectAll
  cases hsql : selectedFile sql with
  | none => rfl
  | some path => simp only [h path hsql]

theorem policies_noninterfering_staff :
    Pipeline.Runner.execute
        (runnerEnv staffEnv (disk staff) none (staffConfig "SELECT * FROM {{input}}")) staffSteps =
      Pipeline.Runner.execute
        (runnerEnv staffEnv (disk staffRaised) none (staffConfig "SELECT * FROM {{input}}"))
        staffSteps := by
  refine (policies_noninterfering selectAll_reads (staff_differ _) (staff_named _) ?_).1
  intro step hstep query sql hquery hsql stepName fileId hload hrestricted hpath
  have htext : query = "SELECT * FROM {{input}}".toList := by
    unfold staffConfig at hquery
    split at hquery
    · cases hquery
    · cases hquery
      rfl
  have hvalid : validateSqlStepQuery staffEnv.unicode true "SELECT * FROM {{input}}".toList =
      .ok "SELECT * FROM __input__".toList := by
    decide +kernel
  rw [htext, hvalid] at hsql
  cases hsql
  have hnone : selectedFile "SELECT * FROM __input__".toList = none := by decide
  exact absurd (hnone.symm.trans hpath) (by simp)

def staffQuery : String :=
  "SELECT * FROM 'uploads/0f8fad5b-d9cb-469f-a165-70867728950e.csv' -- {{input}}"

/-- The salaries in the tables of a run. -/
def salaries (run : Except (Pipeline.Runner.Stop String (Frame Text Unit) Unit)
    (Pipeline.Runner.PipelineExecutionSummary String (Frame Text Unit) Unit)) :
    List (Option (List Text)) :=
  match run with
  | .ok summary => summary.stepResults.map fun result =>
      (result.outputTable.columns.get? salary).map (·.values)
  | .error _ => []

/-- A query that names the stored file gets the column that the load left out. -/
theorem redacted_column_selected :
    DifferInHidden staffEnv none (staffConfig staffQuery) staffSteps (disk staff)
        (disk staffRaised) ∧
      Pipeline.Runner.execute (runnerEnv staffEnv (disk staff) none (staffConfig staffQuery))
          staffSteps ≠
        Pipeline.Runner.execute
          (runnerEnv staffEnv (disk staffRaised) none (staffConfig staffQuery)) staffSteps := by
  refine ⟨staff_differ _, ?_⟩
  intro hsame
  have hsalaries := congrArg salaries hsame
  revert hsalaries
  decide +kernel

end Staff

end PipelineIQ.Security.Noninterference
