import PipelineIQ.Lib.Doubles
import PipelineIQ.Lib.Traverse
import PipelineIQ.Pipeline.Filter

namespace PipelineIQ.Pipeline.Validators

open PipelineIQ.Lib PipelineIQ.Lib.Strings PipelineIQ.Lib.Traverse PipelineIQ.Pipeline.Filter

/-! ### Rules -/

inductive Check where
  | notNull | notEmpty | greaterThan | lessThan | between | inValues | matchesPattern
  | noDuplicates | minRows | maxRows | dateFormat | positive
  | unknown (name : Text)
  deriving DecidableEq

def Check.value : Check → Text
  | .notNull => "not_null".toList
  | .notEmpty => "not_empty".toList
  | .greaterThan => "greater_than".toList
  | .lessThan => "less_than".toList
  | .between => "between".toList
  | .inValues => "in_values".toList
  | .matchesPattern => "matches_pattern".toList
  | .noDuplicates => "no_duplicates".toList
  | .minRows => "min_rows".toList
  | .maxRows => "max_rows".toList
  | .dateFormat => "date_format".toList
  | .positive => "positive".toList
  | .unknown name => name

/-- The dictionary of a rule, in which keys may be missing and values null; the severity is what
`get` makes of it. -/
structure Rule where
  check : Option Check
  column : Option Text := none
  severity : Option Text := some "error".toList
  value : Option Value := none
  min : Option Value := none
  max : Option Value := none
  values : Option (List Value) := none
  pattern : Option Value := none
  format : Option Value := none

structure RuleResult where
  ruleName : Text
  column : Option Text
  check : Check
  passed : Bool
  severity : Option Text
  failingCount : Scalar
  totalCount : Nat
  failingExamples : List Cell
  message : Text

structure StepResult where
  passed : Bool
  errorCount : Nat
  warningCount : Nat
  ruleResults : List RuleResult
  outputDf : Table

inductive ValidateError where
  | key (name : String)
  | type
  | value
  deriving DecidableEq

/-- What the checks use of the libraries beyond the filter: whether a cell is in a list of values,
the match of a regular expression at the beginning of a text or the error of its compilation,
whether a value is read in a format of dates (`none` raises), and the marks of duplicates. -/
structure Checks where
  isin : Dtype → List Value → Cell → Bool
  matcher : Text → Except Text (Text → Bool)
  toDatetime : Value → Dtype → Option (Scalar → Bool)
  duplicated : Series → List Bool

/-! ### Numbers -/

/-- The number that a value is in a comparison; a boolean is one. -/
def number : Scalar → Option Scalar
  | .bool b => some (.int b.toNat)
  | .int n => some (.int n)
  | .float d => some (.float d)
  | _ => none

/-- The integer that the invalid instant is stored as. -/
def invalidInstant : Int := -2 ^ 63

/-- The order of a number of rows and a number, none for NaN. -/
def compareRows (rows : Nat) : Scalar → Option Ordering
  | .int n => some (compareOfLessAndEq (rows : Int) n)
  | .float (.finite q) => some (compareOfLessAndEq (rows : Rat) q)
  | .float (.infinite negative) => some (if negative then .gt else .lt)
  | _ => none

def Double.ofRat (q : Rat) : Double :=
  (Doubles.nearest q).elim (.infinite (q < 0)) .finite

/-- The difference of a number and a number of rows. -/
def minusRows (rows : Nat) : Scalar → Scalar
  | .int n => .int (n - rows)
  | .float (.finite q) => .float (Double.ofRat (q - rows))
  | v => v

/-- The difference of a number of rows and a number. -/
def rowsMinus (rows : Nat) : Scalar → Scalar
  | .int n => .int (rows - n)
  | .float (.finite q) => .float (Double.ofRat (rows - q))
  | .float (.infinite negative) => .float (.infinite (!negative))
  | v => v

section Validate

variable (py : Python) (P : Pandas) (V : Checks)

/-- A cell in the column that `to_numeric` makes, where NaN is none. The values of a column of
instants are stored as integers, an invalid one as the least. -/
def toNumeric (dtype : Dtype) (c : Cell) : Option Scalar :=
  if dtype = .datetime64 then
    match c with
    | some (.instant n) => some (.int n)
    | _ => some (.int invalidInstant)
  else
    (c.bind fun v => match v with
      | .text t => P.parseNumber t
      | v => number v).filter fun v => !v.isna

def numericDtype (s : Series) : Dtype :=
  match s.dtype with
  | .datetime64 => .int64
  | .object =>
    if s.cells.all fun c => match toNumeric P .object c with
      | some (.int _) => true
      | _ => false
    then .int64 else .float64
  | dtype => dtype

/-- Whether a column of numbers can be compared with a value. -/
def comparable (bound : Value) : Bool := bound.all fun v => (number v).isSome

/-- The bound as a number, if it is one other than NaN. -/
def boundNumber (bound : Value) : Option Scalar := (bound.bind number).filter fun v => !v.isna

/-- A comparison with NaN or null does not hold. -/
def compareNumber (s : Series) (op : Comparison) (bound : Value) (c : Cell) : Bool :=
  match toNumeric P s.dtype c, boundNumber bound with
  | some n, some v => op.holds (P.order (numericDtype P s) n v)
  | _, _ => false

def compareNumeric (s : Series) (op : Comparison) (bound : Value) :
    Except ValidateError (Cell → Bool) :=
  if comparable bound then .ok (compareNumber P s op bound) else .error .type

/-- `astype(str)`; a NaN has the text of a null. -/
def textOf (dtype : Dtype) (c : Cell) : Text :=
  if isnaCell c then dtype.nullText else P.cellText dtype c

/-! ### Checks -/

/-- What a check comes to: the marks of the failing cells, a number of rows, or an error of the
rule. -/
inductive Outcome where
  | mask (marks : List Bool) (message : Text → Text)
  | rows (passed : Bool) (count : Scalar) (message : Text)
  | invalid (message : Text)

def Rule.get {β : Type} (name : String) (entry : Option β) : Except ValidateError β :=
  entry.elim (.error (.key name)) .ok

def quoted (column : Text) : Text := '\'' :: column ++ ['\'']

/-- `min_rows` and `max_rows`; the two comparisons and the two differences are their own. -/
def checkRows (passes : Ordering → Bool) (difference : Nat → Scalar → Scalar) (bound : String)
    (t : Table) (rule : Rule) : Except ValidateError Outcome := do
  let value ← Rule.get "value" rule.value
  match value.bind number with
  | none => .error .type
  | some v =>
    let passed := (compareRows t.rows.length v).any passes
    pure (.rows passed (if passed then .int 0 else difference t.rows.length v)
      ("Dataset has ".toList ++ t.rows.length.repr.toList ++ " rows, ".toList ++ bound.toList ++
        " is ".toList ++ py.str value))

def minRows : Table → Rule → Except ValidateError Outcome :=
  checkRows py Ordering.isGE minusRows "minimum"

def maxRows : Table → Rule → Except ValidateError Outcome :=
  checkRows py Ordering.isLE rowsMinus "maximum"

def evaluate (t : Table) (rule : Rule) (column : Text) (s : Series) :
    Check → Except ValidateError Outcome
  | .notNull => .ok (.mask (s.cells.map isnaCell) fun count =>
      count ++ " null values in ".toList ++ quoted column)
  | .notEmpty => .ok (.mask (s.cells.map fun c => decide (strip (textOf P s.dtype c) = []))
      fun count => count ++ " empty values in ".toList ++ quoted column)
  | .greaterThan => do
    let value ← Rule.get "value" rule.value
    let mask ← compareNumeric P s .le value
    pure (.mask (s.cells.map mask) fun count => count ++ " values in ".toList ++ quoted column ++
      " not greater than ".toList ++ py.str value)
  | .lessThan => do
    let value ← Rule.get "value" rule.value
    let mask ← compareNumeric P s .ge value
    pure (.mask (s.cells.map mask) fun count => count ++ " values in ".toList ++ quoted column ++
      " not less than ".toList ++ py.str value)
  | .between => do
    let minVal ← Rule.get "min" rule.min
    let maxVal ← Rule.get "max" rule.max
    let below ← compareNumeric P s .lt minVal
    let above ← compareNumeric P s .gt maxVal
    pure (.mask (s.cells.map fun c => below c || above c) fun count =>
      count ++ " values in ".toList ++ quoted column ++ " not between ".toList ++ py.str minVal ++
        " and ".toList ++ py.str maxVal)
  | .inValues => do
    let values ← Rule.get "values" rule.values
    pure (.mask (s.cells.map fun c => !V.isin s.dtype values c) fun count =>
      count ++ " values in ".toList ++ quoted column ++ " not in allowed list".toList)
  | .matchesPattern => do
    let pattern ← Rule.get "pattern" rule.pattern
    match pattern with
    | some (.text pattern) =>
      match V.matcher pattern with
      | .ok matched => pure (.mask (s.cells.map fun c => !matched (textOf P s.dtype c)) fun count =>
          count ++ " values in ".toList ++ quoted column ++ " don't match pattern".toList)
      | .error e => pure (.invalid ("Invalid regex: ".toList ++ e))
    | _ => .error .type
  | .noDuplicates => .ok (.mask (V.duplicated s) fun count =>
      count ++ " duplicate values in ".toList ++ quoted column)
  | .minRows => minRows py t rule
  | .maxRows => maxRows py t rule
  | .positive => do
    let mask ← compareNumeric P s .le (some (.int 0))
    pure (.mask (s.cells.map mask) fun count =>
      count ++ " non-positive values in ".toList ++ quoted column)
  | .dateFormat => do
    let format ← Rule.get "format" rule.format
    match V.toDatetime format s.dtype with
    | none => .error .value
    | some parsed => pure (.mask (s.cells.map fun c => c.any fun v => !v.isna && !parsed v)
        fun count => count ++ " values in ".toList ++ quoted column ++
          " don't match format ".toList ++ py.str format)
  | .unknown name => .ok (.invalid ("Unknown check: ".toList ++ quoted name))

/-- The column of a rule, unless it has an empty name. -/
def Rule.named (rule : Rule) : Option Text := rule.column.filter fun column => column ≠ []

def ruleResult (t : Table) (rule : Rule) (check : Check) (cells : List Cell) : Outcome → RuleResult
  | .mask marks message =>
    { ruleName := rule.named.getD "dataset".toList ++ '.' :: check.value, column := rule.column
      check := check, passed := marks.count true = 0, severity := rule.severity
      failingCount := .int (marks.count true), totalCount := t.rows.length
      failingExamples := (maskRows cells marks).take 3
      message := message (marks.count true).repr.toList }
  | .rows passed count message =>
    { ruleName := rule.named.getD "dataset".toList ++ '.' :: check.value, column := rule.column
      check := check, passed := passed, severity := rule.severity, failingCount := count
      totalCount := t.rows.length, failingExamples := [], message := message }
  | .invalid message =>
    { ruleName := rule.named.getD "dataset".toList ++ '.' :: check.value, column := rule.column
      check := check, passed := false, severity := rule.severity, failingCount := .int 0
      totalCount := t.rows.length, failingExamples := [], message := message }

/-- The result of a rule whose column is missing, where all rows fail. -/
def allFail (t : Table) (rule : Rule) (check : Check) (message : Text) : RuleResult :=
  { ruleName := rule.named.getD "dataset".toList ++ '.' :: check.value, column := rule.column
    check := check, passed := false, severity := rule.severity, failingCount := .int t.rows.length
    totalCount := t.rows.length, failingExamples := [], message := message }

def executeSingleRule (t : Table) (rule : Rule) : Except ValidateError RuleResult := do
  let check ← Rule.get "check" rule.check
  match rule.named with
  | some column =>
    match t.find column with
    | none => pure (allFail t rule check ("Column ".toList ++ quoted column ++ " not found".toList))
    | some i =>
      let outcome ← evaluate py P V t rule column (t.series i) check
      pure (ruleResult t rule check (t.series i).cells outcome)
  | none =>
    if check = .minRows then return ruleResult t rule check [] (← minRows py t rule)
    else if check = .maxRows then return ruleResult t rule check [] (← maxRows py t rule)
    else pure (allFail t rule check
      ("Check ".toList ++ quoted check.value ++ " requires a column".toList))

def failures (severity : String) (results : List RuleResult) : Nat :=
  results.countP fun r => !r.passed && r.severity == some severity.toList

def executeValidate (t : Table) (rules : List Rule) : Except ValidateError StepResult := do
  let results ← rules.mapM (executeSingleRule py P V t)
  pure
    { passed := failures "error" results = 0
      errorCount := failures "error" results
      warningCount := failures "warning" results
      ruleResults := results
      outputDf := t }

end Validate

/-! ### What the checks mean -/

section Meaning

variable (py : Python) (P : Pandas) (V : Checks)

/-- The checks that look at the cells one by one. -/
def Check.OnCells : Check → Prop
  | .noDuplicates | .minRows | .maxRows | .unknown _ => False
  | _ => True

instance (check : Check) : Decidable check.OnCells := by
  cases check <;> unfold Check.OnCells <;> infer_instance

/-- The comparisons that a number has to meet. -/
def Rule.bounds (rule : Rule) : Check → List (Comparison × Value)
  | .greaterThan => [(.gt, rule.value.join)]
  | .lessThan => [(.lt, rule.value.join)]
  | .between => [(.ge, rule.min.join), (.le, rule.max.join)]
  | .positive => [(.gt, some (.int 0))]
  | _ => []

def Meets (s : Series) (bounds : List (Comparison × Value)) (c : Cell) : Bool :=
  bounds.all fun b => compareNumber P s b.1 b.2 c

/-- The match of a rule's pattern, if it is one. -/
def Rule.matcher (rule : Rule) : Option (Text → Bool) :=
  match rule.pattern with
  | some (some (.text pattern)) => (V.matcher pattern).toOption
  | _ => none

def Rule.parsed (rule : Rule) (s : Series) : Option (Scalar → Bool) :=
  rule.format.bind fun format => V.toDatetime format s.dtype

/-- Whether a cell violates a check. A null violates `not_null` only. -/
def violates (s : Series) (rule : Rule) (check : Check) (c : Cell) : Bool :=
  if isnaCell c then check = .notNull
  else match check with
    | .notEmpty => strip (textOf P s.dtype c) = []
    | .greaterThan | .lessThan | .between | .positive => !Meets P s (rule.bounds check) c
    | .inValues => !rule.values.any fun values => V.isin s.dtype values c
    | .matchesPattern => !(rule.matcher V).any fun matched => matched (textOf P s.dtype c)
    | .dateFormat => !(rule.parsed V s).any fun parsed => c.any parsed
    | _ => false

/-- The rule passes when no cell violates it, and counts those that do. -/
structure CellsExact (s : Series) (rule : Rule) (check : Check) (r : RuleResult) : Prop where
  passed : r.passed = true ↔ ∀ c ∈ s.cells, violates P V s rule check c = false
  count : r.failingCount = .int (s.cells.countP (violates P V s rule check))

def RuleExact (t : Table) (rule : Rule) (r : RuleResult) : Prop :=
  ∀ column i check, rule.column = some column → t.find column = some i →
    rule.check = some check → check.OnCells → CellsExact P V (t.series i) rule check r

/-- The step gives a result, which is exact for each rule, and passes when no rule of severity
`error` fails. -/
def ValidateExact (t : Table) (rules : List Rule) : Prop :=
  ∃ result, executeValidate py P V t rules = .ok result ∧
    List.Forall₂ (RuleExact P V t) rules result.ruleResults ∧
      (result.passed = true ↔
        ∀ r ∈ result.ruleResults, r.severity = some "error".toList → r.passed = true)

/-! ### When they mean it -/

def Comparison.negate : Comparison → Comparison
  | .eq => .ne
  | .ne => .eq
  | .gt => .le
  | .lt => .ge
  | .ge => .lt
  | .le => .gt

/-- A number that is on the wrong side of a bound. -/
def Fails (s : Series) (bounds : List (Comparison × Value)) (c : Cell) : Bool :=
  bounds.any fun b => compareNumber P s (Comparison.negate b.1) b.2 c

/-- Every cell other than null is a number, and no null is taken for a number that fails. Where a
bound is null or NaN, of which nothing is on the wrong side, as many nulls fail as other cells are
let through. -/
structure NumbersClean (s : Series) (bounds : List (Comparison × Value)) : Prop where
  comparable : ∀ b ∈ bounds, comparable b.2 = true
  cells : if ∀ b ∈ bounds, (boundNumber b.2).isSome then
      ∀ c ∈ s.cells, if isnaCell c then Fails P s bounds c = false
        else (toNumeric P s.dtype c).isSome
    else s.cells.countP (fun c => isnaCell c && Fails P s bounds c) =
      s.cells.countP fun c => !isnaCell c && !Fails P s bounds c

/-- The value that a number of rows is compared with is a number. -/
def RowsClean (rule : Rule) : Prop :=
  ∃ value v, rule.value = some value ∧ value.bind number = some v

/-- The keys of a check are there, the libraries take them, and the cells are of the kind that the
check is made for: numbers, or no nulls. -/
def ColumnClean (s : Series) (rule : Rule) : Check → Prop
  | .notNull | .notEmpty | .noDuplicates | .unknown _ => True
  | .greaterThan => rule.value.isSome ∧ NumbersClean P s (rule.bounds .greaterThan)
  | .lessThan => rule.value.isSome ∧ NumbersClean P s (rule.bounds .lessThan)
  | .between => (rule.min.isSome ∧ rule.max.isSome) ∧ NumbersClean P s (rule.bounds .between)
  | .positive => NumbersClean P s (rule.bounds .positive)
  | .inValues => ∃ values, rule.values = some values ∧
      ∀ c ∈ s.cells, isnaCell c = true → V.isin s.dtype values c = true
  | .matchesPattern => ∃ matched, rule.matcher V = some matched ∧
      ∀ c ∈ s.cells, isnaCell c = true → matched (textOf P s.dtype c) = true
  | .dateFormat => (rule.parsed V s).isSome
  | .minRows | .maxRows => RowsClean rule

/-- A rule without the name of a column fails on all rows. -/
def RuleClean (t : Table) (rule : Rule) : Prop :=
  ∃ check, rule.check = some check ∧
    match rule.named with
    | some column => ∀ i, t.find column = some i → ColumnClean P V (t.series i) rule check
    | none => (check = .minRows ∨ check = .maxRows → RowsClean rule) ∧
        ∀ i, rule.column = some [] → t.find [] = some i → check.OnCells →
          t.rows ≠ [] ∧ ∀ c ∈ (t.series i).cells, violates P V (t.series i) rule check c = true

end Meaning

/-! ### Counting -/

theorem countP_eq_iff {β : Type} (p q : β → Bool) (xs : List β) :
    xs.countP p = xs.countP q ↔
      xs.countP (fun x => p x && !q x) = xs.countP fun x => q x && !p x := by
  have h : xs.countP p + xs.countP (fun x => q x && !p x) =
      xs.countP q + xs.countP fun x => p x && !q x := by
    induction xs with
    | nil => rfl
    | cons x xs ih =>
      simp only [List.countP_cons]
      cases p x <;> cases q x <;> simp <;> omega
  omega

/-- Where everything that is counted on the one side is on the other, the rest must be nothing. -/
theorem countP_eq_iff_of_imp {β : Type} {p q : β → Bool} {xs : List β}
    (h : ∀ x ∈ xs, q x = true → p x = true) :
    xs.countP p = xs.countP q ↔ ∀ x ∈ xs, p x = true → q x = true := by
  have hzero : xs.countP (fun x => q x && !p x) = 0 := by
    rw [List.countP_eq_zero]
    intro x hx
    simpa using h x hx
  rw [countP_eq_iff, hzero, List.countP_eq_zero]
  apply forall₂_congr
  intro x _
  simp

section Results

variable {py : Python} {P : Pandas} {V : Checks} {t : Table} {rule : Rule} {s : Series}

/-- A check that marks the cells one by one is exact when it marks as many as violate it. -/
theorem mask_exact {check : Check} (f : Cell → Bool) (message : Text → Text) :
    CellsExact P V s rule check (ruleResult t rule check s.cells (.mask (s.cells.map f) message)) ↔
      s.cells.countP f = s.cells.countP (violates P V s rule check) := by
  have hcount : (s.cells.map f).count true = s.cells.countP f := by
    rw [List.count_eq_countP, List.countP_map]
    apply List.countP_congr
    intro c _
    simp
  constructor
  · intro h
    have hexact := h.count
    rw [ruleResult, hcount, Scalar.int.injEq, Nat.cast_inj] at hexact
    exact hexact
  · intro h
    constructor
    · rw [ruleResult, decide_eq_true_iff, hcount, h, List.countP_eq_zero]
      apply forall₂_congr
      intro c _
      exact Bool.eq_false_iff.symm
    · rw [ruleResult, hcount, h]

theorem invalid_not_exact {check : Check} (message : Text) :
    ¬CellsExact P V s rule check (ruleResult t rule check s.cells (.invalid message)) := by
  intro h
  have hcount := Nat.cast_inj.mp (Scalar.int.inj h.count)
  have hnone : ∀ c ∈ s.cells, violates P V s rule check c = false := fun c hc =>
    Bool.eq_false_iff.mpr (List.countP_eq_zero.mp hcount.symm c hc)
  exact absurd (h.passed.mpr hnone) Bool.noConfusion

/-! ### Numeric checks -/

theorem holds_negate (op : Comparison) (o : Ordering) :
    (Comparison.negate op).holds o = !op.holds o := by
  cases op <;> cases o <;> rfl

/-- Of a comparison and its negation one holds, for numbers. -/
theorem compareNumber_negate {op : Comparison} {bound : Value} {c : Cell} :
    compareNumber P s (Comparison.negate op) bound c =
      ((toNumeric P s.dtype c).isSome && (boundNumber bound).isSome &&
        !compareNumber P s op bound c) := by
  rw [compareNumber, compareNumber]
  cases toNumeric P s.dtype c with
  | none => rfl
  | some n =>
    cases boundNumber bound with
    | none => rfl
    | some v => exact holds_negate op _

variable {bounds : List (Comparison × Value)} {c : Cell}

theorem not_meets_of_fails (h : Fails P s bounds c = true) : Meets P s bounds c = false := by
  obtain ⟨b, hb, hfails⟩ := List.any_eq_true.mp h
  rw [compareNumber_negate, Bool.and_eq_true, Bool.not_eq_true'] at hfails
  exact List.all_eq_false.mpr ⟨b, hb, Bool.eq_false_iff.mp hfails.2⟩

/-- A number fails exactly when it does not meet bounds that are numbers. -/
theorem fails_eq (hbounds : ∀ b ∈ bounds, (boundNumber b.2).isSome)
    (hc : (toNumeric P s.dtype c).isSome) : Fails P s bounds c = !Meets P s bounds c := by
  rw [Bool.eq_iff_iff, Fails, List.any_eq_true, Bool.not_eq_true', Meets, List.all_eq_false]
  apply exists_congr
  intro b
  apply and_congr_right
  intro hb
  rw [compareNumber_negate, hc, hbounds b hb, Bool.true_and, Bool.true_and, Bool.not_eq_true',
    Bool.not_eq_true]

theorem fails_eq_false (hc : toNumeric P s.dtype c = none) : Fails P s bounds c = false := by
  apply List.any_eq_false.mpr
  intro b _
  rw [compareNumber_negate, hc]
  exact Bool.false_ne_true

theorem meets_eq_false (hne : bounds ≠ []) (hc : toNumeric P s.dtype c = none) :
    Meets P s bounds c = false := by
  obtain ⟨b, hb⟩ := List.exists_mem_of_ne_nil _ hne
  apply List.all_eq_false.mpr
  refine ⟨b, hb, ?_⟩
  rw [compareNumber, hc]
  exact Bool.false_ne_true

/-- A null is taken for a number in a column of instants only. -/
theorem toNumeric_null (hdtype : s.dtype ≠ .datetime64) (hc : isnaCell c = true) :
    toNumeric P s.dtype c = none := by
  unfold toNumeric
  rw [if_neg hdtype]
  cases c with
  | none => rfl
  | some v =>
    cases v with
    | nat => rfl
    | float d =>
      have hna : Scalar.isna (.float d) = true := hc
      simp [number, hna]
    | text | bool | int | instant => cases hc

theorem toNumeric_instants (hdtype : s.dtype = .datetime64) :
    (toNumeric P s.dtype c).isSome := by
  unfold toNumeric
  rw [if_pos hdtype]
  split <;> rfl

/-- What violates a numeric check. -/
def violatesBounds (P : Pandas) (s : Series) (bounds : List (Comparison × Value)) (c : Cell) :
    Bool :=
  !isnaCell c && !Meets P s bounds c

theorem numbers_exact (hne : bounds ≠ []) :
    s.cells.countP (Fails P s bounds) = s.cells.countP (violatesBounds P s bounds) ↔
      if ∀ b ∈ bounds, (boundNumber b.2).isSome then
        ∀ c ∈ s.cells, if isnaCell c then Fails P s bounds c = false
          else (toNumeric P s.dtype c).isSome
      else s.cells.countP (fun c => isnaCell c && Fails P s bounds c) =
        s.cells.countP fun c => !isnaCell c && !Fails P s bounds c := by
  by_cases hbounds : ∀ b ∈ bounds, (boundNumber b.2).isSome
  · rw [if_pos hbounds]
    constructor
    · intro hcount c hc
      by_cases hdtype : s.dtype = .datetime64
      · have himp : ∀ x ∈ s.cells, violatesBounds P s bounds x = true →
            Fails P s bounds x = true := by
          intro x _ hx
          rw [fails_eq hbounds (toNumeric_instants hdtype)]
          exact (Bool.and_eq_true_iff.mp hx).2
        have hall := (countP_eq_iff_of_imp himp).mp hcount c hc
        by_cases hna : isnaCell c = true
        · rw [if_pos hna, Bool.eq_false_iff]
          intro hfails
          have hviolates := (Bool.and_eq_true_iff.mp (hall hfails)).1
          rw [hna] at hviolates
          cases hviolates
        · rw [if_neg hna]
          exact toNumeric_instants hdtype
      · have hnull : ∀ x, isnaCell x = true → Fails P s bounds x = false := fun x hx =>
          fails_eq_false (toNumeric_null hdtype hx)
        have himp : ∀ x ∈ s.cells, Fails P s bounds x = true →
            violatesBounds P s bounds x = true := by
          intro x _ hx
          rw [violatesBounds, not_meets_of_fails hx, Bool.not_false, Bool.and_true,
            Bool.not_eq_true', Bool.eq_false_iff]
          intro hna
          rw [hnull x hna] at hx
          cases hx
        have hall := (countP_eq_iff_of_imp himp).mp hcount.symm c hc
        by_cases hna : isnaCell c = true
        · rw [if_pos hna, hnull c hna]
        · rw [if_neg hna, Option.isSome_iff_ne_none]
          intro hnone
          have hviolates : violatesBounds P s bounds c = true := by
            rw [violatesBounds, meets_eq_false hne hnone, Bool.eq_false_iff.mpr hna]
            rfl
          have hfails := hall hviolates
          rw [fails_eq_false hnone] at hfails
          cases hfails
    · intro hcells
      apply List.countP_congr
      intro c hc
      have hcell := hcells c hc
      by_cases hna : isnaCell c = true
      · rw [if_pos hna] at hcell
        rw [hcell, violatesBounds, hna]
        rfl
      · rw [if_neg hna] at hcell
        rw [fails_eq hbounds hcell, violatesBounds, Bool.eq_false_iff.mpr hna]
        rfl
  · rw [if_neg hbounds]
    -- No cell meets a bound that is not a number.
    have hviolates : ∀ c, violatesBounds P s bounds c = !isnaCell c := by
      intro c
      have hmeets : Meets P s bounds c = false := by
        obtain ⟨b, hb, hbound⟩ := not_forall₂.mp hbounds
        refine List.all_eq_false.mpr ⟨b, hb, ?_⟩
        rw [compareNumber, Option.not_isSome_iff_eq_none.mp hbound]
        cases toNumeric P s.dtype c <;> exact Bool.false_ne_true
      rw [violatesBounds, hmeets, Bool.not_false, Bool.and_true]
    rw [countP_eq_iff]
    simp only [hviolates, Bool.not_not, Bool.and_comm]

theorem violates_bounds {check : Check} (h : rule.bounds check ≠ []) :
    violates P V s rule check = violatesBounds P s (rule.bounds check) := by
  funext c
  unfold violates violatesBounds
  cases check with
  | greaterThan | lessThan | between | positive => cases isnaCell c <;> rfl
  | _ => exact absurd rfl h

/-- A comparison with bounds, once the keys of the rule are there. -/
theorem compared_exact {check : Check} (hne : rule.bounds check ≠ [])
    {mask : Except ValidateError (Cell → Bool)} {message : Text → Text}
    (hmask : mask = if ∀ b ∈ rule.bounds check, comparable b.2 = true then
      .ok (Fails P s (rule.bounds check)) else .error .type) :
    (∃ outcome, (mask >>= fun m => pure (.mask (s.cells.map m) message)) = .ok outcome ∧
        CellsExact P V s rule check (ruleResult t rule check s.cells outcome)) ↔
      NumbersClean P s (rule.bounds check) := by
  rw [hmask]
  by_cases hcomparable : ∀ b ∈ rule.bounds check, comparable b.2 = true
  · rw [if_pos hcomparable]
    have hexact := @mask_exact P V t rule s check (Fails P s (rule.bounds check)) message
    rw [violates_bounds hne, numbers_exact hne] at hexact
    constructor
    · rintro ⟨outcome, houtcome, h⟩
      cases houtcome
      exact ⟨hcomparable, hexact.mp h⟩
    · intro h
      exact ⟨_, rfl, hexact.mpr h.cells⟩
  · rw [if_neg hcomparable]
    refine iff_of_false ?_ fun h => hcomparable h.comparable
    rintro ⟨outcome, houtcome, -⟩
    cases houtcome

theorem compareNumeric_eq (op : Comparison) (bound : Value) :
    compareNumeric P s (Comparison.negate op) bound =
      if ∀ b ∈ [(op, bound)], comparable b.2 = true then .ok (Fails P s [(op, bound)])
      else .error .type := by
  have hfails : compareNumber P s (Comparison.negate op) bound = Fails P s [(op, bound)] := by
    funext c
    rw [Fails, List.any_cons, List.any_nil, Bool.or_false]
  rw [compareNumeric, hfails]
  simp only [List.forall_mem_singleton]

/-- The marks of a check that marks a cell other than null when it violates it. -/
theorem marked_exact {check : Check} {f : Cell → Bool} {message : Text → Text}
    (hf : ∀ c, isnaCell c = false → f c = violates P V s rule check c) (hcheck : check ≠ .notNull) :
    CellsExact P V s rule check (ruleResult t rule check s.cells (.mask (s.cells.map f) message)) ↔
      ∀ c ∈ s.cells, isnaCell c = true → f c = false := by
  have hnull : ∀ c, isnaCell c = true → violates P V s rule check c = false := by
    intro c hc
    unfold violates
    rw [if_pos hc]
    exact decide_eq_false hcheck
  have himp : ∀ c ∈ s.cells, violates P V s rule check c = true → f c = true := by
    intro c _ hc
    cases hna : isnaCell c with
    | true =>
      rw [hnull c hna] at hc
      cases hc
    | false => rw [hf c hna, hc]
  rw [mask_exact, countP_eq_iff_of_imp himp]
  apply forall₂_congr
  intro c _
  cases hna : isnaCell c with
  | true =>
    rw [hnull c hna, Bool.eq_false_iff]
    constructor
    · intro h _ hfc
      exact absurd (h hfc) Bool.false_ne_true
    · intro h hfc
      exact absurd hfc (h rfl)
  | false =>
    rw [hf c hna]
    exact iff_of_true id fun h => absurd h Bool.false_ne_true

/-- The text of a null is not blank. -/
theorem nullText_not_blank (dtype : Dtype) : strip dtype.nullText ≠ [] := by
  cases dtype <;> decide

theorem not_error_exact {check : Check} {e : ValidateError} {outcome : Except ValidateError Outcome}
    (h : outcome = .error e) : ¬∃ o, outcome = .ok o ∧
      CellsExact P V s rule check (ruleResult t rule check s.cells o) := by
  rw [h]
  rintro ⟨o, ho, -⟩
  cases ho

/-- An outcome is there, and exact. -/
theorem exists_ok_iff {check : Check} {o : Outcome} {outcome : Except ValidateError Outcome}
    (h : outcome = .ok o) : (∃ o, outcome = .ok o ∧
      CellsExact P V s rule check (ruleResult t rule check s.cells o)) ↔
        CellsExact P V s rule check (ruleResult t rule check s.cells o) := by
  rw [h]
  simp

/-- A check with one bound, which the rule gives. -/
theorem sided_exact {check : Check} {op : Comparison} {message : Value → Text → Text}
    (hbounds : rule.bounds check = [(op, rule.value.join)]) :
    (∃ outcome, (do
        let value ← Rule.get "value" rule.value
        let mask ← compareNumeric P s (Comparison.negate op) value
        pure (Outcome.mask (s.cells.map mask) (message value))) = .ok outcome ∧
      CellsExact P V s rule check (ruleResult t rule check s.cells outcome)) ↔
        rule.value.isSome ∧ NumbersClean P s (rule.bounds check) := by
  cases hvalue : rule.value with
  | none => exact iff_of_false (not_error_exact rfl) fun h => Bool.noConfusion h.1
  | some value =>
    rw [hvalue] at hbounds
    have hmask := compareNumeric_eq (P := P) (s := s) op value
    rw [show [(op, value)] = rule.bounds check from hbounds.symm] at hmask
    rw [Option.isSome_some, eq_self, true_and]
    exact compared_exact (by simp [hbounds]) hmask

theorem between_exact {message : Value → Value → Text → Text} :
    (∃ outcome, (do
        let minVal ← Rule.get "min" rule.min
        let maxVal ← Rule.get "max" rule.max
        let below ← compareNumeric P s .lt minVal
        let above ← compareNumeric P s .gt maxVal
        pure (Outcome.mask (s.cells.map fun c => below c || above c) (message minVal maxVal))) =
          .ok outcome ∧
      CellsExact P V s rule .between (ruleResult t rule .between s.cells outcome)) ↔
        (rule.min.isSome ∧ rule.max.isSome) ∧ NumbersClean P s (rule.bounds .between) := by
  cases hmin : rule.min with
  | none => exact iff_of_false (not_error_exact rfl) fun h => Bool.noConfusion h.1.1
  | some minVal =>
    cases hmax : rule.max with
    | none => exact iff_of_false (not_error_exact rfl) fun h => Bool.noConfusion h.1.2
    | some maxVal =>
      have hbounds : rule.bounds .between = [(.ge, minVal), (.le, maxVal)] := by
        rw [Rule.bounds, hmin, hmax]
        rfl
      have hmask : (do
          let below ← compareNumeric P s .lt minVal
          let above ← compareNumeric P s .gt maxVal
          pure fun c => below c || above c) =
          if ∀ b ∈ rule.bounds .between, comparable b.2 = true then
            .ok (Fails P s (rule.bounds .between)) else .error .type := by
        rw [hbounds, compareNumeric, compareNumeric]
        simp only [List.forall_mem_cons, List.not_mem_nil, false_imp_iff, implies_true, and_true]
        cases comparable minVal with
        | false => rfl
        | true =>
          cases comparable maxVal with
          | false => rfl
          | true =>
            have hfails : (fun c => compareNumber P s .lt minVal c ||
                compareNumber P s .gt maxVal c) = Fails P s [(.ge, minVal), (.le, maxVal)] := by
              funext c
              rw [Fails, List.any_cons, List.any_cons, List.any_nil, Bool.or_false]
              rfl
            rw [← hfails]
            rfl
      have hexact := @compared_exact P V t rule s .between (by simp [hbounds]) _
        (message minVal maxVal) hmask
      rw [Option.isSome_some, Option.isSome_some, ← hexact]
      simp only [true_and, and_true, bind_assoc, pure_bind]
      rfl

theorem not_clean_of_no_matcher (h : rule.matcher V = none) :
    ¬ColumnClean P V s rule .matchesPattern := by
  rintro ⟨matched, hmatched, -⟩
  cases h.symm.trans hmatched

theorem pattern_exact {column : Text} :
    (∃ outcome, evaluate py P V t rule column s .matchesPattern = .ok outcome ∧
        CellsExact P V s rule .matchesPattern
          (ruleResult t rule .matchesPattern s.cells outcome)) ↔
      ColumnClean P V s rule .matchesPattern := by
  have hother : ∀ value, rule.pattern = some value → (∀ pattern, value ≠ some (.text pattern)) →
      evaluate py P V t rule column s .matchesPattern = .error .type ∧ rule.matcher V = none := by
    intro value hvalue htext
    rw [evaluate, hvalue, Rule.matcher, hvalue]
    cases value with
    | none => exact ⟨rfl, rfl⟩
    | some v =>
      cases v with
      | text pattern => exact absurd rfl (htext pattern)
      | bool | int | float | instant | nat => exact ⟨rfl, rfl⟩
  cases hpattern : rule.pattern with
  | none =>
    refine iff_of_false (not_error_exact (e := .key "pattern") ?_) (not_clean_of_no_matcher ?_)
    · rw [evaluate, hpattern]
      rfl
    · rw [Rule.matcher, hpattern]
  | some value =>
    by_cases htext : ∃ pattern, value = some (.text pattern)
    · obtain ⟨pattern, rfl⟩ := htext
      have hmatcher : rule.matcher V = (V.matcher pattern).toOption := by
        rw [Rule.matcher, hpattern]
      have hevaluate : evaluate py P V t rule column s .matchesPattern =
          match V.matcher pattern with
          | .ok matched => .ok (.mask (s.cells.map fun c => !matched (textOf P s.dtype c))
              fun count => count ++ " values in ".toList ++ quoted column ++
                " don't match pattern".toList)
          | .error e => .ok (.invalid ("Invalid regex: ".toList ++ e)) := by
        rw [evaluate, hpattern]
        rfl
      cases hcompile : V.matcher pattern with
      | error e =>
        rw [hcompile] at hevaluate hmatcher
        rw [exists_ok_iff hevaluate]
        exact iff_of_false (invalid_not_exact _) (not_clean_of_no_matcher hmatcher)
      | ok matched =>
        rw [hcompile] at hevaluate hmatcher
        have hmatcher' : rule.matcher V = some matched := hmatcher
        rw [exists_ok_iff hevaluate, marked_exact ?_ (by decide), ColumnClean]
        · simp [hmatcher']
        · intro c hc
          unfold violates
          rw [if_neg (Bool.eq_false_iff.mp hc), hmatcher']
          rfl
    · obtain ⟨herror, hnone⟩ := hother value hpattern (not_exists.mp htext)
      exact iff_of_false (not_error_exact herror) (not_clean_of_no_matcher hnone)

theorem format_exact {column : Text} :
    (∃ outcome, evaluate py P V t rule column s .dateFormat = .ok outcome ∧
        CellsExact P V s rule .dateFormat (ruleResult t rule .dateFormat s.cells outcome)) ↔
      ColumnClean P V s rule .dateFormat := by
  cases hformat : rule.format with
  | none =>
    refine iff_of_false (not_error_exact (e := .key "format") ?_) ?_
    · rw [evaluate, hformat]
      rfl
    · rw [ColumnClean, Rule.parsed, hformat]
      exact Bool.false_ne_true
  | some format =>
    have hparsed : rule.parsed V s = V.toDatetime format s.dtype := by
      rw [Rule.parsed, hformat]
      rfl
    cases hdates : V.toDatetime format s.dtype with
    | none =>
      refine iff_of_false (not_error_exact (e := .value) ?_) ?_
      · rw [evaluate, hformat]
        change (match V.toDatetime format s.dtype with | none => _ | some parsed => _) = _
        rw [hdates]
      · rw [ColumnClean, hparsed, hdates]
        exact Bool.false_ne_true
    | some parsed =>
      have hevaluate : evaluate py P V t rule column s .dateFormat =
          .ok (.mask (s.cells.map fun c => c.any fun v => !v.isna && !parsed v) fun count =>
            count ++ " values in ".toList ++ quoted column ++ " don't match format ".toList ++
              py.str format) := by
        rw [evaluate, hformat]
        change (match V.toDatetime format s.dtype with | none => _ | some parsed => _) = _
        rw [hdates]
        rfl
      rw [exists_ok_iff hevaluate, marked_exact ?_ (by decide), ColumnClean, hparsed, hdates]
      · refine iff_of_true ?_ rfl
        intro c _ hc
        cases c with
        | none => rfl
        | some v =>
          have hna : v.isna = true := hc
          rw [Option.any_some, hna]
          rfl
      · intro c hc
        unfold violates
        rw [if_neg (Bool.eq_false_iff.mp hc), hparsed, hdates]
        cases c with
        | none => cases hc
        | some v =>
          have hna : v.isna = false := hc
          rw [Option.any_some, hna]
          rfl

theorem column_exact {column : Text} {check : Check} (hcheck : check.OnCells) :
    (∃ outcome, evaluate py P V t rule column s check = .ok outcome ∧
        CellsExact P V s rule check (ruleResult t rule check s.cells outcome)) ↔
      ColumnClean P V s rule check := by
  cases check with
  | noDuplicates | minRows | maxRows | unknown => exact hcheck.elim
  | notNull =>
    refine iff_of_true ⟨_, rfl, (mask_exact _ _).mpr ?_⟩ trivial
    apply List.countP_congr
    intro c _
    unfold violates
    cases isnaCell c <;> simp
  | notEmpty =>
    refine iff_of_true ⟨_, rfl, (marked_exact ?_ (by decide)).mpr ?_⟩ trivial
    · intro c hc
      unfold violates
      rw [if_neg (Bool.eq_false_iff.mp hc)]
    · intro c _ hc
      rw [textOf, if_pos hc]
      exact decide_eq_false (nullText_not_blank _)
  | greaterThan => exact @sided_exact P V t rule s .greaterThan .gt _ rfl
  | lessThan => exact @sided_exact P V t rule s .lessThan .lt _ rfl
  | between => exact between_exact
  | positive =>
    exact @compared_exact P V t rule s .positive (List.cons_ne_nil _ _) _ _
      (compareNumeric_eq .gt (some (.int 0)))
  | inValues =>
    cases hvalues : rule.values with
    | none =>
      refine iff_of_false (not_error_exact (e := .key "values") ?_) ?_
      · rw [evaluate, hvalues]
        rfl
      · rintro ⟨values, h, -⟩
        cases hvalues.symm.trans h
    | some values =>
      have hevaluate : evaluate py P V t rule column s .inValues =
          .ok (.mask (s.cells.map fun c => !V.isin s.dtype values c) fun count =>
            count ++ " values in ".toList ++ quoted column ++ " not in allowed list".toList) := by
        rw [evaluate, hvalues]
        rfl
      rw [exists_ok_iff hevaluate, marked_exact ?_ (by decide), ColumnClean]
      · simp [hvalues]
      · intro c hc
        unfold violates
        rw [if_neg (Bool.eq_false_iff.mp hc), hvalues]
        rfl
  | matchesPattern => exact pattern_exact
  | dateFormat => exact format_exact

/-! ### Rules and steps -/

theorem column_of_named {column : Text} (h : rule.named = some column) :
    rule.column = some column ∧ column ≠ [] := by
  obtain ⟨hcolumn, hne⟩ := Option.filter_eq_some_iff.mp h
  exact ⟨hcolumn, of_decide_eq_true hne⟩

/-- `min_rows` and `max_rows` need a number only. -/
theorem checkRows_isOk {passes : Ordering → Bool} {difference : Nat → Scalar → Scalar}
    {bound : String} :
    (∃ outcome, checkRows py passes difference bound t rule = .ok outcome) ↔ RowsClean rule := by
  rw [checkRows, RowsClean]
  cases hvalue : rule.value with
  | none =>
    refine iff_of_false ?_ ?_
    · rintro ⟨outcome, h⟩
      cases h
    · rintro ⟨value, v, h, -⟩
      cases h
  | some value =>
    have hget : Rule.get "value" (some value) = .ok value := rfl
    simp only [hget, bind, Except.bind]
    cases hnumber : value.bind number with
    | none =>
      refine iff_of_false ?_ ?_
      · rintro ⟨outcome, h⟩
        cases h
      · rintro ⟨value', v, h, hv⟩
        cases h
        cases hnumber.symm.trans hv
    | some v => exact iff_of_true ⟨_, rfl⟩ ⟨value, v, rfl, hnumber⟩

/-- A check that does not look at the cells raises only for its number of rows. -/
theorem evaluate_isOk {column : Text} {check : Check} (hcheck : ¬check.OnCells) :
    (∃ outcome, evaluate py P V t rule column s check = .ok outcome) ↔
      ColumnClean P V s rule check := by
  cases check with
  | noDuplicates | unknown => exact iff_of_true ⟨_, rfl⟩ trivial
  | minRows | maxRows => exact checkRows_isOk
  | _ => exact absurd trivial hcheck

/-- That all rows fail is exact when they do, and when there are some. -/
theorem allFail_exact {i : Fin t.width} {check : Check} {message : Text} :
    CellsExact P V (t.series i) rule check (allFail t rule check message) ↔
      t.rows ≠ [] ∧ ∀ c ∈ (t.series i).cells, violates P V (t.series i) rule check c = true := by
  have hlength : (t.series i).cells.length = t.rows.length := List.length_map _
  constructor
  · intro h
    have hcount := Nat.cast_inj.mp (Scalar.int.inj h.count)
    rw [← hlength, eq_comm, List.countP_eq_length] at hcount
    refine ⟨?_, hcount⟩
    intro hnil
    have hcells : (t.series i).cells = [] := by
      rw [← List.length_eq_zero_iff, hlength, hnil, List.length_nil]
    refine absurd (h.passed.mpr ?_) Bool.false_ne_true
    rw [hcells]
    exact fun c hc => absurd hc List.not_mem_nil
  · rintro ⟨hne, hall⟩
    constructor
    · refine iff_of_false Bool.false_ne_true fun hnone => ?_
      obtain ⟨c, hc⟩ := List.exists_mem_of_ne_nil (t.series i).cells (by
        rw [← List.length_pos_iff, hlength, List.length_pos_iff]
        exact hne)
      exact absurd ((hnone c hc).symm.trans (hall c hc)) Bool.false_ne_true
    · rw [allFail, List.countP_eq_length.mpr hall, hlength]

theorem rule_exact : (∃ r, executeSingleRule py P V t rule = .ok r ∧ RuleExact P V t rule r) ↔
    RuleClean P V t rule := by
  rw [executeSingleRule, RuleClean]
  cases hcheck : rule.check with
  | none =>
    refine iff_of_false ?_ ?_
    · rintro ⟨r, h, -⟩
      cases h
    · rintro ⟨check, h, -⟩
      cases h
  | some check =>
    have hget : Rule.get "check" (some check) = .ok check := rfl
    simp only [hget, bind, Except.bind, Option.some.injEq, exists_eq_left']
    cases hnamed : rule.named with
    | some column =>
      obtain ⟨hcolumn, -⟩ := column_of_named hnamed
      dsimp only
      cases hfind : t.find column with
      | none =>
        refine iff_of_true ⟨_, rfl, ?_⟩ fun i hi => nomatch hi
        intro column' i check' hcolumn' hi
        cases hcolumn.symm.trans hcolumn'
        exact nomatch hfind.symm.trans hi
      | some i =>
        have hexact : ∀ r, RuleExact P V t rule r ↔
            (check.OnCells → CellsExact P V (t.series i) rule check r) := by
          intro r
          constructor
          · intro h
            exact h column i check hcolumn hfind hcheck
          · intro h column' i' check' hcolumn' hi' hcheck'
            cases hcolumn.symm.trans hcolumn'
            obtain rfl := Option.some.inj (hfind.symm.trans hi')
            obtain rfl := Option.some.inj (hcheck.symm.trans hcheck')
            exact h
        simp only [Option.some.injEq, forall_eq', hexact]
        by_cases hcells : check.OnCells
        · rw [← @column_exact py P V t rule _ column check hcells]
          cases evaluate py P V t rule column (t.series i) check <;>
            simp [hcells, pure, Except.pure]
        · rw [← @evaluate_isOk py P V t rule _ column check hcells]
          cases evaluate py P V t rule column (t.series i) check <;>
            simp [hcells, pure, Except.pure]
    | none =>
      have hvacuous : ¬check.OnCells → ∀ r, RuleExact P V t rule r := by
        intro hcells r column i check' _ _ hcheck' honcells
        obtain rfl := Option.some.inj (hcheck.symm.trans hcheck')
        exact absurd honcells hcells
      dsimp only
      by_cases hmin : check = .minRows
      · rw [if_pos hmin]
        have hcells : ¬check.OnCells := by rw [hmin]; exact id
        have hrows : (∃ outcome, minRows py t rule = .ok outcome) ↔ RowsClean rule := checkRows_isOk
        simp only [hmin, true_or, true_imp_iff, ← hrows]
        cases minRows py t rule <;> simp [hvacuous hcells, pure, Except.pure, Check.OnCells]
      · by_cases hmax : check = .maxRows
        · rw [if_neg hmin, if_pos hmax]
          have hcells : ¬check.OnCells := by rw [hmax]; exact id
          have hrows : (∃ outcome, maxRows py t rule = .ok outcome) ↔ RowsClean rule :=
            checkRows_isOk
          simp only [hmax, or_true, true_imp_iff, ← hrows]
          cases maxRows py t rule <;> simp [hvacuous hcells, pure, Except.pure, Check.OnCells]
        · rw [if_neg hmin, if_neg hmax]
          have hrows : check = .minRows ∨ check = .maxRows → RowsClean rule := fun h =>
            absurd h (not_or.mpr ⟨hmin, hmax⟩)
          constructor
          · rintro ⟨r, hr, hexact⟩
            cases hr
            refine ⟨hrows, fun i hcolumn hfind hcells => ?_⟩
            exact allFail_exact.mp (hexact [] i check hcolumn hfind hcheck hcells)
          · rintro ⟨-, hempty⟩
            refine ⟨_, rfl, fun column i check' hcolumn hfind hcheck' hcells => ?_⟩
            obtain rfl := Option.some.inj (hcheck.symm.trans hcheck')
            have hnil : column = [] := by
              by_contra hne
              rw [Rule.named, hcolumn, Option.filter_some, if_pos (decide_eq_true hne)] at hnamed
              cases hnamed
            subst hnil
            exact allFail_exact.mpr (hempty i hcolumn hfind hcells)

/-- The verdict of a step is exact whatever the rules come to. -/
theorem failures_eq_zero {results : List RuleResult} {severity : String} :
    failures severity results = 0 ↔
      ∀ r ∈ results, r.severity = some severity.toList → r.passed = true := by
  rw [failures, List.countP_eq_zero]
  apply forall₂_congr
  intro r _
  cases r.passed <;> simp

theorem executeValidate_eq_ok {rules : List Rule} {result : StepResult} :
    executeValidate py P V t rules = .ok result ↔
      ∃ results, rules.mapM (executeSingleRule py P V t) = .ok results ∧
        result = ⟨failures "error" results = 0, failures "error" results,
          failures "warning" results, results, t⟩ := by
  rw [executeValidate]
  cases rules.mapM (executeSingleRule py P V t) with
  | error e => simp [bind, Except.bind]
  | ok results => simp [bind, Except.bind, pure, Except.pure, eq_comm]

theorem ValidateExact.clean {rules : List Rule} (h : ValidateExact py P V t rules) :
    ∀ rule ∈ rules, RuleClean P V t rule := by
  intro rule hrule
  obtain ⟨result, hresult, hexact, -⟩ := h
  obtain ⟨results, hmap, rfl⟩ := executeValidate_eq_ok.mp hresult
  obtain ⟨r, -, hr⟩ := forall₂_mem_left (forall₂_both (mapM_ok_iff.mp hmap) hexact) hrule
  exact rule_exact.mp ⟨r, hr⟩

/-- The results are exact for every table and all rules exactly when each rule is clean. -/
theorem validate_exact_iff (py : Python) (P : Pandas) (V : Checks) (t : Table) (rules : List Rule) :
    ValidateExact py P V t rules ↔ ∀ rule ∈ rules, RuleClean P V t rule := by
  constructor
  · exact ValidateExact.clean
  · intro hclean
    obtain ⟨results, hresults⟩ := exists_forall₂ fun rule hrule =>
      (@rule_exact py P V t rule).mpr (hclean rule hrule)
    have hmap := mapM_ok_iff.mpr (hresults.imp fun _ _ h => h.1)
    refine ⟨_, executeValidate_eq_ok.mpr ⟨results, hmap, rfl⟩, hresults.imp fun _ _ h => h.2, ?_⟩
    rw [decide_eq_true_iff]
    exact failures_eq_zero

end Results

section Words

/-- A column with one word in it, which is no number. -/
def words : Table where
  width := 1
  columns _ := ("v".toList, .text)
  distinct := Function.injective_of_subsingleton _
  rows := [fun _ => some (.text "abc".toList)]
  typed := by decide

def wordPandas : Pandas where
  parseNumber _ := none
  parseDatetime _ := none
  compile _ := none
  print _ _ := []
  order _ _ _ := .eq
  mixed op _ _ := some (op == .ne)

def plainChecks : Checks where
  isin _ values c := decide (c ∈ values)
  matcher _ := .error []
  toDatetime _ _ := none
  duplicated s := s.cells.map fun _ => false

def positiveRule : Rule where
  check := some .positive
  column := some "v".toList

/-- A word passes for a positive number. -/
theorem word_passes : ¬ValidateExact ⟨fun _ => [], fun _ => []⟩ wordPandas plainChecks words
    [positiveRule] := by
  intro h
  obtain ⟨check, hcheck, hclean⟩ := h.clean positiveRule List.mem_cons_self
  obtain rfl := Option.some.inj hcheck
  have hcells := (hclean ⟨0, Nat.one_pos⟩ (by decide)).cells
  rw [if_pos (by decide)] at hcells
  exact absurd (hcells (some (.text "abc".toList)) (by decide)) (by decide)

end Words

end PipelineIQ.Pipeline.Validators
