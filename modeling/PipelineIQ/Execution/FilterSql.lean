import PipelineIQ.Lib.Sql
import PipelineIQ.Pipeline.Filter

namespace PipelineIQ.Execution.FilterSql

open PipelineIQ.Lib.Strings PipelineIQ.Lib.Sql PipelineIQ.Pipeline.Filter

section Builder

variable (py : Python)

def quoteIdentifier (identifier : Text) : Option Text :=
  if identifier = [] then none
  else some ('"' :: replace ['"'] ['"', '"'] identifier ++ ['"'])

def quotedText (text : Text) : Text := '\'' :: replace ['\''] ['\'', '\''] text ++ ['\'']

def sqlLiteral : Value → Option Text
  | none => some "NULL".toList
  | some (.bool b) => some (if b then "TRUE".toList else "FALSE".toList)
  | some (.float .nan) | some (.float (.infinite _)) => none
  | some (.int n) => some (py.str (some (.int n)))
  | some (.float d) => some (py.str (some (.float d)))
  | some v => some (quotedText (py.str (some v)))

def compareOps : List (String × String) :=
  [("equals", "="), ("eq", "="), ("not_equals", "!="), ("neq", "!="), ("greater_than", ">"),
    ("gt", ">"), ("less_than", "<"), ("lt", "<"), ("gte", ">="), ("lte", "<=")]

def buildFilterSql (step : FilterStepConfig) : Option Text := do
  let column ← quoteIdentifier step.column
  let operator := step.operator.value
  let cast := "CAST(".toList ++ column ++ " AS VARCHAR)".toList
  let predicate ← match compareOps.lookup operator with
    | some sign => do
      let literal ← sqlLiteral py step.value
      pure (column ++ ' ' :: sign.toList ++ ' ' :: literal)
    | none =>
      let value := py.str step.value
      if operator = "contains" then
        pure (cast ++ " LIKE ".toList ++ quotedText ('%' :: value ++ ['%']))
      else if operator = "not_contains" then
        pure (cast ++ " NOT LIKE ".toList ++ quotedText ('%' :: value ++ ['%']))
      else if operator = "starts_with" then
        pure (cast ++ " LIKE ".toList ++ quotedText (value ++ ['%']))
      else if operator = "ends_with" then
        pure (cast ++ " LIKE ".toList ++ quotedText ('%' :: value))
      else if operator = "is_null" then pure (column ++ " IS NULL".toList)
      else if operator = "is_not_null" then pure (column ++ " IS NOT NULL".toList)
      else none
  pure ("SELECT * FROM __input__ WHERE ".toList ++ predicate)

/-! ### The predicate -/

inductive Predicate where
  | compare (op : Comparison) (literal : Value)
  | like (negated : Bool) (pattern : Text)
  | isNull (negated : Bool)
  deriving DecidableEq, Repr

def sign : Comparison → Text
  | .eq => ['=']
  | .ne => ['!', '=']
  | .gt => ['>']
  | .lt => ['<']
  | .ge => ['>', '=']
  | .le => ['<', '=']

def Predicate.render (column : Text) : Predicate → Option Text
  | .compare op literal => (sqlLiteral py literal).map (column ++ ' ' :: sign op ++ ' ' :: ·)
  | .like negated pattern =>
    some ("CAST(".toList ++ column ++ " AS VARCHAR)".toList ++
      (if negated then " NOT LIKE ".toList else " LIKE ".toList) ++ quotedText pattern)
  | .isNull negated =>
    some (column ++ if negated then " IS NOT NULL".toList else " IS NULL".toList)

/-- What the `WHERE` of a filter step says. -/
def wherePredicate (operator : FilterOperator) (value : Value) : Predicate :=
  match operator with
  | .equals => .compare .eq value
  | .notEquals => .compare .ne value
  | .greaterThan => .compare .gt value
  | .lessThan => .compare .lt value
  | .greaterThanOrEqual => .compare .ge value
  | .lessThanOrEqual => .compare .le value
  | .contains => .like false ('%' :: py.str value ++ ['%'])
  | .notContains => .like true ('%' :: py.str value ++ ['%'])
  | .startsWith => .like false (py.str value ++ ['%'])
  | .endsWith => .like false ('%' :: py.str value)
  | .isNull => .isNull false
  | .isNotNull => .isNull true

/-- The text built for a step is its predicate, written out. -/
theorem buildFilterSql_eq (step : FilterStepConfig) :
    buildFilterSql py step = (quoteIdentifier step.column).bind fun column =>
      ((wherePredicate py step.operator step.value).render py column).map
        ("SELECT * FROM __input__ WHERE ".toList ++ ·) := by
  obtain ⟨name, operator, value⟩ := step
  cases hq : quoteIdentifier name with
  | none => simp only [buildFilterSql, hq]; rfl
  | some column =>
    cases hv : sqlLiteral py value <;> cases operator <;>
      simp only [buildFilterSql, wherePredicate, Predicate.render, hq, hv] <;> rfl

/-- The quoted column is read back as the column. -/
theorem readQuoted_identifier {column quoted : Text} (h : quoteIdentifier column = some quoted)
    (rest : Text) (hrest : rest.head? ≠ some '"') :
    readQuoted '"' (quoted ++ rest) = some (column, rest) := by
  unfold quoteIdentifier at h
  split at h
  · cases h
  · cases h
    exact readQuoted_quote '"' column rest hrest

/-- A quoted value or pattern ends the text and is read back as itself. -/
theorem readQuoted_text (text : Text) : readQuoted '\'' (quotedText text) = some (text, []) := by
  have h := readQuoted_quote '\'' text [] (by simp)
  rw [List.append_nil] at h
  exact h

end Builder

/-! ### The engine -/

/-- What the filter uses of DuckDB: the text of a cell other than a text, the order of two
numbers, whether a literal of another type than the column's binds, and the comparison with it
(`none` is a conversion error). -/
structure DuckDb where
  varchar : Scalar → Text
  order : ColumnType → Scalar → Scalar → Ordering
  binds : ColumnType → Comparison → Scalar → Bool
  mixed : ColumnType → Comparison → Scalar → Scalar → Option Bool

section Engine

variable (D : DuckDb)

def DuckDb.cellText : Scalar → Text
  | .text t => t
  | c => D.varchar c

/-- A comparison with a literal that fits the column. NaN is the greatest number. -/
def DuckDb.compareFitting (type : ColumnType) (op : Comparison) (v : Scalar) : Scalar → Bool
  | .text a => match v with
    | .text b => op.holds (compareOfLessAndEq a b)
    | _ => false
  | .bool a => match v with
    | .bool b => op.holds (compareOfLessAndEq a b)
    | _ => false
  | .instant a => match v with
    | .instant b => op.holds (compareOfLessAndEq a b)
    | _ => false
  | c => if c.isna then op.holds .gt else op.holds (D.order type c v)

def Predicate.binds (type : ColumnType) : Predicate → Bool
  | .compare op (some v) => type.fits v || D.binds type op v
  | _ => true

/-- The truth of a predicate on a cell, `none` where its evaluation fails. -/
def Predicate.eval (type : ColumnType) : Predicate → Cell → Option Truth
  | .isNull negated, c => some (some (c.isNone != negated))
  | _, none => some none
  | .compare _ none, some _ => some none
  | .compare op (some v), some c =>
    if type.fits v then some (some (D.compareFitting type op v c))
    else (D.mixed type op c v).map some
  | .like negated pattern, some c =>
    let t : Truth := some (PipelineIQ.Lib.Sql.like pattern (D.cellText c))
    some (if negated then t.not else t)

/-- The rows that the query of a filter step selects. -/
def duckdbFilter (py : Python) (t : Table) (step : FilterStepConfig) : Option (List t.Row) :=
  match buildFilterSql py step, t.find step.column with
  | some _, some i =>
    let type := (t.columns i).2
    let predicate := wherePredicate py step.operator step.value
    if predicate.binds D type then
      select (fun r => (predicate.eval D type (r i)).map Truth.selects) t.rows
    else none
  | _, _ => none

end Engine

/-! ### Routing -/

def DUCKDB_THRESHOLD : Nat := 50000

/-- A filter step goes to DuckDB from a number of input rows on. -/
def smartExecute (py : Python) (P : Pandas) (D : DuckDb) (threshold : Nat) (t : Table)
    (step : FilterStepConfig) : Option (List t.Row) :=
  if threshold ≤ t.rows.length then duckdbFilter D py t step
  else (executeFilter py P t step).toOption

end PipelineIQ.Execution.FilterSql
