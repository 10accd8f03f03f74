import Mathlib.Data.Multiset.MapFold
import PipelineIQ.Execution.StepSql
import PipelineIQ.Pipeline.Steps

namespace PipelineIQ.Execution.JoinSql

open PipelineIQ.Lib.Strings PipelineIQ.Lib.Sql PipelineIQ.Lib.Joins PipelineIQ.Pipeline.Steps
open PipelineIQ.Execution.FilterSql

/-! ### The engine -/

/-- What a join uses of DuckDB: whether `OUTER JOIN` is taken without a `FULL` before it, and
the names of the columns of a result. A name that occurs once stays; a repeated one may get a
number. -/
structure Duckdb where
  outerJoin : Bool
  names : List Text → List Text
  names_distinct : ∀ columns, columns.Nodup → names columns = columns
  names_repeated : ∀ columns, List.Forall₂ (fun column name => name = column ∨
    ∃ digits : Text, name = column ++ '_' :: digits ∧ ∀ d ∈ digits, d.isDigit) columns
      (names columns)

def queryHead : JoinHow → String
  | .inner => "SELECT * FROM __left__ INNER JOIN __right__ USING ("
  | .left => "SELECT * FROM __left__ LEFT JOIN __right__ USING ("
  | .right => "SELECT * FROM __left__ RIGHT JOIN __right__ USING ("
  | .outer => "SELECT * FROM __left__ OUTER JOIN __right__ USING ("

/-- The type and the key that the query of a join is read back as. -/
def readJoin (sql : Text) : Option (JoinHow × Text) :=
  [JoinType.inner, .left, .right, .outer].findSome? fun how =>
    if (queryHead how).toList.isPrefixOf sql then
      match readQuoted '"' (sql.drop (queryHead how).toList.length) with
      | some (key, [')']) => some (how, key)
      | _ => none
    else none

variable {α : Type} [DecidableEq α]

section Using

variable (left right : Table α) (leftKey : Fin left.width) (rightKey : Fin right.width)

/-- `USING`: a null key equals no key. -/
def usingKey (l : left.Row) (r : right.Row) : Bool := (l leftKey).isSome && l leftKey == r rightKey

/-- `SELECT *` has the key once, where the left table has it. -/
def joinUsing (how : JoinHow) : Multiset (List (Option α)) :=
  (join (usingKey left right leftKey rightKey) how left.rows right.rows).map
    (mergedRow left right leftKey rightKey)

end Using

variable (D : Duckdb)

def executeQuery (left right : Table α) (how : JoinHow) (key : Text) : Option (Result α) := do
  let leftKey ← left.find key
  let rightKey ← right.find key
  if how = .outer ∧ D.outerJoin = false then none
  else some ⟨D.names (left.names ++ (right.others rightKey).map right.columns),
    joinUsing left right leftKey rightKey how⟩

/-- The join step in DuckDB. -/
def duckdbJoin (left right : Table α) (config : JoinStepConfig) : Option (Result α) := do
  let sql ← StepSql.buildJoinSql ⟨config.on, config.how.value.toList⟩
  let (how, key) ← readJoin sql
  executeQuery D left right how key

/-- A join goes to DuckDB when a table has more rows than the threshold. -/
def smartJoin (isna : α → Bool) (threshold : Nat) (left right : Table α)
    (config : JoinStepConfig) : Option (Result α) :=
  if max left.rows.length right.rows.length ≤ threshold then
    (executeJoin isna left right config).toOption
  else duckdbJoin D left right config

/-! ### The query -/

theorem joinHead_value (how : JoinHow) :
    StepSql.joinHead (lowerCase how.value.toList) = some (queryHead how) := by
  cases how <;> decide +kernel

theorem queryHead_isPrefixOf (how how' : JoinHow) (rest : Text) :
    (queryHead how).toList.isPrefixOf ((queryHead how').toList ++ rest) = decide (how = how') := by
  by_cases h : how = how'
  · subst h
    simp
  · rw [decide_eq_false h]
    cases how <;> cases how' <;> first | exact absurd rfl h | rfl

theorem readJoin_buildJoinSql {on sql : Text} {how : JoinHow}
    (h : StepSql.buildJoinSql ⟨on, how.value.toList⟩ = some sql) : readJoin sql = some (how, on) := by
  obtain ⟨quoted, hq, h⟩ := Option.bind_eq_some_iff.mp h
  dsimp only at h
  rw [joinHead_value] at h
  obtain rfl := Option.some.inj h
  have hread : readQuoted '"' (quoted ++ [')']) = some (on, [')']) :=
    readQuoted_identifier hq _ (by simp)
  have hclose : ")".toList = [')'] := rfl
  unfold readJoin
  simp only [List.append_assoc, queryHead_isPrefixOf, decide_eq_true_eq, hclose]
  cases how <;>
    simp only [List.findSome?_cons, reduceCtorEq, if_false, if_true, List.drop_left, hread]

/-- A join raises in the builder only for an empty key. -/
theorem duckdbJoin_eq (left right : Table α) (config : JoinStepConfig) :
    duckdbJoin D left right config =
      if config.on = [] then none else executeQuery D left right config.how config.on := by
  unfold duckdbJoin
  cases hsql : StepSql.buildJoinSql ⟨config.on, config.how.value.toList⟩ with
  | none =>
    have hon : config.on = [] := by
      simpa [StepSql.buildJoinSql, joinHead_value, quoteIdentifier] using hsql
    rw [if_pos hon]
    rfl
  | some sql =>
    have hon : config.on ≠ [] := by
      intro hon
      simp [StepSql.buildJoinSql, hon, quoteIdentifier] at hsql
    simp [readJoin_buildJoinSql hsql, if_neg hon]

end PipelineIQ.Execution.JoinSql
