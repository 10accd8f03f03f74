import PipelineIQ.Lib.Duplicates
import PipelineIQ.Lib.Reshape
import PipelineIQ.Pipeline.Steps

namespace PipelineIQ.Pipeline.Frames

open PipelineIQ.Lib PipelineIQ.Lib.Strings PipelineIQ.Lib.Duplicates PipelineIQ.Pipeline.Steps
open PipelineIQ.Pipeline.Filter (ColumnType)

variable {α : Type}

/-! ### Data frames -/

/-- What `to_pandas` makes of a value of a column with or without nulls: NaN is a null, and a
whole number next to a null is a double. -/
structure Reading (α : Type) where
  value : Bool → α → Option α
  value_value : ∀ nulls v w, value nulls v = some w → value nulls w = some w

/-- The reading of columns without NaN and without whole numbers that no double is. -/
def readAsIs : Reading α where
  value _ v := some v
  value_value _ _ _ _ := rfl

def hasNulls (t : Table α) (i : Fin t.width) : Bool := t.rows.any fun r => (r i).isNone

section Frame

variable (R : Reading α) (t : Table α)

def Reading.row (r : t.Row) : t.Row := fun i => (r i).bind (R.value (hasNulls t i))

/-- The rows of the data frame of a table. -/
def Reading.frame : List t.Row := t.rows.map (R.row t)

/-- A row that pandas reads as it is. -/
def Reading.Exact (r : t.Row) : Prop := R.row t r = r

end Frame

/-- The cells of a row under some columns. -/
def key (t : Table α) (columns : List Text) (r : t.Row) : List (Option α) := columns.map (t.cell r)

def cells (t : Table α) (r : t.Row) : List (Option α) := (List.finRange t.width).map r

/-- The errors of a step: a column that the table lacks, columns of two roles, and what pandas and
pyarrow raise: for a value, a number out of range, a column taken twice, columns with one name, or
values of one column that have no type in common. -/
inductive FrameError where
  | columnNotFound (column : Text) (availableColumns : List Text)
  | overlap (columns : List Text)
  | value (reason : Text)
  | overflow (reason : Text)
  | key (column : Text)
  | duplicateColumns
  | conversion
  deriving DecidableEq, Repr

def validateColumnExists (t : Table α) (column : Text) : Except FrameError Unit :=
  if column ∈ t.names then .ok () else .error (.columnNotFound column t.names)

/-- `Table.from_pandas`. -/
def fromPandas (t : Table α) (rows : List t.Row) : Result α := ⟨t.names, rows.map (cells t)⟩

/-! ### Deduplicate -/

/-- The value of `keep`: a word, or a boolean of the YAML text. -/
inductive KeepOption where
  | word (text : Text)
  | bool (b : Bool)
  deriving DecidableEq

/-- What `drop_duplicates` makes of the option; the step turns the word `none` into `False`. -/
def KeepOption.pandas : KeepOption → Option Keep
  | .word text =>
    if text = "none".toList then some .none
    else if text = "first".toList then some .first
    else if text = "last".toList then some .last
    else none
  | .bool b => if b then none else some .none

structure DeduplicateStepConfig where
  subset : Option (List Text) := none
  keep : KeepOption := .word "first".toList

section Deduplicate

variable [DecidableEq α] (R : Reading α) (t : Table α)

/-- `DataFrame.drop_duplicates`; an empty frame is copied before the option is looked at. -/
def dropDuplicates (subset : Option (List Text)) (keep : KeepOption) :
    Except FrameError (List t.Row) :=
  let frame := R.frame t
  if frame.isEmpty ∨ t.width = 0 then .ok frame
  else match keep.pandas with
    | none => .error (.value "keep must be either \"first\", \"last\" or False".toList)
    | some keep => .ok (unmarked frame (duplicated keep (frame.map (key t (subset.getD t.names)))))

def executeDeduplicate (config : DeduplicateStepConfig) : Except FrameError (Result α) := do
  (config.subset.getD []).forM (validateColumnExists t)
  let subset := if config.subset = some [] then none else config.subset
  let rows ← dropDuplicates R t subset config.keep
  pure (fromPandas t rows)

end Deduplicate

/-! ### Unpivot -/

structure UnpivotStepConfig where
  idVars : List Text
  valueVars : List Text
  varName : Text := "variable".toList
  valueName : Text := "value".toList

/-- The value columns as pandas takes them, once each. -/
def UnpivotStepConfig.valueColumns (config : UnpivotStepConfig) : List Text :=
  survivors .first id [] config.valueVars

/-- What the concatenation of columns and its way back to Arrow make of a value, `none` where
their values have no type in common. -/
structure Concat (α : Type) where
  value : List (ColumnType × List (Option α)) → Option (α → Option α)
  value_value : ∀ columns f v w, value columns = some f → f v = some w → f w = some w

section Unpivot

variable (R : Reading α) (K : Concat α) (text : Text → α) (t : TypedTable α)

def columnCells (column : Text) : ColumnType × List (Option α) :=
  ((t.find column).elim .null t.types, t.rows.map fun r => t.cell r column)

/-- What becomes of the values of some columns; without columns nothing is concatenated. -/
def concatenated (columns : List Text) : Option (α → Option α) :=
  if columns = [] then some some else K.value (columns.map (columnCells t))

/-- The row that a cell of a value column becomes. -/
def meltedRow (idVars : List Text) (f : α → Option α) (r : t.Row) (column : Text) :
    List (Option α) :=
  key t.toTable idVars (R.row t.toTable r) ++ [some (text column), (t.cell r column).bind f]

/-- `DataFrame.melt`; an id column is taken out of the frame when it is come to. -/
def melt (config : UnpivotStepConfig) : Except FrameError (Result α) :=
  let columns := config.idVars ++ [config.varName, config.valueName]
  if config.valueName ∈ t.names then
    .error (.value ("value_name (".toList ++ config.valueName ++
      ") cannot match an element in the DataFrame columns.".toList))
  else match (config.idVars.zip (seenBefore [] config.idVars)).find? (·.2) with
    | some (column, _) => .error (.key column)
    | none =>
      if columns.Nodup then
        match concatenated K t config.valueColumns with
        | some f => .ok ⟨columns,
            Reshape.melt (meltedRow R text t config.idVars f) t.rows config.valueColumns⟩
        | none => .error .conversion
      else .error .duplicateColumns

def executeUnpivot (config : UnpivotStepConfig) : Except FrameError (Result α) := do
  (config.idVars ++ config.valueVars).forM (validateColumnExists t.toTable)
  let overlap := config.idVars.filter (· ∈ config.valueVars)
  if overlap ≠ [] then throw (.overlap overlap.dedup)
  melt R K text t config

/-- The rows that the planner expects. -/
def unpivotRowsOut (rowsIn : Nat) (config : UnpivotStepConfig) : Nat :=
  rowsIn * max 1 config.valueVars.length

end Unpivot

/-! ### What pandas reads -/

section Frame

variable {R : Reading α} {t : Table α}

theorem bind_value_eq (nulls : Bool) (v : Option α) :
    (v.bind (R.value nulls)).bind (R.value nulls) = v.bind (R.value nulls) := by
  cases v with
  | none => rfl
  | some v =>
    cases h : R.value nulls v with
    | none => simp [h]
    | some w => simp [h, R.value_value _ _ _ h]

/-- What has been read is read as it is. -/
theorem exact_row (r : t.Row) : R.Exact t (R.row t r) := by
  funext i
  exact bind_value_eq _ _

theorem exact_of_mem_frame {r : t.Row} (h : r ∈ R.frame t) : R.Exact t r := by
  obtain ⟨r', -, rfl⟩ := List.mem_map.mp h
  exact exact_row r'

theorem cells_injective : Function.Injective (cells t) := by
  intro r s h
  funext i
  exact List.map_inj_left.mp h i (List.mem_finRange i)

theorem key_names (t : Table α) : key t t.names = cells t := by
  funext r
  rw [key, cells, Table.names, List.map_map]
  refine List.map_congr_left fun i _ => ?_
  rw [Function.comp_apply, Table.cell, Table.find_eq_some.mpr rfl, Option.bind_some]

/-- What pandas reads under some columns depends on what stands there. -/
theorem key_row {columns : List Text} {r s : t.Row} (h : key t columns r = key t columns s) :
    key t columns (R.row t r) = key t columns (R.row t s) := by
  refine List.map_congr_left fun column hc => ?_
  have hcell := List.map_inj_left.mp h column hc
  unfold Table.cell at hcell ⊢
  cases hi : t.find column with
  | none => rfl
  | some i =>
    rw [hi] at hcell
    exact congrArg (·.bind (R.value (hasNulls t i))) hcell

theorem forM_validate {columns : List Text} :
    columns.forM (validateColumnExists t) = .ok () ↔ ∀ column ∈ columns, column ∈ t.names := by
  induction columns with
  | nil => simp [pure, Except.pure]
  | cons c columns ih =>
    change (validateColumnExists t c >>= fun _ => columns.forM (validateColumnExists t)) = .ok () ↔ _
    rw [List.forall_mem_cons, ← ih, validateColumnExists]
    split
    next h => simp [h, bind, Except.bind]
    next h => simp [h, bind, Except.bind]

end Frame

end PipelineIQ.Pipeline.Frames
