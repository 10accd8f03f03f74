import PipelineIQ.Lib.Fills
import PipelineIQ.Lib.Traverse
import PipelineIQ.Pipeline.Frames

namespace PipelineIQ.Pipeline.FillNullsStep

open PipelineIQ.Lib PipelineIQ.Lib.Strings PipelineIQ.Lib.Fills
open PipelineIQ.Pipeline.Filter (ColumnType Dtype Scalar Value)
open PipelineIQ.Pipeline.Steps (Table TypedTable)
open PipelineIQ.Pipeline.Frames

variable {α : Type}

/-- A table of Arrow, column by column. -/
abbrev ArrowTable (α : Type) := List (Text × List (Option α))

def columnOf (t : Table α) (i : Fin t.width) : List (Option α) := t.rows.map fun r => r i

inductive FillStrategy where
  | constant | forwardFill | backwardFill | mean | median | mode
  deriving DecidableEq

/-- The strategies that the step knows by their words; it passes over all others. -/
def strategyOf (word : Text) : Option FillStrategy :=
  if word = "constant".toList then some .constant
  else if word = "forward_fill".toList then some .forwardFill
  else if word = "backward_fill".toList then some .backwardFill
  else if word = "mean".toList then some .mean
  else if word = "median".toList then some .median
  else if word = "mode".toList then some .mode
  else none

structure FillNullsStepConfig where
  strategy : Text := "constant".toList
  columns : List Text := []
  constantValue : Value := none

/-- What the step uses of pandas: the value that a constant is in a column of missing and other
cells, `none` where the constant and the cells have no type in common, the mean and the median,
null where there is none, and the order of values. NaN is no value to fill with. -/
structure Fillers (R : Reading α) where
  constant : ColumnType → List (Option α) → Scalar → Option (Option α)
  mean : List α → Option α
  median : List α → Option α
  order : List α → List α
  order_perm : ∀ values, (order values).Perm values
  value_constant : ∀ type cells scalar v, constant type cells scalar = some (some v) →
    ∀ nulls, R.value nulls v ≠ none
  value_mean : ∀ values v, mean values = some v → ∀ nulls, R.value nulls v ≠ none
  value_median : ∀ values v, median values = some v → ∀ nulls, R.value nulls v ≠ none

section Step

variable [DecidableEq α] {R : Reading α} (F : Fillers R)

/-- The new cells of a column. -/
def fillColumn (config : FillNullsStepConfig) (type : ColumnType) (dtype : Dtype)
    (cells : List (Option α)) : Except FrameError (List (Option α)) :=
  let values := cells.filterMap id
  match strategyOf config.strategy with
  | some .constant =>
    match config.constantValue with
    | none =>
      .error (.value "constant_value required when strategy is 'constant'".toList)
    | some constant =>
      if none ∈ cells then
        match F.constant type cells constant with
        | some w => .ok (fillWith w cells)
        | none => .error .conversion
      else .ok cells
  | some .forwardFill => .ok (forwardFill none cells)
  | some .backwardFill => .ok (backwardFill cells)
  | some .mean =>
    if dtype.isNumeric then .ok (fillWith (F.mean values) cells)
    else .error (.value "Strategy 'mean' requires numeric column".toList)
  | some .median =>
    if dtype.isNumeric then .ok (fillWith (F.median values) cells)
    else .error (.value "Strategy 'median' requires numeric column".toList)
  | some .mode =>
    match F.order (modes values) with
    | v :: _ => .ok (fillWith (some v) cells)
    | [] => .ok cells
  | none => .ok cells

variable (t : TypedTable α)

variable (R) in
/-- The cells of a column of the data frame. -/
def readColumn (i : Fin t.width) : List (Option α) := (R.frame t.toTable).map fun r => r i

/-- One turn of the loop over the columns of the step. -/
def fillStep (config : FillNullsStepConfig) (frame : Fin t.width → List (Option α))
    (column : Text) : Except FrameError (Fin t.width → List (Option α)) :=
  match t.find column with
  | some i => do
    let cells ← fillColumn F config (t.types i) (t.dtype i) (frame i)
    pure (Function.update frame i cells)
  | none => .error (.key column)

def executeFillNulls (config : FillNullsStepConfig) : Except FrameError (ArrowTable α) := do
  config.columns.forM (validateColumnExists t.toTable)
  let frame ← config.columns.foldlM (fillStep F t config) (readColumn R t)
  pure ((List.finRange t.width).map fun i => (t.columns i, frame i))

end Step

/-! ### What happens to a column -/

section Column

variable [DecidableEq α] {R : Reading α} (F : Fillers R) (config : FillNullsStepConfig) (type : ColumnType)
  (dtype : Dtype) (cells : List (Option α))

/-- There is no constant or none for the missing cells, or no number to take the mean of. -/
def FillRaises : Prop :=
  match strategyOf config.strategy with
  | some .constant => config.constantValue = none ∨
      none ∈ cells ∧ ∃ constant ∈ config.constantValue, F.constant type cells constant = none
  | some .mean | some .median => dtype.isNumeric = false
  | _ => False

/-- The value for the missing cells, where there is one for all. -/
def fillValue : Option α :=
  match strategyOf config.strategy with
  | some .constant => config.constantValue.bind fun constant => (F.constant type cells constant).join
  | some .mean => F.mean (cells.filterMap id)
  | some .median => F.median (cells.filterMap id)
  | some .mode => (F.order (modes (cells.filterMap id))).head?
  | _ => none

def filled : List (Option α) :=
  match strategyOf config.strategy with
  | some .forwardFill => forwardFill none cells
  | some .backwardFill => backwardFill cells
  | _ => fillWith (fillValue F config type cells) cells

variable {F config type dtype cells}

theorem fillColumn_raises (h : FillRaises F config type dtype cells) :
    (fillColumn F config type dtype cells).toOption = none := by
  unfold FillRaises at h
  unfold fillColumn
  split at h
  next hs =>
    rw [hs]
    rcases h with h | ⟨hnone, constant, hconstant, h⟩
    · rw [h]
      rfl
    · simp only [Option.mem_def.mp hconstant, if_pos hnone, h]
      rfl
  next hs =>
    simp only [hs, h]
    rfl
  next hs =>
    simp only [hs, h]
    rfl
  next => exact h.elim

theorem fillColumn_eq (h : ¬FillRaises F config type dtype cells) :
    fillColumn F config type dtype cells = .ok (filled F config type cells) := by
  unfold FillRaises at h
  unfold fillColumn filled fillValue
  cases hs : strategyOf config.strategy with
  | none => simp [fillWith_none]
  | some strategy =>
    simp only [hs] at h
    cases strategy with
    | forwardFill | backwardFill => rfl
    | mean | median =>
      rw [Bool.not_eq_false] at h
      simp only [h, if_true]
    | mode =>
      dsimp only
      cases F.order (modes (cells.filterMap id)) with
      | nil => simp [fillWith_none]
      | cons v rest => rfl
    | constant =>
      rw [not_or] at h
      obtain ⟨constant, hconstant⟩ := Option.ne_none_iff_exists'.mp h.1
      simp only [hconstant, Option.bind_some]
      by_cases hnone : none ∈ cells
      · rw [if_pos hnone]
        cases hvalue : F.constant type cells constant with
        | none => exact absurd ⟨hnone, constant, hconstant, hvalue⟩ h.2
        | some w => rfl
      · rw [if_neg hnone, fillWith_eq_self hnone]

theorem kept_filled : Kept cells (filled F config type cells) := by
  unfold filled
  split
  · exact kept_forwardFill none cells
  · exact kept_backwardFill cells
  · exact kept_fillWith _ cells

/-- What is filled in is a value of the column, or one that pandas does not take for a null. -/
theorem mem_filled {v : α} (h : some v ∈ filled F config type cells) :
    some v ∈ cells ∨ ∀ nulls, R.value nulls v ≠ none := by
  have hvalue : fillValue F config type cells = some v →
      some v ∈ cells ∨ ∀ nulls, R.value nulls v ≠ none := by
    intro hv
    unfold fillValue at hv
    split at hv
    · obtain ⟨constant, -, hjoin⟩ := Option.bind_eq_some_iff.mp hv
      exact Or.inr (F.value_constant _ _ _ _ (Option.join_eq_some_iff.mp hjoin))
    · exact Or.inr (F.value_mean _ _ hv)
    · exact Or.inr (F.value_median _ _ hv)
    · have hmem := (F.order_perm _).subset (List.mem_of_mem_head? hv)
      have hmode := List.mem_dedup.mp (List.mem_filter.mp hmem).1
      obtain ⟨c, hc, hcv⟩ := List.mem_filterMap.mp hmode
      exact Or.inl (hcv ▸ hc)
    · cases hv
  unfold filled at h
  split at h
  · exact Or.inl ((mem_forwardFill h).resolve_right (by simp))
  · exact Or.inl (mem_backwardFill h)
  · exact (mem_fillWith h).elim Or.inl hvalue

omit [DecidableEq α] in
theorem not_fillRaises {cells' : List (Option α)} (h : ¬FillRaises F config type dtype cells)
    (hnone : none ∉ cells') : ¬FillRaises F config type dtype cells' := by
  unfold FillRaises at h ⊢
  split
  next hs =>
    simp only [hs] at h
    exact fun h' => h (h'.imp_right fun h' => absurd h'.1 hnone)
  next hs => simpa only [hs] using h
  next hs => simpa only [hs] using h
  next => exact id

/-- A column that has been filled is filled to the same cells once more. -/
theorem fillColumn_filled (h : ¬FillRaises F config type dtype cells) :
    fillColumn F config type dtype (filled F config type cells) =
      .ok (filled F config type cells) := by
  by_cases hnone : none ∈ filled F config type cells
  · by_cases hforward : strategyOf config.strategy = some .forwardFill
    · simp only [fillColumn, filled, hforward, forwardFill_idem]
    by_cases hbackward : strategyOf config.strategy = some .backwardFill
    · simp only [fillColumn, filled, hbackward, backwardFill_idem]
    -- there is no value for the missing cells
    have hfilled : filled F config type cells = fillWith (fillValue F config type cells) cells := by
      unfold filled
      split <;> first | contradiction | rfl
    have hself : filled F config type cells = cells := by
      rw [hfilled] at hnone ⊢
      cases hvalue : fillValue F config type cells with
      | none => exact fillWith_none cells
      | some v =>
        rw [hvalue] at hnone
        exact absurd hnone (none_notMem_fillWith v cells)
    conv_lhs => rw [hself]
    exact fillColumn_eq h
  · rw [fillColumn_eq (not_fillRaises h hnone), kept_filled.eq hnone]

end Column

/-! ### What happens to the frame -/

section Frame

variable [DecidableEq α] {R : Reading α} {F : Fillers R} {t : TypedTable α}
  {config : FillNullsStepConfig}

/-- A column of the data frame is not filled. -/
def ColumnRaises (F : Fillers R) (t : TypedTable α) (config : FillNullsStepConfig)
    (i : Fin t.width) : Prop :=
  FillRaises F config (t.types i) (t.dtype i) (readColumn R t i)

/-- The columns of a frame after some of them are filled. -/
def filledFrame (F : Fillers R) (t : TypedTable α) (config : FillNullsStepConfig)
    (columns : List Text) (frame : Fin t.width → List (Option α)) (i : Fin t.width) :
    List (Option α) :=
  if t.columns i ∈ columns then filled F config (t.types i) (readColumn R t i) else frame i

/-- A column that is as it was read, or filled. -/
def Underway (F : Fillers R) (t : TypedTable α) (config : FillNullsStepConfig)
    (frame : Fin t.width → List (Option α)) : Prop :=
  ∀ i, frame i = readColumn R t i ∨
    ¬ColumnRaises F t config i ∧ frame i = filled F config (t.types i) (readColumn R t i)

theorem fillStep_ok {frame : Fin t.width → List (Option α)} {i : Fin t.width}
    (hframe : Underway F t config frame) (h : ¬ColumnRaises F t config i) :
    fillStep F t config frame (t.columns i) =
      .ok (Function.update frame i (filled F config (t.types i) (readColumn R t i))) := by
  have hcells : fillColumn F config (t.types i) (t.dtype i) (frame i) =
      .ok (filled F config (t.types i) (readColumn R t i)) := by
    rcases hframe i with hi | ⟨-, hi⟩
    · rw [hi]
      exact fillColumn_eq h
    · rw [hi]
      exact fillColumn_filled h
  unfold fillStep
  simp only [Table.find_eq_some.mpr rfl, hcells]
  rfl

theorem underway_update {frame : Fin t.width → List (Option α)} {i : Fin t.width}
    (hframe : Underway F t config frame) (h : ¬ColumnRaises F t config i) :
    Underway F t config
      (Function.update frame i (filled F config (t.types i) (readColumn R t i))) := by
  intro j
  by_cases hj : j = i
  · subst hj
    rw [Function.update_self]
    exact Or.inr ⟨h, rfl⟩
  · rw [Function.update_of_ne hj]
    exact hframe j

/-- The loop fills the columns of the step, if each can be. -/
theorem foldlM_fillStep_ok {columns : List Text} {frame : Fin t.width → List (Option α)}
    (hframe : Underway F t config frame) (hcolumns : ∀ column ∈ columns, column ∈ t.names)
    (h : ∀ i, t.columns i ∈ columns → ¬ColumnRaises F t config i) :
    columns.foldlM (fillStep F t config) frame =
      .ok (filledFrame F t config columns frame) := by
  induction columns generalizing frame with
  | nil => rfl
  | cons column columns ih =>
    obtain ⟨i, -, rfl⟩ := List.mem_map.mp (hcolumns column List.mem_cons_self)
    have hi := h i List.mem_cons_self
    rw [List.foldlM_cons, fillStep_ok hframe hi]
    refine (ih (underway_update hframe hi) (fun c hc => hcolumns c (List.mem_cons_of_mem _ hc))
      fun j hj => h j (List.mem_cons_of_mem _ hj)).trans (congrArg Except.ok ?_)
    funext j
    unfold filledFrame
    by_cases hj : j = i
    · subst hj
      simp
    · have hname : t.columns j ≠ t.columns i := fun hname => hj (t.distinct hname)
      rw [Function.update_of_ne hj]
      simp [hname]

theorem foldlM_fillStep_raises {columns : List Text} {frame : Fin t.width → List (Option α)}
    (hframe : Underway F t config frame) (hcolumns : ∀ column ∈ columns, column ∈ t.names)
    (h : ∃ i, t.columns i ∈ columns ∧ ColumnRaises F t config i) :
    (columns.foldlM (fillStep F t config) frame).toOption = none := by
  induction columns generalizing frame with
  | nil =>
    obtain ⟨i, hi, -⟩ := h
    cases hi
  | cons column columns ih =>
    obtain ⟨i, -, rfl⟩ := List.mem_map.mp (hcolumns column List.mem_cons_self)
    rw [List.foldlM_cons]
    by_cases hi : ColumnRaises F t config i
    · have hread : frame i = readColumn R t i := (hframe i).resolve_right fun h => h.1 hi
      have hraises := fillColumn_raises hi
      rw [← hread] at hraises
      unfold fillStep
      simp only [Table.find_eq_some.mpr rfl]
      cases hcells : fillColumn F config (t.types i) (t.dtype i) (frame i) with
      | error e => rfl
      | ok cells =>
        rw [hcells] at hraises
        cases hraises
    · rw [fillStep_ok hframe hi]
      refine ih (underway_update hframe hi) (fun c hc => hcolumns c (List.mem_cons_of_mem _ hc)) ?_
      obtain ⟨j, hj, hraises⟩ := h
      refine ⟨j, (List.mem_cons.mp hj).resolve_left fun hname => ?_, hraises⟩
      rw [t.distinct hname] at hraises
      exact hi hraises

/-- A column is missing, or one cannot be filled. -/
def PandasRaises (F : Fillers R) (t : TypedTable α)
    (config : FillNullsStepConfig) : Prop :=
  (∃ column ∈ config.columns, column ∉ t.names) ∨
    ∃ i, t.columns i ∈ config.columns ∧ ColumnRaises F t config i

theorem executeFillNulls_raises (h : PandasRaises F t config) :
    (executeFillNulls F t config).toOption = none := by
  unfold executeFillNulls
  cases hforM : config.columns.forM (validateColumnExists t.toTable) with
  | error e => rfl
  | ok u =>
    have hcolumns := forM_validate.mp hforM
    rcases h with ⟨column, hc, hmissing⟩ | hraises
    · exact absurd (hcolumns column hc) hmissing
    · have hfold := foldlM_fillStep_raises (fun i => Or.inl rfl) hcolumns hraises
      simp only [bind, Except.bind]
      cases hframe : config.columns.foldlM (fillStep F t config) (readColumn R t) with
      | error e => rfl
      | ok frame =>
        rw [hframe] at hfold
        cases hfold

theorem executeFillNulls_ok (h : ¬PandasRaises F t config) :
    (executeFillNulls F t config).toOption = some ((List.finRange t.width).map fun i =>
      (t.columns i, filledFrame F t config config.columns (readColumn R t) i)) := by
  unfold PandasRaises at h
  push Not at h
  have hfold := foldlM_fillStep_ok (fun i => Or.inl rfl) h.1 h.2
  unfold executeFillNulls
  rw [forM_validate.mpr h.1]
  simp only [bind, Except.bind, hfold]
  rfl

omit [DecidableEq α] in
/-- A column of a table whose rows pandas reads as they are. -/
theorem readColumn_eq (h : ∀ r ∈ t.rows, R.Exact t.toTable r) (i : Fin t.width) :
    readColumn R t i = columnOf t.toTable i := by
  unfold readColumn columnOf Reading.frame
  rw [List.map_map]
  exact List.map_congr_left fun r hr => congrFun (h r hr) i

/-- A row whose values are all there afterwards is one that pandas reads as it is. -/
theorem exact_of_kept (h : ∀ i, Kept (columnOf t.toTable i)
      (filledFrame F t config config.columns (readColumn R t) i)) :
    ∀ r ∈ t.rows, R.Exact t.toTable r := by
  intro r hr
  funext i
  have hread : Kept (readColumn R t i)
      (filledFrame F t config config.columns (readColumn R t) i) := by
    unfold filledFrame
    split
    · exact kept_filled
    · exact kept_refl _
  obtain ⟨j, hj⟩ := List.mem_iff_getElem?.mp hr
  have hcell : (columnOf t.toTable i)[j]? = some (r i) := by
    rw [columnOf, List.getElem?_map, hj]
    rfl
  have hreadCell : (readColumn R t i)[j]? = some (R.row t.toTable r i) := by
    rw [readColumn, Reading.frame, List.getElem?_map, List.getElem?_map, hj]
    rfl
  obtain ⟨c, hc, hkept⟩ := Traverse.forall₂_getElem? (h i) hcell
  obtain ⟨c', hc', hkept'⟩ := Traverse.forall₂_getElem? hread hreadCell
  rw [hc] at hc'
  cases hc'
  cases hv : r i with
  | none => rw [Reading.row, hv, Option.bind_none]
  | some v =>
    rw [hv] at hkept
    have hcv : c = some v := hkept (Option.some_ne_none v)
    cases hw : R.row t.toTable r i with
    | some w =>
      rw [← hkept' (hw ▸ Option.some_ne_none w), hcv] at hw
      exact hw.symm
    | none =>
      -- a value that is read as a null is not filled in
      have hnull : R.value (hasNulls t.toTable i) v = none := by
        rwa [Reading.row, hv] at hw
      have hmem := List.mem_of_getElem? hc
      rw [hcv] at hmem
      have hsource : some v ∈ readColumn R t i ∨ ∀ nulls, R.value nulls v ≠ none := by
        unfold filledFrame at hmem
        split at hmem
        · exact mem_filled hmem
        · exact Or.inl hmem
      rcases hsource with hsource | hvalue
      · obtain ⟨s, hs, hsv⟩ := List.mem_map.mp hsource
        have hself := congrFun (exact_of_mem_frame hs) i
        rw [Reading.row, hsv, Option.bind_some, hnull] at hself
        cases hself
      · exact absurd hnull (hvalue _)

end Frame

end PipelineIQ.Pipeline.FillNullsStep
