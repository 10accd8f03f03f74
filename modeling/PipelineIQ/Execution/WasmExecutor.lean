import Mathlib.Algebra.GroupWithZero.Nat
import PipelineIQ.Lib.Dict
import PipelineIQ.Lib.Strings

namespace PipelineIQ.Execution.WasmExecutor

open PipelineIQ.Lib PipelineIQ.Lib.Strings

/-! ### Tables -/

/-- A table by its columns; a cell without a value is null. -/
structure Table (α : Type) where
  rows : Nat
  columns : Dict Text (List (Option α))
  lengths : ∀ e ∈ columns.entries, e.2.length = rows

structure WasmComputeStep where
  function : Text
  inputColumns : List Text
  outputColumn : Text

/-- What a call of the guest function ends in: a number or nothing, a trap or another exception,
or the alarm of the time limit. -/
inductive CallResult (α : Type) where
  | returned (val : Option α)
  | failed
  | timeout

/-- The libraries that the executor calls: how pandas reads a cell of the input columns, what
`float` makes of a value, and whether pyarrow builds a table of lists of one length. -/
structure Libraries (α F : Type) where
  rowValue : Table α → List Text → Nat → Text → Option α
  float : Option α → Option F
  builds : List (Text × List (Option α)) → Bool

abbrev Guest (α F : Type) := Nat → List F → CallResult α

variable {α F : Type}

/-- The lists that the columns of the result are built of, and the errors so far. -/
structure State (α : Type) where
  resultArrays : Dict Text (List (Option α))
  errorCount : Nat

section Execute

variable (L : Libraries α F) (t : Table α) (inputColumns : List Text) (outputColumn : Text)

/-- The empty lists of the columns of the call, and the values of all others. -/
def initialArrays : Dict Text (List (Option α)) :=
  let empty := (inputColumns ++ [outputColumn]).foldl (fun d c => d.set c []) ∅
  t.columns.entries.foldl (fun d e => if (d.get? e.1).isSome then d else d.set e.1 e.2) empty

/-- A row of pandas; a column that is listed twice is no value in it. -/
def arguments (i : Nat) : Option (List F) :=
  inputColumns.mapM fun col =>
    if 1 < inputColumns.count col then none else L.float (L.rowValue t inputColumns i col)

def appendRow (arrays : Dict Text (List (Option α))) (value : Text → Option α)
    (val : Option α) : Dict Text (List (Option α)) :=
  (inputColumns.foldl (fun arrays col => arrays.push col (value col)) arrays).push outputColumn val

def maxErrors : Nat := max 10 (t.rows / 10)

/-- One row; `none` raises. -/
def executeRow (guest : Guest α F) (s : State α) (i : Nat) : Option (State α) :=
  let blank := appendRow inputColumns outputColumn s.resultArrays (fun _ => none) none
  match arguments L t inputColumns i with
  | none => some { s with resultArrays := blank }
  | some args =>
    match guest i args with
    | .returned val => some { s with
        resultArrays := appendRow inputColumns outputColumn s.resultArrays
          (L.rowValue t inputColumns i) val }
    | .failed =>
      if maxErrors t < s.errorCount + 1 then none
      else some { resultArrays := blank, errorCount := s.errorCount + 1 }
    | .timeout => none

def orderedColumns : List Text :=
  if outputColumn ∈ t.columns.keys then t.columns.keys else t.columns.keys ++ [outputColumn]

/-- The table of the lists, in an order that has the columns once. -/
def select (arrays : Dict Text (List (Option α))) (order : List Text) : Dict Text (List (Option α)) :=
  order.foldl (fun d col => d.set col ((arrays.get? col).getD [])) ∅

/-- `pa.table(..).select(..)`: lists of different lengths raise. -/
def resultTable (arrays : Dict Text (List (Option α))) : Option (Table α) :=
  let rows := ((arrays.get? outputColumn).getD []).length
  if L.builds arrays.entries = true ∧ ∀ e ∈ arrays.entries, e.2.length = rows then
    let columns := select arrays (orderedColumns t outputColumn)
    if h : ∀ e ∈ columns.entries, e.2.length = rows then some ⟨rows, columns, h⟩ else none
  else none

end Execute

/-- `execute`; a guest is missing where the module cannot be instantiated or has no such function. -/
def execute (L : Libraries α F) (t : Table α) (step : WasmComputeStep)
    (guest : Option (Guest α F)) : Option (Table α) :=
  if step.function = [] ∨ step.inputColumns = [] ∨ step.outputColumn = [] then none
  else if step.inputColumns.any fun c => decide (c ∉ t.columns.keys) then none
  else do
    let guest ← guest
    let s ← (List.range t.rows).foldlM (executeRow L t step.inputColumns step.outputColumn guest)
      ⟨initialArrays t step.inputColumns step.outputColumn, 0⟩
    resultTable L t step.outputColumn s.resultArrays

/-! ### The frame -/

section Frame

variable (L : Libraries α F) (t : Table α) (step : WasmComputeStep) (guest : Guest α F)

/-- The conversion or the call of a row fails. -/
def fails (i : Nat) : Bool :=
  match arguments L t step.inputColumns i with
  | none => true
  | some args => match guest i args with
    | .returned _ => false
    | _ => true

/-- The cell of a row that the guest function decides. -/
def outputCell (i : Nat) : Option α :=
  match arguments L t step.inputColumns i with
  | none => none
  | some args => match guest i args with
    | .returned val => val
    | _ => none

/-- What the executor puts into an input column. -/
def inputCell (i : Nat) (col : Text) : Option α :=
  if fails L t step guest i then none else L.rowValue t step.inputColumns i col

/-- The result has the rows and the columns of the table in their order, with the output column at
its place or behind them; every other column is as it was, and the output column has what the
guest function returned, and null where a row fails. -/
structure OnlyOutputChanged (result : Table α) : Prop where
  rows : result.rows = t.rows
  columns : result.columns.keys = orderedColumns t step.outputColumn
  kept : ∀ col ∈ t.columns.keys, col ≠ step.outputColumn →
    result.columns.get? col = t.columns.get? col
  output : result.columns.get? step.outputColumn =
    some ((List.range t.rows).map (outputCell L t step guest))
  failed : ∀ i < t.rows, fails L t step guest i = true →
    ∃ cells, result.columns.get? step.outputColumn = some cells ∧ cells[i]? = some none

/-- The cells of the input columns are null where a row fails, and where it does not, pandas reads
them as they are. -/
def InputsSurvive : Prop :=
  ∀ col ∈ step.inputColumns, ∀ i < t.rows, ((t.columns.get? col).getD [])[i]? =
    some (if fails L t step guest i then none else L.rowValue t step.inputColumns i col)

end Frame

/-! ### Lists of columns -/

section Lists

variable {arrays : Dict Text (List (Option α))} {inputColumns : List Text} {outputColumn col : Text}

theorem get?_push (k : Text) (v : Option α) : (arrays.push k v).get? col =
    if col = k then some ((arrays.get? k).getD [] ++ [v]) else arrays.get? col :=
  Dict.get?_set _ _ _ _

theorem get?_foldl_push (value : Text → Option α) :
    (inputColumns.foldl (fun arrays col => arrays.push col (value col)) arrays).get? col =
      if col ∈ inputColumns then
        some ((arrays.get? col).getD [] ++ List.replicate (inputColumns.count col) (value col))
      else arrays.get? col := by
  induction inputColumns generalizing arrays with
  | nil => rfl
  | cons c cs ih =>
    rw [List.foldl_cons, ih, get?_push]
    by_cases hc : col = c
    · subst hc
      by_cases hmem : col ∈ cs
      · rw [if_pos hmem, if_pos rfl, if_pos List.mem_cons_self, List.count_cons_self,
          Option.getD_some, List.append_assoc, List.replicate_succ]
        rfl
      · rw [if_neg hmem, if_pos rfl, if_pos List.mem_cons_self, List.count_cons_self,
          List.count_eq_zero.mpr hmem]
        rfl
    · rw [if_neg hc, List.count_cons_of_ne (Ne.symm hc)]
      simp only [List.mem_cons, hc, false_or]

variable (hout : outputColumn ∉ inputColumns)
include hout

/-- What one row appends to each of the lists. -/
theorem get?_appendRow (value : Text → Option α) (val : Option α) :
    (appendRow inputColumns outputColumn arrays value val).get? col =
      if col = outputColumn then some ((arrays.get? col).getD [] ++ [val])
      else if col ∈ inputColumns then
        some ((arrays.get? col).getD [] ++ List.replicate (inputColumns.count col) (value col))
      else arrays.get? col := by
  rw [appendRow, get?_push]
  by_cases hcol : col = outputColumn
  · subst hcol
    rw [if_pos rfl, if_pos rfl, get?_foldl_push, if_neg hout]
  · rw [if_neg hcol, if_neg hcol, get?_foldl_push]

omit hout in
theorem get?_initialArrays (t : Table α) :
    (initialArrays t inputColumns outputColumn).get? col =
      if col ∈ inputColumns ++ [outputColumn] then some [] else t.columns.get? col := by
  have hempty : ∀ (cs : List Text) (d : Dict Text (List (Option α))),
      (cs.foldl (fun d c => d.set c []) d).get? col =
        if col ∈ cs then some [] else d.get? col := by
    intro cs
    induction cs with
    | nil => exact fun _ => rfl
    | cons c cs ih =>
      intro d
      rw [List.foldl_cons, ih, Dict.get?_set]
      by_cases hc : col = c
      · simp [hc]
      · simp [hc]
  have hothers : ∀ (entries : List (Text × List (Option α))) (d : Dict Text (List (Option α))),
      (entries.foldl (fun d e => if (d.get? e.1).isSome then d else d.set e.1 e.2) d).get? col =
        (d.get? col).or (Dict.find col entries) := by
    intro entries
    induction entries with
    | nil => exact fun d => (Option.or_none).symm
    | cons e entries ih =>
      intro d
      rw [List.foldl_cons, ih, Dict.find]
      by_cases hc : e.1 = col
      · subst hc
        rw [if_pos rfl]
        cases hget : d.get? e.1 with
        | none => simp
        | some cells => simp [hget]
      · rw [if_neg hc]
        split
        next => rfl
        next => rw [Dict.get?_set, if_neg (Ne.symm hc)]
  unfold initialArrays
  dsimp only
  rw [hothers, hempty]
  split
  · rfl
  · exact Option.none_or

end Lists

/-! ### Rows -/

section Rows

variable {L : Libraries α F} {t : Table α} {step : WasmComputeStep} {guest : Guest α F}
  {s s' : State α} {col : Text} (hout : step.outputColumn ∉ step.inputColumns)
include hout

/-- Whatever a row ends in, it appends one cell for each place of its column in the call. -/
theorem executeRow_arrays {i : Nat}
    (h : executeRow L t step.inputColumns step.outputColumn guest s i = some s') :
    s'.resultArrays.get? col =
      if col = step.outputColumn then
        some ((s.resultArrays.get? col).getD [] ++ [outputCell L t step guest i])
      else if col ∈ step.inputColumns then
        some ((s.resultArrays.get? col).getD [] ++
          List.replicate (step.inputColumns.count col) (inputCell L t step guest i col))
      else s.resultArrays.get? col := by
  have hblank : ∀ val, outputCell L t step guest i = val → fails L t step guest i = true →
      s'.resultArrays = appendRow step.inputColumns step.outputColumn s.resultArrays
        (fun _ => none) val → s'.resultArrays.get? col =
          if col = step.outputColumn then
            some ((s.resultArrays.get? col).getD [] ++ [outputCell L t step guest i])
          else if col ∈ step.inputColumns then
            some ((s.resultArrays.get? col).getD [] ++
              List.replicate (step.inputColumns.count col) (inputCell L t step guest i col))
          else s.resultArrays.get? col := by
    intro val hval hfails harrays
    rw [harrays, get?_appendRow hout, hval, inputCell, hfails, if_pos rfl]
  unfold executeRow at h
  dsimp only at h
  cases hargs : arguments L t step.inputColumns i with
  | none =>
    rw [hargs] at h
    cases h
    exact hblank none (by rw [outputCell, hargs]) (by rw [fails, hargs]) rfl
  | some args =>
    rw [hargs] at h
    dsimp only at h
    cases hcall : guest i args with
    | returned val =>
      have hval : outputCell L t step guest i = val := by
        rw [outputCell, hargs]
        dsimp only
        rw [hcall]
      have hfails : fails L t step guest i = false := by
        rw [fails, hargs]
        dsimp only
        rw [hcall]
      rw [hcall] at h
      cases h
      rw [get?_appendRow hout, hval, inputCell, hfails]
      rfl
    | failed =>
      rw [hcall] at h
      dsimp only at h
      split at h
      · cases h
      · cases h
        refine hblank none ?_ ?_ rfl
        · rw [outputCell, hargs]
          dsimp only
          rw [hcall]
        · rw [fails, hargs]
          dsimp only
          rw [hcall]
    | timeout =>
      rw [hcall] at h
      cases h

/-- The lists after some rows. -/
theorem executeRows_arrays {is : List Nat} {cells : List (Option α)}
    (h : is.foldlM (executeRow L t step.inputColumns step.outputColumn guest) s = some s')
    (hcells : s.resultArrays.get? col = some cells) :
    s'.resultArrays.get? col = some (cells ++
      if col = step.outputColumn then is.map (outputCell L t step guest)
      else if col ∈ step.inputColumns then is.flatMap fun i =>
        List.replicate (step.inputColumns.count col) (inputCell L t step guest i col)
      else []) := by
  induction is generalizing s cells with
  | nil =>
    cases h
    rw [hcells]
    split
    · simp
    · split <;> simp
  | cons i is ih =>
    rw [List.foldlM_cons] at h
    obtain ⟨u, hu, hrest⟩ := Option.bind_eq_some_iff.mp h
    have hrow : u.resultArrays.get? col = _ := executeRow_arrays hout hu
    rw [hcells, Option.getD_some] at hrow
    by_cases hcol : col = step.outputColumn
    · rw [if_pos hcol] at hrow
      have hih := ih hrest hrow
      rw [if_pos hcol] at hih ⊢
      rw [hih, List.append_assoc]
      rfl
    · rw [if_neg hcol] at hrow
      by_cases hmem : col ∈ step.inputColumns
      · rw [if_pos hmem] at hrow
        have hih := ih hrest hrow
        rw [if_neg hcol, if_pos hmem] at hih ⊢
        rw [hih, List.append_assoc]
        rfl
      · rw [if_neg hmem] at hrow
        have hih := ih hrest hrow
        rw [if_neg hcol, if_neg hmem] at hih ⊢
        exact hih

end Rows

/-! ### The result -/

section Result

variable {L : Libraries α F} {t result : Table α} {step : WasmComputeStep} {guest : Guest α F}
  {arrays : Dict Text (List (Option α))} {col : Text}

theorem orderedColumns_nodup (t : Table α) (outputColumn : Text) :
    (orderedColumns t outputColumn).Nodup := by
  unfold orderedColumns
  split
  next => exact t.columns.nodup
  next h =>
    refine List.nodup_append.mpr ⟨t.columns.nodup, List.nodup_singleton _, ?_⟩
    rintro c hc _ hout rfl
    obtain rfl := List.mem_singleton.mp hout
    exact h hc

theorem mem_orderedColumns {outputColumn : Text} :
    col ∈ orderedColumns t outputColumn ↔ col ∈ t.columns.keys ∨ col = outputColumn := by
  unfold orderedColumns
  split
  next h =>
    constructor
    · exact .inl
    · rintro (hcol | rfl)
      · exact hcol
      · exact h
  next => rw [List.mem_append, List.mem_singleton]

theorem select_entries {order : List Text} (h : order.Nodup) :
    (select arrays order).entries = order.map fun col => (col, (arrays.get? col).getD []) := by
  have hkeys : ((order.map fun col => (col, (arrays.get? col).getD [])).map Prod.fst).Nodup := by
    rw [List.map_map]
    exact (List.map_id order).symm ▸ h
  have hset := Dict.foldl_set_entries (order.map fun col => (col, (arrays.get? col).getD [])) ∅ hkeys
  rw [List.foldl_map] at hset
  exact hset

theorem keys_select {order : List Text} (h : order.Nodup) : (select arrays order).keys = order := by
  rw [Dict.keys, select_entries h, List.map_map]
  exact List.map_id _

theorem get?_select {order : List Text} (h : order.Nodup) (hcol : col ∈ order) :
    (select arrays order).get? col = some ((arrays.get? col).getD []) := by
  rw [Dict.get?_eq_some_iff, select_entries h]
  exact List.mem_map.mpr ⟨col, hcol, rfl⟩

/-- A table comes only of lists of one length. -/
theorem resultTable_eq {outputColumn : Text} (h : resultTable L t outputColumn arrays = some result) :
    result.columns = select arrays (orderedColumns t outputColumn) ∧
      result.rows = ((arrays.get? outputColumn).getD []).length ∧
      ∀ cells, arrays.get? col = some cells → cells.length = result.rows := by
  unfold resultTable at h
  dsimp only at h
  split at h
  next hlengths =>
    split at h
    next =>
      cases h
      refine ⟨rfl, rfl, fun cells hcells => ?_⟩
      exact hlengths.2 _ ((Dict.get?_eq_some_iff _ _ _).mp hcells)
    next => cases h
  next => cases h

/-- The lists that the result of the executor is built of. -/
theorem execute_arrays (hout : step.outputColumn ∉ step.inputColumns)
    (h : execute L t step (some guest) = some result) :
    ∃ arrays, resultTable L t step.outputColumn arrays = some result ∧
      (∀ col ∈ step.inputColumns, col ∈ t.columns.keys) ∧
      arrays.get? step.outputColumn =
        some ((List.range t.rows).map (outputCell L t step guest)) ∧
      (∀ col ∈ step.inputColumns, arrays.get? col = some ((List.range t.rows).flatMap fun i =>
        List.replicate (step.inputColumns.count col) (inputCell L t step guest i col))) ∧
      ∀ col ∈ t.columns.keys, col ∉ step.inputColumns → col ≠ step.outputColumn →
        arrays.get? col = t.columns.get? col := by
  unfold execute at h
  split at h
  · cases h
  · split at h
    · cases h
    next hmissing =>
      rw [Option.bind_eq_bind, Option.bind_some] at h
      obtain ⟨s, hs, hresult⟩ := Option.bind_eq_some_iff.mp h
      have hpresent : ∀ col ∈ step.inputColumns, col ∈ t.columns.keys := by
        simpa using hmissing
      have hinitial : ∀ col, (initialArrays t step.inputColumns step.outputColumn).get? col =
          if col ∈ step.inputColumns ++ [step.outputColumn] then some []
          else t.columns.get? col := fun col => get?_initialArrays t
      refine ⟨s.resultArrays, hresult, hpresent, ?_, ?_, ?_⟩
      · have hempty : (initialArrays t step.inputColumns step.outputColumn).get?
            step.outputColumn = some [] := by
          rw [hinitial, if_pos (List.mem_append_right _ (List.mem_singleton.mpr rfl))]
        have hloop := executeRows_arrays hout hs hempty
        rw [if_pos rfl] at hloop
        exact hloop
      · intro col hcol
        have hempty : (initialArrays t step.inputColumns step.outputColumn).get? col = some [] := by
          rw [hinitial, if_pos (List.mem_append_left _ hcol)]
        have hloop := executeRows_arrays hout hs hempty
        rw [if_neg (fun heq : col = step.outputColumn => hout (heq ▸ hcol)), if_pos hcol] at hloop
        exact hloop
      · intro col hcol hnot hne
        obtain ⟨cells, hcells⟩ := (Dict.mem_keys_iff _ _).mp hcol
        have hkept : (initialArrays t step.inputColumns step.outputColumn).get? col =
            some cells := by
          rw [hinitial, if_neg, hcells]
          rw [List.mem_append, List.mem_singleton, not_or]
          exact ⟨hnot, hne⟩
        have hloop := executeRows_arrays hout hs hkept
        rw [if_neg hne, if_neg hnot, List.append_nil] at hloop
        rw [hloop, hcells]

/-- A column that is listed several times grows several times as long, so there is no row then. -/
theorem flatMap_replicate_eq {β : Type} {is : List Nat} {n : Nat} {f : Nat → β}
    (h : (is.flatMap fun i => List.replicate n (f i)).length = is.length) :
    (is.flatMap fun i => List.replicate n (f i)) = is.map f := by
  cases is with
  | nil => rfl
  | cons i is =>
    have hlength : n * (i :: is).length = 1 * (i :: is).length := by
      rw [List.length_flatMap] at h
      simp only [List.length_replicate, List.map_const', List.sum_replicate_nat] at h
      rw [Nat.one_mul, Nat.mul_comm, h]
    have hn : n = 1 := Nat.eq_of_mul_eq_mul_right (Nat.succ_pos _) hlength
    subst hn
    exact (List.map_eq_flatMap).symm

theorem outputCell_of_fails {i : Nat} (h : fails L t step guest i = true) :
    outputCell L t step guest i = none := by
  rw [fails] at h
  rw [outputCell]
  cases hargs : arguments L t step.inputColumns i with
  | none => rfl
  | some args =>
    rw [hargs] at h
    dsimp only at h ⊢
    split at h
    next => cases h
    next => rfl

end Result

section Examples

def twoRows : Table Nat where
  rows := 2
  columns := .ofList [("a".toList, [some 1, some 2])]
  lengths := by decide

/-- Whole numbers without nulls, which pandas reads as they are. -/
def wholeNumbers : Libraries Nat Nat where
  rowValue t _ i col := ((t.columns.get? col).getD [])[i]?.join
  float v := v
  builds _ := true

def doubled : WasmComputeStep := ⟨"double".toList, ["a".toList], "b".toList⟩

/-- Double a number, with a trap from a bound on. -/
def double (bound : Nat) : Guest Nat Nat := fun _ args =>
  if args.sum < bound then .returned (some (2 * args.sum)) else .failed

end Examples

end PipelineIQ.Execution.WasmExecutor
