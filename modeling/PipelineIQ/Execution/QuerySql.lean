import Mathlib.Data.List.FinRange
import PipelineIQ.Execution.StepSql
import PipelineIQ.Lib.SqlReader
import PipelineIQ.Pipeline.Frames

namespace PipelineIQ.Execution.QuerySql

open PipelineIQ.Lib.Strings PipelineIQ.Lib.SqlTokens PipelineIQ.Lib.SqlReader
open PipelineIQ.Pipeline.Steps PipelineIQ.Pipeline.Frames
open PipelineIQ.Execution.FilterSql PipelineIQ.Execution.StepSql

variable {α : Type}

/-! ### Names in the engine -/

/-- DuckDB compares identifiers, quoted ones too, without the case of ASCII letters. -/
def fold (name : Text) : Text := name.map Char.toLower

/-- No two columns differ in case only. -/
def CaseDistinct (t : Table α) : Prop := Function.Injective fun i => fold (t.columns i)

/-- A column of the table has the name that a query gives a column of its own. -/
def Shadows (t : Table α) (reserved : List Text) : Prop := ∃ i, fold (t.columns i) ∈ reserved

instance (t : Table α) (reserved : List Text) : Decidable (Shadows t reserved) :=
  inferInstanceAs (Decidable (∃ i, fold (t.columns i) ∈ reserved))

/-- What the queries of steps with one input use of DuckDB: the names of the columns of a
registered table, which get a number where two differ in case only, and what comes of a query that
names a column of its own like one of the table; it excludes both, or fails. -/
structure Engine (α : Type) where
  names : {n : Nat} → (Fin n → Text) → Fin n → Text
  names_injective : ∀ {n : Nat} (columns : Fin n → Text),
    Function.Injective fun i => fold (names columns i)
  names_eq : ∀ {n : Nat} (columns : Fin n → Text),
    Function.Injective (fun i => fold (columns i)) → names columns = columns
  names_numbered : ∀ {n : Nat} (columns : Fin n → Text) i, names columns i = columns i ∨
    ∃ front d, names columns i = front ++ [d] ∧ d.isDigit
  shadowed : Text → List Text → Table α → Option (Result α)
  shadowed_excludes : ∀ sql reserved t result, shadowed sql reserved t = some result →
    ∀ column ∈ result.columns, fold column ∉ reserved

section Register

variable (D : Engine α) (t : Table α)

def Engine.register : Table α where
  width := t.width
  columns := D.names t.columns
  distinct := fun _ _ h => D.names_injective t.columns (congrArg fold h)
  rows := t.rows

def registerTyped (t : TypedTable α) : TypedTable α where
  toTable := D.register t.toTable
  types := t.types

/-- The column that a quoted identifier stands for. -/
def lookup (name : Text) : Option (Fin t.width) :=
  (List.finRange t.width).find? fun i => fold (t.columns i) == fold name

variable {D t}

theorem register_eq (h : CaseDistinct t) : D.register t = t := by
  obtain ⟨width, columns, distinct, rows⟩ := t
  have hnames : D.names columns = columns := D.names_eq columns h
  simp only [Engine.register, hnames]

theorem caseDistinct_register : CaseDistinct (D.register t) := D.names_injective t.columns

/-- Names that differ in case only are the ones that a result has not got from the engine. -/
theorem register_names : (D.register t).names = t.names ↔ CaseDistinct t := by
  constructor
  · intro h
    have hcolumns : D.names t.columns = t.columns := by
      funext i
      exact List.map_inj_left.mp h i (List.mem_finRange i)
    have hinj := D.names_injective t.columns
    rwa [hcolumns] at hinj
  · intro h
    rw [register_eq h]

theorem lookup_eq_some (h : CaseDistinct t) {name : Text} {i : Fin t.width} :
    lookup t name = some i ↔ fold (t.columns i) = fold name := by
  constructor
  · intro hf
    simpa using List.find?_some hf
  · intro hi
    cases hf : lookup t name with
    | none =>
      have := List.find?_eq_none.mp hf i (List.mem_finRange i)
      simp [hi] at this
    | some j =>
      have hj : fold (t.columns j) = fold name := by simpa using List.find?_some hf
      exact congrArg some (h (hj.trans hi.symm))

/-- A name that the table has stands for its column. -/
theorem lookup_eq_find (h : CaseDistinct t) {name : Text} (hname : name ∈ t.names) :
    lookup t name = t.find name := by
  obtain ⟨i, -, rfl⟩ := List.mem_map.mp hname
  rw [(lookup_eq_some h).mpr rfl, Table.find_eq_some.mpr rfl]

/-- The names that queries add to a table end with no digit. -/
def Undigited (reserved : List Text) : Prop :=
  ∀ front d, front ++ [d] ∈ reserved → d.isDigit = false

theorem undigited_of {reserved : List Text}
    (h : ∀ name ∈ reserved, (name.getLast?.all fun d => !d.isDigit) = true) :
    Undigited reserved := by
  intro front d hmem
  simpa using h _ hmem

theorem shadows_of_register {reserved : List Text} (hreserved : Undigited reserved)
    (h : Shadows (D.register t) reserved) : Shadows t reserved := by
  obtain ⟨i, hi⟩ := h
  change fold (D.names t.columns i) ∈ reserved at hi
  rcases D.names_numbered t.columns i with hname | ⟨front, d, hname, hd⟩
  · exact ⟨i, hname ▸ hi⟩
  · rw [hname, fold, List.map_append, List.map_singleton] at hi
    have hlower : d.toLower = d := by
      refine dif_neg fun hupper => ?_
      simp only [Char.isDigit, Bool.and_eq_true, decide_eq_true_eq] at hd
      exact absurd (UInt32.le_trans hupper.1 hd.2) (by decide)
    rw [hlower] at hi
    exact absurd hd (by simp [hreserved _ d hi])

/-- No result of a query that shadows a column has all columns of the table. -/
theorem shadowed_ne {sql : Text} {reserved : List Text} (hreserved : Undigited reserved)
    (h : Shadows (D.register t) reserved) {rows : Multiset (List (Option α))} :
    D.shadowed sql reserved (D.register t) ≠ some ⟨t.names, rows⟩ := by
  intro hresult
  obtain ⟨i, hi⟩ := shadows_of_register hreserved h
  exact D.shadowed_excludes sql reserved _ _ hresult (t.columns i)
    (List.mem_map_of_mem (List.mem_finRange i)) hi

end Register

/-- An engine that numbers all columns where two names differ in case only. -/
def numbering : Engine α where
  names columns :=
    if (List.ofFn fun i => fold (columns i)).Nodup then columns
    else fun i => List.replicate (i + 1) '1'
  names_injective columns := by
    split
    next h => exact List.nodup_ofFn.mp h
    next =>
      intro i j h
      have hlength := congrArg List.length h
      simp only [fold, List.length_map, List.length_replicate] at hlength
      exact Fin.ext (Nat.succ.inj hlength)
  names_eq columns h := if_pos (List.nodup_ofFn.mpr h)
  names_numbered columns i := by
    split
    · exact Or.inl rfl
    · exact Or.inr ⟨List.replicate i '1', '1', List.replicate_succ', rfl⟩
  shadowed _ _ _ := none
  shadowed_excludes := by simp

/-! ### Lists of columns in a query -/

theorem quoteIdentifier_of_ne {column : Text} (h : column ≠ []) :
    quoteIdentifier column = some (Lib.Sql.quote '"' column) := by
  rw [quoteIdentifier, if_neg h]
  rfl

/-- A list of columns is quoted unless one of them has an empty name. -/
theorem quoteIdentifiers_eq (columns : List Text) :
    quoteIdentifiers columns =
      if [] ∈ columns then none else some (columns.map (Lib.Sql.quote '"')) := by
  induction columns with
  | nil => rfl
  | cons c columns ih =>
    rw [quoteIdentifiers] at ih ⊢
    rw [List.mapM_cons, ih]
    by_cases hc : c = []
    · simp [hc, quoteIdentifier]
    · rw [quoteIdentifier_of_ne hc]
      by_cases hmem : [] ∈ columns
      · simp [hmem]
      · simp [hmem, Ne.symm hc]

theorem commaJoin_quote (columns : List Text) :
    commaJoin (columns.map (Lib.Sql.quote '"')) = nameList columns := rfl

/-- A name of the table that the engine takes for the same column, and calls so. -/
def Resolves (D : Engine α) (t : Table α) (column : Text) : Prop :=
  ∃ i, t.columns i = column ∧ (D.register t).columns i = column ∧
    lookup (D.register t) column = some i

theorem resolves_of_caseDistinct {D : Engine α} {t : Table α} (h : CaseDistinct t) {column : Text}
    (hcolumn : column ∈ t.names) : Resolves D t column := by
  obtain ⟨i, -, rfl⟩ := List.mem_map.mp hcolumn
  have hname : (D.register t).columns i = t.columns i := congrFun (D.names_eq t.columns h) i
  exact ⟨i, rfl, hname, (lookup_eq_some caseDistinct_register).mpr (congrArg fold hname)⟩

/-- Columns that resolve differ in more than case. -/
theorem fold_inj_of_resolves {D : Engine α} {t : Table α} {c c' : Text} (h : Resolves D t c)
    (h' : Resolves D t c') (hfold : fold c = fold c') : c = c' := by
  obtain ⟨i, rfl, -, hi⟩ := h
  obtain ⟨j, rfl, -, hj⟩ := h'
  rw [lookup, hfold, ← lookup, hj] at hi
  rw [Option.some.inj hi]

/-- The positions of columns that resolve. -/
theorem lookups_of_resolves {D : Engine α} {t : Table α} {columns : List Text}
    (h : ∀ column ∈ columns, Resolves D t column) :
    ∃ positions : List (Fin t.width), columns.mapM (lookup (D.register t)) = some positions ∧
      List.Forall₂ (fun column i => t.columns i = column ∧ (D.register t).columns i = column)
        columns positions := by
  induction columns with
  | nil => exact ⟨[], rfl, .nil⟩
  | cons c columns ih =>
    obtain ⟨positions, hpositions, hall⟩ := ih fun column hc => h column (List.mem_cons_of_mem _ hc)
    obtain ⟨i, hi, hname, hlookup⟩ := h c List.mem_cons_self
    refine ⟨i :: positions, ?_, .cons ⟨hi, hname⟩ hall⟩
    rw [List.mapM_cons, hlookup, hpositions]
    rfl

/-- The columns of a query are found when each of them is. -/
theorem lookups_eq_some {t : Table α} (h : CaseDistinct t) {columns : List Text}
    (hcolumns : ∀ column ∈ columns, column ∈ t.names) :
    ∃ positions, columns.mapM (lookup t) = some positions ∧
      ∀ r : t.Row, positions.map r = key t columns r := by
  induction columns with
  | nil => exact ⟨[], rfl, fun _ => rfl⟩
  | cons c columns ih =>
    obtain ⟨positions, hpositions, hkey⟩ := ih fun column hc => hcolumns column (by simp [hc])
    obtain ⟨i, -, hi⟩ := List.mem_map.mp (hcolumns c (by simp))
    have hfind : t.find c = some i := Table.find_eq_some.mpr hi
    have hlookup : lookup t c = some i := by rw [lookup_eq_find h (hcolumns c (by simp)), hfind]
    refine ⟨i :: positions, by simp [List.mapM_cons, hlookup, hpositions], ?_⟩
    intro r
    have hcell : t.cell r c = r i := by simp [Table.cell, hfind]
    rw [List.map_cons, hkey r, key, key, List.map_cons, hcell]

end PipelineIQ.Execution.QuerySql
