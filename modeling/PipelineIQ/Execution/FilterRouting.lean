import PipelineIQ.Execution.FilterSql

namespace PipelineIQ.Execution.FilterRouting

open PipelineIQ.Lib.Strings PipelineIQ.Lib.Sql PipelineIQ.Pipeline.Filter
  PipelineIQ.Execution.FilterSql

variable (py : Python) (P : Pandas) (D : DuckDb)

theorem find_column (t : Table) (i : Fin t.width) : t.find (t.columns i).1 = some i := by
  unfold Table.find
  cases h : (List.finRange t.width).find? fun j => (t.columns j).1 == (t.columns i).1 with
  | none =>
    have := List.find?_eq_none.mp h i (List.mem_finRange i)
    simp at this
  | some j =>
    have hj : (t.columns j).1 = (t.columns i).1 := by simpa using List.find?_some h
    exact congrArg some (t.distinct hj)

/-! ### Both sides as tests of a cell -/

theorem maskRows_map {α : Type} (rows : List α) (keep : α → Bool) :
    maskRows rows (rows.map keep) = rows.filter keep := by
  induction rows with
  | nil => rfl
  | cons r rows ih =>
    unfold maskRows at ih ⊢
    cases h : keep r <;> simp [h, ih]

theorem maskRows_cons {α : Type} (r : α) (rows : List α) (b : Bool) (mask : List Bool) :
    maskRows (r :: rows) (b :: mask) =
      if b then r :: maskRows rows mask else maskRows rows mask := by
  cases b <;> rfl

/-- A mask computed cell by cell keeps what the test of a cell keeps. -/
theorem maskRows_mapM {α : Type} (f : α → Cell) (g : Cell → Except PythonError Bool)
    (rows : List α) :
    ((rows.map f).mapM g).toOption.map (maskRows rows) =
      select (fun r => (g (f r)).toOption) rows := by
  induction rows with
  | nil => rfl
  | cons r rows ih =>
    rw [select_cons, ← ih, List.map_cons, List.mapM_cons]
    cases hg : g (f r) with
    | error e => rfl
    | ok b =>
      cases hm : (rows.map f).mapM g with
      | error e => rfl
      | ok mask =>
        cases b <;>
          simp [bind, Except.bind, pure, Except.pure, Except.toOption, maskRows_cons]

/-- How pandas decides on one cell, with the coerced value. -/
def pandasCell (dtype : Dtype) (operator : FilterOperator) (v : Value) :
    Option (Cell → Option Bool) :=
  let compare := fun op => some fun c => (P.compareCell dtype op v c).toOption
  let search := P.compile (py.str v)
  match operator with
  | .equals => compare .eq
  | .notEquals => compare .ne
  | .greaterThan => compare .gt
  | .lessThan => compare .lt
  | .greaterThanOrEqual => compare .ge
  | .lessThanOrEqual => compare .le
  | .contains => search.map fun search c => some (search (P.cellText dtype c))
  | .notContains => search.map fun search c => some (!search (P.cellText dtype c))
  | .startsWith => some fun c => some ((py.str v).isPrefixOf (P.cellText dtype c))
  | .endsWith => some fun c => some ((py.str v).isSuffixOf (P.cellText dtype c))
  | .isNull => some fun c => some (isnaCell c)
  | .isNotNull => some fun c => some (!isnaCell c)

def pandasTest (s : Series) (operator : FilterOperator) (v : Value) :
    Option (Cell → Option Bool) :=
  (coerceFilterValue P s.dtype v).bind (pandasCell py P s.dtype operator)

theorem filterOperations_rows {α : Type} (type : ColumnType) (f : α → Cell) (rows : List α)
    (operator : FilterOperator) (v : Value) :
    ((filterOperations py P operator ⟨type, rows.map f⟩ v).toOption.map (maskRows rows)) =
      (pandasCell py P (Series.dtype ⟨type, rows.map f⟩) operator v).bind fun keep =>
        select (fun r => keep (f r)) rows := by
  generalize hd : Series.dtype ⟨type, rows.map f⟩ = dtype
  cases operator with
  | equals | notEquals | greaterThan | lessThan | greaterThanOrEqual | lessThanOrEqual =>
    simp only [filterOperations, Pandas.compare, hd, maskRows_mapM]
    rfl
  | contains | notContains =>
    simp only [filterOperations, Pandas.strContains, Pandas.astypeStr, hd, pandasCell]
    cases P.compile (py.str v) with
    | none => rfl
    | some search =>
      simp only [Option.map_some, Option.bind_some, select_some, ← maskRows_map, List.map_map]
      simp [Except.map, Except.toOption, Function.comp_def]
  | startsWith | endsWith | isNull | isNotNull =>
    simp only [filterOperations, Pandas.astypeStr, hd, pandasCell, Option.bind_some, select_some,
      ← maskRows_map, List.map_map]
    rfl

theorem executeFilter_rows (t : Table) (i : Fin t.width) (operator : FilterOperator) (v : Value) :
    (executeFilter py P t ⟨(t.columns i).1, operator, v⟩).toOption =
      (pandasTest py P (t.series i) operator v).bind fun keep =>
        select (fun r => keep (r i)) t.rows := by
  simp only [executeFilter, find_column, pandasTest]
  cases coerceFilterValue P (t.series i).dtype v with
  | none => rfl
  | some v =>
    have hrows := filterOperations_rows py P (t.columns i).2 (fun r : t.Row => r i) t.rows operator v
    have hs : (⟨(t.columns i).2, t.rows.map fun r : t.Row => r i⟩ : Series) = t.series i := rfl
    rw [hs] at hrows
    rw [Option.bind_some, ← hrows]
    dsimp only
    cases filterOperations py P operator (t.series i) v with
    | ok mask => rfl
    | error e => cases e <;> rfl

/-- How DuckDB decides on one cell, once the query is built and bound. -/
def duckdbTest (s : Series) (column : Text) (operator : FilterOperator) (v : Value) :
    Option (Cell → Option Bool) :=
  let predicate := wherePredicate py operator v
  if (buildFilterSql py ⟨column, operator, v⟩).isSome && predicate.binds D s.type then
    some fun c => (predicate.eval D s.type c).map Truth.selects
  else none

theorem duckdbFilter_rows (t : Table) (i : Fin t.width) (operator : FilterOperator) (v : Value) :
    duckdbFilter D py t ⟨(t.columns i).1, operator, v⟩ =
      (duckdbTest py D (t.series i) (t.columns i).1 operator v).bind fun keep =>
        select (fun r => keep (r i)) t.rows := by
  simp only [duckdbFilter, find_column, duckdbTest]
  cases buildFilterSql py ⟨(t.columns i).1, operator, v⟩ with
  | none => rfl
  | some sql =>
    change (if (wherePredicate py operator v).binds D (t.columns i).2 then _ else _) = _
    have hs : (t.series i).type = (t.columns i).2 := rfl
    rw [hs]
    cases (wherePredicate py operator v).binds D (t.columns i).2 <;> rfl

/-! ### When the two agree -/

def comparison : FilterOperator → Option Comparison
  | .equals => some .eq
  | .notEquals => some .ne
  | .greaterThan => some .gt
  | .lessThan => some .lt
  | .greaterThanOrEqual => some .ge
  | .lessThanOrEqual => some .le
  | _ => none

def notFinite : Value → Bool
  | some (.float .nan) | some (.float (.infinite _)) => true
  | _ => false

/-- The value cannot be read in the column's dtype, the pattern is no regular expression, or a
cell cannot be compared with the value. -/
def PandasRefuses (s : Series) (operator : FilterOperator) (v : Value) : Prop :=
  ∀ v' ∈ coerceFilterValue P s.dtype v,
    match comparison operator with
    | some op => ∃ c x, some c ∈ s.cells ∧ v' = some x ∧ x.isna = false ∧
        P.compareScalar s.dtype op x c = none
    | none => (operator = .contains ∨ operator = .notContains) ∧ P.compile (py.str v') = none

/-- The column has no name, or a comparison is made with a number that has no literal or with a
literal that cannot be converted. -/
def DuckDbRefuses (s : Series) (column : Text) (operator : FilterOperator) (v : Value) : Prop :=
  column = [] ∨ ∃ op ∈ comparison operator, notFinite v = true ∨
    ∃ x, v = some x ∧ s.type.fits x = false ∧
      (D.binds s.type op x = false ∨ ∃ c, some c ∈ s.cells ∧ D.mixed s.type op c x = none)

section Cells

variable (s : Series) (v v' : Value)

/-- A comparison treats a cell alike: a null or a null value only outside `!=`, NaN only where
its place in the order does not matter. -/
def CompareAlike (op : Comparison) : Cell → Prop
  | none => op ≠ .ne
  | some c => match v with
    | none => op ≠ .ne
    | some x =>
      if s.type.fits x then
        c.isNumber = true →
          if c.isna then op ≠ .gt ∧ op ≠ .ge
          else op.holds (P.order s.dtype c x) = op.holds (D.order s.type c x)
      else (P.compareCell s.dtype op v' (some c)).toOption = D.mixed s.type op c x

/-- The regular expression finds what the pattern with `%` on both sides matches, and in the
text of a null nothing. -/
def SearchAlike (negated : Bool) : Cell → Prop
  | none => ∀ search ∈ P.compile (py.str v'), search s.dtype.nullText = negated
  | some c => ∀ search ∈ P.compile (py.str v'),
      search (P.cellText s.dtype (some c)) = like ('%' :: py.str v ++ ['%']) (D.cellText c)

/-- No text matches the pattern through a wildcard only. -/
def AnchoredAlike (anchored : Text → Text → Bool) (pattern : Text) : Cell → Prop
  | none => anchored (py.str v') s.dtype.nullText = false
  | some (.text t) => like pattern t = true → anchored (py.str v) t = true
  | some c => anchored (py.str v') (P.cellText s.dtype (some c)) = like pattern (D.cellText c)

def CellAlike (c : Cell) : FilterOperator → Prop
  | .equals => CompareAlike P D s v v' .eq c
  | .notEquals => CompareAlike P D s v v' .ne c
  | .greaterThan => CompareAlike P D s v v' .gt c
  | .lessThan => CompareAlike P D s v v' .lt c
  | .greaterThanOrEqual => CompareAlike P D s v v' .ge c
  | .lessThanOrEqual => CompareAlike P D s v v' .le c
  | .contains => SearchAlike py P D s v v' false c
  | .notContains => SearchAlike py P D s v v' true c
  | .startsWith => AnchoredAlike py P D s v v' List.isPrefixOf (py.str v ++ ['%']) c
  | .endsWith => AnchoredAlike py P D s v v' List.isSuffixOf ('%' :: py.str v) c
  | .isNull | .isNotNull => ∀ x ∈ c, x.isna = false

end Cells

/-- The condition: both sides refuse the step, or neither does and every cell of the column is
treated alike. -/
def RoutingSafe (s : Series) (column : Text) (operator : FilterOperator) (v : Value) : Prop :=
  (PandasRefuses py P s operator v ∧ DuckDbRefuses D s column operator v) ∨
  (¬ PandasRefuses py P s operator v ∧ ¬ DuckDbRefuses D s column operator v ∧
    ∀ v' ∈ coerceFilterValue P s.dtype v, ∀ c ∈ s.cells, CellAlike py P D s v v' c operator)

/-! ### Refusals -/

theorem compareCell_toOption_eq_none {dtype : Dtype} {op : Comparison} {v : Value} {c : Cell} :
    (P.compareCell dtype op v c).toOption = none ↔
      ∃ d x, c = some d ∧ v = some x ∧ x.isna = false ∧ P.compareScalar dtype op x d = none := by
  cases v with
  | none => simp [Pandas.compareCell, Except.toOption]
  | some x =>
    cases c with
    | none => simp [Pandas.compareCell, Except.toOption]
    | some d =>
      cases hx : x.isna
      · cases hd : P.compareScalar dtype op x d <;>
          simp [Pandas.compareCell, Except.toOption, hx, hd]
      · simp [Pandas.compareCell, Except.toOption, hx]

theorem refuses_pandasTest_iff (s : Series) (operator : FilterOperator) (v : Value) :
    Refuses (pandasTest py P s operator v) s.cells ↔ PandasRefuses py P s operator v := by
  unfold pandasTest PandasRefuses
  cases coerceFilterValue P s.dtype v with
  | none => simp [Refuses]
  | some v' =>
    have hcompare : ∀ op, Refuses (some fun c => (P.compareCell s.dtype op v' c).toOption) s.cells ↔
        ∃ c x, some c ∈ s.cells ∧ v' = some x ∧ x.isna = false ∧
          P.compareScalar s.dtype op x c = none := by
      intro op
      simp only [Refuses, Option.mem_some_iff, forall_eq', compareCell_toOption_eq_none]
      constructor
      · rintro ⟨-, hc, c, x, rfl, hx⟩
        exact ⟨c, x, hc, hx⟩
      · rintro ⟨c, x, hc, hx⟩
        exact ⟨some c, hc, c, x, rfl, hx⟩
    cases operator with
    | equals | notEquals | greaterThan | lessThan | greaterThanOrEqual | lessThanOrEqual =>
      simpa [comparison, pandasCell] using hcompare _
    | contains | notContains =>
      simp only [Option.bind_some, pandasCell, Option.mem_some_iff, forall_eq', comparison]
      cases P.compile (py.str v') <;> simp [Refuses]
    | startsWith | endsWith | isNull | isNotNull =>
      simp [Refuses, pandasCell, comparison]

theorem quoteIdentifier_eq_none {column : Text} : quoteIdentifier column = none ↔ column = [] := by
  unfold quoteIdentifier
  split <;> simp [*]

theorem sqlLiteral_eq_none {v : Value} : sqlLiteral py v = none ↔ notFinite v = true := by
  cases v with
  | none => simp [sqlLiteral, notFinite]
  | some x =>
    cases x with
    | float d => cases d <;> simp [sqlLiteral, notFinite]
    | _ => simp [sqlLiteral, notFinite]

theorem render_isSome (column : Text) (operator : FilterOperator) (v : Value) :
    ((wherePredicate py operator v).render py column).isSome = true ↔
      ∀ op ∈ comparison operator, notFinite v = false := by
  have hl : (sqlLiteral py v).isSome = true ↔ notFinite v = false := by
    rw [Option.isSome_iff_ne_none, Ne, sqlLiteral_eq_none, Bool.not_eq_true]
  cases operator with
  | equals | notEquals | greaterThan | lessThan | greaterThanOrEqual | lessThanOrEqual =>
    simp only [wherePredicate, Predicate.render, Option.isSome_map, hl, comparison,
      Option.mem_some_iff, forall_eq']
  | _ =>
    simp only [wherePredicate, Predicate.render, Option.isSome_some, comparison, Option.not_mem_none,
      false_imp_iff, implies_true]

theorem buildFilterSql_isSome (column : Text) (operator : FilterOperator) (v : Value) :
    (buildFilterSql py ⟨column, operator, v⟩).isSome = true ↔
      column ≠ [] ∧ ∀ op ∈ comparison operator, notFinite v = false := by
  rw [buildFilterSql_eq]
  cases hq : quoteIdentifier column with
  | none =>
    have hc : column = [] := quoteIdentifier_eq_none.mp hq
    simp only [Option.bind_none, Option.isSome_none, Bool.false_eq_true, hc, ne_eq,
      not_true_eq_false, false_and]
  | some quoted =>
    have hc : column ≠ [] := by
      intro h
      rw [quoteIdentifier_eq_none.mpr h] at hq
      cases hq
    rw [Option.bind_some, Option.isSome_map, render_isSome, and_iff_right hc]

theorem binds_iff (type : ColumnType) (operator : FilterOperator) (v : Value) :
    (wherePredicate py operator v).binds D type = true ↔
      ∀ op ∈ comparison operator, ∀ x ∈ v, type.fits x = false → D.binds type op x = true := by
  have hcompare : ∀ op, Predicate.binds D type (.compare op v) = true ↔
      ∀ x ∈ v, type.fits x = false → D.binds type op x = true := by
    intro op
    cases v with
    | none => simp [Predicate.binds]
    | some x => cases hx : type.fits x <;> simp [Predicate.binds, hx]
  cases operator with
  | equals | notEquals | greaterThan | lessThan | greaterThanOrEqual | lessThanOrEqual =>
    simpa [wherePredicate, comparison] using hcompare _
  | _ => simp [wherePredicate, comparison, Predicate.binds]

theorem eval_compare_eq_none {type : ColumnType} {op : Comparison} {v : Value} {c : Cell} :
    Predicate.eval D type (.compare op v) c = none ↔
      ∃ d x, c = some d ∧ v = some x ∧ type.fits x = false ∧ D.mixed type op d x = none := by
  cases c with
  | none => simp [Predicate.eval]
  | some d =>
    cases v with
    | none => simp [Predicate.eval]
    | some x => cases hx : type.fits x <;> simp [Predicate.eval, hx]

theorem eval_eq_none {type : ColumnType} {operator : FilterOperator} {v : Value} {c : Cell} :
    (wherePredicate py operator v).eval D type c = none ↔
      ∃ op ∈ comparison operator, ∃ d x, c = some d ∧ v = some x ∧ type.fits x = false ∧
        D.mixed type op d x = none := by
  cases operator with
  | equals | notEquals | greaterThan | lessThan | greaterThanOrEqual | lessThanOrEqual =>
    simpa [wherePredicate, comparison] using eval_compare_eq_none D
  | _ => cases c <;> simp [wherePredicate, comparison, Predicate.eval]

theorem refuses_duckdbTest_iff (s : Series) (column : Text) (operator : FilterOperator)
    (v : Value) :
    Refuses (duckdbTest py D s column operator v) s.cells ↔
      DuckDbRefuses D s column operator v := by
  unfold duckdbTest DuckDbRefuses
  by_cases hsql : (buildFilterSql py ⟨column, operator, v⟩).isSome = true
  · have hsql' := (buildFilterSql_isSome py column operator v).mp hsql
    by_cases hbinds : (wherePredicate py operator v).binds D s.type = true
    · have hbinds' := (binds_iff py D s.type operator v).mp hbinds
      simp only [hsql, hbinds, Bool.and_self, if_true, Refuses, Option.mem_some_iff, forall_eq',
        Option.map_eq_none_iff, eval_eq_none, hsql'.1, false_or]
      constructor
      · rintro ⟨-, hc, op, hop, d, x, rfl, hx, hfits, hmixed⟩
        exact ⟨op, hop, .inr ⟨x, hx, hfits, .inr ⟨d, hc, hmixed⟩⟩⟩
      · rintro ⟨op, hop, hnf | ⟨x, hx, hfits, hb | ⟨d, hc, hmixed⟩⟩⟩
        · simp [hsql'.2 op hop] at hnf
        · simp [hbinds' op hop x hx hfits] at hb
        · exact ⟨some d, hc, op, hop, d, x, rfl, hx, hfits, hmixed⟩
    · have hnone : ¬ ((buildFilterSql py ⟨column, operator, v⟩).isSome &&
          (wherePredicate py operator v).binds D s.type) = true := by simp [hbinds]
      simp only [if_neg hnone]
      have hb := mt (binds_iff py D s.type operator v).mpr hbinds
      push Not at hb
      obtain ⟨op, hop, x, hx, hfits, hb⟩ := hb
      refine ⟨fun _ => .inr ⟨op, hop, .inr ⟨x, hx, hfits, .inl (by simpa using hb)⟩⟩, ?_⟩
      intro _ keep hkeep
      cases hkeep
  · have hnone : ¬ ((buildFilterSql py ⟨column, operator, v⟩).isSome &&
        (wherePredicate py operator v).binds D s.type) = true := by simp [hsql]
    simp only [if_neg hnone]
    have hs := mt (buildFilterSql_isSome py column operator v).mpr hsql
    refine ⟨fun _ => ?_, fun _ keep hkeep => by cases hkeep⟩
    by_cases hc : column = []
    · exact .inl hc
    · have hs' : ¬ ∀ op ∈ comparison operator, notFinite v = false := fun h => hs ⟨hc, h⟩
      push Not at hs'
      obtain ⟨op, hop, hnf⟩ := hs'
      exact .inr ⟨op, hop, .inl (by simpa using hnf)⟩

/-! ### Cells -/

/-- A literal that fits the column is compared as it is. -/
theorem coerce_of_fits {s : Series} {x : Scalar} (h : s.type.fits x = true) :
    coerceFilterValue P s.dtype (some x) = some (some x) := by
  have hnumber : s.dtype.isNumeric = true → x.isNumber = true ∨ (∃ b, x = .bool b) →
      coerceFilterValue P s.dtype (some x) = some (some x) := by
    intro hd hx
    simp only [coerceFilterValue, hd, if_true]
    cases x with
    | int n | float d | bool b => rfl
    | text t | instant n | nat => simp [Scalar.isNumber] at hx
  cases htype : s.type with
  | text | null => simp [coerceFilterValue, Series.dtype, htype, Dtype.isNumeric]
  | bool =>
    by_cases hn : none ∈ s.cells
    · simp [coerceFilterValue, Series.dtype, htype, hn, Dtype.isNumeric]
    · refine hnumber (by simp [Series.dtype, htype, hn, Dtype.isNumeric]) ?_
      rw [htype] at h
      cases x <;> simp [ColumnType.fits] at h ⊢
  | int =>
    refine hnumber ?_ (.inl (by simpa [htype, ColumnType.fits] using h))
    by_cases hn : none ∈ s.cells <;> simp [Series.dtype, htype, hn, Dtype.isNumeric]
  | float =>
    refine hnumber ?_ (.inl (by simpa [htype, ColumnType.fits] using h))
    simp [Series.dtype, htype, Dtype.isNumeric]
  | instant =>
    rw [htype] at h
    cases x <;> simp [ColumnType.fits] at h
    simp [coerceFilterValue, Series.dtype, htype, Dtype.isNumeric, Pandas.toDatetime]

theorem coerce_of_text {s : Series} (h : s.type = .text) (v : Value) :
    coerceFilterValue P s.dtype v = some v := by
  cases v <;> simp [coerceFilterValue, Series.dtype, h, Dtype.isNumeric]

theorem isna_of_fits {type : ColumnType} {x : Scalar} (h : type.fits x = true)
    (hf : notFinite (some x) = false) : x.isna = false := by
  cases x with
  | float d => cases d <;> simp_all [notFinite, Scalar.isna]
  | nat => cases type <;> simp [ColumnType.fits, Scalar.isNumber] at h
  | _ => rfl

theorem compareScalar_number {dtype : Dtype} {op : Comparison} {x c : Scalar}
    (hc : c.isNumber = true) (hx : x.isNumber = true) :
    P.compareScalar dtype op x c =
      some (if c.isna then op == .ne else op.holds (P.order dtype c x)) := by
  cases c with
  | int n | float d =>
    simp only [Pandas.compareScalar, hc, hx, Bool.and_self, if_true]
  | _ => simp [Scalar.isNumber] at hc

theorem compareFitting_number {type : ColumnType} {op : Comparison} {x c : Scalar}
    (hc : c.isNumber = true) :
    D.compareFitting type op x c =
      if c.isna then op.holds .gt else op.holds (D.order type c x) := by
  cases c with
  | int n | float d => rfl
  | _ => simp [Scalar.isNumber] at hc

/-- A literal that fits is compared alike with every cell but NaN, and with numbers as far as
both sides order them alike. -/
theorem compareScalar_fits {s : Series} (op : Comparison) {x c : Scalar}
    (hfits : s.type.fits x = true) (hc : s.type.holds c = true) :
    P.compareScalar s.dtype op x c = some (D.compareFitting s.type op x c) ↔
      (c.isNumber = true →
        if c.isna then op ≠ .gt ∧ op ≠ .ge
        else op.holds (P.order s.dtype c x) = op.holds (D.order s.type c x)) := by
  have hnan : (op == .ne) = op.holds .gt ↔ op ≠ .gt ∧ op ≠ .ge := by
    cases op <;> decide
  cases htype : s.type with
  | null => simp [htype, ColumnType.holds] at hc
  | text | bool | instant =>
    rw [htype] at hc hfits
    cases c <;> simp [ColumnType.holds] at hc
    cases x <;> simp [ColumnType.fits] at hfits
    simp [Pandas.compareScalar, DuckDb.compareFitting, Scalar.isNumber]
  | int | float =>
    rw [htype] at hc hfits
    have hn : c.isNumber = true := by
      cases c <;> simp [ColumnType.holds] at hc
      rfl
    simp only [compareScalar_number P hn hfits, compareFitting_number D hn, hn, true_imp_iff,
      Option.some.injEq]
    split
    · exact hnan
    · rfl

theorem compare_cell_iff {s : Series} {op : Comparison} {v v' : Value} {c : Cell}
    (hv' : coerceFilterValue P s.dtype v = some v') (hf : notFinite v = false)
    (hc : ∀ d ∈ c, s.type.holds d = true) :
    (P.compareCell s.dtype op v' c).toOption =
        (Predicate.eval D s.type (.compare op v) c).map Truth.selects ↔
      CompareAlike P D s v v' op c := by
  cases c with
  | none =>
    have h : P.compareCell s.dtype op v' none = .ok (op == .ne) := by cases v' <;> rfl
    simp [h, Predicate.eval, Except.toOption, CompareAlike]
  | some d =>
    cases v with
    | none =>
      cases hv'
      simp [Pandas.compareCell, Predicate.eval, Except.toOption, CompareAlike]
    | some x =>
      by_cases hfits : s.type.fits x = true
      · rw [coerce_of_fits P hfits] at hv'
        cases hv'
        have hscalar := compareScalar_fits P D op hfits (hc d rfl)
        simp only [CompareAlike, hfits, if_true, ← hscalar, Predicate.eval, Pandas.compareCell,
          isna_of_fits hfits hf, Option.map_some, Truth.selects_some]
        cases P.compareScalar s.dtype op x d <;> simp [Except.toOption]
      · simp only [CompareAlike, hfits, Predicate.eval]
        cases D.mixed s.type op d x <;> simp

theorem search_cell_iff (s : Series) (v : Value) {v' : Value} (c : Cell)
    {search : Text → Bool} (negated : Bool) (hs : P.compile (py.str v') = some search) :
    some (search (P.cellText s.dtype c) != negated) =
        (Predicate.eval D s.type (.like negated ('%' :: py.str v ++ ['%'])) c).map Truth.selects ↔
      SearchAlike py P D s v v' negated c := by
  cases c with
  | none =>
    simp only [Predicate.eval, Option.map_some, Truth.selects_none, SearchAlike, hs,
      Option.mem_some_iff, forall_eq', Pandas.cellText]
    cases search s.dtype.nullText <;> cases negated <;> simp
  | some d =>
    simp only [Predicate.eval, Option.map_some, SearchAlike, hs, Option.mem_some_iff, forall_eq']
    cases search (P.cellText s.dtype (some d)) <;>
      cases like ('%' :: py.str v ++ ['%']) (D.cellText d) <;> cases negated <;> simp

theorem anchored_cell_iff {s : Series} {v v' : Value} {c : Cell} {anchored : Text → Text → Bool}
    {pattern : Text} (hv' : coerceFilterValue P s.dtype v = some v')
    (hc : ∀ d ∈ c, s.type.holds d = true)
    (hlike : ∀ t, anchored (py.str v) t = true → like pattern t = true) :
    some (anchored (py.str v') (P.cellText s.dtype c)) =
        (Predicate.eval D s.type (.like false pattern) c).map Truth.selects ↔
      AnchoredAlike py P D s v v' anchored pattern c := by
  cases c with
  | none => simp [Predicate.eval, AnchoredAlike, Pandas.cellText]
  | some d =>
    cases d with
    | text t =>
      have htype : s.type = .text := by
        have := hc (.text t) rfl
        cases h : s.type <;> simp [h, ColumnType.holds] at this ⊢
      rw [coerce_of_text P htype] at hv'
      cases hv'
      have h := hlike t
      simp only [Predicate.eval, AnchoredAlike, Pandas.cellText, DuckDb.cellText, Option.map_some]
      cases hl : like pattern t <;> cases ha : anchored (py.str v) t <;> simp_all
    | _ => simp [Predicate.eval, AnchoredAlike]

theorem isNull_cell_iff (type : ColumnType) (c : Cell) (negated : Bool) :
    some (isnaCell c != negated) =
        (Predicate.eval D type (.isNull negated) c).map Truth.selects ↔
      ∀ x ∈ c, x.isna = false := by
  cases c with
  | none => simp [Predicate.eval, isnaCell]
  | some x => cases hx : x.isna <;> cases negated <;> simp [Predicate.eval, isnaCell, hx]

/-- On one cell the two sides agree when the cell is treated alike. -/
theorem cell_iff {s : Series} {operator : FilterOperator} {v v' : Value} {c : Cell}
    {keep : Cell → Option Bool} (hv' : coerceFilterValue P s.dtype v = some v')
    (hkeep : pandasCell py P s.dtype operator v' = some keep)
    (hf : ∀ op ∈ comparison operator, notFinite v = false)
    (hc : ∀ d ∈ c, s.type.holds d = true) :
    keep c = ((wherePredicate py operator v).eval D s.type c).map Truth.selects ↔
      CellAlike py P D s v v' c operator := by
  cases operator with
  | equals | notEquals | greaterThan | lessThan | greaterThanOrEqual | lessThanOrEqual =>
    cases hkeep
    exact compare_cell_iff P D hv' (hf _ rfl) hc
  | contains =>
    obtain ⟨search, hs, rfl⟩ := Option.map_eq_some_iff.mp hkeep
    have h := search_cell_iff py P D s v c false hs
    simp only [Bool.bne_false] at h
    exact h
  | notContains =>
    obtain ⟨search, hs, rfl⟩ := Option.map_eq_some_iff.mp hkeep
    have h := search_cell_iff py P D s v c true hs
    simp only [Bool.bne_true] at h
    exact h
  | startsWith =>
    cases hkeep
    refine anchored_cell_iff py P D hv' hc fun t ht => like_of_isPrefix ?_
    exact List.isPrefixOf_iff_prefix.mp ht
  | endsWith =>
    cases hkeep
    refine anchored_cell_iff py P D hv' hc fun t ht => like_of_isSuffix ?_
    exact List.isSuffixOf_iff_suffix.mp ht
  | isNull =>
    cases hkeep
    have h := isNull_cell_iff D s.type c false
    simp only [Bool.bne_false] at h
    exact h
  | isNotNull =>
    cases hkeep
    have h := isNull_cell_iff D s.type c true
    simp only [Bool.bne_true] at h
    exact h

theorem tests_agree_iff {s : Series} {column : Text} {operator : FilterOperator} {v : Value}
    (htyped : ∀ c ∈ s.cells, ∀ d ∈ c, s.type.holds d = true)
    (hp : ¬ PandasRefuses py P s operator v) (hd : ¬ DuckDbRefuses D s column operator v) :
    (∀ keep ∈ pandasTest py P s operator v, ∀ keep' ∈ duckdbTest py D s column operator v,
        ∀ c ∈ s.cells, keep c = keep' c) ↔
      ∀ v' ∈ coerceFilterValue P s.dtype v, ∀ c ∈ s.cells, CellAlike py P D s v v' c operator := by
  rw [← refuses_pandasTest_iff] at hp
  rw [← refuses_duckdbTest_iff py] at hd
  cases hpt : pandasTest py P s operator v with
  | none => exact absurd (by simp [hpt, Refuses]) hp
  | some keep =>
    cases hdt : duckdbTest py D s column operator v with
    | none => exact absurd (by simp [hdt, Refuses]) hd
    | some keep' =>
      obtain ⟨v', hv', hkeep⟩ := Option.bind_eq_some_iff.mp hpt
      have hsql : (buildFilterSql py ⟨column, operator, v⟩).isSome = true ∧
          keep' = fun c => ((wherePredicate py operator v).eval D s.type c).map Truth.selects := by
        unfold duckdbTest at hdt
        dsimp only at hdt
        split at hdt
        · next h => exact ⟨(Bool.and_eq_true_iff.mp h).1, (Option.some.inj hdt).symm⟩
        · cases hdt
      obtain ⟨hsome, rfl⟩ := hsql
      have hf := ((buildFilterSql_isSome py column operator v).mp hsome).2
      simp only [Option.mem_some_iff, forall_eq', hv']
      exact forall₂_congr fun c hc => cell_iff py P D hv' hkeep hf (htyped c hc)

/-! ### The routing of a filter step -/

/-- The two engines keep the same rows of a filter step, each as often, and fail together,
exactly under the condition. -/
theorem pandas_duckdb_iff (t : Table) (i : Fin t.width) (operator : FilterOperator) (v : Value) :
    SameRows (executeFilter py P t ⟨(t.columns i).1, operator, v⟩).toOption
        (duckdbFilter D py t ⟨(t.columns i).1, operator, v⟩) ↔
      RoutingSafe py P D (t.series i) (t.columns i).1 operator v := by
  have htyped : ∀ c ∈ (t.series i).cells, ∀ d ∈ c, (t.series i).type.holds d = true := by
    intro c hc d hd
    obtain ⟨r, hr, rfl⟩ := List.mem_map.mp hc
    exact t.typed r hr i d hd
  have hcells : t.rows.map (fun r : t.Row => r i) = (t.series i).cells := rfl
  rw [executeFilter_rows, duckdbFilter_rows, sameRows_map_iff (fun r : t.Row => r i), hcells,
    refuses_pandasTest_iff, refuses_duckdbTest_iff]
  unfold RoutingSafe
  refine or_congr_right (and_congr_right fun hp => and_congr_right fun hd => ?_)
  exact tests_agree_iff py P D htyped hp hd

theorem threshold_iff (t : Table) (i : Fin t.width) (operator : FilterOperator)
    (v : Value) :
    (∀ threshold threshold', SameRows
        (smartExecute py P D threshold t ⟨(t.columns i).1, operator, v⟩)
        (smartExecute py P D threshold' t ⟨(t.columns i).1, operator, v⟩)) ↔
      RoutingSafe py P D (t.series i) (t.columns i).1 operator v := by
  rw [← pandas_duckdb_iff]
  constructor
  · intro h
    have h' := h (t.rows.length + 1) 0
    have hp : ¬ t.rows.length + 1 ≤ t.rows.length := by omega
    simpa only [smartExecute, Nat.zero_le, if_true, if_neg hp] using h'
  · intro h threshold threshold'
    unfold smartExecute
    split <;> split
    · exact SameRows.refl _
    · exact h.symm
    · exact h
    · exact SameRows.refl _

/-- One text column with a null. -/
def nullTable : Table where
  width := 1
  columns := fun _ => ("city".toList, .text)
  distinct := by
    intro i j _
    omega
  rows := [fun _ => none]
  typed := by simp

/-- The libraries on a column of texts, where only plain texts are searched. -/
def textPython : Python := ⟨fun _ => "nan".toList, fun _ => []⟩

def textPandas : Pandas where
  parseNumber _ := none
  parseDatetime _ := none
  compile pattern := some (occurs pattern)
  print _ _ := []
  order _ _ _ := .eq
  mixed op _ _ := some (op == .ne)

def textDuckDb : DuckDb where
  varchar _ := []
  order _ _ _ := .eq
  binds _ _ _ := false
  mixed _ _ _ _ := none

/-- The characters with a meaning of their own in a regular expression. -/
def metacharacter (c : Char) : Bool := ".^$*+?\x7b\x7d[]\\|()".toList.contains c

/-- A text column without nulls and a plain value are safe under every operator, where a regular
expression without metacharacters is found as the text it is. -/
theorem text_routing_safe (s : Series) (column value : Text) (operator : FilterOperator)
    (hregex : ∀ p : Text, (∀ c ∈ p, metacharacter c = false) →
      ∃ search, P.compile p = some search ∧ ∀ t, search t = true ↔ p <:+: t)
    (htext : s.type = .text) (htyped : ∀ c ∈ s.cells, ∃ t, c = some (.text t))
    (hcolumn : column ≠ []) (hplain : ∀ c ∈ value, metacharacter c = false ∧ wildcard c = false) :
    RoutingSafe py P D s column operator (some (.text value)) := by
  obtain ⟨search, hs, hsearch⟩ := hregex value fun c hc => (hplain c hc).1
  have hwild : ∀ c ∈ value, wildcard c = false := fun c hc => (hplain c hc).2
  have hfits : s.type.fits (.text value) = true := by rw [htext]; rfl
  refine .inr ⟨?_, ?_, ?_⟩
  · simp only [PandasRefuses, coerce_of_text P htext, Option.mem_some_iff, forall_eq', Python.str, hs]
    cases hop : comparison operator with
    | none => simp
    | some op =>
      rintro ⟨c, x, hc, hx, -, hnone⟩
      obtain ⟨t, ht⟩ := htyped _ hc
      cases ht
      cases hx
      simp [Pandas.compareScalar] at hnone
  · simp [DuckDbRefuses, hcolumn, hfits, notFinite]
  · intro v' hv' c hc
    rw [coerce_of_text P htext] at hv'
    cases hv'
    obtain ⟨t, rfl⟩ := htyped c hc
    cases operator with
    | equals | notEquals | greaterThan | lessThan | greaterThanOrEqual | lessThanOrEqual =>
      simp [CellAlike, CompareAlike, hfits, Scalar.isNumber]
    | contains | notContains =>
      simp only [CellAlike, SearchAlike, Python.str, hs, Option.mem_some_iff, forall_eq']
      rw [Bool.eq_iff_iff]
      exact (hsearch t).trans (like_plain_isInfix hwild).symm
    | startsWith =>
      intro hlike
      exact List.isPrefixOf_iff_prefix.mpr ((like_plain_isPrefix hwild).mp hlike)
    | endsWith =>
      intro hlike
      exact List.isSuffixOf_iff_suffix.mpr ((like_plain_isSuffix hwild).mp hlike)
    | isNull | isNotNull => simp [CellAlike, Scalar.isna]

end PipelineIQ.Execution.FilterRouting
