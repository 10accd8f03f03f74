import PipelineIQ.Lib.Strings

namespace PipelineIQ.Pipeline.Filter

open PipelineIQ.Lib.Strings

inductive FilterOperator where
  | equals | notEquals | greaterThan | lessThan | greaterThanOrEqual | lessThanOrEqual
  | contains | notContains | startsWith | endsWith | isNull | isNotNull
  deriving DecidableEq, Repr

def FilterOperator.value : FilterOperator → String
  | .equals => "equals"
  | .notEquals => "not_equals"
  | .greaterThan => "greater_than"
  | .lessThan => "less_than"
  | .greaterThanOrEqual => "gte"
  | .lessThanOrEqual => "lte"
  | .contains => "contains"
  | .notContains => "not_contains"
  | .startsWith => "starts_with"
  | .endsWith => "ends_with"
  | .isNull => "is_null"
  | .isNotNull => "is_not_null"

/-- The six comparisons. -/
inductive Comparison where
  | eq | ne | gt | lt | ge | le
  deriving DecidableEq, Repr

def Comparison.holds : Comparison → Ordering → Bool
  | .eq => Ordering.isEq
  | .ne => Ordering.isNe
  | .gt => Ordering.isGT
  | .lt => Ordering.isLT
  | .ge => Ordering.isGE
  | .le => Ordering.isLE

/-! ### Tables -/

/-- A floating point number. -/
inductive Double where
  | nan
  | infinite (negative : Bool)
  | finite (q : Rat)
  deriving DecidableEq, Repr

/-- A value other than null; an instant is a point of time and `nat` the invalid one. -/
inductive Scalar where
  | text (t : Text)
  | bool (b : Bool)
  | int (n : Int)
  | float (d : Double)
  | instant (n : Int)
  | nat
  deriving DecidableEq, Repr

abbrev Cell := Option Scalar
abbrev Value := Option Scalar

instance : LawfulBEq Cell := inferInstance

def Scalar.isNumber : Scalar → Bool
  | .int _ | .float _ => true
  | _ => false

def Scalar.isna : Scalar → Bool
  | .float .nan | .nat => true
  | _ => false

inductive ColumnType where
  | text | bool | int | float | instant | null
  deriving DecidableEq, Repr

def ColumnType.holds : ColumnType → Scalar → Bool
  | .text, .text _ | .bool, .bool _ | .int, .int _ | .float, .float _ | .instant, .instant _ => true
  | _, _ => false

/-- A literal that the cells of a column are compared with as they are. -/
def ColumnType.fits : ColumnType → Scalar → Bool
  | .text, .text _ | .bool, .bool _ | .instant, .instant _ => true
  | .int, v | .float, v => v.isNumber
  | _, _ => false

structure Table where
  width : Nat
  columns : Fin width → Text × ColumnType
  distinct : Function.Injective fun i => (columns i).1
  rows : List (Fin width → Cell)
  typed : ∀ r ∈ rows, ∀ i, ∀ c ∈ r i, (columns i).2.holds c = true

abbrev Table.Row (t : Table) := Fin t.width → Cell

def Table.find (t : Table) (name : Text) : Option (Fin t.width) :=
  (List.finRange t.width).find? fun i => (t.columns i).1 == name

/-- The types that `to_pandas` gives the columns. -/
inductive Dtype where
  | object | bool | int64 | float64 | datetime64
  deriving DecidableEq, Repr

structure Series where
  type : ColumnType
  cells : List Cell

def Table.series (t : Table) (i : Fin t.width) : Series where
  type := (t.columns i).2
  cells := t.rows.map fun r => r i

/-- A column of whole numbers becomes one of doubles when a cell is null, and a column of
booleans one of objects. -/
def Series.dtype (s : Series) : Dtype :=
  match s.type with
  | .text | .null => .object
  | .bool => if none ∈ s.cells then .object else .bool
  | .int => if none ∈ s.cells then .float64 else .int64
  | .float => .float64
  | .instant => .datetime64

def Dtype.isNumeric : Dtype → Bool
  | .bool | .int64 | .float64 => true
  | _ => false

/-- The text that `astype(str)` makes of a null. -/
def Dtype.nullText : Dtype → Text
  | .float64 => "nan".toList
  | .datetime64 => "NaT".toList
  | _ => "None".toList

/-! ### The libraries -/

/-- How Python prints floats and instants. -/
structure Python where
  float : Double → Text
  instant : Int → Text

def Python.str (py : Python) : Value → Text
  | none => "None".toList
  | some (.text t) => t
  | some (.bool b) => if b then "True".toList else "False".toList
  | some (.int n) => (toString n).toList
  | some (.float d) => py.float d
  | some (.instant n) => py.instant n
  | some .nat => "NaT".toList

/-- What the filter uses of pandas: the readings of a value (`none` raises), the search for a
regular expression (`none` does not compile), the text of a cell other than a text, the order
of two numbers in the arithmetic of a dtype, and the comparison of unlike values. -/
structure Pandas where
  parseNumber : Text → Option Scalar
  parseDatetime : Scalar → Option Scalar
  compile : Text → Option (Text → Bool)
  print : Dtype → Scalar → Text
  order : Dtype → Scalar → Scalar → Ordering
  mixed : Comparison → Scalar → Scalar → Option Bool

inductive PythonError where
  | typeError | reError
  deriving DecidableEq, Repr

section Operations

variable (py : Python) (P : Pandas)

def Pandas.toNumeric : Scalar → Option Scalar
  | .text t => P.parseNumber t
  | .instant _ | .nat => none
  | v => some v

def Pandas.toDatetime : Scalar → Option Scalar
  | .instant n => some (.instant n)
  | v => P.parseDatetime v

def Pandas.compareScalar (dtype : Dtype) (op : Comparison) (v : Scalar) : Scalar → Option Bool
  | .text a => match v with
    | .text b => some (op.holds (compareOfLessAndEq a b))
    | _ => P.mixed op (.text a) v
  | .bool a => match v with
    | .bool b => some (op.holds (compareOfLessAndEq a b))
    | _ => P.mixed op (.bool a) v
  | .instant a => match v with
    | .instant b => some (op.holds (compareOfLessAndEq a b))
    | _ => P.mixed op (.instant a) v
  | c =>
    if c.isNumber && v.isNumber then
      some (if c.isna then op == .ne else op.holds (P.order dtype c v))
    else P.mixed op c v

/-- A null differs from every value and is neither smaller nor greater. -/
def Pandas.compareCell (dtype : Dtype) (op : Comparison) (v : Value) (c : Cell) :
    Except PythonError Bool :=
  match v, c with
  | none, _ | some _, none => .ok (op == .ne)
  | some v, some c =>
    if v.isna then .ok (op == .ne)
    else (P.compareScalar dtype op v c).elim (.error .typeError) .ok

def Pandas.compare (op : Comparison) (s : Series) (v : Value) : Except PythonError (List Bool) :=
  s.cells.mapM (P.compareCell s.dtype op v)

def Pandas.cellText (dtype : Dtype) : Cell → Text
  | none => dtype.nullText
  | some (.text t) => t
  | some c => P.print dtype c

def Pandas.astypeStr (s : Series) : List Text := s.cells.map (P.cellText s.dtype)

def Pandas.strContains (texts : List Text) (pattern : Text) : Except PythonError (List Bool) :=
  match P.compile pattern with
  | none => .error .reError
  | some search => .ok (texts.map search)

def isnaCell (c : Cell) : Bool := c.elim true Scalar.isna

def filterOperations : FilterOperator → Series → Value → Except PythonError (List Bool)
  | .equals, s, v => P.compare .eq s v
  | .notEquals, s, v => P.compare .ne s v
  | .greaterThan, s, v => P.compare .gt s v
  | .lessThan, s, v => P.compare .lt s v
  | .greaterThanOrEqual, s, v => P.compare .ge s v
  | .lessThanOrEqual, s, v => P.compare .le s v
  | .contains, s, v => P.strContains (P.astypeStr s) (py.str v)
  | .notContains, s, v => (P.strContains (P.astypeStr s) (py.str v)).map (·.map (!·))
  | .startsWith, s, v => .ok ((P.astypeStr s).map fun t => (py.str v).isPrefixOf t)
  | .endsWith, s, v => .ok ((P.astypeStr s).map fun t => (py.str v).isSuffixOf t)
  | .isNull, s, _ => .ok (s.cells.map isnaCell)
  | .isNotNull, s, _ => .ok (s.cells.map fun c => !isnaCell c)

def coerceFilterValue (dtype : Dtype) : Value → Option Value
  | none => some none
  | some v =>
    if dtype.isNumeric then (P.toNumeric v).map some
    else if dtype = .datetime64 then (P.toDatetime v).map some
    else some (some v)

structure FilterStepConfig where
  column : Text
  operator : FilterOperator
  value : Value

inductive FilterError where
  | columnNotFound
  | filterTypeMismatch
  | python (e : PythonError)
  deriving DecidableEq, Repr

/-- `df[mask]`. -/
def maskRows {α : Type} (rows : List α) (mask : List Bool) : List α :=
  ((rows.zip mask).filter (·.2)).map (·.1)

/-- The rows a filter step keeps in pandas. -/
def executeFilter (t : Table) (config : FilterStepConfig) : Except FilterError (List t.Row) :=
  match t.find config.column with
  | none => .error .columnNotFound
  | some i =>
    let columnSeries := t.series i
    match coerceFilterValue P columnSeries.dtype config.value with
    | none => .error .filterTypeMismatch
    | some coercedValue =>
      match filterOperations py P config.operator columnSeries coercedValue with
      | .error .typeError => .error .filterTypeMismatch
      | .error e => .error (.python e)
      | .ok mask => .ok (maskRows t.rows mask)

end Operations

end PipelineIQ.Pipeline.Filter
