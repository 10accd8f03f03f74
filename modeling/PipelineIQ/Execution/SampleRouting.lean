import Mathlib.Data.Fintype.Pi
import PipelineIQ.Execution.StepSql
import PipelineIQ.Lib.SqlReader
import PipelineIQ.Lib.Traverse
import PipelineIQ.Pipeline.SampleStep

namespace PipelineIQ.Execution.SampleRouting

open PipelineIQ.Lib PipelineIQ.Lib.Strings PipelineIQ.Lib.SqlTokens PipelineIQ.Lib.SqlReader
open PipelineIQ.Lib.Sampling PipelineIQ.Lib.Doubles PipelineIQ.Lib.Traverse
open PipelineIQ.Pipeline.Steps (Table Result)
open PipelineIQ.Pipeline.Filter (Double)
open PipelineIQ.Pipeline.Frames PipelineIQ.Pipeline.SampleStep
open PipelineIQ.Execution.StepSql (buildSampleSql percentText sampleSpec)

/-! ### The query -/

/-- A number of rows, or a part of them that the engine draws row by row. -/
inductive SampleQuery where
  | rows (size : Nat)
  | percent

def readSample (sql : Text) : Option SampleQuery :=
  (expect "SELECT * FROM __input__ USING SAMPLE ".toList sql).map fun rest =>
    match expect " ROWS (reservoir".toList (rest.dropWhile Char.isDigit) with
    | some _ => .rows (Nat.ofDigitChars 10 (rest.takeWhile Char.isDigit) 0)
    | none => .percent

def sqlConfig (config : SampleStepConfig) : StepSql.SampleStepConfig where
  n := config.n
  fraction := config.fraction
  randomState := config.randomState

/-- What a sample uses of DuckDB: whether it takes a query, and the different positions that a
query then picks in a table of so many rows; of a number of rows it picks that many. -/
structure Picker where
  takes : Text → Bool
  positions : Text → Nat → List Nat
  nodup : ∀ sql len, (positions sql len).Nodup
  lt : ∀ sql len, ∀ i ∈ positions sql len, i < len
  length : ∀ sql len size, readSample sql = some (.rows size) →
    (positions sql len).length = min size len

section Duckdb

variable {α : Type} (percent : Rat → Numeral) (D : Picker) (t : Table α)

/-- The query of a sample; a table without columns is not registered. -/
def executeQuery (sql : Text) : Option (Result α) :=
  if t.width = 0 ∨ D.takes sql = false then none
  else some ⟨t.names, (pick t.rows (D.positions sql t.rows.length)).map (cells t)⟩

/-- The sample step in DuckDB, which has no strata. -/
def duckdbSample (config : SampleStepConfig) : Option (Result α) :=
  (buildSampleSql percent (sqlConfig config)).bind fun sql =>
    (readSample sql).bind fun _ => executeQuery D t sql

end Duckdb

/-! ### What the query says -/

theorem space_notMem_of_scan {read text : Text} {s : State}
    (h : scan (.number read) text = (s, [])) : ' ' ∉ text := by
  induction text generalizing read with
  | nil => simp
  | cons c text ih =>
    rw [scan, step] at h
    split at h
    next hpart =>
      have hc : c ≠ ' ' := by
        rintro rfl
        simp [numberPart] at hpart
      rw [List.mem_cons, not_or]
      exact ⟨Ne.symm hc, ih h⟩
    next =>
      have hout := congrArg Prod.snd h
      simp [after] at hout

theorem space_notMem_numeral (n : Numeral) : ' ' ∉ n.text := by
  obtain ⟨text, hdigit, hnumber⟩ := n
  cases text with
  | nil => simp
  | cons d text =>
    have hd : d.isDigit = true := hdigit
    rw [scan, step, start_digit hd] at hnumber
    have hne : ' ' ≠ d := by
      rintro rfl
      cases hd
    rw [List.mem_cons, not_or]
    exact ⟨hne, space_notMem_of_scan hnumber⟩

theorem head_dropWhile_ne {text : Text} (h : ' ' ∉ text) (rest : Text) :
    ((text ++ '%' :: rest).dropWhile Char.isDigit).head? ≠ some ' ' := by
  induction text with
  | nil =>
    rw [List.nil_append, List.dropWhile_cons_of_neg (by decide)]
    simp
  | cons c text ih =>
    rw [List.mem_cons, not_or] at h
    rw [List.cons_append, List.dropWhile_cons]
    split
    · exact ih h.2
    · simpa using Ne.symm h.1

theorem expect_of_head_ne {c : Char} {expected text : Text} (h : text.head? ≠ some c) :
    expect (c :: expected) text = none := by
  cases text with
  | nil => rfl
  | cons d text =>
    have hne : c ≠ d := by
      rintro rfl
      exact h rfl
    rw [expect, if_neg hne]

theorem space_notMem_percentText (percent : Rat → Numeral) (fraction : Double) :
    ' ' ∉ percentText percent fraction := by
  cases fraction with
  | nan =>
    change ' ' ∉ "nan".toList
    decide
  | infinite negative => exact space_notMem_numeral _
  | finite q => exact space_notMem_numeral _

/-- A number of rows is read back. -/
theorem readSample_rows (n : Nat) (seed : Option Int) :
    readSample ("SELECT * FROM __input__ USING SAMPLE ".toList ++ (natural n).text ++
      sampleSpec " ROWS (reservoir" seed) = some (.rows n) := by
  have hdigits : ∀ d ∈ Nat.toDigits 10 n, Char.isDigit d = true := fun d hd =>
    Nat.isDigit_of_mem_toDigits (by decide) (by decide) hd
  have hspec : ∃ rest, sampleSpec " ROWS (reservoir" seed = ' ' :: rest ∧
      (expect " ROWS (reservoir".toList (' ' :: rest)).isSome := by
    refine ⟨_, rfl, ?_⟩
    change (expect " ROWS (reservoir".toList (sampleSpec " ROWS (reservoir" seed)).isSome
    unfold sampleSpec
    rw [expect_append]
    rfl
  obtain ⟨rest, hrest, hread⟩ := hspec
  rw [readSample, List.append_assoc, expect_append, Option.map_some, hrest,
    show (natural n).text = Nat.toDigits 10 n from rfl, List.dropWhile_append_of_pos hdigits,
    List.takeWhile_append_of_pos hdigits, List.dropWhile_cons_of_neg (by decide),
    List.takeWhile_cons_of_neg (by decide), List.append_nil, Nat.ofDigitChars_ten_toDigits]
  obtain ⟨after, hafter⟩ := Option.isSome_iff_exists.mp hread
  rw [hafter]

theorem readSample_percent (text : Text) (h : ' ' ∉ text) (seed : Option Int) :
    readSample ("SELECT * FROM __input__ USING SAMPLE ".toList ++ text ++
      sampleSpec "% (bernoulli" seed) = some .percent := by
  have hspec : ∃ rest, sampleSpec "% (bernoulli" seed = '%' :: rest := ⟨_, rfl⟩
  obtain ⟨rest, hrest⟩ := hspec
  have hexpect : expect " ROWS (reservoir".toList
      ((text ++ '%' :: rest).dropWhile Char.isDigit) = none :=
    expect_of_head_ne (head_dropWhile_ne h rest)
  rw [readSample, List.append_assoc, expect_append, Option.map_some, hrest, hexpect]

/-! ### What a sample is -/

/-- One of the two sizes is given. -/
def Validated (config : SampleStepConfig) : Prop := config.n = none ↔ config.fraction ≠ none

instance (config : SampleStepConfig) : Decidable (Validated config) :=
  inferInstanceAs (Decidable (config.n = none ↔ config.fraction ≠ none))

variable {α : Type}

/-- As many rows as asked for, where the table has them; all rows are of the table, none is there
more often than in the table. -/
structure Sampled (t : Table α) (config : SampleStepConfig) (result : Result α) : Prop where
  size : ∀ n ∈ config.n, (result.rows.card : Int) = min n t.rows.length
  within : result.rows.card ≤ t.rows.length
  rows : result.rows ≤ (t.rows.map (cells t) : Multiset (List (Option α)))

section Conditions

variable [DecidableEq α] (R : Reading α) (t : Table α)

/-- The values of a column that pandas has groups for. -/
def stratumValues (column : Text) : List α :=
  (t.rows.filterMap fun r => t.cell (R.row t r) column).dedup

def stratumRows (column : Text) (v : α) : List t.Row :=
  t.rows.filter fun r => t.cell (R.row t r) column = some v

/-- The table has what a row of other values is read as, as often as rows are drawn. -/
def ReadsRows (rows : List t.Row) (size : Nat) : Prop :=
  ∀ r ∈ rows, ¬R.Exact t r → size ≤ t.rows.count (R.row t r)

/-- The shares of the strata in a number of rows. -/
def Shares (column : Text) (target : Int) (share : α → Nat) : Prop :=
  ∀ v ∈ stratumValues R t column, ∃ size,
    groupSize (stratumRows R t column v).length t.rows.length target = .ok size ∧
      (share v : Int) = min size (stratumRows R t column v).length

/-- There is a stratum, and the shares of the strata sum up to the rows that are asked for. -/
def StratifiedAgrees (config : SampleStepConfig) (column : Text) : Prop :=
  stratumValues R t column ≠ [] ∧ ∃ target share,
    targetSize config t.rows.length = .ok target ∧ Shares R t column target share ∧
      (∀ n ∈ config.n, (((stratumValues R t column).map share).sum : Int) = n) ∧
      ∀ v ∈ stratumValues R t column, ReadsRows R t (stratumRows R t column v) (share v)

/-- The number of rows of a sample without strata. -/
def askedSize (config : SampleStepConfig) (len : Nat) : Except FrameError Int :=
  match config.n, config.fraction with
  | some n, _ => .ok n
  | none, some fraction => fractionSize fraction len
  | none, none => .ok 1

def UnstratifiedAgrees (config : SampleStepConfig) : Prop :=
  ∃ size, askedSize config t.rows.length = .ok size ∧ 0 ≤ size ∧ size ≤ t.rows.length ∧
    ReadsRows R t t.rows size.toNat

/-- The column of the strata is there; all rows are read as they are, where more rows are asked for
than there are; and otherwise the seed is one of numpy and the sample of pandas is one. -/
def PandasAgrees (config : SampleStepConfig) : Prop :=
  (∀ column ∈ config.stratum, column ∈ t.names) ∧
    if ∃ n ∈ config.n, t.rows.length < n then ∀ r ∈ t.rows, R.Exact t r
    else SeedTaken config.randomState ∧ match config.stratum with
      | some column => StratifiedAgrees R t config column
      | none => UnstratifiedAgrees R t config

/-- The engine takes the query and the table, and the number of rows is none below zero. -/
def DuckdbAgrees (percent : Rat → Numeral) (D : Picker) (config : SampleStepConfig) : Prop :=
  t.width ≠ 0 ∧ (∀ sql ∈ buildSampleSql percent (sqlConfig config), D.takes sql = true) ∧
    ∀ n ∈ config.n, 0 ≤ n

/-- The sample is one in both engines, whatever they draw. -/
def SampleSound (percent : Rat → Numeral) (D : Picker) (config : SampleStepConfig) : Prop :=
  (∀ S : Sampler α, ∃ result, (executeSample S R t config).toOption = some result ∧
      Sampled t config result) ∧
    ∃ result, duckdbSample percent D t config = some result ∧ Sampled t config result

end Conditions

/-! ### DuckDB -/

theorem sampled_iff {t : Table α} {config : SampleStepConfig} {rows : List t.Row} :
    Sampled t config ⟨t.names, rows.map (cells t)⟩ ↔
      rows.Subperm t.rows ∧ ∀ n ∈ config.n, (rows.length : Int) = min n t.rows.length := by
  constructor
  · rintro ⟨hsize, -, hrows⟩
    constructor
    · rwa [← Multiset.map_coe, ← Multiset.map_coe, Multiset.map_le_map_iff cells_injective,
        Multiset.coe_le] at hrows
    · simpa using hsize
  · rintro ⟨hrows, hsize⟩
    constructor
    · simpa using hsize
    · simpa using hrows.length_le
    · rw [← Multiset.map_coe, ← Multiset.map_coe, Multiset.map_le_map_iff cells_injective,
        Multiset.coe_le]
      exact hrows

/-- Of a number of rows the planner expects what a sample has. -/
theorem Sampled.planned {t : Table α} {config : SampleStepConfig} {result : Result α}
    (h : Sampled t config result) {n : Int} (hn : config.n = some n) :
    sampleRowsOut t.rows.length config = .ok result.rows.card := by
  rw [sampleRowsOut, hn, h.size n hn]

section Duckdb

variable {percent : Rat → Numeral} {D : Picker} {t : Table α} {config : SampleStepConfig}

/-- The query asks for so many rows, none below zero. -/
theorem read_of_n (hvalid : Validated config) {n : Int} (hn : config.n = some n) {sql : Text}
    (hsql : buildSampleSql percent (sqlConfig config) = some sql) :
    readSample sql = some (.rows n.toNat) := by
  have hfraction : config.fraction = none := by
    by_contra h
    have := hvalid.mpr h
    rw [hn] at this
    cases this
  unfold buildSampleSql at hsql
  simp only [sqlConfig, hn, hfraction] at hsql
  rw [← Option.some.inj hsql]
  exact readSample_rows n.toNat config.randomState

/-- The builder has a query for a validated step, and it is read back. -/
theorem exists_sql (percent : Rat → Numeral) (hvalid : Validated config) :
    ∃ sql query, buildSampleSql percent (sqlConfig config) = some sql ∧
      readSample sql = some query := by
  cases hn : config.n with
  | some n =>
    have hfraction : config.fraction = none := by
      by_contra h
      have := hvalid.mpr h
      rw [hn] at this
      cases this
    refine ⟨_, .rows n.toNat, ?_, readSample_rows n.toNat config.randomState⟩
    simp only [buildSampleSql, sqlConfig, hn, hfraction]
  | none =>
    obtain ⟨fraction, hfraction⟩ := Option.ne_none_iff_exists'.mp (hvalid.mp hn)
    refine ⟨_, .percent, ?_, readSample_percent _ (space_notMem_percentText percent fraction)
      config.randomState⟩
    simp only [buildSampleSql, sqlConfig, hn, hfraction]

theorem duckdb_iff (hvalid : Validated config) :
    (∃ result, duckdbSample percent D t config = some result ∧ Sampled t config result) ↔
      DuckdbAgrees t percent D config := by
  obtain ⟨sql, query, hsql, hread⟩ := exists_sql percent hvalid
  have hpicked : (pick t.rows (D.positions sql t.rows.length)).Subperm t.rows :=
    pick_subperm (D.nodup _ _) (D.lt _ _)
  have hlength : ∀ n ∈ config.n,
      (pick t.rows (D.positions sql t.rows.length)).length = min n.toNat t.rows.length := by
    intro n hn
    rw [length_pick (D.lt _ _)]
    exact D.length _ _ _ (read_of_n hvalid hn hsql)
  unfold duckdbSample DuckdbAgrees
  rw [hsql, Option.bind_some, hread, Option.bind_some, executeQuery]
  constructor
  · rintro ⟨result, hresult, hsampled⟩
    split at hresult
    next => cases hresult
    next htakes =>
      rw [not_or, Bool.not_eq_false] at htakes
      cases hresult
      refine ⟨htakes.1, fun sql' hsql' => ?_, fun n hn => ?_⟩
      · rw [← Option.some.inj hsql']
        exact htakes.2
      · have hsize := (sampled_iff.mp hsampled).2 n hn
        omega
  · rintro ⟨hwidth, htakes, hn⟩
    have htaken : ¬(t.width = 0 ∨ D.takes sql = false) := by
      rw [not_or, Bool.not_eq_false]
      exact ⟨hwidth, htakes sql rfl⟩
    rw [if_neg htaken]
    refine ⟨_, rfl, sampled_iff.mpr ⟨hpicked, fun n hmem => ?_⟩⟩
    have := hn n hmem
    rw [hlength n hmem]
    omega

end Duckdb

/-! ### Pandas -/

theorem perm_id (values : List α) : (id values).Perm values := .refl _

/-- A sampler that draws one permutation wherever there are as many positions. -/
def forced {len : Nat} (permutation : List Nat) (h : permutation.Perm (List.range len)) :
    Sampler α where
  order := id
  order_perm := perm_id
  permutation _ _ n := if n = len then permutation else List.range n
  permutation_perm seed call n := by
    split
    next hn => exact hn ▸ h
    next => exact .refl _
  seeded _ _ _ _ := rfl

theorem sample_ok_iff {S : Sampler α} {ρ : Type} {seed : Option Int} {call : Nat} {rows result : List ρ}
    {size : Int} : S.sample seed call rows size = .ok result ↔
      SeedTaken seed ∧ 0 ≤ size ∧ size ≤ rows.length ∧
        result = drawn (S.permutation seed call rows.length) size.toNat rows := by
  unfold Sampler.sample
  by_cases hseed : SeedTaken seed
  · by_cases hneg : size < 0
    · simp [hseed, hneg]
    · by_cases hlarge : (rows.length : Int) < size
      · simp [hseed, hneg, hlarge]
      · simp only [hseed, hneg, hlarge, not_true_eq_false, if_false, Except.ok.injEq, true_and]
        constructor
        · rintro rfl
          exact ⟨by omega, by omega, rfl⟩
        · exact fun h => h.2.2.symm
  · simp [hseed]

theorem length_frame {R : Reading α} {t : Table α} : (R.frame t).length = t.rows.length := List.length_map _

/-- All rows of the frame are of the table when all rows are read as they are. -/
theorem frame_subperm_iff {R : Reading α} {t : Table α} : (R.frame t).Subperm t.rows ↔ ∀ r ∈ t.rows, R.Exact t r := by
  constructor
  · intro h r hr
    have hperm : (R.frame t).Perm t.rows := h.perm_of_length_le length_frame.symm.le
    exact exact_of_mem_frame (hperm.symm.subset hr)
  · intro h
    have hframe : R.frame t = t.rows := by
      rw [Reading.frame]
      conv_rhs => rw [← List.map_id t.rows]
      exact List.map_congr_left h
    rw [hframe]

section Pandas

variable [DecidableEq α] {S : Sampler α} {R : Reading α} {t : Table α} {config : SampleStepConfig}

theorem pandas_iff (hvalid : Validated config) :
    (∃ result, (executeSample S R t config).toOption = some result ∧ Sampled t config result) ↔
      (∀ column ∈ config.stratum, column ∈ t.names) ∧
        ∃ rows, sampledRows S R t config = .ok rows ∧ rows.Subperm t.rows ∧
          ∀ n ∈ config.n, (rows.length : Int) = min n t.rows.length := by
  have hnone : ¬(config.n = none ∧ config.fraction = none) := fun h => hvalid.mp h.1 h.2
  have hboth : ¬(config.n ≠ none ∧ config.fraction ≠ none) := fun h => h.1 (hvalid.mpr h.2)
  have hexecute : executeSample S R t config =
      (config.stratum.forM (validateColumnExists t)).bind fun _ =>
        (sampledRows S R t config).map (fromPandas t) := by
    unfold executeSample
    rw [if_neg hnone, if_neg hboth]
    rfl
  have hvalidate : config.stratum.forM (validateColumnExists t) = .ok () ↔
      ∀ column ∈ config.stratum, column ∈ t.names := by
    cases config.stratum with
    | none => simp [Option.forM, pure, Except.pure]
    | some column => simp [Option.forM, validateColumnExists]
  rw [hexecute, ← hvalidate]
  cases hcolumn : config.stratum.forM (validateColumnExists t) with
  | error e => simp [Except.bind, Except.toOption]
  | ok u =>
    cases hrows : sampledRows S R t config with
    | error e => simp [Except.bind, Except.map, Except.toOption]
    | ok rows =>
      have hresult : (fromPandas t rows) = ⟨t.names, rows.map (cells t)⟩ := rfl
      simp [Except.bind, Except.map, Except.toOption, hresult, sampled_iff]

/-! ### Without strata -/

/-- The rows of some kind, drawn by any permutation and read, are of the table when the table has
what they are read as. -/
theorem readsRows_iff {p : t.Row → Bool} (hp : ∀ r ∈ t.rows, p r = true → p (R.row t r) = true)
    {size : Nat} : (∀ permutation, permutation.Perm (List.range (t.rows.filter p).length) →
        ((drawn permutation size (t.rows.filter p)).map (R.row t)).Subperm t.rows) ↔
      ReadsRows R t (t.rows.filter p) size := by
  refine map_drawn_subperm_iff (fun r _ => exact_row r) fun r hr => ?_
  obtain ⟨hr, hpr⟩ := List.mem_filter.mp hr
  exact (List.count_filter (hp r hr hpr)).symm

theorem unstratified_iff :
    (∀ S : Sampler α, ∃ rows, (do
        let size ← askedSize config t.rows.length
        S.sample config.randomState 0 (R.frame t) size) = .ok rows ∧ rows.Subperm t.rows ∧
          ∀ n ∈ config.n, (rows.length : Int) = min n t.rows.length) ↔
      SeedTaken config.randomState ∧ UnstratifiedAgrees R t config := by
  have hall : t.rows.filter (fun _ => true) = t.rows := List.filter_true t.rows
  have hreads := @readsRows_iff α _ R t (fun _ => true) fun _ _ h => h
  constructor
  · intro h
    have hdrawn : ∀ S : Sampler α, ∃ size, askedSize config t.rows.length = .ok size ∧
        SeedTaken config.randomState ∧ 0 ≤ size ∧ size ≤ t.rows.length ∧
        ((drawn (S.permutation config.randomState 0 t.rows.length) size.toNat t.rows).map
          (R.row t)).Subperm t.rows := by
      intro S
      obtain ⟨rows, hrows, hsubperm, -⟩ := h S
      obtain ⟨size, hsize, hsample⟩ := bind_ok hrows
      obtain ⟨hseed, hnonneg, hle, rfl⟩ := sample_ok_iff.mp hsample
      rw [length_frame] at hle hsubperm
      rw [Reading.frame, drawn_map] at hsubperm
      exact ⟨size, hsize, hseed, hnonneg, hle, hsubperm⟩
    obtain ⟨size, hsize, hseed, hnonneg, hle, -⟩ := hdrawn (forced (List.range 0) (.refl _))
    refine ⟨hseed, size, hsize, hnonneg, hle, ?_⟩
    rw [← hall]
    refine hreads.mp fun permutation hperm => ?_
    rw [hall] at hperm ⊢
    obtain ⟨size', hsize', -, -, -, hsubperm⟩ := hdrawn (forced permutation hperm)
    rw [hsize] at hsize'
    cases hsize'
    have hpermutation : (forced permutation hperm : Sampler α).permutation config.randomState 0
        t.rows.length = permutation := if_pos rfl
    rwa [hpermutation] at hsubperm
  · rintro ⟨hseed, size, hsize, hnonneg, hle, hreadsRows⟩ S
    have hdrawn : drawn (S.permutation config.randomState 0 (R.frame t).length) size.toNat
        (R.frame t) = (drawn (S.permutation config.randomState 0 t.rows.length) size.toNat
          t.rows).map (R.row t) := by
      rw [length_frame, Reading.frame, drawn_map]
    have hsample : S.sample config.randomState 0 (R.frame t) size = .ok ((drawn
        (S.permutation config.randomState 0 t.rows.length) size.toNat t.rows).map (R.row t)) := by
      rw [← hdrawn]
      exact sample_ok_iff.mpr ⟨hseed, hnonneg, length_frame ▸ hle, rfl⟩
    rw [← hall] at hreadsRows
    have hsubperm := hreads.mpr hreadsRows
    rw [hall] at hsubperm
    refine ⟨(drawn (S.permutation config.randomState 0 t.rows.length) size.toNat t.rows).map
      (R.row t), ?_, hsubperm _ (S.permutation_perm _ _ _), fun n hn => ?_⟩
    · rw [hsize]
      exact hsample
    have hn : size = n := by
      unfold askedSize at hsize
      rw [hn] at hsize
      exact (Except.ok.inj hsize).symm
    rw [List.length_map, length_drawn (S.permutation_perm _ _ _)]
    omega

/-! ### With strata -/

theorem groups_frame (column : Text) : S.groups t column (R.frame t) =
    (S.order (stratumValues R t column)).map fun v =>
      (stratumRows R t column v).map (R.row t) := by
  unfold Sampler.groups stratumValues stratumRows Reading.frame
  rw [List.filterMap_map]
  refine List.map_congr_left fun v _ => ?_
  rw [Groups.group, List.filter_map]
  rfl

theorem one_le_groupSize {group total : Nat} {target size : Int}
    (h : groupSize group total target = .ok size) : 1 ≤ size := by
  obtain ⟨factor, -, h⟩ := bind_ok h
  obtain ⟨share, -, h⟩ := bind_ok h
  cases h
  exact le_max_left 1 share

/-- What a run draws from the stratum of a value. -/
def DrawnStratum (S : Sampler α) (R : Reading α) (t : Table α) (config : SampleStepConfig)
    (column : Text) (target : Int) (v : α) (rows : List t.Row) : Prop :=
  ∃ call size, groupSize (stratumRows R t column v).length t.rows.length target = .ok size ∧
    rows = (drawn (S.permutation config.randomState call (stratumRows R t column v).length)
      (min size (stratumRows R t column v).length).toNat (stratumRows R t column v)).map (R.row t)

/-- A run of the stratified sample draws from each stratum and shuffles what it has. -/
theorem stratified_run {column : Text} {rows : List t.Row}
    (h : sampleStratified S t config column (R.frame t) = .ok rows) :
    SeedTaken config.randomState ∧ stratumValues R t column ≠ [] ∧
      ∃ target, targetSize config t.rows.length = .ok target ∧ ∃ parts,
        List.Forall₂ (DrawnStratum S R t config column target)
          (S.order (stratumValues R t column)) parts ∧ rows.Perm parts.flatten := by
  unfold sampleStratified at h
  obtain ⟨target, htarget, h⟩ := bind_ok h
  obtain ⟨parts, hparts, h⟩ := bind_ok h
  rw [length_frame] at htarget
  by_cases hne : parts = []
  · rw [if_pos hne] at h
    cases h
  · rw [if_neg hne] at h
    obtain ⟨hseed, -, -, hrows⟩ := sample_ok_iff.mp h
    have hrel := forall₂_of_zipIdx (mapM_ok_iff.mp hparts)
    rw [groups_frame, List.forall₂_map_left_iff] at hrel
    have hdrawn : List.Forall₂ (DrawnStratum S R t config column target)
        (S.order (stratumValues R t column)) parts := by
      refine hrel.imp fun v part hpart => ?_
      obtain ⟨call, hpart⟩ := hpart
      obtain ⟨size, hsize, hsample⟩ := bind_ok hpart
      obtain ⟨-, -, -, hpart⟩ := sample_ok_iff.mp hsample
      rw [List.length_map, length_frame] at hsize
      rw [List.length_map, drawn_map] at hpart
      exact ⟨call, size, hsize, hpart⟩
    refine ⟨hseed, ?_, target, htarget, parts, hdrawn, ?_⟩
    · intro hvalues
      rw [hvalues, List.perm_nil.mp (S.order_perm [])] at hdrawn
      cases hdrawn
      exact hne rfl
    · rw [hrows, Int.toNat_natCast]
      exact drawn_all (S.permutation_perm _ _ _)

theorem stratified_exists {column : Text} {target : Int} (S : Sampler α)
    (hseed : SeedTaken config.randomState) (hvalues : stratumValues R t column ≠ [])
    (htarget : targetSize config t.rows.length = .ok target)
    (hshares : ∀ v ∈ stratumValues R t column, ∃ size,
      groupSize (stratumRows R t column v).length t.rows.length target = .ok size) :
    ∃ rows, sampleStratified S t config column (R.frame t) = .ok rows := by
  have hpart : ∀ e ∈ (S.groups t column (R.frame t)).zipIdx,
      ∃ part, S.sampleGroup config.randomState (R.frame t).length target e = .ok part := by
    intro e he
    have hgroup := List.fst_mem_of_mem_zipIdx he
    rw [groups_frame] at hgroup
    obtain ⟨v, hv, hrows⟩ := List.mem_map.mp hgroup
    obtain ⟨size, hsize⟩ := hshares v ((S.order_perm _).subset hv)
    have hlarge := one_le_groupSize hsize
    rw [Sampler.sampleGroup, ← hrows, List.length_map, length_frame, hsize]
    refine ⟨_, sample_ok_iff.mpr ⟨hseed, ?_, ?_, rfl⟩⟩
    · omega
    · rw [List.length_map]
      exact min_le_right _ _
  obtain ⟨parts, hparts⟩ := exists_mapM_ok hpart
  have hne : parts ≠ [] := by
    rintro rfl
    have hlength := (mapM_ok_iff.mp hparts).length_eq
    rw [List.length_zipIdx, groups_frame, List.length_map, (S.order_perm _).length_eq] at hlength
    exact hvalues (List.eq_nil_of_length_eq_zero hlength)
  have hrun : sampleStratified S t config column (R.frame t) =
      S.sample config.randomState parts.length parts.flatten parts.flatten.length := by
    have htotal : targetSize config (R.frame t).length = .ok target := by
      rw [length_frame]
      exact htarget
    unfold sampleStratified
    simp only [htotal, hparts, bind, Except.bind, if_neg hne]
  rw [hrun]
  exact ⟨_, sample_ok_iff.mpr ⟨hseed, Int.natCast_nonneg _, le_refl _, rfl⟩⟩

theorem stratum_reads_iff {column : Text} {v : α} {size : Nat} :
    (∀ permutation, permutation.Perm (List.range (stratumRows R t column v).length) →
        ((drawn permutation size (stratumRows R t column v)).map (R.row t)).Subperm t.rows) ↔
      ReadsRows R t (stratumRows R t column v) size := by
  refine readsRows_iff fun r _ hr => ?_
  have hrow : R.row t (R.row t r) = R.row t r := exact_row r
  rwa [hrow]

theorem nodup_stratumValues {column : Text} : (stratumValues R t column).Nodup :=
  List.nodup_dedup _

/-- The rows that a run draws from a stratum. -/
def shareOf (R : Reading α) (t : Table α) (column : Text) (target : Int) (v : α) : Nat :=
  (groupSize (stratumRows R t column v).length t.rows.length target).toOption.elim 0 fun size =>
    (min size (stratumRows R t column v).length).toNat

theorem shareOf_eq {column : Text} {target : Int} {v : α} {size : Int}
    (h : groupSize (stratumRows R t column v).length t.rows.length target = .ok size) :
    shareOf R t column target v = (min size (stratumRows R t column v).length).toNat := by
  rw [shareOf, h]
  rfl

theorem length_drawnStratum {column : Text} {target : Int} {v : α} {part : List t.Row}
    (h : DrawnStratum S R t config column target v part) :
    part.length = shareOf R t column target v := by
  obtain ⟨call, size, hsize, rfl⟩ := h
  rw [shareOf_eq hsize, List.length_map, length_drawn (S.permutation_perm _ _ _)]
  omega

theorem length_parts {column : Text} {target : Int} {parts : List (List t.Row)}
    (h : List.Forall₂ (DrawnStratum S R t config column target)
      (S.order (stratumValues R t column)) parts) :
    parts.flatten.length =
      ((stratumValues R t column).map (shareOf R t column target)).sum := by
  have hlengths : parts.map List.length =
      (S.order (stratumValues R t column)).map (shareOf R t column target) :=
    (map_eq_of_forall₂ h fun v part hpart => (length_drawnStratum hpart).symm).symm
  rw [List.length_flatten, hlengths]
  exact ((S.order_perm _).map _).sum_eq

theorem shares_of_run {column : Text} {target : Int} {parts : List (List t.Row)}
    (h : List.Forall₂ (DrawnStratum S R t config column target)
      (S.order (stratumValues R t column)) parts) :
    Shares R t column target (shareOf R t column target) := by
  intro v hv
  obtain ⟨part, -, call, size, hsize, -⟩ := forall₂_mem_left h ((S.order_perm _).symm.subset hv)
  have hlarge := one_le_groupSize hsize
  refine ⟨size, hsize, ?_⟩
  rw [shareOf_eq hsize]
  omega

/-- The shares in a number of rows are determined. -/
theorem share_eq {column : Text} {target : Int} {share : α → Nat}
    (h : Shares R t column target share) :
    ∀ v ∈ stratumValues R t column, shareOf R t column target v = share v := by
  intro v hv
  obtain ⟨size, hsize, hshare⟩ := h v hv
  rw [shareOf_eq hsize]
  omega

theorem stratified_iff {column : Text} (hn : ∀ n ∈ config.n, n ≤ t.rows.length) :
    (∀ S : Sampler α, ∃ rows, sampleStratified S t config column (R.frame t) = .ok rows ∧
        rows.Subperm t.rows ∧ ∀ n ∈ config.n, (rows.length : Int) = min n t.rows.length) ↔
      SeedTaken config.randomState ∧ StratifiedAgrees R t config column := by
  constructor
  · intro h
    obtain ⟨rows, hrows, -, hlength⟩ := h (forced (List.range 0) (.refl _))
    obtain ⟨hseed, hvalues, target, htarget, parts, hparts, hperm⟩ := stratified_run hrows
    refine ⟨hseed, hvalues, target, shareOf R t column target, htarget, shares_of_run hparts,
      fun n hmem => ?_, fun v hv => ?_⟩
    · rw [← length_parts hparts, ← hperm.length_eq, hlength n hmem]
      exact min_eq_left (hn n hmem)
    · refine stratum_reads_iff.mp fun permutation hpermutation => ?_
      obtain ⟨rows', hrows', hsubperm, -⟩ := h (forced permutation hpermutation)
      obtain ⟨-, -, target', htarget', parts', hparts', hperm'⟩ := stratified_run hrows'
      rw [htarget] at htarget'
      cases htarget'
      obtain ⟨part, hpart, call, size, hsize, hdrawn⟩ :=
        forall₂_mem_left hparts' ((Sampler.order_perm _ _).symm.subset hv)
      have hforced : (forced permutation hpermutation : Sampler α).permutation config.randomState
          call (stratumRows R t column v).length = permutation := if_pos rfl
      rw [hforced, ← shareOf_eq hsize] at hdrawn
      rw [← hdrawn]
      exact (List.sublist_flatten_of_mem hpart).subperm.trans
        (hperm'.symm.subperm.trans hsubperm)
  · rintro ⟨hseed, hvalues, target, share, htarget, hshares, hsum, hreads⟩ S
    have hsizes : ∀ v ∈ stratumValues R t column, ∃ size,
        groupSize (stratumRows R t column v).length t.rows.length target = .ok size :=
      fun v hv => (hshares v hv).imp fun size h => h.1
    obtain ⟨rows, hrows⟩ := stratified_exists S hseed hvalues htarget hsizes
    obtain ⟨-, -, target', htarget', parts, hparts, hperm⟩ := stratified_run hrows
    rw [htarget] at htarget'
    cases htarget'
    have hstrata : List.Forall₂
        (fun k part => part.Subperm t.rows ∧ ∀ r ∈ part, t.cell r column = k)
        ((S.order (stratumValues R t column)).map some) parts := by
      rw [List.forall₂_map_left_iff]
      refine forall₂_imp_of_mem hparts fun v hv part hpart => ?_
      replace hv := (S.order_perm _).subset hv
      obtain ⟨call, size, hsize, rfl⟩ := hpart
      rw [← shareOf_eq hsize, share_eq hshares v hv]
      refine ⟨stratum_reads_iff.mpr (hreads v hv) _ (S.permutation_perm _ _ _), fun r hr => ?_⟩
      obtain ⟨r', hr', rfl⟩ := List.mem_map.mp hr
      have hmem := (drawn_subperm (S.permutation_perm _ _ _)).subset hr'
      exact of_decide_eq_true (List.mem_filter.mp hmem).2
    have hnodup : ((S.order (stratumValues R t column)).map some).Nodup :=
      ((S.order_perm _).nodup_iff.mpr nodup_stratumValues).map (Option.some_injective α)
    refine ⟨rows, hrows, hperm.subperm.trans (flatten_subperm hnodup hstrata), fun n hmem => ?_⟩
    rw [hperm.length_eq, length_parts hparts, List.map_congr_left (share_eq hshares), hsum n hmem]
    exact (min_eq_left (hn n hmem)).symm

/-! ### Fractions -/

/-- Of a table within the precision of doubles a fraction between zero and one is a number of
rows that the table has. -/
theorem fractionSize_within {q : Rat} {len : Nat} (hq : 0 ≤ q) (hq1 : q ≤ 1)
    (hlen : len ≤ 2 ^ 53) :
    ∃ size, fractionSize (.finite q) len = .ok size ∧ 0 ≤ size ∧ size ≤ len := by
  have hproduct : q * len ≤ len := mul_le_of_le_one_left (Nat.cast_nonneg len) hq1
  obtain ⟨r, hr, hr0, hrlen⟩ :=
    exists_nearest (mul_nonneg hq (Nat.cast_nonneg len)) hproduct hlen
  have hfloat : float len = .ok (.finite len) := by
    rw [float, Int.cast_natCast, nearest_natCast hlen]
  have htimes : times (.finite q) (.finite len) = .finite r := by
    rw [times, ofRat, hr]
    rfl
  refine ⟨roundEven r, ?_, roundEven_nonneg hr0, roundEven_le (by rwa [Int.cast_natCast])⟩
  rw [fractionSize, if_neg (not_lt.mpr hq1), if_neg (not_lt.mpr hq), hfloat]
  change toInteger roundEven (times (.finite q) (.finite len)) = _
  rw [htimes]
  rfl

/-! ### Both engines -/

theorem sampledRows_eq : sampledRows S R t config =
    if ∃ n ∈ config.n, (t.rows.length : Int) < n then .ok (R.frame t)
    else match config.stratum with
      | some column => sampleStratified S t config column (R.frame t)
      | none => askedSize config t.rows.length >>= S.sample config.randomState 0 (R.frame t) := by
  unfold sampledRows askedSize
  simp only [length_frame]
  split
  · rfl
  · cases config.stratum with
    | some column => rfl
    | none =>
      cases config.n with
      | some n => rfl
      | none => cases config.fraction <;> rfl

theorem sampledRows_iff :
    (∀ S : Sampler α, ∃ rows, sampledRows S R t config = .ok rows ∧ rows.Subperm t.rows ∧
        ∀ n ∈ config.n, (rows.length : Int) = min n t.rows.length) ↔
      if ∃ n ∈ config.n, t.rows.length < n then ∀ r ∈ t.rows, R.Exact t r
      else SeedTaken config.randomState ∧ match config.stratum with
        | some column => StratifiedAgrees R t config column
        | none => UnstratifiedAgrees R t config := by
  by_cases hmore : ∃ n ∈ config.n, (t.rows.length : Int) < n
  · simp only [sampledRows_eq, if_pos hmore, Except.ok.injEq, exists_eq_left',
      frame_subperm_iff, length_frame]
    obtain ⟨n, hn, hlt⟩ := hmore
    constructor
    · exact fun h => (h (forced (List.range 0) (.refl _))).1
    · refine fun h _ => ⟨h, fun n' hn' => ?_⟩
      rw [Option.mem_unique hn' hn]
      exact (min_eq_right hlt.le).symm
  · have hn : ∀ n ∈ config.n, n ≤ t.rows.length := by simpa using hmore
    simp only [sampledRows_eq, if_neg hmore]
    cases config.stratum with
    | some column => exact stratified_iff hn
    | none => exact unstratified_iff

end Pandas

/-- A sample of a validated step is one in both engines, whatever they draw, when DuckDB takes the
query and no negative number of rows is asked for, the column of the strata is there, and either
more rows are asked for than there are, and pandas reads all as they are; or the seed is one of
numpy, the shares of the strata sum up to the rows that are asked for, or without strata a fraction
is between zero and one, and pandas reads what it draws as rows of the table. -/
theorem sample_sound_iff [DecidableEq α] (R : Reading α) (t : Table α)
    (percent : Rat → Numeral) (D : Picker) (config : SampleStepConfig)
    (hvalid : Validated config) :
    SampleSound R t percent D config ↔
      PandasAgrees R t config ∧ DuckdbAgrees t percent D config := by
  rw [SampleSound, duckdb_iff hvalid]
  refine and_congr_left' ?_
  simp only [pandas_iff hvalid, PandasAgrees, ← sampledRows_iff]
  constructor
  · exact fun h => ⟨(h (forced (List.range 0) (.refl _))).1, fun S => (h S).2⟩
  · exact fun h S => ⟨h.1, h.2 S⟩

/-- An engine that picks the first rows. -/
def firstRows : Picker where
  takes _ := true
  positions sql len := match readSample sql with
    | some (.rows size) => List.range (min size len)
    | _ => List.range len
  nodup sql len := by
    cases readSample sql with
    | none => exact List.nodup_range
    | some query => cases query <;> exact List.nodup_range
  lt sql len i hi := by
    split at hi
    · exact (List.mem_range.mp hi).trans_le (min_le_right _ _)
    · exact List.mem_range.mp hi
  length sql len size h := by
    rw [h]
    exact List.length_range

/-- A table with one column of three different values. -/
def threeRegions : Table Nat where
  width := 1
  columns _ := "region".toList
  distinct _ _ _ := Subsingleton.elim _ _
  rows := [fun _ => some 1, fun _ => some 2, fun _ => some 3]

theorem sample_sound_two :
    SampleSound readAsIs threeRegions (fun _ => natural 50) firstRows { n := some 2 } := by
  refine (sample_sound_iff readAsIs threeRegions (fun _ => natural 50) firstRows { n := some 2 }
    (by decide)).mpr ⟨⟨by simp [SampleStepConfig.stratum], ?_⟩, by decide, fun _ _ => rfl, by simp⟩
  rw [if_neg (by decide)]
  refine ⟨by decide, 2, rfl, by decide, by decide, ?_⟩
  intro r _ hr
  refine absurd ?_ hr
  funext i
  exact Option.bind_fun_some (r i)

/-- Each of three strata has a row in the sample, where two rows are asked for. -/
theorem one_row_each : ¬SampleSound readAsIs threeRegions (fun _ => natural 50) firstRows
    { n := some 2, stratifyBy := some "region".toList } := by
  intro h
  obtain ⟨result, hresult, hsampled⟩ := h.1 (forced (List.range 0) (.refl _))
  have hcard : ((executeSample (forced (List.range 0) (.refl _)) readAsIs threeRegions
      { n := some 2, stratifyBy := some "region".toList }).toOption.map fun result =>
        result.rows.card) = some 3 := by decide +kernel
  rw [hresult] at hcard
  have hsize := hsampled.size 2 rfl
  rw [show result.rows.card = 3 from Option.some.inj hcard] at hsize
  exact absurd hsize (by decide)

end PipelineIQ.Execution.SampleRouting
