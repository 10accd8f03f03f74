import PipelineIQ.Lib.Doubles
import PipelineIQ.Lib.Groups
import PipelineIQ.Lib.Sampling
import PipelineIQ.Pipeline.Frames

namespace PipelineIQ.Pipeline.SampleStep

open PipelineIQ.Lib PipelineIQ.Lib.Strings PipelineIQ.Lib.Doubles PipelineIQ.Lib.Sampling
open PipelineIQ.Pipeline.Steps (Table Result)
open PipelineIQ.Pipeline.Filter (Double)
open PipelineIQ.Pipeline.Frames

/-! ### Numbers -/

def ofRat (q : Rat) : Double := (nearest q).elim (.infinite (q < 0)) .finite

/-- `float` of an integer. -/
def float (n : Int) : Except FrameError Double :=
  match nearest n with
  | some q => .ok (.finite q)
  | none => .error (.overflow "int too large to convert to float".toList)

/-- The product of two doubles; nothing here depends on the sign of zero. -/
def times : Double → Double → Double
  | .nan, _ | _, .nan => .nan
  | .finite p, .finite q => ofRat (p * q)
  | .infinite s, .infinite s' => .infinite (s != s')
  | .infinite s, .finite q | .finite q, .infinite s =>
    if q = 0 then .nan else .infinite (s != decide (q < 0))

/-- `int` and `round` of a double. -/
def toInteger (convert : Rat → Int) : Double → Except FrameError Int
  | .nan => .error (.value "cannot convert float NaN to integer".toList)
  | .infinite _ => .error (.overflow "cannot convert float infinity to integer".toList)
  | .finite q => .ok (convert q)

/-! ### Samples of pandas -/

variable {α : Type}

/-- What a sample uses of pandas and numpy: the order of the groups of a column, and the
permutation of so many positions that a call draws, by the seed if there is one. -/
structure Sampler (α : Type) where
  order : List α → List α
  order_perm : ∀ values, (order values).Perm values
  permutation : Option Int → Nat → Nat → List Nat
  permutation_perm : ∀ seed call len, (permutation seed call len).Perm (List.range len)
  seeded : ∀ seed call call' len,
    permutation (some seed) call len = permutation (some seed) call' len

/-- A seed that numpy takes. -/
def SeedTaken (seed : Option Int) : Prop := ∀ s ∈ seed, 0 ≤ s ∧ s < 2 ^ 32

instance (seed : Option Int) : Decidable (SeedTaken seed) :=
  inferInstanceAs (Decidable (∀ s ∈ seed, 0 ≤ s ∧ s < 2 ^ 32))

/-- `DataFrame.sample` with a number of rows. -/
def Sampler.sample {ρ : Type} (S : Sampler α) (seed : Option Int) (call : Nat) (rows : List ρ)
    (size : Int) : Except FrameError (List ρ) :=
  if ¬SeedTaken seed then .error (.value "Seed must be between 0 and 2**32 - 1".toList)
  else if size < 0 then
    .error (.value "A negative number of rows requested. Please provide `n` >= 0".toList)
  else if rows.length < size then
    .error (.value "Cannot take a larger sample than population when 'replace=False'".toList)
  else .ok (drawn (S.permutation seed call rows.length) size.toNat rows)

/-- The number of rows that `DataFrame.sample` makes of a fraction. -/
def fractionSize : Double → Nat → Except FrameError Int
  | .nan, _ => toInteger roundEven .nan
  | .infinite false, _ => .error (.value
      "Replace has to be set to `True` when upsampling the population `frac` > 1.".toList)
  | .infinite true, _ => .error (.value
      "A negative number of rows requested. Please provide `frac` >= 0".toList)
  | .finite q, len =>
    if 1 < q then .error (.value
      "Replace has to be set to `True` when upsampling the population `frac` > 1.".toList)
    else if q < 0 then .error (.value
      "A negative number of rows requested. Please provide `frac` >= 0".toList)
    else (float len).bind fun len => toInteger roundEven (times (.finite q) len)

/-! ### The step -/

structure SampleStepConfig where
  n : Option Int := none
  fraction : Option Double := none
  randomState : Option Int := some 42
  stratifyBy : Option Text := none

/-- The column of the strata; an empty name is none. -/
def SampleStepConfig.stratum (config : SampleStepConfig) : Option Text :=
  config.stratifyBy.filter (· ≠ [])

/-- The part of a target that falls to a group, one row at least. -/
def groupSize (group total : Nat) (target : Int) : Except FrameError Int := do
  let factor ← float target
  let share ← toInteger truncate (times (ofRat (group / total)) factor)
  pure (max 1 share)

/-- The sample of a group, at its call. -/
def Sampler.sampleGroup {ρ : Type} (S : Sampler α) (seed : Option Int) (total : Nat) (target : Int)
    (group : List ρ × Nat) : Except FrameError (List ρ) := do
  let size ← groupSize group.1.length total target
  S.sample seed group.2 group.1 (min size group.1.length)

def targetSize (config : SampleStepConfig) (total : Nat) : Except FrameError Int :=
  match config.n, config.fraction with
  | some n, _ => .ok n
  | none, none => .error (.value "Sample step requires n or fraction".toList)
  | none, some fraction => do
    let rows ← float total
    toInteger truncate (times rows fraction)

/-- The rows that the planner expects. -/
def sampleRowsOut (rowsIn : Nat) (config : SampleStepConfig) : Except FrameError Int :=
  match config.n, config.fraction with
  | some n, _ => .ok (min n rowsIn)
  | none, none => .ok rowsIn
  | none, some fraction => do
    let rows ← float rowsIn
    toInteger truncate (times rows fraction)

section Step

variable [DecidableEq α] (S : Sampler α) (R : Reading α) (t : Table α)

/-- `groupby` of a column; the rows without a value are in no group. -/
def Sampler.groups (column : Text) (rows : List t.Row) : List (List t.Row) :=
  (S.order (rows.filterMap fun r => t.cell r column).dedup).map fun v =>
    Groups.group (fun r => t.cell r column) rows (some v)

def sampleStratified (config : SampleStepConfig) (column : Text) (rows : List t.Row) :
    Except FrameError (List t.Row) := do
  let target ← targetSize config rows.length
  let groups ← (S.groups t column rows).zipIdx.mapM
    (S.sampleGroup config.randomState rows.length target)
  if groups = [] then throw (.value "No objects to concatenate".toList)
  let rows := groups.flatten
  S.sample config.randomState groups.length rows rows.length

def sampledRows (config : SampleStepConfig) : Except FrameError (List t.Row) :=
  let rows := R.frame t
  if ∃ n ∈ config.n, rows.length < n then .ok rows
  else match config.stratum with
    | some column => sampleStratified S t config column rows
    | none => match config.n, config.fraction with
      | some n, _ => S.sample config.randomState 0 rows n
      | none, some fraction => do
        let size ← fractionSize fraction rows.length
        S.sample config.randomState 0 rows size
      | none, none => S.sample config.randomState 0 rows 1

def executeSample (config : SampleStepConfig) : Except FrameError (Result α) := do
  if config.n = none ∧ config.fraction = none then
    throw (.value "Either n or fraction must be specified".toList)
  if config.n ≠ none ∧ config.fraction ≠ none then
    throw (.value "Specify either n or fraction, not both".toList)
  config.stratum.forM (validateColumnExists t)
  let rows ← sampledRows S R t config
  pure (fromPandas t rows)

end Step

end PipelineIQ.Pipeline.SampleStep
