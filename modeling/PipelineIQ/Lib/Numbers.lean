import PipelineIQ.Lib.Doubles

namespace PipelineIQ.Lib

open Doubles

/-! Numbers of a language that has whole numbers of any size beside the doubles. -/

inductive Number where
  | int (n : Int)
  | float (q : Rat)
  | infinity
  deriving DecidableEq, Repr

namespace Number

/-- The double of a number; a whole number may be too large to have one. -/
def toDouble : Number → Option Rat
  | .int n => nearest n
  | .float q => some q
  | .infinity => none

/-- Numbers of the two kinds are compared by their values. -/
def lt : Number → Number → Bool
  | .infinity, _ => false
  | .int _, .infinity | .float _, .infinity => true
  | .int a, .int b => decide (a < b)
  | .int a, .float b => decide ((a : Rat) < b)
  | .float a, .int b => decide (a < (b : Rat))
  | .float a, .float b => decide (a < b)

/-- The first of two numbers, unless the second one is smaller. -/
def min (a b : Number) : Number := if b.lt a then b else a

/-- A sum of doubles, infinite beyond their range. -/
def ofNearest (q : Rat) : Number :=
  match nearest q with
  | some r => .float r
  | none => .infinity

/-- A sum; with a double in it a whole number is made a double first. -/
def add : Number → Number → Option Number
  | .int a, .int b => some (.int (a + b))
  | .int a, .float b => (nearest a).map fun a => ofNearest (a + b)
  | .float a, .int b => (nearest b).map fun b => ofNearest (a + b)
  | .float a, .float b => some (ofNearest (a + b))
  | .infinity, .int b => (nearest b).map fun _ => .infinity
  | .int a, .infinity => (nearest a).map fun _ => .infinity
  | .infinity, _ | _, .infinity => some .infinity

def sum (nums : List Number) : Option Number := nums.foldlM add (.int 0)

/-- A multiple of a number. -/
def times : Number → Nat → Option Number
  | .int a, k => some (.int (a * k))
  | .float a, k => (nearest k).map fun k => ofNearest (a * k)
  | .infinity, k => (nearest k).map fun _ => .infinity

/-- The whole part of the product with a double. -/
def scale (a : Number) (factor : Rat) : Option Int := do
  let x ← a.toDouble
  (nearest (x * factor)).map truncate

/-- The whole part of the quotient by a whole number. -/
def quotient (a : Number) (d : Int) : Option Int :=
  match a with
  | .int n => (nearest (n / d)).map truncate
  | .float q => (nearest d).bind fun d => (nearest (q / d)).map truncate
  | .infinity => none

def Nonneg : Number → Prop
  | .int n => 0 ≤ n
  | .float q => 0 ≤ q
  | .infinity => True

instance : DecidablePred Nonneg := fun a => by
  cases a <;> unfold Nonneg <;> infer_instance

variable {a b c : Number}

theorem nearest_nonneg {q r : Rat} (hq : 0 ≤ q) (h : nearest q = some r) : 0 ≤ r := by
  unfold nearest at h
  dsimp only at h
  split at h
  · cases h
    have hrounded : (0 : Rat) ≤ roundEven (q / unit q) :=
      Int.cast_nonneg (roundEven_nonneg (div_nonneg hq (unit_pos q).le))
    exact mul_nonneg hrounded (unit_pos q).le
  · cases h

theorem truncate_nonneg {q : Rat} (h : 0 ≤ q) : 0 ≤ truncate q :=
  Int.tdiv_nonneg (Rat.num_nonneg.mpr h) (Int.natCast_nonneg q.den)

theorem nonneg_ofNearest {q : Rat} (h : 0 ≤ q) : (ofNearest q).Nonneg := by
  unfold ofNearest
  split
  · next hr => exact nearest_nonneg h hr
  · trivial

theorem Nonneg.toDouble {x : Rat} (ha : a.Nonneg) (h : a.toDouble = some x) : 0 ≤ x := by
  cases a with
  | int n => exact nearest_nonneg (Int.cast_nonneg ha) h
  | float q =>
    cases h
    exact ha
  | infinity => cases h

theorem Nonneg.scale {factor : Rat} {n : Int} (ha : a.Nonneg) (hf : 0 ≤ factor)
    (h : a.scale factor = some n) : 0 ≤ n := by
  obtain ⟨x, hx, hn⟩ := Option.bind_eq_some_iff.mp h
  obtain ⟨r, hr, rfl⟩ := Option.map_eq_some_iff.mp hn
  exact truncate_nonneg (nearest_nonneg (mul_nonneg (ha.toDouble hx) hf) hr)

theorem Nonneg.add (ha : a.Nonneg) (hb : b.Nonneg) (h : a.add b = some c) : c.Nonneg := by
  have hdouble : ∀ {n : Int} {r : Rat}, 0 ≤ n → nearest n = some r → 0 ≤ r :=
    fun hn hr => nearest_nonneg (Int.cast_nonneg hn) hr
  cases a with
  | int n =>
    cases b with
    | int m =>
      cases h
      exact Int.add_nonneg ha hb
    | float q =>
      obtain ⟨r, hr, rfl⟩ := Option.map_eq_some_iff.mp h
      exact nonneg_ofNearest (add_nonneg (hdouble ha hr) hb)
    | infinity =>
      obtain ⟨r, -, rfl⟩ := Option.map_eq_some_iff.mp h
      trivial
  | float q =>
    cases b with
    | int m =>
      obtain ⟨r, hr, rfl⟩ := Option.map_eq_some_iff.mp h
      exact nonneg_ofNearest (add_nonneg ha (hdouble hb hr))
    | float r =>
      cases h
      exact nonneg_ofNearest (add_nonneg ha hb)
    | infinity =>
      cases h
      trivial
  | infinity =>
    cases b with
    | int m =>
      obtain ⟨r, -, rfl⟩ := Option.map_eq_some_iff.mp h
      trivial
    | _ =>
      cases h
      trivial

theorem Nonneg.times {k : Nat} (ha : a.Nonneg) (h : a.times k = some c) : c.Nonneg := by
  cases a with
  | int n =>
    cases h
    exact Int.mul_nonneg ha (Int.natCast_nonneg k)
  | float q =>
    obtain ⟨r, hr, rfl⟩ := Option.map_eq_some_iff.mp h
    exact nonneg_ofNearest (mul_nonneg ha (nearest_nonneg (Nat.cast_nonneg k) hr))
  | infinity =>
    obtain ⟨r, -, rfl⟩ := Option.map_eq_some_iff.mp h
    trivial

/-- A number above one that is not negative is not negative. -/
theorem Nonneg.of_lt (ha : a.Nonneg) (h : a.lt b = true) : b.Nonneg := by
  cases a with
  | int n =>
    cases b with
    | int m => exact le_trans ha (of_decide_eq_true h).le
    | float q => exact le_trans (Int.cast_nonneg ha) (of_decide_eq_true h).le
    | infinity => trivial
  | float q =>
    cases b with
    | int m => exact Int.cast_nonneg_iff.mp (le_trans ha (of_decide_eq_true h).le)
    | float r => exact le_trans ha (of_decide_eq_true h).le
    | infinity => trivial
  | infinity => cases h

theorem nonneg_min_iff (hb : b.Nonneg) : (a.min b).Nonneg ↔ a.Nonneg := by
  unfold min
  split
  · next h => exact iff_of_true hb (hb.of_lt h)
  · exact Iff.rfl

end Number

end PipelineIQ.Lib
