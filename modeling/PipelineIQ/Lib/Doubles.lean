import Mathlib.Data.Rat.Floor
import Mathlib.Tactic.FieldSimp
import Mathlib.Tactic.Positivity

namespace PipelineIQ.Lib.Doubles

/-! Rounding to numbers of double precision. -/

/-- The nearest integer, of two the even one. -/
def roundEven (q : Rat) : Int :=
  let twice := 2 * (q.num % q.den)
  if twice < q.den ∨ (twice = q.den ∧ q.num / q.den % 2 = 0) then q.num / q.den
  else q.num / q.den + 1

/-- The integer part, towards zero. -/
def truncate (q : Rat) : Int := q.num.tdiv q.den

def powerOfTwo (e : Int) : Rat :=
  if 0 ≤ e then ((2 ^ e.toNat : Nat) : Rat) else ((2 ^ (-e).toNat : Nat) : Rat)⁻¹

/-- The exponent of the power of two that a number has reached. -/
def binaryExponent (q : Rat) : Int :=
  let e : Int := q.num.natAbs.log2 - q.den.log2
  if powerOfTwo e ≤ |q| then e else e - 1

/-- The distance between the doubles around a number. -/
def unit (q : Rat) : Rat := powerOfTwo (max (-1074) (binaryExponent q - 52))

/-- The nearest double, `none` where it is infinite. -/
def nearest (q : Rat) : Option Rat :=
  let rounded := roundEven (q / unit q) * unit q
  if |rounded| < powerOfTwo 1024 then some rounded else none

theorem roundEven_intCast (n : Int) : roundEven n = n := by
  simp [roundEven]

theorem roundEven_le {q : Rat} {n : Int} (h : q ≤ n) : roundEven q ≤ n := by
  rcases h.lt_or_eq with hlt | rfl
  · have hfloor : q.num / q.den < n := by
      rw [← Rat.floor_def']
      exact Int.floor_lt.mpr hlt
    unfold roundEven
    dsimp only
    split <;> omega
  · exact (roundEven_intCast n).le

theorem le_roundEven {q : Rat} {n : Int} (h : n ≤ q) : n ≤ roundEven q := by
  have hfloor : n ≤ q.num / q.den := by
    rw [← Rat.floor_def']
    exact Int.le_floor.mpr h
  unfold roundEven
  dsimp only
  split <;> omega

theorem roundEven_nonneg {q : Rat} (h : 0 ≤ q) : 0 ≤ roundEven q := by
  have hfloor : 0 ≤ q.num / q.den :=
    Int.ediv_nonneg (Rat.num_nonneg.mpr h) (Int.natCast_nonneg q.den)
  unfold roundEven
  dsimp only
  split <;> omega

theorem powerOfTwo_pos (e : Int) : 0 < powerOfTwo e := by
  unfold powerOfTwo
  split <;> positivity

theorem powerOfTwo_gt {n e : Nat} (h : n < e) : ((2 ^ n : Nat) : Rat) < powerOfTwo e := by
  rw [powerOfTwo, if_pos (Int.natCast_nonneg e), Int.toNat_natCast, Nat.cast_lt]
  exact Nat.pow_lt_pow_right (Nat.lt_add_one 1) h

theorem natCast_lt {n : Nat} (hn : n ≤ 2 ^ 53) : (n : Rat) < powerOfTwo 1024 :=
  (Nat.cast_le.mpr hn).trans_lt (powerOfTwo_gt (by decide))

theorem unit_pos (q : Rat) : 0 < unit q := powerOfTwo_pos _

/-- Up to the precision the whole numbers are multiples of the distance. -/
theorem exists_multiple_of_small {q : Rat} (h : binaryExponent q ≤ 52) (n : Nat) :
    ∃ m : Int, (n : Rat) = m * unit q := by
  unfold unit powerOfTwo
  split
  next he =>
    have hzero : max (-1074) (binaryExponent q - 52) = 0 := by omega
    refine ⟨n, ?_⟩
    rw [hzero]
    simp
  next he =>
    refine ⟨(n * 2 ^ (-max (-1074) (binaryExponent q - 52)).toNat : Nat), ?_⟩
    push_cast
    field_simp

theorem powerOfTwo_le {q : Rat} (h : 53 ≤ binaryExponent q) : ((2 ^ 53 : Nat) : Rat) ≤ |q| := by
  unfold binaryExponent at h
  dsimp only at h
  split at h
  next hreached =>
    refine le_trans ?_ hreached
    unfold powerOfTwo
    rw [if_pos (by omega), Nat.cast_le]
    exact Nat.pow_le_pow_right (by decide) (by omega)
  next =>
    -- the logarithms are off by one at most
    have hlog : 54 + q.den.log2 ≤ q.num.natAbs.log2 := by omega
    have hnum : q.num.natAbs ≠ 0 := by
      intro hzero
      rw [hzero, Nat.log2_zero] at hlog
      omega
    have hden : q.den < 2 ^ (q.den.log2 + 1) := Nat.lt_log2_self
    have hmul : 2 ^ 53 * q.den ≤ q.num.natAbs := calc
      2 ^ 53 * q.den ≤ 2 ^ 53 * 2 ^ (q.den.log2 + 1) := Nat.mul_le_mul_left _ hden.le
      _ = 2 ^ (54 + q.den.log2) := by rw [← pow_add, Nat.add_comm _ 1, ← Nat.add_assoc]
      _ ≤ 2 ^ q.num.natAbs.log2 := Nat.pow_le_pow_right (by decide) hlog
      _ ≤ q.num.natAbs := Nat.log2_self_le hnum
    have hpos : (0 : Rat) < q.den := Nat.cast_pos.mpr q.den_pos
    rw [Rat.abs_def, Rat.divInt_eq_div, Int.cast_natCast, Int.cast_natCast,
      le_div_iff₀ hpos]
    exact_mod_cast hmul

/-- A whole number within the precision is a multiple of the distance at every smaller number. -/
theorem exists_multiple {q : Rat} {n : Nat} (hq : 0 ≤ q) (hqn : q ≤ n) (hn : n ≤ 2 ^ 53) :
    ∃ m : Int, (n : Rat) = m * unit q := by
  by_cases h : binaryExponent q ≤ 52
  · exact exists_multiple_of_small h n
  · have hlarge : ((2 ^ 53 : Nat) : Rat) ≤ q := by
      rw [← abs_of_nonneg hq]
      exact powerOfTwo_le (by omega)
    have hnq : (n : Rat) ≤ ((2 ^ 53 : Nat) : Rat) := Nat.cast_le.mpr hn
    have hq53 : q = ((2 ^ 53 : Nat) : Rat) := le_antisymm (hqn.trans hnq) hlarge
    have hn53 : (n : Rat) = ((2 ^ 53 : Nat) : Rat) := le_antisymm hnq (hlarge.trans hqn)
    refine ⟨2 ^ 52, ?_⟩
    rw [hn53, hq53]
    decide +kernel

/-- Whole numbers within the precision are doubles. -/
theorem nearest_natCast {n : Nat} (hn : n ≤ 2 ^ 53) : nearest n = some (n : Rat) := by
  obtain ⟨m, hm⟩ := exists_multiple (Nat.cast_nonneg n) le_rfl hn
  have hrounded : roundEven ((n : Rat) / unit n) * unit n = n := by
    have hquotient : (n : Rat) / unit n = m := by
      rw [div_eq_iff (unit_pos _).ne']
      exact hm
    rw [hquotient, roundEven_intCast, ← hm]
  have hfinite : |(n : Rat)| < powerOfTwo 1024 := by
    rw [abs_of_nonneg (Nat.cast_nonneg n)]
    exact natCast_lt hn
  rw [nearest, hrounded, if_pos hfinite]

/-- What lies between zero and such a number is rounded to a number between them. -/
theorem exists_nearest {q : Rat} {n : Nat} (hq : 0 ≤ q) (hqn : q ≤ n) (hn : n ≤ 2 ^ 53) :
    ∃ r, nearest q = some r ∧ 0 ≤ r ∧ r ≤ n := by
  obtain ⟨m, hm⟩ := exists_multiple hq hqn hn
  have hunit := unit_pos q
  have hnonneg : 0 ≤ roundEven (q / unit q) * unit q := by
    have hrounded : (0 : Rat) ≤ roundEven (q / unit q) :=
      Int.cast_nonneg (roundEven_nonneg (div_nonneg hq hunit.le))
    exact mul_nonneg hrounded hunit.le
  have hle : roundEven (q / unit q) * unit q ≤ n := by
    have hquotient : q / unit q ≤ m := by
      rw [div_le_iff₀ hunit, ← hm]
      exact hqn
    rw [hm]
    exact mul_le_mul_of_nonneg_right (Int.cast_le.mpr (roundEven_le hquotient)) hunit.le
  have hfinite : |roundEven (q / unit q) * unit q| < powerOfTwo 1024 := by
    rw [abs_of_nonneg hnonneg]
    exact hle.trans_lt (natCast_lt hn)
  exact ⟨_, if_pos hfinite, hnonneg, hle⟩

/-- What lies between a whole number and the next is rounded to a number between them. -/
theorem exists_nearest_between {q : Rat} {n : Nat} (hn : n ≤ q) (hq : q ≤ (n + 1 : Nat))
    (h53 : n + 1 < 2 ^ 53) : ∃ r, nearest q = some r ∧ n ≤ r ∧ r ≤ (n + 1 : Nat) := by
  have hq0 : 0 ≤ q := (Nat.cast_nonneg n).trans hn
  obtain ⟨r, hr, -, hle⟩ := exists_nearest hq0 hq h53.le
  refine ⟨r, hr, ?_, hle⟩
  have hsmall : binaryExponent q ≤ 52 := by
    by_contra hlarge
    have hpow := powerOfTwo_le (q := q) (by omega)
    rw [abs_of_nonneg hq0] at hpow
    have hlt : ((n + 1 : Nat) : Rat) < ((2 ^ 53 : Nat) : Rat) := Nat.cast_lt.mpr h53
    exact absurd (hpow.trans hq) (not_le.mpr hlt)
  obtain ⟨m, hm⟩ := exists_multiple_of_small hsmall n
  have hunit := unit_pos q
  have hquotient : m ≤ q / unit q := by
    rw [le_div_iff₀ hunit, ← hm]
    exact hn
  have hge : (n : Rat) ≤ roundEven (q / unit q) * unit q := by
    rw [hm]
    exact mul_le_mul_of_nonneg_right (Int.cast_le.mpr (le_roundEven hquotient)) hunit.le
  unfold nearest at hr
  dsimp only at hr
  split at hr
  · cases hr
    exact hge
  · cases hr

theorem truncate_nonneg {q : Rat} (h : 0 ≤ q) : truncate q = ⌊q⌋ := by
  rw [truncate, Rat.floor_def', Int.tdiv_eq_ediv_of_nonneg (Rat.num_nonneg.mpr h)]

example : nearest (1 / 10) = some (3602879701896397 / 2 ^ 55) := by decide +kernel

end PipelineIQ.Lib.Doubles
