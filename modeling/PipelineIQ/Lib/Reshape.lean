import Mathlib.Data.List.Flatten
import Mathlib.Data.List.Perm.Basic
import Mathlib.Data.Multiset.Bind

namespace PipelineIQ.Lib.Reshape

/-! Wide tables made long: one entry for each row and each of some columns. -/

variable {ρ ν γ : Type}

/-- Column by column, with an entry for every cell. -/
def melt (f : ρ → ν → γ) (rows : List ρ) (columns : List ν) : List γ :=
  columns.flatMap fun c => rows.map fun r => f r c

/-- Row by row, without the cells that have no entry. -/
def unpivot (g : ρ → ν → Option γ) (rows : List ρ) (columns : List ν) : List γ :=
  rows.flatMap fun r => columns.filterMap (g r)

variable {f : ρ → ν → γ} {g : ρ → ν → Option γ} {rows : List ρ} {columns : List ν}

theorem length_melt : (melt f rows columns).length = rows.length * columns.length := by
  induction columns with
  | nil => rfl
  | cons c columns ih =>
    rw [melt] at ih ⊢
    rw [List.flatMap_cons, List.length_append, List.length_map, ih, List.length_cons, Nat.mul_succ,
      Nat.add_comm]

theorem melt_nil : melt f [] columns = [] :=
  List.length_eq_zero_iff.mp (length_melt.trans (Nat.zero_mul _))

theorem mem_melt {e : γ} : e ∈ melt f rows columns ↔ ∃ r ∈ rows, ∃ c ∈ columns, f r c = e := by
  simp only [melt, List.mem_flatMap, List.mem_map]
  constructor
  · rintro ⟨c, hc, r, hr, h⟩
    exact ⟨r, hr, c, hc, h⟩
  · rintro ⟨r, hr, c, hc, h⟩
    exact ⟨c, hc, r, hr, h⟩

theorem mem_unpivot {e : γ} :
    e ∈ unpivot g rows columns ↔ ∃ r ∈ rows, ∃ c ∈ columns, g r c = some e := by
  simp only [unpivot, List.mem_flatMap, List.mem_filterMap]

theorem length_filterMap_eq_iff (h : ν → Option γ) :
    (columns.filterMap h).length = columns.length ↔ ∀ c ∈ columns, (h c).isSome := by
  induction columns with
  | nil => simp
  | cons c columns ih =>
    have hle := List.length_filterMap_le h columns
    rw [List.forall_mem_cons, ← ih, List.filterMap_cons]
    cases h c with
    | none => simp; omega
    | some e => simp

theorem length_unpivot_le : (unpivot g rows columns).length ≤ rows.length * columns.length := by
  induction rows with
  | nil => exact Nat.zero_le _
  | cons r rows ih =>
    have hle := List.length_filterMap_le (g r) columns
    rw [unpivot] at ih ⊢
    rw [List.flatMap_cons, List.length_append, List.length_cons, Nat.succ_mul]
    omega

/-- As many entries as cells come out when each cell has one. -/
theorem length_unpivot_eq_iff :
    (unpivot g rows columns).length = rows.length * columns.length ↔
      ∀ r ∈ rows, ∀ c ∈ columns, (g r c).isSome := by
  induction rows with
  | nil => simp [unpivot]
  | cons r rows ih =>
    have hle := List.length_filterMap_le (g r) columns
    have hrest := @length_unpivot_le _ _ _ g rows columns
    have hcons : (unpivot g (r :: rows) columns).length =
        (columns.filterMap (g r)).length + (unpivot g rows columns).length := by
      rw [unpivot, List.flatMap_cons, List.length_append]
      rfl
    rw [List.forall_mem_cons, ← ih, ← length_filterMap_eq_iff, hcons, List.length_cons,
      Nat.succ_mul]
    omega

/-- Row by row and column by column, the same entries come out. -/
theorem melt_perm_flatMap :
    (melt f rows columns).Perm (rows.flatMap fun r => columns.map (f r)) := by
  have h := Multiset.bind_map_comm (columns : Multiset ν) (rows : Multiset ρ) (f := fun c r => f r c)
  simpa [Multiset.coe_bind, Multiset.map_coe, melt] using h

/-- The two agree exactly when each cell has its own entry in both, provided that an entry of one
which occurs in the other is the cell's own there. -/
theorem melt_perm_unpivot_iff
    (hown : ∀ r s, ∀ c ∈ columns, ∀ c' ∈ columns, g s c' = some (f r c) → f s c' = f r c) :
    (melt f rows columns).Perm (unpivot g rows columns) ↔
      ∀ r ∈ rows, ∀ c ∈ columns, g r c = some (f r c) := by
  constructor
  · intro hperm r hr c hc
    have hall := length_unpivot_eq_iff.mp (hperm.length_eq.symm.trans length_melt)
    obtain ⟨e, he⟩ := Option.isSome_iff_exists.mp (hall r hr c hc)
    have hmem := hperm.symm.subset (mem_unpivot.mpr ⟨r, hr, c, hc, he⟩)
    obtain ⟨s, -, c', hc', hs⟩ := mem_melt.mp hmem
    rw [he, hown s r c' hc' c hc (by rw [he, hs]), hs]
  · intro h
    refine melt_perm_flatMap.trans (List.Perm.of_eq ?_)
    refine List.flatMap_congr fun r hr => ?_
    rw [← List.filterMap_eq_map]
    exact List.filterMap_congr fun c hc => (h r hr c hc).symm

end PipelineIQ.Lib.Reshape
