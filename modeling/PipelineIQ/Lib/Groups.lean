import Mathlib.Data.List.Dedup
import Mathlib.Data.List.Perm.Basic

namespace PipelineIQ.Lib.Groups

variable {ρ κ γ : Type} [DecidableEq κ] (key : ρ → κ)

def keys (rows : List ρ) : List κ := (rows.map key).dedup

def group (rows : List ρ) (k : κ) : List ρ := rows.filter fun r => key r = k

/-- One entry for each key, computed from the rows that have it. -/
def groupBy (f : List ρ → γ) (rows : List ρ) : List (κ × γ) :=
  (keys key rows).map fun k => (k, f (group key rows k))

variable {key}

theorem mem_keys {rows : List ρ} {k : κ} : k ∈ keys key rows ↔ ∃ r ∈ rows, key r = k := by
  rw [keys, List.mem_dedup, List.mem_map]

theorem group_ne_nil {rows : List ρ} {k : κ} (h : k ∈ keys key rows) : group key rows k ≠ [] := by
  obtain ⟨r, hr, hk⟩ := mem_keys.mp h
  exact List.ne_nil_of_mem (List.mem_filter.mpr ⟨hr, by simpa using hk⟩)

theorem mem_group {rows : List ρ} {k : κ} {r : ρ} : r ∈ group key rows k ↔ r ∈ rows ∧ key r = k := by
  simp [group]

variable (key) in
/-- Only the keys of the rows matter, not what else is done to them. -/
theorem groupBy_map {ρ' : Type} {key' : ρ' → κ} {g : ρ → ρ'} {rows : List ρ} (f : List ρ' → γ)
    (h : ∀ r ∈ rows, key' (g r) = key r) :
    groupBy key' f (rows.map g) = groupBy key (fun rs => f (rs.map g)) rows := by
  have hkeys : keys key' (rows.map g) = keys key rows := by
    rw [keys, keys, List.map_map]
    exact congrArg List.dedup (List.map_congr_left h)
  unfold groupBy
  rw [hkeys]
  refine List.map_congr_left fun k _ => ?_
  rw [group, group, List.filter_map]
  congr 3
  exact List.filter_congr fun r hr => by rw [Function.comp_apply, h r hr]

/-- Two groupings have the same entries when they have the same keys and agree on each. -/
theorem groupBy_perm_iff {rows rows' : List ρ} {f g : List ρ → γ} :
    (groupBy key f rows).Perm (groupBy key g rows') ↔
      (keys key rows).Perm (keys key rows') ∧
        ∀ k ∈ keys key rows, f (group key rows k) = g (group key rows' k) := by
  constructor
  · intro h
    constructor
    · have := h.map Prod.fst
      rwa [groupBy, groupBy, List.map_map, List.map_map, Function.comp_def, Function.comp_def,
        List.map_id', List.map_id'] at this
    · intro k hk
      have hmem := h.subset (List.mem_map_of_mem hk)
      obtain ⟨k', -, hk'⟩ := List.mem_map.mp hmem
      obtain ⟨rfl, hvalue⟩ := Prod.mk.inj hk'
      exact hvalue.symm
  · rintro ⟨hkeys, hvalues⟩
    have : groupBy key f rows = (keys key rows).map fun k => (k, g (group key rows' k)) :=
      List.map_congr_left fun k hk => by rw [hvalues k hk]
    rw [this]
    exact hkeys.map _

theorem keys_filter_perm_iff {p : ρ → Bool} {rows : List ρ}
    (h : ∀ r r', key r = key r' → p r = p r') :
    (keys key (rows.filter p)).Perm (keys key rows) ↔ ∀ r ∈ rows, p r = true := by
  constructor
  · intro hperm r hr
    have hmem := hperm.symm.subset (mem_keys.mpr ⟨r, hr, rfl⟩)
    obtain ⟨r', hr', hkey⟩ := mem_keys.mp hmem
    exact (h r' r hkey) ▸ (List.mem_filter.mp hr').2
  · intro hall
    rw [List.filter_eq_self.mpr hall]

end PipelineIQ.Lib.Groups
