import Mathlib.Data.List.Count
import Mathlib.Data.List.Perm.Subperm

namespace PipelineIQ.Lib.Sampling

/-! Rows picked at random, as the first positions of a permutation. -/

variable {ρ ρ' : Type}

/-- The rows at some positions. -/
def pick (rows : List ρ) (positions : List Nat) : List ρ := positions.filterMap fun i => rows[i]?

theorem pick_append (rows : List ρ) (positions positions' : List Nat) :
    pick rows (positions ++ positions') = pick rows positions ++ pick rows positions' :=
  List.filterMap_append

theorem pick_map (f : ρ → ρ') (rows : List ρ) (positions : List Nat) :
    pick (rows.map f) positions = (pick rows positions).map f := by
  unfold pick
  rw [List.map_filterMap]
  refine List.filterMap_congr fun i _ => ?_
  rw [List.getElem?_map]

theorem pick_range (rows : List ρ) : pick rows (List.range rows.length) = rows := by
  induction rows with
  | nil => rfl
  | cons r rows ih =>
    rw [List.length_cons, List.range_succ_eq_map, pick, List.filterMap_cons, List.filterMap_map]
    exact congrArg (r :: ·) ih

theorem length_pick {rows : List ρ} {positions : List Nat}
    (hlt : ∀ i ∈ positions, i < rows.length) : (pick rows positions).length = positions.length := by
  induction positions with
  | nil => rfl
  | cons i positions ih =>
    have hi : i < rows.length := hlt i List.mem_cons_self
    have hrest := ih fun j hj => hlt j (List.mem_cons_of_mem i hj)
    rw [pick, List.filterMap_cons, List.getElem?_eq_getElem hi, List.length_cons, List.length_cons]
    exact congrArg Nat.succ hrest

/-- Different positions pick no row more often than it occurs. -/
theorem pick_subperm {rows : List ρ} {positions : List Nat} (hnodup : positions.Nodup)
    (hlt : ∀ i ∈ positions, i < rows.length) : (pick rows positions).Subperm rows := by
  have hpositions : positions.Subperm (List.range rows.length) :=
    List.subperm_of_subset hnodup fun i hi => List.mem_range.mpr (hlt i hi)
  obtain ⟨sorted, hperm, hsublist⟩ := hpositions
  have hsorted : (pick rows sorted).Sublist rows := by
    have h := hsublist.filterMap fun i => rows[i]?
    rwa [← pick, ← pick, pick_range] at h
  exact ⟨pick rows sorted, hperm.filterMap _, hsorted⟩

/-! ### The first positions of a permutation -/

/-- So many rows, at the first positions of a permutation. -/
def drawn (permutation : List Nat) (size : Nat) (rows : List ρ) : List ρ :=
  pick rows (permutation.take size)

section Drawn

variable {permutation : List Nat} {size : Nat} {rows : List ρ}

theorem lt_of_mem_take (h : permutation.Perm (List.range rows.length)) :
    ∀ i ∈ permutation.take size, i < rows.length := fun _ hi =>
  List.mem_range.mp (h.subset (List.mem_of_mem_take hi))

theorem drawn_subperm (h : permutation.Perm (List.range rows.length)) :
    (drawn permutation size rows).Subperm rows :=
  pick_subperm (h.nodup_iff.mpr List.nodup_range).take (lt_of_mem_take h)

theorem length_drawn (h : permutation.Perm (List.range rows.length)) :
    (drawn permutation size rows).length = min size rows.length := by
  rw [drawn, length_pick (lt_of_mem_take h), List.length_take, h.length_eq, List.length_range]

theorem drawn_all (h : permutation.Perm (List.range rows.length)) :
    (drawn permutation rows.length rows).Perm rows := by
  refine (drawn_subperm h).perm_of_length_le ?_
  rw [length_drawn h]
  exact Nat.le_min.mpr ⟨Nat.le_refl _, Nat.le_refl _⟩

theorem drawn_map (f : ρ → ρ') :
    drawn permutation size (rows.map f) = (drawn permutation size rows).map f :=
  pick_map f rows _

theorem pick_filter (p : ρ → Bool) (rows : List ρ) :
    pick rows ((List.range rows.length).filter fun i => rows[i]?.any p) = rows.filter p := by
  conv_rhs => rw [← pick_range rows]
  unfold pick
  rw [List.filterMap_filter, List.filter_filterMap]
  refine List.filterMap_congr fun i _ => ?_
  cases rows[i]? with
  | none => rfl
  | some r =>
    rw [Option.any_some, Option.filter_some]

/-- Some permutation puts the rows of a kind first. -/
theorem exists_foremost (p : ρ → Bool) (size : Nat) (rows : List ρ) :
    ∃ permutation, permutation.Perm (List.range rows.length) ∧
      min size (rows.countP p) ≤ (drawn permutation size rows).countP p := by
  let q : Nat → Bool := fun i => rows[i]?.any p
  let front := (List.range rows.length).filter q
  let back := (List.range rows.length).filter fun i => !q i
  have hlt : ∀ i ∈ front, i < rows.length := fun i hi => List.mem_range.mp (List.mem_filter.mp hi).1
  have hfront : pick rows front = rows.filter p := pick_filter p rows
  have hlength : front.length = rows.countP p := by
    rw [← length_pick hlt, hfront, List.countP_eq_length_filter]
  -- what is picked first is of the kind
  have hkind : ∀ r ∈ pick rows (front.take size), p r = true := by
    intro r hr
    have hsublist : (pick rows (front.take size)).Sublist (pick rows front) :=
      (List.take_sublist size front).filterMap _
    have hmem := hsublist.subset hr
    rw [hfront] at hmem
    exact (List.mem_filter.mp hmem).2
  refine ⟨front ++ back, List.filter_append_perm _ _, ?_⟩
  calc min size (rows.countP p)
      = (pick rows (front.take size)).length := by
        rw [length_pick fun i hi => hlt i (List.mem_of_mem_take hi), List.length_take, hlength]
    _ = (pick rows (front.take size)).countP p := (List.countP_eq_length.mpr hkind).symm
    _ ≤ (drawn (front ++ back) size rows).countP p := by
        rw [drawn, List.take_append, pick_append, List.countP_append]
        exact Nat.le_add_right _ _

end Drawn

/-! ### Rows that are read before they are picked -/

section Read

variable [DecidableEq ρ] {read : ρ → ρ} {rows pool : List ρ} {size : Nat}

theorem count_map_read (v : ρ) (l : List ρ) :
    (l.map read).count v = l.countP fun s => read s = v := by
  rw [List.count_eq_countP, List.countP_map]
  rfl

/-- What is picked is among the rows of a pool, whatever is picked, when no more rows are picked
than the pool has of what a row becomes. -/
theorem map_drawn_subperm_iff (hread : ∀ r ∈ rows, read (read r) = read r)
    (hcount : ∀ r ∈ rows, pool.count (read r) = rows.count (read r)) :
    (∀ permutation, permutation.Perm (List.range rows.length) →
        ((drawn permutation size rows).map read).Subperm pool) ↔
      ∀ r ∈ rows, read r ≠ r → size ≤ pool.count (read r) := by
  constructor
  · intro h r hr hne
    have hmore : rows.count (read r) < rows.countP fun s => read s = read r := by
      have hself : decide (read (read r) = read r) = true := decide_eq_true (hread r hr)
      have hfilter : (rows.filter fun s => read s = read r).count (read r) = rows.count (read r) :=
        List.count_filter hself
      rw [List.countP_eq_length_filter, ← hfilter, List.count_eq_countP, List.countP_lt_length_iff]
      exact ⟨r, List.mem_filter.mpr ⟨hr, decide_eq_true rfl⟩, beq_eq_false_iff_ne.mpr (Ne.symm hne)⟩
    -- the rows that become this one are picked first
    obtain ⟨permutation, hperm, hmin⟩ := exists_foremost (fun s => read s = read r) size rows
    have hpool := (h permutation hperm).count_le (read r)
    rw [count_map_read] at hpool
    rw [hcount r hr] at hpool ⊢
    omega
  · intro h permutation hperm
    rw [List.subperm_ext_iff]
    intro v hv
    obtain ⟨r, hr, rfl⟩ := List.mem_map.mp hv
    have hr' : r ∈ rows := (drawn_subperm hperm).subset hr
    by_cases hother : ∃ s ∈ rows, read s = read r ∧ read s ≠ s
    · obtain ⟨s, hs, hsr, hne⟩ := hother
      calc ((drawn permutation size rows).map read).count (read r)
          ≤ (drawn permutation size rows).length := by
            rw [count_map_read]
            exact List.countP_le_length
        _ ≤ size := by
            rw [length_drawn hperm]
            exact Nat.min_le_left _ _
        _ ≤ pool.count (read r) := hsr ▸ h s hs hne
    · push Not at hother
      calc ((drawn permutation size rows).map read).count (read r)
          = (drawn permutation size rows).countP fun s => read s = read r := count_map_read _ _
        _ ≤ rows.countP fun s => read s = read r := (drawn_subperm hperm).countP_le _
        _ ≤ rows.countP fun s => s == read r := by
            refine List.countP_mono_left fun s hs hsr => ?_
            have hsr : read s = read r := of_decide_eq_true hsr
            exact beq_iff_eq.mpr ((hother s hs hsr).symm.trans hsr)
        _ = pool.count (read r) := (hcount r hr').symm

theorem count_flatten {κ : Type} {key : ρ → κ} {keys : List κ} {parts : List (List ρ)}
    (hnodup : keys.Nodup) (hparts : List.Forall₂ (fun k part =>
      part.Subperm pool ∧ ∀ r ∈ part, key r = k) keys parts) (v : ρ) :
    parts.flatten.count v ≤ pool.count v ∧ (key v ∉ keys → parts.flatten.count v = 0) := by
  induction hparts with
  | nil => simp
  | @cons k part keys parts hpart hrest ih =>
    obtain ⟨hk, hnodup⟩ := List.nodup_cons.mp hnodup
    obtain ⟨hle, hzero⟩ := ih hnodup
    rw [List.flatten_cons, List.count_append, List.mem_cons, not_or]
    by_cases hv : key v = k
    · have hrest : parts.flatten.count v = 0 := hzero (hv ▸ hk)
      rw [hrest, Nat.add_zero]
      exact ⟨hpart.1.count_le v, fun h => absurd hv h.1⟩
    · have hpart : part.count v = 0 := List.count_eq_zero_of_not_mem fun h => hv (hpart.2 v h)
      rw [hpart, Nat.zero_add]
      exact ⟨hle, fun h => hzero h.2⟩

/-- What comes of the rows of different keys comes of all rows. -/
theorem flatten_subperm {κ : Type} {key : ρ → κ} {keys : List κ} {parts : List (List ρ)}
    (hnodup : keys.Nodup) (hparts : List.Forall₂ (fun k part =>
      part.Subperm pool ∧ ∀ r ∈ part, key r = k) keys parts) : parts.flatten.Subperm pool :=
  List.subperm_ext_iff.mpr fun v _ => (count_flatten hnodup hparts v).1

end Read

end PipelineIQ.Lib.Sampling
