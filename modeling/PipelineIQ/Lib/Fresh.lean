import Mathlib.Data.List.Nodup

namespace PipelineIQ.Lib.Fresh

variable {α κ : Type*} [DecidableEq κ] (key : α → κ)

/-- The elements of a list whose key was not seen before, each key once. -/
def fresh : List κ → List α → List α
  | _, [] => []
  | seen, x :: xs => if key x ∈ seen then fresh seen xs else x :: fresh (key x :: seen) xs

variable {key}

/-- Only what is seen of the list's own keys matters. -/
theorem fresh_congr {seen known : List κ} {xs : List α}
    (h : ∀ x ∈ xs, key x ∈ seen ↔ key x ∈ known) : fresh key seen xs = fresh key known xs := by
  induction xs generalizing seen known with
  | nil => rfl
  | cons x xs ih =>
    have hx := h x (List.mem_cons_self ..)
    have hxs : ∀ y ∈ xs, key y ∈ seen ↔ key y ∈ known := fun y hy => h y (List.mem_cons_of_mem x hy)
    simp only [fresh, hx]
    split
    · exact ih hxs
    · congr 1
      apply ih
      intro y hy
      simp only [List.mem_cons, hxs y hy]

theorem mem_of_mem_fresh {seen : List κ} {xs : List α} {x : α} (h : x ∈ fresh key seen xs) :
    x ∈ xs ∧ key x ∉ seen := by
  induction xs generalizing seen with
  | nil => cases h
  | cons y xs ih =>
    rw [fresh] at h
    split at h
    · exact ⟨List.mem_cons_of_mem y (ih h).1, (ih h).2⟩
    · next hy =>
      cases List.mem_cons.mp h with
      | inl heq =>
        rw [heq]
        exact ⟨List.mem_cons_self .., hy⟩
      | inr hm =>
        obtain ⟨hxs, hseen⟩ := ih hm
        exact ⟨List.mem_cons_of_mem y hxs, fun hs => hseen (List.mem_cons_of_mem _ hs)⟩

/-- A key that was not seen is kept, at its first element. -/
theorem key_mem_fresh {seen : List κ} {xs : List α} {x : α} (hx : x ∈ xs) (h : key x ∉ seen) :
    key x ∈ (fresh key seen xs).map key := by
  induction xs generalizing seen with
  | nil => cases hx
  | cons y xs ih =>
    rw [fresh]
    by_cases hy : key y ∈ seen
    · rw [if_pos hy]
      cases List.mem_cons.mp hx with
      | inl heq => exact absurd (heq ▸ hy) h
      | inr hxs => exact ih hxs h
    · rw [if_neg hy, List.map_cons, List.mem_cons]
      by_cases heq : key x = key y
      · exact .inl heq
      · cases List.mem_cons.mp hx with
        | inl hxy => exact absurd (congrArg key hxy) heq
        | inr hxs =>
          right
          apply ih hxs
          intro hseen
          exact (List.mem_cons.mp hseen).elim heq h

theorem fresh_of_nodup {seen : List κ} {xs : List α} (hxs : (xs.map key).Nodup)
    (h : ∀ x ∈ xs, key x ∉ seen) : fresh key seen xs = xs := by
  induction xs generalizing seen with
  | nil => rfl
  | cons x xs ih =>
    rw [List.map_cons, List.nodup_cons] at hxs
    rw [fresh, if_neg (h x (List.mem_cons_self ..))]
    congr 1
    apply ih hxs.2
    intro y hy hseen
    cases List.mem_cons.mp hseen with
    | inl heq => exact hxs.1 (heq ▸ List.mem_map.mpr ⟨y, hy, rfl⟩)
    | inr hseen => exact h y (List.mem_cons_of_mem x hy) hseen

theorem nodup_fresh (seen : List κ) (xs : List α) : ((fresh key seen xs).map key).Nodup := by
  induction xs generalizing seen with
  | nil => exact List.nodup_nil
  | cons x xs ih =>
    rw [fresh]
    split
    · exact ih seen
    · rw [List.map_cons, List.nodup_cons]
      refine ⟨?_, ih _⟩
      intro hm
      obtain ⟨y, hy, hk⟩ := List.mem_map.mp hm
      exact (mem_of_mem_fresh hy).2 (hk ▸ List.mem_cons_self ..)

/-- Fresh elements keep a list of distinct keys distinct. -/
theorem nodup_append_fresh {seen : List κ} (h : seen.Nodup) (xs : List α) :
    (seen ++ (fresh key seen xs).map key).Nodup := by
  apply List.nodup_append.mpr
  refine ⟨h, nodup_fresh seen xs, ?_⟩
  intro a ha b hb hab
  obtain ⟨x, hx, rfl⟩ := List.mem_map.mp hb
  exact (mem_of_mem_fresh hx).2 (hab ▸ ha)

end PipelineIQ.Lib.Fresh
