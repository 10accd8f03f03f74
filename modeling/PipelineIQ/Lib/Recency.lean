import Mathlib.Data.List.Dedup
import Mathlib.Data.List.DropRight

namespace PipelineIQ.Lib.Recency

variable {α : Type*} [DecidableEq α] {l old r : List α} {k : α} {n : Nat}

/-- One more use. The distinct elements of a list stand in the order of their last use. -/
theorem dedup_concat (l : List α) (k : α) :
    (l ++ [k]).dedup = l.dedup.filter (· ≠ k) ++ [k] := by
  induction l with
  | nil => rfl
  | cons a l ih =>
    rw [List.cons_append]
    by_cases ha : a ∈ l
    · rw [List.dedup_cons_of_mem ha, List.dedup_cons_of_mem (List.mem_append_left _ ha), ih]
    · rw [List.dedup_cons_of_notMem ha]
      by_cases hk : a = k
      · subst hk
        rw [List.dedup_cons_of_mem (by simp), ih, List.filter_cons_of_neg (by simp)]
      · rw [List.dedup_cons_of_notMem (by simp [ha, hk]), ih,
          List.filter_cons_of_pos (by simpa using hk), List.cons_append]

omit [DecidableEq α] in
/-- The last `n` elements, where there are as many. -/
theorem rtake_append (hn : r.length ≤ n) (ho : r.length < n → old = []) :
    (old ++ r).rtake n = r := by
  rw [List.rtake, List.length_append]
  by_cases hlt : r.length < n
  · obtain rfl := ho hlt
    rw [List.nil_append, List.length_nil, Nat.zero_add, Nat.sub_eq_zero_of_le hn, List.drop_zero]
  · have he : old.length + r.length - n = old.length := by omega
    rw [he, List.drop_left]

omit [DecidableEq α] in
theorem exists_rtake (n : Nat) (l : List α) : ∃ old, l = old ++ l.rtake n ∧
    (l.rtake n).length ≤ n ∧ ((l.rtake n).length < n → old = []) := by
  refine ⟨l.take (l.length - n), (List.take_append_drop _ l).symm, ?_, ?_⟩
  · rw [List.rtake, List.length_drop]
    omega
  · intro h
    rw [List.rtake, List.length_drop] at h
    rw [Nat.sub_eq_zero_of_le (by omega), List.take_zero]

theorem filter_ne (h : k ∉ l) : l.filter (· ≠ k) = l := by
  rw [List.filter_eq_self]
  intro a ha
  rw [decide_eq_true_iff]
  rintro rfl
  exact h ha

theorem length_filter_concat (hnodup : r.Nodup) (hk : k ∈ r) :
    (r.filter (· ≠ k) ++ [k]).length = r.length := by
  have herase : r.filter (· ≠ k) = r.erase k := by
    rw [hnodup.erase_eq_filter]
    apply List.filter_congr
    intro a _
    rw [bne, beq_eq_decide, decide_not]
  rw [herase, List.length_append, List.length_erase_of_mem hk, List.length_singleton]
  exact Nat.sub_add_cancel (List.length_pos_of_mem hk)

/-- Using one of the last `n` elements again. -/
theorem rtake_dedup_concat_of_mem (h : k ∈ l.dedup.rtake n) :
    (l ++ [k]).dedup.rtake n = (l.dedup.rtake n).filter (· ≠ k) ++ [k] := by
  obtain ⟨old, hold, hlen, hshort⟩ := exists_rtake n l.dedup
  have hnodup := l.nodup_dedup
  rw [dedup_concat]
  generalize l.dedup.rtake n = r at *
  rw [hold, List.nodup_append] at hnodup
  have hk : k ∉ old := fun ho => hnodup.2.2 k ho k h rfl
  have hlength := length_filter_concat hnodup.2.1 h
  rw [hold, List.filter_append, filter_ne hk, List.append_assoc]
  apply rtake_append
  · omega
  · intro hlt
    exact hshort (by omega)

/-- Using an element that is not one of the last `n`. -/
theorem rtake_dedup_concat_of_not_mem (h : k ∉ l.dedup.rtake n) (hn : 0 < n) :
    (l ++ [k]).dedup.rtake n =
      if n < (l.dedup.rtake n ++ [k]).length then (l.dedup.rtake n ++ [k]).tail
      else l.dedup.rtake n ++ [k] := by
  obtain ⟨old, hold, hlen, hshort⟩ := exists_rtake n l.dedup
  rw [dedup_concat]
  generalize l.dedup.rtake n = r at *
  rw [hold, List.filter_append, filter_ne h, List.append_assoc, List.length_append,
    List.length_singleton]
  by_cases hfull : r.length < n
  · rw [hshort hfull, if_neg (by omega), List.filter_nil]
    apply rtake_append
    · rw [List.length_append, List.length_singleton]
      omega
    · exact fun _ => rfl
  · rw [if_pos (by omega)]
    obtain ⟨a, r, rfl⟩ := List.exists_cons_of_length_pos (l := r) (by omega)
    have htail : (a :: r ++ [k]).tail = r ++ [k] := rfl
    have hsplit : old.filter (· ≠ k) ++ (a :: r ++ [k]) =
        (old.filter (· ≠ k) ++ [a]) ++ (r ++ [k]) := by
      rw [List.append_assoc, List.singleton_append, List.cons_append]
    rw [htail, hsplit]
    rw [List.length_cons] at hlen hfull
    apply rtake_append
    · rw [List.length_append, List.length_singleton]
      exact hlen
    · intro hlt
      rw [List.length_append, List.length_singleton] at hlt
      exact absurd hlt hfull

end PipelineIQ.Lib.Recency
