import Mathlib.Data.List.MinMax

namespace PipelineIQ.Lib.Latest

variable {α β : Type*} [LinearOrder β] {f : α → β} {p : α → Bool} {l : List α} {a m : α}

theorem argmax_cons_of_le (h : ∀ b ∈ l, f b ≤ f a) : (a :: l).argmax f = some a := by
  rw [List.argmax_cons]
  cases hl : l.argmax f with
  | none => rfl
  | some c => exact if_neg (h c (List.argmax_mem hl)).not_gt

theorem argmax_cons_of_lt (h : m ∈ l.argmax f) (hlt : f a < f m) : (a :: l).argmax f = some m := by
  rw [List.argmax_cons, Option.mem_def.mp h]
  exact if_pos hlt

/-- The greatest element: what comes before it is smaller, what comes after it not greater. -/
theorem mem_argmax_iff_split : m ∈ l.argmax f ↔ ∃ before after, l = before ++ m :: after ∧
    (∀ a ∈ before, f a < f m) ∧ ∀ a ∈ after, f a ≤ f m := by
  induction l with
  | nil => simp
  | cons a l ih =>
    constructor
    · intro h
      by_cases hle : ∀ b ∈ l, f b ≤ f a
      · rw [argmax_cons_of_le hle, Option.mem_def, Option.some_inj] at h
        obtain rfl := h
        exact ⟨[], l, rfl, nofun, hle⟩
      · obtain ⟨c, hc⟩ : ∃ c, l.argmax f = some c := by
          rw [← Option.ne_none_iff_exists']
          intro hnone
          rw [List.argmax_eq_none.mp hnone] at hle
          exact hle nofun
        have hlt : f a < f c := by
          by_contra hnot
          exact hle fun b hb => (List.le_of_mem_argmax hb hc).trans (not_lt.mp hnot)
        rw [argmax_cons_of_lt hc hlt, Option.mem_def, Option.some_inj] at h
        obtain rfl := h
        obtain ⟨before, after, rfl, hbefore, hafter⟩ := ih.mp hc
        refine ⟨a :: before, after, rfl, ?_, hafter⟩
        intro b hb
        cases hb with
        | head => exact hlt
        | tail _ hb => exact hbefore b hb
    · rintro ⟨before, after, heq, hbefore, hafter⟩
      cases before with
      | nil =>
        obtain ⟨rfl, rfl⟩ := List.cons.inj heq
        exact argmax_cons_of_le hafter
      | cons b before =>
        obtain ⟨rfl, rfl⟩ := List.cons.inj heq
        have hrest := ih.mpr ⟨before, after, rfl,
          fun c hc => hbefore c (List.mem_cons_of_mem _ hc), hafter⟩
        exact argmax_cons_of_lt hrest (hbefore _ List.mem_cons_self)

/-- The greatest element of a list is the greatest of those it is kept with. -/
theorem argmax_filter (h : m ∈ l.argmax f) (hm : p m = true) : m ∈ (l.filter p).argmax f := by
  obtain ⟨before, after, rfl, hbefore, hafter⟩ := mem_argmax_iff_split.mp h
  apply mem_argmax_iff_split.mpr
  refine ⟨before.filter p, after.filter p, ?_, ?_, ?_⟩
  · rw [List.filter_append, List.filter_cons_of_pos hm]
  · exact fun a ha => hbefore a (List.mem_of_mem_filter ha)
  · exact fun a ha => hafter a (List.mem_of_mem_filter ha)

end PipelineIQ.Lib.Latest
