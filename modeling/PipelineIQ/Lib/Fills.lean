import Mathlib.Data.List.Dedup

namespace PipelineIQ.Lib.Fills

/-! Values for the missing cells of a column. -/

variable {α : Type}

def fillWith (w : Option α) (cells : List (Option α)) : List (Option α) := cells.map (·.or w)

/-- The value before, carried on. -/
def forwardFill : Option α → List (Option α) → List (Option α)
  | _, [] => []
  | last, c :: cells => c.or last :: forwardFill (c.or last) cells

def backwardFill : List (Option α) → List (Option α)
  | [] => []
  | c :: cells => c.or (backwardFill cells).head?.join :: backwardFill cells

/-- The last value up to each cell, looked up in all that is before it. -/
def lastValues (before : List (Option α)) : List (Option α) → List (Option α)
  | [] => []
  | c :: cells => (before ++ [c]).reverse.findSome? id :: lastValues (before ++ [c]) cells

/-- The first value from each cell on. -/
def firstValues : List (Option α) → List (Option α)
  | [] => []
  | c :: cells => (c :: cells).findSome? id :: firstValues cells

/-- The values that occur most often. -/
def modes [DecidableEq α] (values : List α) : List α :=
  values.dedup.filter fun v => ∀ w ∈ values, values.count w ≤ values.count v

/-- No missing cell comes after a value. -/
def Leading : List (Option α) → Prop
  | [] => True
  | c :: cells => (c ≠ none → none ∉ cells) ∧ Leading cells

/-- No missing cell comes before a value. -/
def Trailing : List (Option α) → Prop
  | [] => True
  | c :: cells => (c = none → ∀ c' ∈ cells, c' = none) ∧ Trailing cells

variable {cells : List (Option α)}

theorem fillWith_none (cells : List (Option α)) : fillWith none cells = cells := by
  simp [fillWith]

theorem fillWith_eq_self {w : Option α} (h : none ∉ cells) : fillWith w cells = cells := by
  unfold fillWith
  conv_rhs => rw [← List.map_id cells]
  refine List.map_congr_left fun c hc => ?_
  cases c with
  | none => exact absurd hc h
  | some v => rfl

theorem none_notMem_fillWith (v : α) (cells : List (Option α)) :
    none ∉ fillWith (some v) cells := by
  intro h
  obtain ⟨c, -, hc⟩ := List.mem_map.mp h
  cases c <;> cases hc

/-- A column of cast values is filled like the values themselves when the cast changes none. -/
theorem fillWith_map_eq_iff {cast : α → α} {w w' : Option α} :
    fillWith w' (cells.map (·.map cast)) = fillWith w cells ↔
      (∀ v, some v ∈ cells → cast v = v) ∧ (none ∈ cells → w = w') := by
  unfold fillWith
  rw [List.map_map, List.map_inj_left]
  constructor
  · intro h
    exact ⟨fun v hv => Option.some.inj (h (some v) hv), fun hnone => (h none hnone).symm⟩
  · rintro ⟨hcast, hnone⟩ c hc
    cases c with
    | none => exact (hnone hc).symm
    | some v => exact congrArg some (hcast v hc)

/-- Two values fill a column alike when they are the same, or nothing is missing. -/
theorem fillWith_eq_iff {w w' : Option α} :
    fillWith w cells = fillWith w' cells ↔ (none ∈ cells → w = w') := by
  constructor
  · intro h hnone
    simpa using List.map_inj_left.mp h none hnone
  · intro h
    refine List.map_congr_left fun c hc => ?_
    cases c with
    | none => exact h hc
    | some v => rfl

/-! ### Carrying values -/

theorem length_forwardFill (last : Option α) (cells : List (Option α)) :
    (forwardFill last cells).length = cells.length := by
  induction cells generalizing last with
  | nil => rfl
  | cons c cells ih => rw [forwardFill, List.length_cons, List.length_cons, ih]

theorem findSome_append (before : List (Option α)) (c : Option α) :
    (before ++ [c]).reverse.findSome? id = c.or (before.reverse.findSome? id) := by
  rw [List.reverse_append, List.reverse_singleton, List.singleton_append, List.findSome?_cons]
  cases c <;> rfl

/-- The cells with the last values are those that the value before has been carried to. -/
theorem zipWith_lastValues (before cells : List (Option α)) :
    List.zipWith Option.or cells (lastValues before cells) =
      forwardFill (before.reverse.findSome? id) cells := by
  induction cells generalizing before with
  | nil => rfl
  | cons c cells ih =>
    have hc : c.or (c.or (before.reverse.findSome? id)) = c.or (before.reverse.findSome? id) := by
      cases c <;> rfl
    rw [lastValues, List.zipWith_cons_cons, findSome_append, hc, ih, findSome_append, forwardFill]

theorem head_backwardFill (cells : List (Option α)) :
    (backwardFill cells).head?.join = cells.findSome? id := by
  induction cells with
  | nil => rfl
  | cons c cells ih =>
    rw [backwardFill, ih, List.findSome?_cons]
    cases c <;> rfl

theorem zipWith_firstValues (cells : List (Option α)) :
    List.zipWith Option.or cells (firstValues cells) = backwardFill cells := by
  induction cells with
  | nil => rfl
  | cons c cells ih =>
    rw [firstValues, List.zipWith_cons_cons, ih, backwardFill, head_backwardFill,
      List.findSome?_cons]
    cases c <;> rfl

theorem forwardFill_idem (last : Option α) (cells : List (Option α)) :
    forwardFill last (forwardFill last cells) = forwardFill last cells := by
  induction cells generalizing last with
  | nil => rfl
  | cons c cells ih =>
    have hc : (c.or last).or last = c.or last := by
      cases c with
      | none => cases last <;> rfl
      | some v => rfl
    rw [forwardFill, forwardFill, hc, ih]

theorem backwardFill_idem (cells : List (Option α)) :
    backwardFill (backwardFill cells) = backwardFill cells := by
  induction cells with
  | nil => rfl
  | cons c cells ih =>
    have hc : (c.or (backwardFill cells).head?.join).or (backwardFill cells).head?.join =
        c.or (backwardFill cells).head?.join := by
      cases c with
      | none => cases (backwardFill cells).head?.join <;> rfl
      | some v => rfl
    rw [backwardFill, backwardFill, ih, hc]

/-- Nothing is carried to a column that starts with what is missing. -/
theorem forwardFill_eq_self_iff {last : Option α} :
    forwardFill last cells = cells ↔ (last ≠ none → none ∉ cells) ∧ Leading cells := by
  induction cells generalizing last with
  | nil => simp [forwardFill, Leading]
  | cons c cells ih =>
    rw [forwardFill, List.cons.injEq, ih, Leading]
    cases c with
    | none => cases last <;> simp
    | some v =>
      simp only [Option.some_or, ne_eq, reduceCtorEq, not_false_eq_true, forall_const, true_and,
        List.mem_cons, false_or]
      exact ⟨fun h => ⟨fun _ => h.1, h⟩, fun h => h.2⟩

theorem backwardFill_eq_self_iff : backwardFill cells = cells ↔ Trailing cells := by
  induction cells with
  | nil => simp [backwardFill, Trailing]
  | cons c cells ih =>
    rw [backwardFill, List.cons.injEq, ih, Trailing, head_backwardFill]
    cases c with
    | none => simp [List.findSome?_eq_none_iff]
    | some v => simp

theorem mem_fillWith {w : Option α} {v : α} (h : some v ∈ fillWith w cells) :
    some v ∈ cells ∨ w = some v := by
  obtain ⟨c, hc, hv⟩ := List.mem_map.mp h
  cases c with
  | none => exact Or.inr hv
  | some u => exact Or.inl (hv ▸ hc)

theorem mem_forwardFill {last : Option α} {v : α} (h : some v ∈ forwardFill last cells) :
    some v ∈ cells ∨ last = some v := by
  induction cells generalizing last with
  | nil => cases h
  | cons c cells ih =>
    have hc : c.or last = some v → some v ∈ c :: cells ∨ last = some v := by
      intro hv
      cases c with
      | none => exact Or.inr hv
      | some u => exact Or.inl (hv ▸ List.mem_cons_self)
    rw [forwardFill, List.mem_cons] at h
    rcases h with h | h
    · exact hc h.symm
    · rcases ih h with h | h
      · exact Or.inl (List.mem_cons_of_mem c h)
      · exact hc h

theorem mem_backwardFill {v : α} (h : some v ∈ backwardFill cells) : some v ∈ cells := by
  induction cells with
  | nil => cases h
  | cons c cells ih =>
    rw [backwardFill, List.mem_cons] at h
    rcases h with h | h
    · cases c with
      | none =>
        have hhead : (backwardFill cells).head?.join = some v := h.symm
        refine List.mem_cons_of_mem _ (ih ?_)
        rw [Option.join_eq_some_iff] at hhead
        exact List.mem_of_mem_head? hhead
      | some u => exact h ▸ List.mem_cons_self
    · exact List.mem_cons_of_mem c (ih h)

/-! ### What is filled keeps its values -/

def Kept (cells filled : List (Option α)) : Prop :=
  List.Forall₂ (fun c c' => c ≠ none → c' = c) cells filled

theorem kept_refl (cells : List (Option α)) : Kept cells cells :=
  List.forall₂_same.mpr fun _ _ _ => rfl

theorem kept_fillWith (w : Option α) (cells : List (Option α)) :
    Kept cells (fillWith w cells) := by
  refine List.forall₂_map_right_iff.mpr (List.forall₂_same.mpr fun c _ hc => ?_)
  cases c with
  | none => exact absurd rfl hc
  | some v => rfl

theorem or_eq_of_ne_none {c : Option α} (h : c ≠ none) (w : Option α) : c.or w = c := by
  cases c with
  | none => exact absurd rfl h
  | some v => rfl

theorem kept_forwardFill (last : Option α) (cells : List (Option α)) :
    Kept cells (forwardFill last cells) := by
  induction cells generalizing last with
  | nil => exact .nil
  | cons c cells ih => exact .cons (fun h => or_eq_of_ne_none h last) (ih _)

theorem kept_backwardFill (cells : List (Option α)) : Kept cells (backwardFill cells) := by
  induction cells with
  | nil => exact .nil
  | cons c cells ih => exact .cons (fun h => or_eq_of_ne_none h _) ih

/-- A column without missing cells stays as it is. -/
theorem Kept.eq {filled : List (Option α)} (h : Kept cells filled) (hnone : none ∉ cells) :
    filled = cells := by
  induction h with
  | nil => rfl
  | cons hc _ ih =>
    rw [List.mem_cons, not_or] at hnone
    rw [hc (Ne.symm hnone.1), ih hnone.2]

end PipelineIQ.Lib.Fills
