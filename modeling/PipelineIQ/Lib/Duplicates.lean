import Mathlib.Data.List.Dedup
import Mathlib.Data.List.Perm.Basic

namespace PipelineIQ.Lib.Duplicates

/-- Which of the rows with one key stays: the first, the last, or none but a lone one. -/
inductive Keep where
  | first | last | none
  deriving DecidableEq, Repr

variable {ρ ρ' κ κ' : Type} [DecidableEq κ] [DecidableEq κ']

/-- The rows that a row between others gives way to. -/
def Keep.rivals : Keep → List ρ → List ρ → List ρ
  | .first, before, _ => before
  | .last, _, after => after
  | .none, before, after => before ++ after

section Survivors

variable (keep : Keep) (key : ρ → κ)

/-- The rows that stay, of those after the rows `before`. -/
def survivors (before : List ρ) : List ρ → List ρ
  | [] => []
  | r :: after =>
    if key r ∈ (keep.rivals before after).map key then survivors (before ++ [r]) after
    else r :: survivors (before ++ [r]) after

variable {keep key}

theorem Keep.rivals_map (f : ρ → ρ') (before after : List ρ) :
    keep.rivals (before.map f) (after.map f) = (keep.rivals before after).map f := by
  cases keep with
  | first | last => rfl
  | none => exact List.map_append.symm

theorem Keep.mem_of_mem_rivals {before after : List ρ} {s : ρ}
    (h : s ∈ keep.rivals before after) : s ∈ before ∨ s ∈ after := by
  cases keep with
  | first => exact Or.inl h
  | last => exact Or.inr h
  | none => exact List.mem_append.mp h

theorem mem_survivors {before rows : List ρ} {r : ρ} :
    r ∈ survivors keep key before rows ↔ ∃ left right, rows = left ++ r :: right ∧
      key r ∉ (keep.rivals (before ++ left) right).map key := by
  induction rows generalizing before with
  | nil => simp [survivors]
  | cons s rows ih =>
    have hrest : r ∈ survivors keep key (before ++ [s]) rows ↔
        ∃ left right, s :: rows = s :: left ++ r :: right ∧
          key r ∉ (keep.rivals (before ++ s :: left) right).map key := by
      simp only [ih, List.cons_append, List.cons.injEq, true_and, List.append_assoc,
        List.nil_append]
    constructor
    · intro h
      unfold survivors at h
      split at h
      next =>
        obtain ⟨left, right, hrows, hkey⟩ := hrest.mp h
        exact ⟨s :: left, right, hrows, hkey⟩
      next hs =>
        rcases List.mem_cons.mp h with rfl | h
        · exact ⟨[], rows, rfl, by rwa [List.append_nil]⟩
        · obtain ⟨left, right, hrows, hkey⟩ := hrest.mp h
          exact ⟨s :: left, right, hrows, hkey⟩
    · rintro ⟨left, right, hrows, hkey⟩
      unfold survivors
      cases left with
      | nil =>
        obtain ⟨rfl, rfl⟩ := List.cons.inj hrows
        rw [List.append_nil] at hkey
        rw [if_neg hkey]
        exact List.mem_cons_self
      | cons _ left =>
        obtain ⟨rfl, hrows'⟩ := List.cons.inj hrows
        have hmem := hrest.mpr ⟨left, right, hrows, hkey⟩
        split
        · exact hmem
        · exact List.mem_cons_of_mem _ hmem

theorem survivors_map {key : ρ' → κ} (f : ρ → ρ') (before rows : List ρ) :
    survivors keep key (before.map f) (rows.map f) =
      (survivors keep (fun r => key (f r)) before rows).map f := by
  induction rows generalizing before with
  | nil => rfl
  | cons r rows ih =>
    have hrest := ih (before ++ [r])
    rw [List.map_append, List.map_singleton] at hrest
    simp only [List.map_cons, survivors, Keep.rivals_map, List.map_map, Function.comp_def, hrest]
    split <;> rfl

/-- A coarser key keeps less. -/
theorem survivors_sublist {key' : ρ → κ'} {before rows : List ρ}
    (h : ∀ r s, key r = key s → key' r = key' s) :
    (survivors keep key' before rows).Sublist (survivors keep key before rows) := by
  induction rows generalizing before with
  | nil => exact List.Sublist.slnil
  | cons r rows ih =>
    have hcoarse : key r ∈ (keep.rivals before rows).map key →
        key' r ∈ (keep.rivals before rows).map key' := by
      intro hmem
      obtain ⟨s, hs, hkey⟩ := List.mem_map.mp hmem
      exact List.mem_map.mpr ⟨s, hs, h s r hkey⟩
    unfold survivors
    by_cases hkey : key r ∈ (keep.rivals before rows).map key
    · rw [if_pos hkey, if_pos (hcoarse hkey)]
      exact ih
    · rw [if_neg hkey]
      split
      · exact ih.cons r
      · exact ih.cons_cons r

theorem survivors_congr {key' : ρ → κ'} {before rows : List ρ}
    (h : ∀ left r right, rows = left ++ r :: right →
      (key r ∈ (keep.rivals (before ++ left) right).map key ↔
        key' r ∈ (keep.rivals (before ++ left) right).map key')) :
    survivors keep key before rows = survivors keep key' before rows := by
  induction rows generalizing before with
  | nil => rfl
  | cons r rows ih =>
    have hr := h [] r rows rfl
    rw [List.append_nil] at hr
    have hrest := @ih (before ++ [r]) fun left s right hrows => by
      have hs := h (r :: left) s right (by rw [hrows, List.cons_append])
      rwa [← List.singleton_append, ← List.append_assoc] at hs
    simp only [survivors, hr, hrest]

/-- A coarser key keeps as many when it keeps the same. -/
theorem length_survivors_iff {key' : ρ → κ'} {before rows : List ρ}
    (h : ∀ r s, key r = key s → key' r = key' s) :
    (survivors keep key' before rows).length = (survivors keep key before rows).length ↔
      ∀ left r right, rows = left ++ r :: right →
        key r ∉ (keep.rivals (before ++ left) right).map key →
          key' r ∉ (keep.rivals (before ++ left) right).map key' := by
  constructor
  · intro hlength
    induction rows generalizing before with
    | nil => simp
    | cons s rows ih =>
      have hle := (@survivors_sublist _ _ _ _ _ keep key key' (before ++ [s]) rows h).length_le
      have hcoarse : key s ∈ (keep.rivals before rows).map key →
          key' s ∈ (keep.rivals before rows).map key' := by
        intro hmem
        obtain ⟨s', hs', hkey⟩ := List.mem_map.mp hmem
        exact List.mem_map.mpr ⟨s', hs', h s' s hkey⟩
      unfold survivors at hlength
      have hboth : (key s ∉ (keep.rivals before rows).map key →
          key' s ∉ (keep.rivals before rows).map key') ∧
          (survivors keep key' (before ++ [s]) rows).length =
            (survivors keep key (before ++ [s]) rows).length := by
        by_cases hs : key s ∈ (keep.rivals before rows).map key
        · rw [if_pos hs, if_pos (hcoarse hs)] at hlength
          exact ⟨fun hs' => absurd hs hs', hlength⟩
        · rw [if_neg hs] at hlength
          split at hlength
          · rw [List.length_cons] at hlength
            omega
          next hs' => exact ⟨fun _ => hs', Nat.succ.inj hlength⟩
      intro left r right hrows
      cases left with
      | nil =>
        obtain ⟨rfl, rfl⟩ := List.cons.inj hrows
        rw [List.append_nil]
        exact hboth.1
      | cons _ left =>
        obtain ⟨rfl, hrows'⟩ := List.cons.inj hrows
        have hrest := ih hboth.2 left r right hrows'
        rwa [List.append_assoc, List.singleton_append] at hrest
  · intro hstay
    refine congrArg List.length (survivors_congr fun left r right hrows => ?_)
    refine not_iff_not.mp ⟨fun hkey' hkey => ?_, hstay left r right hrows⟩
    obtain ⟨s, hs, hsr⟩ := List.mem_map.mp hkey
    exact hkey' (List.mem_map.mpr ⟨s, hs, h s r hsr⟩)

/-- The survivors stay the same when all rows are mapped, where a mapped row is left alone,
exactly when they are left alone and survive the mapping. -/
theorem survivors_map_perm_iff {f : ρ → ρ} {rows : List ρ} (hf : ∀ r, f (f r) = f r)
    (hkey : ∀ r s, key r = key s → key (f r) = key (f s)) :
    (survivors keep key [] (rows.map f)).Perm (survivors keep key [] rows) ↔
      ∀ left r right, rows = left ++ r :: right → key r ∉ (keep.rivals left right).map key →
        f r = r ∧ key (f r) ∉ (keep.rivals left right).map fun s => key (f s) := by
  have hmap : survivors keep key [] (rows.map f) =
      (survivors keep (fun r => key (f r)) [] rows).map f := survivors_map f [] rows
  have hlength := @length_survivors_iff _ _ _ _ _ keep key (fun r => key (f r)) [] rows hkey
  simp only [List.nil_append] at hlength
  rw [hmap]
  constructor
  · intro hperm left r right hrows hr
    have hstay := hlength.mp (by rw [← hperm.length_eq, List.length_map]) left r right hrows hr
    have hmem := hperm.symm.subset (mem_survivors.mpr ⟨left, right, hrows, hr⟩)
    obtain ⟨s, -, rfl⟩ := List.mem_map.mp hmem
    exact ⟨hf s, hstay⟩
  · intro h
    have hsame := (survivors_sublist hkey).eq_of_length
      (hlength.mpr fun left r right hrows hr => (h left r right hrows hr).2)
    have hid : (survivors keep key [] rows).map f = (survivors keep key [] rows).map id := by
      refine List.map_congr_left fun r hr => ?_
      obtain ⟨left, right, hrows, hr⟩ := mem_survivors.mp hr
      exact (h left r right hrows hr).1
    rw [hsame, hid, List.map_id]

theorem survivors_injective {f : κ → κ'} (hf : Function.Injective f) (before rows : List ρ) :
    survivors keep (fun r => f (key r)) before rows = survivors keep key before rows := by
  refine survivors_congr fun left r right _ => ?_
  rw [show (fun s => f (key s)) = f ∘ key from rfl, ← List.map_map]
  exact List.mem_map_of_injective hf

end Survivors

/-! ### Whole rows as keys -/

theorem survivors_last_eq_dedup [DecidableEq ρ] (before rows : List ρ) :
    survivors .last id before rows = rows.dedup := by
  induction rows generalizing before with
  | nil => rfl
  | cons r rows ih =>
    rw [survivors, Keep.rivals, List.map_id, ih, id_eq]
    split
    next h => exact (List.dedup_cons_of_mem h).symm
    next h => exact (List.dedup_cons_of_notMem h).symm

theorem survivors_first_nodup [DecidableEq ρ] (before rows : List ρ) :
    (survivors .first id before rows).Nodup := by
  induction rows generalizing before with
  | nil => exact List.nodup_nil
  | cons r rows ih =>
    unfold survivors
    split
    · exact ih _
    · refine List.nodup_cons.mpr ⟨?_, ih _⟩
      intro hr
      obtain ⟨left, right, -, hkey⟩ := mem_survivors.mp hr
      simp [Keep.rivals] at hkey

/-- Without duplicates, whether the first or the last one of them stays, there are the same rows. -/
theorem survivors_perm_dedup [DecidableEq ρ] {keep : Keep} (h : keep ≠ .none) (rows : List ρ) :
    (survivors keep id [] rows).Perm rows.dedup := by
  cases keep with
  | first =>
    refine (List.perm_ext_iff_of_nodup (survivors_first_nodup [] rows) rows.nodup_dedup).mpr ?_
    intro r
    rw [List.mem_dedup, mem_survivors]
    constructor
    · rintro ⟨left, right, rfl, -⟩
      simp
    · intro hr
      obtain ⟨left, right, hrows, hleft⟩ := List.eq_append_cons_of_mem hr
      exact ⟨left, right, hrows, by simpa [Keep.rivals] using hleft⟩
  | last => rw [survivors_last_eq_dedup]
  | none => exact absurd rfl h

theorem survivors_of_nodup [DecidableEq ρ] {before rows : List ρ} (h : rows.Nodup)
    (hbefore : ∀ r ∈ rows, r ∉ before) : survivors .first id before rows = rows := by
  induction rows generalizing before with
  | nil => rfl
  | cons r rows ih =>
    obtain ⟨hr, hrows⟩ := List.nodup_cons.mp h
    rw [survivors, if_neg (by simpa [Keep.rivals] using hbefore r List.mem_cons_self),
      ih hrows fun s hs hmem => ?_]
    rcases List.mem_append.mp hmem with hmem | hmem
    · exact hbefore s (List.mem_cons_of_mem _ hs) hmem
    · exact hr (List.mem_singleton.mp hmem ▸ hs)

/-- All stay only where none occurs twice. -/
theorem length_survivors_eq_iff [DecidableEq ρ] {rows : List ρ} :
    (survivors .first id [] rows).length = rows.length ↔ rows.Nodup := by
  rw [(survivors_perm_dedup (by decide) rows).length_eq]
  constructor
  · intro h
    exact List.dedup_eq_self.mp ((List.dedup_sublist rows).eq_of_length h)
  · intro h
    rw [List.dedup_eq_self.mpr h]

/-! ### By a table of the keys seen -/

/-- For each key whether it was seen before. -/
def seenBefore (seen : List κ) : List κ → List Bool
  | [] => []
  | k :: keys => decide (k ∈ seen) :: seenBefore (k :: seen) keys

def duplicated (keep : Keep) (keys : List κ) : List Bool :=
  match keep with
  | .first => seenBefore [] keys
  | .last => (seenBefore [] keys.reverse).reverse
  | .none => keys.map fun k => decide (1 < keys.count k)

/-- The rows whose mark is false. -/
def unmarked (rows : List ρ) (marks : List Bool) : List ρ :=
  ((rows.zip marks).filter fun e => !e.2).map Prod.fst

theorem find_seenBefore_eq_none {seen keys : List κ} :
    (keys.zip (seenBefore seen keys)).find? (·.2) = none ↔
      keys.Nodup ∧ ∀ k ∈ keys, k ∉ seen := by
  induction keys generalizing seen with
  | nil => simp [seenBefore]
  | cons k keys ih =>
    rw [seenBefore, List.zip_cons_cons, List.find?_cons]
    by_cases hk : k ∈ seen
    · simp [hk]
    · simp only [hk, decide_false, ih, List.mem_cons, not_or, List.nodup_cons, forall_eq_or_imp]
      grind

/-! ### By the numbers of the rows -/

/-- The number that a window function gives a row of a partition. -/
def windowNumber (keep : Keep) (key : ρ → κ) (rows : List (ρ × Nat)) (e : ρ × Nat) : Nat :=
  let peers := rows.filter fun e' => key e'.1 = key e.1
  match keep with
  | .first => peers.countP fun e' => e'.2 ≤ e.2
  | .last => peers.countP fun e' => e.2 ≤ e'.2
  | .none => peers.length

/-- The rows with the number one. -/
def numberOne (keep : Keep) (key : ρ → κ) (rows : List ρ) : List ρ :=
  ((rows.zipIdx 1).filter fun e => windowNumber keep key (rows.zipIdx 1) e = 1).map Prod.fst

/-! ### Both keep the survivors -/

theorem seenBefore_append (seen keys : List κ) (k : κ) :
    seenBefore seen (keys ++ [k]) = seenBefore seen keys ++ [decide (k ∈ seen ∨ k ∈ keys)] := by
  induction keys generalizing seen with
  | nil => simp [seenBefore]
  | cons k' keys ih => simp [seenBefore, ih, or_left_comm, or_assoc]

theorem unmarked_cons (r : ρ) (rows : List ρ) (mark : Bool) (marks : List Bool) :
    unmarked (r :: rows) (mark :: marks) =
      if mark = true then unmarked rows marks else r :: unmarked rows marks := by
  cases mark <;> rfl

variable {key : ρ → κ}

theorem unmarked_seenBefore {before : List ρ} {seen : List κ} (rows : List ρ)
    (h : ∀ k, k ∈ seen ↔ k ∈ before.map key) :
    unmarked rows (seenBefore seen (rows.map key)) = survivors .first key before rows := by
  induction rows generalizing before seen with
  | nil => rfl
  | cons r rows ih =>
    have hrest := @ih (before ++ [r]) (key r :: seen) fun k => by simp [h, or_comm]
    rw [List.map_cons, seenBefore, unmarked_cons, hrest]
    by_cases hr : key r ∈ before.map key
    · simp [survivors, Keep.rivals, (h (key r)).mpr hr, hr]
    · simp [survivors, Keep.rivals, mt (h (key r)).mp hr, hr]

theorem unmarked_last (before rows : List ρ) :
    unmarked rows (seenBefore [] (rows.map key).reverse).reverse =
      survivors .last key before rows := by
  induction rows generalizing before with
  | nil => rfl
  | cons r rows ih =>
    rw [List.map_cons, List.reverse_cons, seenBefore_append, List.reverse_append,
      List.reverse_singleton, List.singleton_append, unmarked_cons, ih (before ++ [r])]
    simp [survivors, Keep.rivals]

theorem unmarked_counts (before rows : List ρ) :
    unmarked rows ((rows.map key).map fun k =>
        decide (1 < ((before ++ rows).map key).count k)) = survivors .none key before rows := by
  induction rows generalizing before with
  | nil => rfl
  | cons r rows ih =>
    have hrest := ih (before ++ [r])
    rw [List.append_assoc, List.singleton_append] at hrest
    have hcount : 1 < ((before ++ r :: rows).map key).count (key r) ↔
        key r ∈ (before ++ rows).map key := by
      rw [← List.count_pos_iff, List.map_append, List.map_cons, List.count_append,
        List.count_cons_self, List.map_append, List.count_append]
      omega
    rw [List.map_cons, List.map_cons, unmarked_cons, hrest]
    by_cases hr : key r ∈ (before ++ rows).map key
    · rw [decide_eq_true (hcount.mpr hr), if_pos rfl, survivors, Keep.rivals, if_pos hr]
    · rw [decide_eq_false (mt hcount.mp hr), if_neg Bool.false_ne_true, survivors, Keep.rivals,
        if_neg hr]

/-- The rows that the table leaves unmarked are the survivors. -/
theorem unmarked_duplicated (keep : Keep) (rows : List ρ) :
    unmarked rows (duplicated keep (rows.map key)) = survivors keep key [] rows := by
  cases keep with
  | first => exact unmarked_seenBefore rows fun k => by simp
  | last => exact unmarked_last [] rows
  | none => exact unmarked_counts [] rows

theorem peers_eq_nil {rows : List ρ} {n : Nat} {k : κ} :
    ((rows.zipIdx n).filter fun e => key e.1 = k) = [] ↔ k ∉ rows.map key := by
  rw [List.filter_eq_nil_iff, List.mem_map]
  constructor
  · rintro h ⟨r, hr, hk⟩
    rw [← List.zipIdx_map_fst n rows] at hr
    obtain ⟨e, he, rfl⟩ := List.mem_map.mp hr
    exact h e he (decide_eq_true hk)
  · intro h e he hk
    exact h ⟨e.1, List.fst_mem_of_mem_zipIdx he, of_decide_eq_true hk⟩

theorem windowNumber_eq_one (keep : Keep) (before after : List ρ) (r : ρ) :
    windowNumber keep key ((before ++ r :: after).zipIdx 1) (r, before.length + 1) = 1 ↔
      key r ∉ (keep.rivals before after).map key := by
  have hpeers : ((before ++ r :: after).zipIdx 1).filter (fun e => key e.1 = key r) =
      ((before.zipIdx 1).filter fun e => key e.1 = key r) ++ (r, before.length + 1) ::
        (after.zipIdx (before.length + 2)).filter fun e => key e.1 = key r := by
    rw [List.zipIdx_append, List.filter_append, List.zipIdx_cons, List.filter_cons_of_pos (by simp),
      Nat.add_comm 1]
  have hbefore : ∀ e ∈ (before.zipIdx 1).filter fun e => key e.1 = key r,
      e.2 < before.length + 1 := by
    intro e he
    have := List.snd_lt_of_mem_zipIdx (List.mem_filter.mp he).1
    omega
  have hafter : ∀ e ∈ (after.zipIdx (before.length + 2)).filter fun e => key e.1 = key r,
      before.length + 1 < e.2 := by
    intro e he
    have := List.le_snd_of_mem_zipIdx (List.mem_filter.mp he).1
    omega
  unfold windowNumber
  dsimp only
  rw [hpeers]
  cases keep with
  | first =>
    dsimp only [Keep.rivals]
    rw [List.countP_append, List.countP_cons, List.countP_eq_length.mpr fun e he =>
        decide_eq_true (Nat.le_of_lt (hbefore e he)),
      List.countP_eq_zero.mpr fun e he => by simpa using hafter e he, ← peers_eq_nil (n := 1),
      ← List.length_eq_zero_iff]
    simp
  | last =>
    dsimp only [Keep.rivals]
    rw [List.countP_append, List.countP_cons, List.countP_eq_zero.mpr fun e he => by
        simpa using hbefore e he, List.countP_eq_length.mpr fun e he =>
        decide_eq_true (Nat.le_of_lt (hafter e he)), ← peers_eq_nil (n := before.length + 2),
      ← List.length_eq_zero_iff]
    simp
  | none =>
    dsimp only [Keep.rivals]
    rw [List.map_append, List.mem_append, not_or, ← peers_eq_nil (n := 1),
      ← peers_eq_nil (n := before.length + 2), ← List.length_eq_zero_iff,
      ← List.length_eq_zero_iff, List.length_append, List.length_cons]
    omega

theorem numberOne_append (keep : Keep) (before rows : List ρ) :
    ((rows.zipIdx (before.length + 1)).filter fun e =>
        windowNumber keep key ((before ++ rows).zipIdx 1) e = 1).map Prod.fst =
      survivors keep key before rows := by
  induction rows generalizing before with
  | nil => rfl
  | cons r rows ih =>
    have hrest := ih (before ++ [r])
    rw [List.append_assoc, List.singleton_append, List.length_append, List.length_singleton]
      at hrest
    have hr : windowNumber keep key ((before ++ r :: rows).zipIdx 1) (r, before.length + 1) = 1 ↔
        key r ∉ (keep.rivals before rows).map key :=
      windowNumber_eq_one keep before rows r
    rw [List.zipIdx_cons, List.filter_cons, survivors]
    by_cases hkey : key r ∈ (keep.rivals before rows).map key
    · rw [if_neg (by simpa using fun h => hr.mp h hkey), if_pos hkey, hrest]
    · rw [if_pos (by simpa using hr.mpr hkey), if_neg hkey, List.map_cons, hrest]

/-- The rows with the number one are the survivors. -/
theorem numberOne_eq (keep : Keep) (rows : List ρ) :
    numberOne keep key rows = survivors keep key [] rows :=
  numberOne_append keep [] rows

end PipelineIQ.Lib.Duplicates
