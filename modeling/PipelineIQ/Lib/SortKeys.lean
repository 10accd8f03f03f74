import Mathlib.Data.List.Pairwise
import Mathlib.Order.Basic
import Mathlib.Order.Defs.LinearOrder
import Mathlib.Order.Lattice

namespace PipelineIQ.Lib.SortKeys

/-! ### Sorted lists -/

section Sorted

variable {β : Type} {le le' : β → β → Prop} {l l' : List β}

/-- Two sorted lists with the same members are the same list exactly when the second order has
the members as the first one has them. -/
theorem sorted_eq_iff (hperm : l.Perm l') (hsorted : l.Pairwise le) (hsorted' : l'.Pairwise le')
    (hanti : ∀ a ∈ l, ∀ b ∈ l, le a b → le b a → a = b) (hrefl' : ∀ a, le' a a)
    (hanti' : ∀ a ∈ l, ∀ b ∈ l, le' a b → le' b a → a = b) :
    l = l' ↔ ∀ a ∈ l, ∀ b ∈ l, le a b → le' a b := by
  constructor
  · rintro rfl
    let Alike (a b : β) : Prop := (le a b → le' a b) ∧ (le b a → le' b a)
    have hsymm : Std.Symm Alike := ⟨fun _ _ h => h.symm⟩
    have halike : l.Pairwise Alike := by
      refine (List.pairwise_and_iff.mpr ⟨hsorted, hsorted'⟩).imp_of_mem ?_
      intro a b ha hb hboth
      refine ⟨fun _ => hboth.2, fun hba => ?_⟩
      rw [hanti a ha b hb hboth.1 hba]
      exact hrefl' b
    intro a ha b hb
    exact (halike.forall_of_forall (fun a _ => ⟨fun _ => hrefl' a, fun _ => hrefl' a⟩) ha hb).1
  · intro halike
    have hsorted'' : l.Pairwise le' :=
      hsorted.imp_of_mem fun ha hb hab => halike _ ha _ hb hab
    apply List.Perm.eq_of_pairwise _ hsorted'' hsorted' hperm
    exact fun a b ha hb => hanti' a ha b (hperm.symm.subset hb)

/-- What sorts the rows of a table, in an order of its own for rows with one key. -/
structure Sorter where
  sort : {ρ : Type} → (ρ → ρ → Bool) → List ρ → List ρ
  perm : ∀ {ρ : Type} (le : ρ → ρ → Bool) (rows : List ρ), (sort le rows).Perm rows
  sorted : ∀ {ρ : Type} (le : ρ → ρ → Bool) (rows : List ρ),
    (∀ a b c, le a b = true → le b c = true → le a c = true) →
    (∀ a b, (le a b || le b a) = true) → (sort le rows).Pairwise fun a b => le a b = true

def mergeSorter : Sorter where
  sort le rows := rows.mergeSort le
  perm le rows := List.mergeSort_perm rows le
  sorted _ rows htrans htotal := List.pairwise_mergeSort htrans htotal rows

end Sorted

/-! ### Keys with nulls -/

section Keys

variable {α : Type} [LinearOrder α]

/-- The order of one column, in which nulls come last whatever its direction. -/
def cellLe (ascending : Bool) : Option α → Option α → Bool
  | _, none => true
  | none, some _ => false
  | some a, some b => if ascending then decide (a ≤ b) else decide (b ≤ a)

/-- The order of keys, by the first column in which they differ. -/
def keyLe : List Bool → List (Option α) → List (Option α) → Bool
  | up :: ups, a :: as, b :: bs => if a = b then keyLe ups as bs else cellLe up a b
  | _, _, _ => true

variable {up : Bool} {ups : List Bool} {a b c : Option α} {as bs cs : List (Option α)}

theorem cellLe_total : cellLe up a b = true ∨ cellLe up b a = true := by
  cases a with
  | none => exact .inr (by cases b <;> rfl)
  | some a =>
    cases b with
    | none => exact .inl rfl
    | some b =>
      cases up with
      | true => simpa [cellLe] using le_total a b
      | false => simpa [cellLe] using le_total b a

theorem cellLe_trans (hab : cellLe up a b = true) (hbc : cellLe up b c = true) :
    cellLe up a c = true := by
  cases c with
  | none => cases a <;> rfl
  | some c =>
    cases b with
    | none => cases hbc
    | some b =>
      cases a with
      | none => cases hab
      | some a =>
        cases up with
        | true =>
          rw [cellLe, if_pos rfl, decide_eq_true_eq] at hab hbc ⊢
          exact hab.trans hbc
        | false =>
          simp only [cellLe, Bool.false_eq_true, if_false, decide_eq_true_eq] at hab hbc ⊢
          exact hbc.trans hab

theorem cellLe_antisymm (hab : cellLe up a b = true) (hba : cellLe up b a = true) : a = b := by
  cases a with
  | none =>
    cases b with
    | none => rfl
    | some b => cases hab
  | some a =>
    cases b with
    | none => cases hba
    | some b =>
      cases up with
      | true =>
        rw [cellLe, if_pos rfl, decide_eq_true_eq] at hab hba
        rw [hab.antisymm hba]
      | false =>
        simp only [cellLe, Bool.false_eq_true, if_false, decide_eq_true_eq] at hab hba
        rw [hba.antisymm hab]

theorem keyLe_refl : keyLe ups as as = true := by
  induction ups generalizing as with
  | nil => rfl
  | cons up ups ih =>
    cases as with
    | nil => rfl
    | cons a as =>
      rw [keyLe, if_pos rfl]
      exact ih

theorem keyLe_total : keyLe ups as bs = true ∨ keyLe ups bs as = true := by
  induction ups generalizing as bs with
  | nil => exact .inl rfl
  | cons up ups ih =>
    cases as with
    | nil => exact .inl rfl
    | cons a as =>
      cases bs with
      | nil => exact .inl rfl
      | cons b bs =>
        rw [keyLe, keyLe]
        by_cases h : a = b
        · rw [if_pos h, if_pos h.symm]
          exact ih
        · rw [if_neg h, if_neg (Ne.symm h)]
          exact cellLe_total

theorem keyLe_trans (ha : as.length = ups.length) (hb : bs.length = ups.length)
    (hc : cs.length = ups.length) (hab : keyLe ups as bs = true) (hbc : keyLe ups bs cs = true) :
    keyLe ups as cs = true := by
  induction ups generalizing as bs cs with
  | nil => rfl
  | cons up ups ih =>
    obtain ⟨a, as, rfl⟩ := List.exists_cons_of_length_eq_add_one ha
    obtain ⟨b, bs, rfl⟩ := List.exists_cons_of_length_eq_add_one hb
    obtain ⟨c, cs, rfl⟩ := List.exists_cons_of_length_eq_add_one hc
    rw [keyLe] at hab hbc ⊢
    by_cases h : a = b
    · rw [if_pos h] at hab
      by_cases h' : b = c
      · rw [if_pos h'] at hbc
        rw [if_pos (h.trans h')]
        exact ih (Nat.succ.inj ha) (Nat.succ.inj hb) (Nat.succ.inj hc) hab hbc
      · rw [if_neg h'] at hbc
        rwa [h, if_neg h']
    · rw [if_neg h] at hab
      by_cases h' : b = c
      · rwa [← h', if_neg h]
      · rw [if_neg h'] at hbc
        have hac : cellLe up a c = true := cellLe_trans hab hbc
        rw [if_neg]
        · exact hac
        · rintro rfl
          exact h (cellLe_antisymm hab hbc)

theorem keyLe_antisymm (ha : as.length = ups.length) (hb : bs.length = ups.length)
    (hab : keyLe ups as bs = true) (hba : keyLe ups bs as = true) : as = bs := by
  induction ups generalizing as bs with
  | nil => rw [List.length_eq_zero_iff.mp ha, List.length_eq_zero_iff.mp hb]
  | cons up ups ih =>
    obtain ⟨a, as, rfl⟩ := List.exists_cons_of_length_eq_add_one ha
    obtain ⟨b, bs, rfl⟩ := List.exists_cons_of_length_eq_add_one hb
    rw [keyLe] at hab hba
    by_cases h : a = b
    · rw [if_pos h] at hab
      rw [if_pos h.symm] at hba
      rw [h, ih (Nat.succ.inj ha) (Nat.succ.inj hb) hab hba]
    · rw [if_neg h] at hab
      rw [if_neg (Ne.symm h)] at hba
      exact absurd (cellLe_antisymm hab hba) h

/-- The keys of sorted rows are sorted. -/
theorem Sorter.sorted_keys (S : Sorter) {ρ : Type} (keyOf : ρ → List (Option α))
    (hlen : ∀ r, (keyOf r).length = ups.length) (rows : List ρ) :
    ((S.sort (fun r s => keyLe ups (keyOf r) (keyOf s)) rows).map keyOf).Pairwise
      fun as bs => keyLe ups as bs = true := by
  rw [List.pairwise_map]
  apply S.sorted
  · exact fun r s t => keyLe_trans (hlen r) (hlen s) (hlen t)
  · intro r s
    rw [Bool.or_eq_true]
    exact keyLe_total

/-- Two sorts of the same rows by one key yield the same keys exactly when the second directions
have the rows as the first ones have them. -/
theorem Sorter.map_eq_iff (S S' : Sorter) {ρ : Type} (keyOf : ρ → List (Option α))
    {ups' : List Bool} (hlen : ∀ r, (keyOf r).length = ups.length)
    (hlen' : ∀ r, (keyOf r).length = ups'.length) {rows rows' : List ρ} (hperm : rows.Perm rows') :
    (S.sort (fun r s => keyLe ups (keyOf r) (keyOf s)) rows).map keyOf =
        (S'.sort (fun r s => keyLe ups' (keyOf r) (keyOf s)) rows').map keyOf ↔
      ∀ r ∈ rows, ∀ s ∈ rows, keyLe ups (keyOf r) (keyOf s) = true →
        keyLe ups' (keyOf r) (keyOf s) = true := by
  have hmem : ∀ as, as ∈ (S.sort (fun r s => keyLe ups (keyOf r) (keyOf s)) rows).map keyOf ↔
      ∃ r ∈ rows, keyOf r = as := by
    intro as
    rw [List.mem_map]
    simp only [(S.perm _ rows).mem_iff]
  have hkeys := (((S.perm (fun r s => keyLe ups (keyOf r) (keyOf s)) rows).trans hperm).trans
    (S'.perm (fun r s => keyLe ups' (keyOf r) (keyOf s)) rows').symm).map keyOf
  rw [sorted_eq_iff hkeys (S.sorted_keys keyOf hlen rows) (S'.sorted_keys keyOf hlen' rows')]
  · constructor
    · intro h r hr s hs
      exact h _ ((hmem _).mpr ⟨r, hr, rfl⟩) _ ((hmem _).mpr ⟨s, hs, rfl⟩)
    · intro h as has bs hbs
      obtain ⟨r, hr, rfl⟩ := (hmem as).mp has
      obtain ⟨s, hs, rfl⟩ := (hmem bs).mp hbs
      exact h r hr s hs
  · intro as has bs hbs
    obtain ⟨r, -, rfl⟩ := (hmem as).mp has
    obtain ⟨s, -, rfl⟩ := (hmem bs).mp hbs
    exact keyLe_antisymm (hlen r) (hlen s)
  · exact fun _ => keyLe_refl
  · intro as has bs hbs
    obtain ⟨r, -, rfl⟩ := (hmem as).mp has
    obtain ⟨s, -, rfl⟩ := (hmem bs).mp hbs
    exact keyLe_antisymm (hlen' r) (hlen' s)

end Keys

end PipelineIQ.Lib.SortKeys
