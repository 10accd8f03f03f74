import Mathlib.Data.List.Basic
import Mathlib.Data.List.Nodup
import Mathlib.Data.List.Perm.Basic

namespace PipelineIQ.Lib.Wide

/-! Rows under names: what counts is which cell stands under which name. -/

variable {ν β κ : Type} [DecidableEq ν]

/-- The cell under a name, in a list of cells with a name each. -/
def rowOf : List ν → List (Option β) → ν → Option β
  | name :: names, cell :: cells, n => if name = n then cell else rowOf names cells n
  | _, _, _ => none

variable {names tail names' : List ν} {key cells cells' : List (Option β)} {n : ν}

theorem rowOf_of_notMem (h : n ∉ names) : rowOf names cells n = none := by
  induction names generalizing cells with
  | nil => rfl
  | cons name names ih =>
    rw [List.mem_cons, not_or] at h
    cases cells with
    | nil => rfl
    | cons cell cells => rw [rowOf, if_neg (Ne.symm h.1), ih h.2]

theorem rowOf_append (hlength : key.length = names.length) :
    rowOf (names ++ tail) (key ++ cells) n =
      if n ∈ names then rowOf names key n else rowOf tail cells n := by
  induction names generalizing key with
  | nil =>
    rw [List.length_eq_zero_iff.mp hlength]
    rfl
  | cons name names ih =>
    obtain ⟨k, key, rfl⟩ := List.exists_cons_of_length_eq_add_one hlength
    rw [List.cons_append, List.cons_append, rowOf, rowOf, ih (Nat.succ.inj hlength)]
    by_cases hn : name = n
    · rw [if_pos hn, if_pos hn, if_pos (hn ▸ List.mem_cons_self)]
    · simp only [hn, Ne.symm hn, List.mem_cons, false_or, if_false]

theorem map_rowOf (hnodup : names.Nodup) (hlength : key.length = names.length) :
    names.map (rowOf names key) = key := by
  induction names generalizing key with
  | nil => exact (List.length_eq_zero_iff.mp hlength).symm
  | cons name names ih =>
    obtain ⟨k, key, rfl⟩ := List.exists_cons_of_length_eq_add_one hlength
    obtain ⟨hname, hnodup⟩ := List.nodup_cons.mp hnodup
    rw [List.map_cons, rowOf, if_pos rfl]
    congr 1
    rw [← ih hnodup (Nat.succ.inj hlength)]
    apply List.map_congr_left
    intro n hn
    rw [ih hnodup (Nat.succ.inj hlength), rowOf, if_neg (ne_of_mem_of_not_mem hn hname).symm]

/-- The key of a row can be read off it. -/
theorem map_rowOf_append (hnodup : names.Nodup) (hlength : key.length = names.length) :
    names.map (rowOf (names ++ tail) (key ++ cells)) = key := by
  rw [← map_rowOf hnodup hlength]
  apply List.map_congr_left
  intro n hn
  rw [map_rowOf hnodup hlength, rowOf_append hlength, if_pos hn]

/-- The rows of two tables, each with one row for a key, are the same when the tables have the same
keys and, for each, the same cells under the names that are not of the key. -/
theorem rows_perm_iff {tail' : List ν} {keys keys' : List (List (Option β))}
    {f g : List (Option β) → List (Option β)} (hnodup : names.Nodup)
    (hkeys : ∀ k ∈ keys, k.length = names.length) (hkeys' : ∀ k ∈ keys', k.length = names.length) :
    (keys.map fun k => rowOf (names ++ tail) (k ++ f k)).Perm
        (keys'.map fun k => rowOf (names ++ tail') (k ++ g k)) ↔
      keys.Perm keys' ∧
        ∀ k ∈ keys, ∀ n, n ∉ names → rowOf tail (f k) n = rowOf tail' (g k) n := by
  have hread : ∀ (tail : List ν) (f : List (Option β) → List (Option β)) (keys : List _),
      (∀ k ∈ keys, k.length = names.length) →
      (keys.map fun k => rowOf (names ++ tail) (k ++ f k)).map (fun row => names.map row) = keys := by
    intro tail f keys hkeys
    rw [List.map_map]
    refine (List.map_congr_left fun k hk => ?_).trans (List.map_id keys)
    exact map_rowOf_append hnodup (hkeys k hk)
  constructor
  · intro hperm
    have hperm' := hperm.map fun row => names.map row
    rw [hread tail f keys hkeys, hread tail' g keys' hkeys'] at hperm'
    refine ⟨hperm', fun k hk n hn => ?_⟩
    obtain ⟨k', hk', heq⟩ := List.mem_map.mp (hperm.subset (List.mem_map_of_mem hk))
    have hsame : k' = k := by
      have hcells := congrArg (fun row => names.map row) heq
      rwa [map_rowOf_append hnodup (hkeys' k' hk'), map_rowOf_append hnodup (hkeys k hk)] at hcells
    subst hsame
    have hcell := congrFun heq n
    rw [rowOf_append (hkeys' _ hk'), rowOf_append (hkeys _ hk), if_neg hn, if_neg hn] at hcell
    exact hcell.symm
  · rintro ⟨hperm, hcells⟩
    have hrows : (keys.map fun k => rowOf (names ++ tail) (k ++ f k)) =
        keys.map fun k => rowOf (names ++ tail') (k ++ g k) := by
      apply List.map_congr_left
      intro k hk
      funext n
      rw [rowOf_append (hkeys k hk), rowOf_append (hkeys k hk)]
      by_cases hn : n ∈ names
      · rw [if_pos hn, if_pos hn]
      · rw [if_neg hn, if_neg hn, hcells k hk n hn]
    rw [hrows]
    exact hperm.map _

section Columns

variable {γ δ : Type} {es : List γ} {ds : List δ} {name : γ → ν} {name' : δ → ν}
  {cell : γ → Option β} {cell' : δ → Option β}

theorem rowOf_map (hnodup : (es.map name).Nodup) {e : γ} (he : e ∈ es) :
    rowOf (es.map name) (es.map cell) (name e) = cell e := by
  induction es with
  | nil => cases he
  | cons e' es ih =>
    rw [List.map_cons, List.nodup_cons] at hnodup
    rw [List.map_cons, List.map_cons, rowOf]
    cases he with
    | head => rw [if_pos rfl]
    | tail _ he =>
      have hne : name e' ≠ name e := (ne_of_mem_of_not_mem (List.mem_map_of_mem he) hnodup.1).symm
      rw [if_neg hne, ih hnodup.2 he]

/-- Cells agree under every name when they do column by column. -/
theorem rowOf_map_eq_iff (hnodup : (es.map name).Nodup) (hnodup' : (ds.map name').Nodup)
    (hsame : ∀ n, n ∈ es.map name ↔ n ∈ ds.map name') :
    (∀ n, rowOf (es.map name) (es.map cell) n = rowOf (ds.map name') (ds.map cell') n) ↔
      ∀ e ∈ es, ∀ d ∈ ds, name' d = name e → cell e = cell' d := by
  constructor
  · intro h e he d hd hname
    have hcell : rowOf (es.map name) (es.map cell) (name e) = cell e := rowOf_map hnodup he
    rw [← hcell, h, ← hname, rowOf_map hnodup' hd]
  · intro h n
    by_cases hn : n ∈ es.map name
    · obtain ⟨e, he, rfl⟩ := List.mem_map.mp hn
      obtain ⟨d, hd, hname⟩ := List.mem_map.mp ((hsame _).mp hn)
      rw [rowOf_map hnodup he, h e he d hd hname, ← hname, rowOf_map hnodup' hd]
    · rw [rowOf_of_notMem hn, rowOf_of_notMem (mt (hsame n).mpr hn)]

end Columns

end PipelineIQ.Lib.Wide
