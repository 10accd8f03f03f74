import Mathlib.Data.List.Nodup
import Mathlib.Data.Option.Basic

namespace PipelineIQ.Lib

variable {K V : Type*} [DecidableEq K]

/-- A dictionary that remembers insertion order: every key occurs once, and
assigning to a key that is present keeps its place. -/
structure Dict (K V : Type*) where
  entries : List (K × V)
  nodup : (entries.map Prod.fst).Nodup

namespace Dict

@[grind =] def assign (k : K) (v : V) : List (K × V) → List (K × V)
  | [] => [(k, v)]
  | (a, w) :: rest => if a = k then (a, v) :: rest else (a, w) :: assign k v rest

theorem assign_keys (k : K) (v : V) (xs : List (K × V)) :
    (assign k v xs).map Prod.fst =
      if k ∈ xs.map Prod.fst then xs.map Prod.fst else xs.map Prod.fst ++ [k] := by
  induction xs with
  | nil => rfl
  | cons p rest ih =>
    obtain ⟨a, w⟩ := p
    by_cases h : a = k
    · simp [assign, h]
    · have hk : k ≠ a := Ne.symm h
      by_cases hm : k ∈ rest.map Prod.fst
      · simp only [assign, h, ↓reduceIte, List.map_cons, ih, hm, List.mem_cons, or_true]
      · simp only [assign, h, ↓reduceIte, List.map_cons, ih, hm, List.mem_cons, hk, or_self,
          List.cons_append]

theorem assign_nodup (k : K) (v : V) (xs : List (K × V)) (h : (xs.map Prod.fst).Nodup) :
    ((assign k v xs).map Prod.fst).Nodup := by
  rw [assign_keys]
  split
  · exact h
  · next hk => exact List.nodup_append.mpr ⟨h, List.nodup_singleton k, by
      intro a ha b hb hab
      rw [List.mem_singleton] at hb
      exact hk (hb ▸ hab ▸ ha)⟩

@[grind =] def find (k : K) : List (K × V) → Option V
  | [] => none
  | (a, v) :: rest => if a = k then some v else find k rest

theorem find_assign (k j : K) (v : V) (xs : List (K × V)) :
    find j (assign k v xs) = if j = k then some v else find j xs := by
  induction xs with
  | nil => simp [assign, find, eq_comm]
  | cons p rest ih =>
    obtain ⟨a, w⟩ := p
    by_cases ha : a = k
    · subst a
      by_cases h : j = k
      · simp [assign, find, h]
      · simp [assign, find, h, Ne.symm h]
    · by_cases h : a = j
      · subst a; simp [assign, find, ha]
      · simp [assign, find, ha, h, ih]

theorem filter_assign_self (k : K) (v : V) (xs : List (K × V)) :
    (assign k v xs).filter (fun e => decide (e.1 ≠ k)) = xs.filter (fun e => decide (e.1 ≠ k)) := by
  induction xs with
  | nil => simp [assign]
  | cons p rest ih =>
    obtain ⟨a, w⟩ := p
    by_cases h : a = k
    · simp [assign, h]
    · simp only [assign, h, ↓reduceIte, List.filter_cons, ih]

theorem assign_assign_self (k : K) (v w : V) (xs : List (K × V)) :
    assign k w (assign k v xs) = assign k w xs := by
  induction xs with
  | nil => simp [assign]
  | cons p rest ih =>
    obtain ⟨a, u⟩ := p
    by_cases h : a = k
    · simp [assign, h]
    · simp only [assign, h, ↓reduceIte, ih]

theorem assign_of_not_mem (k : K) (v : V) (xs : List (K × V)) (h : k ∉ xs.map Prod.fst) :
    assign k v xs = xs ++ [(k, v)] := by
  induction xs with
  | nil => rfl
  | cons p rest ih =>
    obtain ⟨a, w⟩ := p
    simp only [List.map_cons, List.mem_cons, not_or] at h
    simp only [assign, Ne.symm h.1, ↓reduceIte, ih h.2, List.cons_append]

theorem find_filter (p : K → Bool) (j : K) (xs : List (K × V)) :
    find j (xs.filter (fun e => p e.1)) = if p j then find j xs else none := by
  induction xs with
  | nil => simp [find]
  | cons e rest ih =>
    obtain ⟨a, w⟩ := e
    by_cases hp : p a
    · by_cases h : a = j
      · subst a; simp [find, hp]
      · simp [find, hp, h, ih]
    · by_cases h : a = j
      · subst a; simp [hp, ih]
      · simp [find, hp, h, ih]

theorem find_eq_some_iff (xs : List (K × V)) (h : (xs.map Prod.fst).Nodup) (k : K) (v : V) :
    find k xs = some v ↔ (k, v) ∈ xs := by
  induction xs with
  | nil => simp [find]
  | cons e rest ih =>
    obtain ⟨a, w⟩ := e
    rw [List.map_cons, List.nodup_cons] at h
    by_cases ha : a = k
    · subst a
      have hn : (k, v) ∉ rest := fun hm => h.1 (List.mem_map.mpr ⟨(k, v), hm, rfl⟩)
      simp [find, hn, eq_comm]
    · simp [find, ha, Ne.symm ha, ih h.2]

theorem mem_of_find {k : K} {v : V} {xs : List (K × V)} (h : find k xs = some v) : (k, v) ∈ xs := by
  induction xs with
  | nil => cases h
  | cons e rest ih =>
    rw [find] at h
    split at h
    · next ha =>
      cases h
      exact ha ▸ List.mem_cons_self
    · exact List.mem_cons_of_mem _ (ih h)

theorem find_isSome {k : K} {xs : List (K × V)} (h : k ∈ xs.map Prod.fst) :
    (find k xs).isSome := by
  induction xs with
  | nil => cases h
  | cons e rest ih =>
    rw [find]
    split
    · rfl
    · next ha => exact ih ((List.mem_cons.mp h).resolve_left (Ne.symm ha))

theorem find_eq_none {k : K} {xs : List (K × V)} (h : k ∉ xs.map Prod.fst) : find k xs = none := by
  cases hf : find k xs with
  | none => rfl
  | some v => exact absurd (List.mem_map.mpr ⟨(k, v), mem_of_find hf, rfl⟩) h

/-- The empty dictionary. -/
def empty : Dict K V := ⟨[], List.nodup_nil⟩

instance : EmptyCollection (Dict K V) := ⟨empty⟩

/-- The value of a key, `none` when the key is absent. -/
def get? (d : Dict K V) (k : K) : Option V := find k d.entries

/-- Assign to a key. -/
def set (d : Dict K V) (k : K) (v : V) : Dict K V :=
  ⟨assign k v d.entries, assign_nodup k v d.entries d.nodup⟩

/-- Keep the entries whose key satisfies a test. -/
def restrict (d : Dict K V) (p : K → Bool) : Dict K V :=
  ⟨d.entries.filter (fun e => p e.1),
    (List.Sublist.map Prod.fst List.filter_sublist).nodup d.nodup⟩

/-- Remove a key, present or not. -/
def erase (d : Dict K V) (k : K) : Dict K V := d.restrict (fun a => decide (a ≠ k))

/-- The dictionary of a list of assignments, made from left to right. -/
def ofList (xs : List (K × V)) : Dict K V := xs.foldl (fun d e => d.set e.1 e.2) ∅

/-- The keys in insertion order. -/
def keys (d : Dict K V) : List K := d.entries.map Prod.fst

omit [DecidableEq K] in
@[ext] theorem ext {d e : Dict K V} (h : d.entries = e.entries) : d = e := by
  cases d; cases e; cases h; rfl

@[simp] theorem get?_empty (k : K) : (∅ : Dict K V).get? k = none := rfl

@[simp] theorem get?_set (d : Dict K V) (k j : K) (v : V) :
    (d.set k v).get? j = if j = k then some v else d.get? j :=
  find_assign k j v d.entries

@[simp] theorem get?_restrict (d : Dict K V) (p : K → Bool) (j : K) :
    (d.restrict p).get? j = if p j then d.get? j else none :=
  find_filter p j d.entries

@[simp] theorem get?_erase (d : Dict K V) (k j : K) :
    (d.erase k).get? j = if j = k then none else d.get? j := by
  by_cases h : j = k <;> simp [erase, h]

theorem erase_set_self (d : Dict K V) (k : K) (v : V) : (d.set k v).erase k = d.erase k := by
  apply Dict.ext
  exact filter_assign_self k v d.entries

@[simp] theorem set_set_self (d : Dict K V) (k : K) (v w : V) : (d.set k v).set k w = d.set k w := by
  apply Dict.ext
  exact assign_assign_self k v w d.entries

theorem get?_eq_some_iff (d : Dict K V) (k : K) (v : V) :
    d.get? k = some v ↔ (k, v) ∈ d.entries :=
  find_eq_some_iff d.entries d.nodup k v

theorem erase_of_get?_eq_none (d : Dict K V) (k : K) (h : d.get? k = none) : d.erase k = d := by
  apply Dict.ext
  apply List.filter_eq_self.mpr
  intro e he
  rw [decide_eq_true_eq]
  intro hk
  have hsome := (get?_eq_some_iff d e.1 e.2).mpr he
  rw [hk, h] at hsome
  cases hsome

theorem foldl_set_entries (xs : List (K × V)) (d : Dict K V)
    (h : ((d.entries ++ xs).map Prod.fst).Nodup) :
    (xs.foldl (fun d e => d.set e.1 e.2) d).entries = d.entries ++ xs := by
  induction xs generalizing d with
  | nil => rw [List.foldl_nil, List.append_nil]
  | cons e rest ih =>
    have hfresh : e.1 ∉ d.entries.map Prod.fst := by
      intro hm
      rw [List.map_append, List.map_cons] at h
      exact List.disjoint_of_nodup_append h hm (List.mem_cons_self ..)
    have hset : (d.set e.1 e.2).entries = d.entries ++ [e] :=
      assign_of_not_mem e.1 e.2 d.entries hfresh
    rw [List.foldl_cons, ih, hset, List.append_assoc, List.singleton_append]
    rwa [hset, List.append_assoc, List.singleton_append]

theorem ofList_entries (d : Dict K V) : ofList d.entries = d := by
  apply Dict.ext
  exact foldl_set_entries d.entries ∅ d.nodup

theorem mem_keys_iff (d : Dict K V) (k : K) : k ∈ d.keys ↔ ∃ v, d.get? k = some v := by
  simp only [keys, List.mem_map, get?_eq_some_iff]
  constructor
  · rintro ⟨⟨a, v⟩, hm, rfl⟩
    exact ⟨v, hm⟩
  · rintro ⟨v, hm⟩
    exact ⟨(k, v), hm, rfl⟩

theorem get?_eq_none_iff (d : Dict K V) (k : K) : d.get? k = none ↔ k ∉ d.keys := by
  rw [mem_keys_iff]
  cases d.get? k <;> simp

theorem keys_set (d : Dict K V) {k : K} (v : V) (h : k ∈ d.keys) : (d.set k v).keys = d.keys := by
  have hk := assign_keys k v d.entries
  rw [if_pos (show k ∈ d.entries.map Prod.fst from h)] at hk
  exact hk

theorem keys_set_of_not_mem (d : Dict K V) {k : K} (v : V) (h : k ∉ d.keys) :
    (d.set k v).keys = d.keys ++ [k] := by
  have hk := assign_keys k v d.entries
  rw [if_neg (show k ∉ d.entries.map Prod.fst from h)] at hk
  exact hk

theorem keys_erase (d : Dict K V) (k : K) :
    (d.erase k).keys = d.keys.filter fun a => decide (a ≠ k) := by
  simp [keys, erase, restrict, List.filter_map, Function.comp_def]

theorem find_ext {xs ys : List (K × V)} (hxs : (xs.map Prod.fst).Nodup)
    (hkeys : xs.map Prod.fst = ys.map Prod.fst) (h : ∀ k, find k xs = find k ys) : xs = ys := by
  induction xs generalizing ys with
  | nil => exact (List.map_eq_nil_iff.mp hkeys.symm).symm
  | cons p xs ih =>
    obtain ⟨a, v⟩ := p
    cases ys with
    | nil => simp at hkeys
    | cons q ys =>
      obtain ⟨b, w⟩ := q
      rw [List.map_cons, List.map_cons, List.cons.injEq] at hkeys
      obtain ⟨rfl, hkeys⟩ := hkeys
      rw [List.map_cons, List.nodup_cons] at hxs
      have hv := h a
      simp only [find, ↓reduceIte, Option.some.injEq] at hv
      have hrest : ∀ k, find k xs = find k ys := by
        intro k
        by_cases hk : a = k
        · subst k
          rw [find_eq_none hxs.1, find_eq_none (hkeys ▸ hxs.1)]
        · simpa [find, hk] using h k
      rw [hv, ih hxs.2 hkeys hrest]

/-- A dictionary is its keys, in order, and what it holds for them. -/
theorem ext_get? {d e : Dict K V} (hkeys : d.keys = e.keys) (h : ∀ k, d.get? k = e.get? k) :
    d = e :=
  ext (find_ext d.nodup hkeys h)

/-! ### Lists as values -/

/-- `d.setdefault(k, []).append(v)`. -/
def push (d : Dict K (List V)) (k : K) (v : V) : Dict K (List V) :=
  d.set k ((d.get? k).getD [] ++ [v])

/-- The keys with each of their values. -/
def pairs (entries : List (K × List V)) : List (K × V) :=
  entries.flatMap fun e => e.2.map fun v => (e.1, v)

theorem pairs_assign (k : K) (v : V) (entries : List (K × List V)) :
    (pairs (assign k ((find k entries).getD [] ++ [v]) entries)).Perm
      (pairs entries ++ [(k, v)]) := by
  induction entries with
  | nil => rfl
  | cons e rest ih =>
    obtain ⟨a, vs⟩ := e
    by_cases ha : a = k
    · subst ha
      simp only [assign, find, if_true, Option.getD_some, pairs, List.flatMap_cons,
        List.map_append, List.append_assoc]
      exact (List.perm_append_comm).append_left _
    · simp only [assign, find, if_neg ha, pairs, List.flatMap_cons, List.append_assoc]
      exact ih.append_left _

theorem pairs_foldl_push {β : Type*} (f : β → K × V) (xs : List β) (d : Dict K (List V)) :
    (pairs (xs.foldl (fun d x => d.push (f x).1 (f x).2) d).entries).Perm
      (pairs d.entries ++ xs.map f) := by
  induction xs generalizing d with
  | nil => rw [List.foldl_nil, List.map_nil, List.append_nil]
  | cons x rest ih =>
    refine (ih _).trans ?_
    have := (pairs_assign (f x).1 (f x).2 d.entries).append_right (rest.map f)
    rwa [List.append_assoc] at this

theorem pairs_entries (d : Dict K (List V)) :
    pairs d.entries = d.keys.flatMap fun k => ((d.get? k).getD []).map fun v => (k, v) := by
  unfold pairs keys
  rw [List.flatMap_map]
  apply List.flatMap_congr
  intro e he
  have hget : d.get? e.1 = some e.2 := (d.get?_eq_some_iff e.1 e.2).mpr he
  rw [hget, Option.getD_some]

end Dict

end PipelineIQ.Lib
