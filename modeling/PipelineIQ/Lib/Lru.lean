import PipelineIQ.Lib.Dict

namespace PipelineIQ.Lib

variable {K V : Type*} [DecidableEq K] {bound : Nat}

/-- A dictionary of at most `bound` entries, the one used longest ago in front. -/
structure Lru (K V : Type*) [DecidableEq K] (bound : Nat) where
  dict : Dict K V
  bounded : dict.entries.length ≤ bound

namespace Lru

/-- Take entries off the front until no more than the bound are left. -/
def shrink (bound : Nat) : List (K × V) → List (K × V)
  | [] => []
  | e :: entries => if bound < (e :: entries).length then shrink bound entries else e :: entries

omit [DecidableEq K] in
theorem length_shrink_le (entries : List (K × V)) : (shrink bound entries).length ≤ bound := by
  induction entries with
  | nil => exact Nat.zero_le bound
  | cons e entries ih =>
    rw [shrink]
    split
    · exact ih
    · omega

omit [DecidableEq K] in
theorem shrink_suffix (entries : List (K × V)) : shrink bound entries <:+ entries := by
  induction entries with
  | nil => exact List.suffix_refl _
  | cons e entries ih =>
    rw [shrink]
    split
    · exact ih.trans (List.suffix_cons e entries)
    · exact List.suffix_refl _

/-- The entries with one key at the back. -/
def moveToEnd (d : Dict K V) (k : K) : Dict K V :=
  match d.get? k with
  | some v => (d.erase k).set k v
  | none => d

theorem mem_moveToEnd {d : Dict K V} {k : K} {e : K × V} :
    e ∈ (moveToEnd d k).entries ↔ e ∈ d.entries := by
  unfold moveToEnd
  cases hk : d.get? k with
  | none => rfl
  | some v =>
    obtain ⟨j, w⟩ := e
    rw [← Dict.get?_eq_some_iff, ← Dict.get?_eq_some_iff, Dict.get?_set, Dict.get?_erase]
    by_cases hj : j = k
    · subst hj
      simp [hk]
    · simp [hj]

theorem length_moveToEnd (d : Dict K V) (k : K) :
    (moveToEnd d k).entries.length = d.entries.length := by
  have hperm : (moveToEnd d k).entries.Perm d.entries :=
    (List.perm_ext_iff_of_nodup (moveToEnd d k).nodup.of_map d.nodup.of_map).mpr
      fun _ => mem_moveToEnd
  exact hperm.length_eq

theorem get?_moveToEnd (d : Dict K V) (k j : K) : (moveToEnd d k).get? j = d.get? j := by
  rw [moveToEnd]
  cases hk : d.get? k with
  | none => rfl
  | some v =>
    rw [Dict.get?_set, Dict.get?_erase]
    by_cases hj : j = k
    · rw [if_pos hj, hj, hk]
    · rw [if_neg hj, if_neg hj]

theorem keys_moveToEnd {d : Dict K V} {k : K} (h : k ∈ d.keys) :
    (moveToEnd d k).keys = d.keys.filter (· ≠ k) ++ [k] := by
  obtain ⟨v, hv⟩ := (d.mem_keys_iff k).mp h
  have hk : k ∉ (d.erase k).keys := by
    rw [← Dict.get?_eq_none_iff, Dict.get?_erase, if_pos rfl]
  rw [moveToEnd, hv]
  exact ((d.erase k).keys_set_of_not_mem v hk).trans (congrArg (· ++ [k]) (d.keys_erase k))

/-- The entries without the one in front. -/
def popFirst (d : Dict K V) : Dict K V where
  entries := d.entries.tail
  nodup := ((List.tail_sublist d.entries).map Prod.fst).nodup d.nodup

omit [DecidableEq K] in
theorem keys_popFirst (d : Dict K V) : (popFirst d).keys = d.keys.tail := List.map_tail

theorem get?_of_popFirst {d : Dict K V} {k : K} {v : V} (h : (popFirst d).get? k = some v) :
    d.get? k = some v := by
  rw [Dict.get?_eq_some_iff] at h ⊢
  exact List.mem_of_mem_tail h

def empty : Lru K V bound := ⟨∅, Nat.zero_le bound⟩

/-- Look a key up; one that is found becomes the one used last. -/
def get (c : Lru K V bound) (k : K) : Option V × Lru K V bound :=
  (c.dict.get? k, ⟨moveToEnd c.dict k, Nat.le_trans (Nat.le_of_eq (length_moveToEnd c.dict k)) c.bounded⟩)

def set (c : Lru K V bound) (k : K) (v : V) : Lru K V bound where
  dict :=
    { entries := shrink bound (moveToEnd (c.dict.set k v) k).entries
      nodup := ((shrink_suffix _).sublist.map Prod.fst).nodup (moveToEnd (c.dict.set k v) k).nodup }
  bounded := length_shrink_le _

def pop (c : Lru K V bound) (k : K) : Lru K V bound where
  dict := c.dict.erase k
  bounded := Nat.le_trans (List.length_filter_le _ _) c.bounded

/-- Every entry satisfies a property. -/
def All (P : K → V → Prop) (c : Lru K V bound) : Prop := ∀ e ∈ c.dict.entries, P e.1 e.2

variable {P : K → V → Prop} {c : Lru K V bound} {k : K} {v : V}

theorem all_empty : All P (empty : Lru K V bound) := fun _ h => nomatch h

theorem All.get_fst (h : All P c) (hget : (c.get k).1 = some v) : P k v :=
  h (k, v) ((Dict.get?_eq_some_iff _ _ _).mp hget)

theorem All.get_snd (h : All P c) : All P (c.get k).2 := fun e he => h e (mem_moveToEnd.mp he)

theorem All.set (h : All P c) (hv : P k v) : All P (c.set k v) := by
  rintro ⟨j, w⟩ he
  have hset := mem_moveToEnd.mp ((shrink_suffix _).subset he)
  rw [← Dict.get?_eq_some_iff, Dict.get?_set] at hset
  split at hset
  next hj =>
    cases hset
    exact hj ▸ hv
  next => exact h (j, w) ((Dict.get?_eq_some_iff _ _ _).mp hset)

theorem All.pop (h : All P c) : All P (c.pop k) := fun e he => h e (List.mem_filter.mp he).1

end Lru

end PipelineIQ.Lib
