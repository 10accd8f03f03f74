import Mathlib.Data.List.Forall2

namespace PipelineIQ.Lib.Traverse

variable {α β ε σ : Type}

/-! Traversals in `Except` and `Option`, read as relations between the lists. -/

theorem mapM_ok_iff {f : α → Except ε β} {xs : List α} {ys : List β} :
    xs.mapM f = .ok ys ↔ List.Forall₂ (fun x y => f x = .ok y) xs ys := by
  induction xs generalizing ys with
  | nil => simp [pure, Except.pure, eq_comm]
  | cons x xs ih =>
    rw [List.mapM_cons, List.forall₂_cons_left_iff]
    cases hx : f x with
    | error e => simp [bind, Except.bind]
    | ok y =>
      cases hxs : xs.mapM f with
      | error e =>
        constructor
        · intro h
          simp [bind, Except.bind] at h
        · rintro ⟨z, zs, -, hzs, -⟩
          rw [← ih, hxs] at hzs
          cases hzs
      | ok ys' =>
        constructor
        · intro h
          cases h
          exact ⟨y, ys', rfl, ih.mp hxs, rfl⟩
        · rintro ⟨z, zs, hz, hzs, rfl⟩
          cases hz
          rw [← ih, hxs] at hzs
          cases hzs
          rfl

theorem exists_mapM_ok {f : α → Except ε β} {xs : List α} (h : ∀ x ∈ xs, ∃ y, f x = .ok y) :
    ∃ ys, xs.mapM f = .ok ys := by
  induction xs with
  | nil => exact ⟨[], rfl⟩
  | cons x xs ih =>
    obtain ⟨y, hy⟩ := h x List.mem_cons_self
    obtain ⟨ys, hys⟩ := ih fun x' hx' => h x' (List.mem_cons_of_mem x hx')
    refine ⟨y :: ys, ?_⟩
    rw [List.mapM_cons, hy, hys]
    rfl

theorem mapM_some_iff {f : α → Option β} {xs : List α} {ys : List β} :
    xs.mapM f = some ys ↔ List.Forall₂ (fun x y => f x = some y) xs ys := by
  induction xs generalizing ys with
  | nil => simp [pure, eq_comm]
  | cons x xs ih =>
    rw [List.mapM_cons, List.forall₂_cons_left_iff]
    cases hx : f x with
    | none => simp
    | some y =>
      cases hxs : xs.mapM f with
      | none =>
        constructor
        · intro h
          simp at h
        · rintro ⟨z, zs, -, hzs, -⟩
          rw [← ih, hxs] at hzs
          cases hzs
      | some ys' =>
        constructor
        · intro h
          cases h
          exact ⟨y, ys', rfl, ih.mp hxs, rfl⟩
        · rintro ⟨z, zs, hz, hzs, rfl⟩
          cases hz
          rw [← ih, hxs] at hzs
          cases hzs
          rfl

theorem map_eq_of_mapM {f : α → Option β} {xs : List α} {ys : List β} (h : xs.mapM f = some ys) :
    xs.map f = ys.map some := by
  rw [mapM_some_iff] at h
  induction h with
  | nil => rfl
  | cons hx _ ih => rw [List.map_cons, List.map_cons, hx, ih]

theorem mapM_isSome_iff {f : α → Option β} {xs : List α} :
    (xs.mapM f).isSome ↔ ∀ x ∈ xs, (f x).isSome := by
  induction xs with
  | nil => simp [pure]
  | cons x xs ih =>
    rw [List.mapM_cons, List.forall_mem_cons, ← ih]
    cases f x with
    | none => simp
    | some y => cases xs.mapM f <;> simp

/-- Run all of them and join their results. -/
def collect (cs : List (Option (List α))) : Option (List α) := (cs.mapM id).map List.flatten

theorem collect_isSome_iff {cs : List (Option (List α))} :
    (collect cs).isSome ↔ ∀ c ∈ cs, c.isSome := by
  rw [collect, Option.isSome_map]
  exact mapM_isSome_iff

theorem collect_nil_iff {cs : List (Option (List α))} :
    collect cs = some [] ↔ ∀ c ∈ cs, c = some [] := by
  induction cs with
  | nil => simp [collect, pure]
  | cons c cs ih =>
    rw [List.forall_mem_cons, ← ih]
    cases c with
    | none => simp [collect]
    | some xs =>
      rw [collect, collect, List.mapM_cons]
      cases cs.mapM id with
      | none => simp
      | some ys => simp

theorem bind_ok {x : Except ε α} {f : α → Except ε β} {y : β} (h : x >>= f = .ok y) :
    ∃ a, x = .ok a ∧ f a = .ok y := by
  cases x with
  | error e => cases h
  | ok a => exact ⟨a, rfl, h⟩

theorem bind_error {x : Except ε α} {f : α → Except ε β} {e : ε} (h : x >>= f = .error e) :
    x = .error e ∨ ∃ a, x = .ok a ∧ f a = .error e := by
  cases x with
  | error e' =>
    cases h
    exact .inl rfl
  | ok a => exact .inr ⟨a, rfl, h⟩

/-- A fold that fails does so at one element, after it has taken in those before. -/
theorem foldlM_error {f : σ → α → Except ε σ} {s : σ} {xs : List α} {e : ε}
    (h : xs.foldlM f s = .error e) :
    ∃ i, ∃ hi : i < xs.length, ∃ t, (xs.take i).foldlM f s = .ok t ∧ f t xs[i] = .error e := by
  induction xs generalizing s with
  | nil => cases h
  | cons x xs ih =>
    rw [List.foldlM_cons] at h
    rcases bind_error h with hx | ⟨u, hu, hrest⟩
    · exact ⟨0, Nat.zero_lt_succ _, s, rfl, hx⟩
    · obtain ⟨i, hi, t, ht, he⟩ := ih hrest
      refine ⟨i + 1, Nat.succ_lt_succ hi, t, ?_, he⟩
      rw [List.take_succ_cons, List.foldlM_cons, hu]
      exact ht

theorem foldlM_cons_ok_iff {f : σ → α → Except ε σ} {s t : σ} {x : α} {xs : List α} :
    (x :: xs).foldlM f s = .ok t ↔ ∃ u, f s x = .ok u ∧ xs.foldlM f u = .ok t := by
  rw [List.foldlM_cons]
  cases f s x <;> simp [bind, Except.bind]

/-- Replacing one element on both sides keeps a relation between two lists. -/
theorem forall₂_set {R : α → β → Prop} {xs : List α} {ys : List β} (h : List.Forall₂ R xs ys)
    (i : Nat) {x : α} {y : β} (hxy : R x y) : List.Forall₂ R (xs.set i x) (ys.set i y) := by
  induction h generalizing i with
  | nil => exact .nil
  | cons hab hs ih =>
    cases i with
    | zero => exact .cons hxy hs
    | succ i => exact .cons hab (ih i)

theorem forall₂_mem_left {R : α → β → Prop} {xs : List α} {ys : List β} (h : List.Forall₂ R xs ys)
    {x : α} (hx : x ∈ xs) : ∃ y ∈ ys, R x y := by
  induction h with
  | nil => cases hx
  | cons hab _ ih =>
    cases hx with
    | head => exact ⟨_, List.mem_cons_self, hab⟩
    | tail _ hx =>
      obtain ⟨y, hy, hr⟩ := ih hx
      exact ⟨y, List.mem_cons_of_mem _ hy, hr⟩

theorem forall₂_mem_right {R : α → β → Prop} {xs : List α} {ys : List β} (h : List.Forall₂ R xs ys)
    {y : β} (hy : y ∈ ys) : ∃ x ∈ xs, R x y :=
  forall₂_mem_left (List.Forall₂.flip (R := fun y x => R x y) h) hy

theorem forall₂_both {R S : α → β → Prop} {xs : List α} {ys : List β} (hr : List.Forall₂ R xs ys)
    (hs : List.Forall₂ S xs ys) : List.Forall₂ (fun x y => R x y ∧ S x y) xs ys := by
  induction hr with
  | nil => exact .nil
  | cons hxy _ ih =>
    cases hs with
    | cons hxy' hs => exact .cons ⟨hxy, hxy'⟩ (ih hs)

theorem exists_forall₂ {R : α → β → Prop} {xs : List α} (h : ∀ x ∈ xs, ∃ y, R x y) :
    ∃ ys, List.Forall₂ R xs ys := by
  induction xs with
  | nil => exact ⟨[], .nil⟩
  | cons x xs ih =>
    obtain ⟨y, hy⟩ := h x List.mem_cons_self
    obtain ⟨ys, hys⟩ := ih fun x' hx' => h x' (List.mem_cons_of_mem x hx')
    exact ⟨y :: ys, .cons hy hys⟩

theorem filterMap_eq_of_forall₂ {γ : Type} {R : α → β → Prop} {xs : List α} {ys : List β}
    (h : List.Forall₂ R xs ys) {f : α → Option γ} {g : β → Option γ}
    (hfg : ∀ x y, R x y → f x = g y) : xs.filterMap f = ys.filterMap g := by
  induction h with
  | nil => rfl
  | cons hxy _ ih => rw [List.filterMap_cons, List.filterMap_cons, hfg _ _ hxy, ih]

theorem map_eq_of_forall₂ {γ : Type} {R : α → β → Prop} {xs : List α} {ys : List β}
    (h : List.Forall₂ R xs ys) {f : α → γ} {g : β → γ} (hfg : ∀ x y, R x y → f x = g y) :
    xs.map f = ys.map g := by
  rw [← List.filterMap_eq_map, ← List.filterMap_eq_map]
  exact filterMap_eq_of_forall₂ h fun x y hxy => congrArg some (hfg x y hxy)

/-- What is collected comes from one of them. -/
theorem mem_collect {cs : List (Option (List α))} {ys : List α} (h : collect cs = some ys) (y : α) :
    y ∈ ys ↔ ∃ xs, some xs ∈ cs ∧ y ∈ xs := by
  obtain ⟨yss, hyss, rfl⟩ := Option.map_eq_some_iff.mp h
  have hrel := mapM_some_iff.mp hyss
  rw [List.mem_flatten]
  constructor
  · rintro ⟨xs, hxs, hy⟩
    obtain ⟨c, hc, hcx⟩ := forall₂_mem_right hrel hxs
    exact ⟨xs, hcx ▸ hc, hy⟩
  · rintro ⟨xs, hxs, hy⟩
    obtain ⟨zs, hzs, hcz⟩ := forall₂_mem_left hrel hxs
    cases hcz
    exact ⟨xs, hzs, hy⟩

theorem forall₂_getElem? {R : α → β → Prop} {xs : List α} {ys : List β}
    (h : List.Forall₂ R xs ys) {i : Nat} {x : α} (hx : xs[i]? = some x) :
    ∃ y, ys[i]? = some y ∧ R x y := by
  induction h generalizing i with
  | nil => simp at hx
  | cons hab hs ih =>
    cases i with
    | zero =>
      cases hx
      exact ⟨_, rfl, hab⟩
    | succ i => exact ih hx

theorem forall₂_imp_of_mem {R R' : α → β → Prop} {xs : List α} {ys : List β}
    (h : List.Forall₂ R xs ys) (himp : ∀ x ∈ xs, ∀ y, R x y → R' x y) : List.Forall₂ R' xs ys := by
  induction h with
  | nil => exact .nil
  | cons hxy _ ih =>
    exact .cons (himp _ List.mem_cons_self _ hxy)
      (ih fun x hx => himp x (List.mem_cons_of_mem _ hx))

theorem forall₂_of_zipIdx {R : α × Nat → β → Prop} {xs : List α} {ys : List β} {n : Nat}
    (h : List.Forall₂ R (xs.zipIdx n) ys) : List.Forall₂ (fun x y => ∃ i, R (x, i) y) xs ys := by
  induction xs generalizing ys n with
  | nil =>
    cases h
    exact .nil
  | cons x xs ih =>
    rw [List.zipIdx_cons] at h
    cases h with
    | cons hxy hrest => exact .cons ⟨n, hxy⟩ (ih hrest)

end PipelineIQ.Lib.Traverse
