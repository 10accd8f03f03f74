import Mathlib.Data.List.ProdSigma
import Mathlib.Data.List.Perm.Basic
import Mathlib.Tactic.Linarith
import Mathlib.Tactic.Push

namespace PipelineIQ.Lib.Joins

inductive JoinType where
  | inner | left | right | outer
  deriving DecidableEq, Repr

/-- Whether the left rows without a partner stay. -/
def JoinType.keepsLeft : JoinType → Bool
  | .left | .outer => true
  | _ => false

def JoinType.keepsRight : JoinType → Bool
  | .right | .outer => true
  | _ => false

variable {α β : Type} (on : α → β → Bool)

/-- The pairs that match; a row without a partner is paired with `none`. -/
def matched (left : List α) (right : List β) : List (Option α × Option β) :=
  left.flatMap fun l => (right.filter (on l)).map fun r => (some l, some r)

def leftOver (left : List α) (right : List β) : List (Option α × Option β) :=
  (left.filter fun l => !right.any (on l)).map fun l => (some l, none)

def rightOver (left : List α) (right : List β) : List (Option α × Option β) :=
  (right.filter fun r => !left.any fun l => on l r).map fun r => (none, some r)

def join (how : JoinType) (left : List α) (right : List β) : List (Option α × Option β) :=
  matched on left right ++ ((if how.keepsLeft then leftOver on left right else []) ++
    if how.keepsRight then rightOver on left right else [])

/-! ### Members -/

section Members

variable {on} {how : JoinType} {left : List α} {right : List β}

theorem left_of_mem_join {l : α} {o : Option β} (h : (some l, o) ∈ join on how left right) :
    l ∈ left ∧ (how.keepsLeft = true ∨ ∃ r ∈ right, on l r = true) := by
  simp only [join, List.mem_append, matched, List.mem_flatMap, List.mem_map, List.mem_filter,
    Prod.mk.injEq, Option.some.injEq] at h
  obtain ⟨l', hl, r, ⟨hr, hon⟩, rfl, -⟩ | h | h := h
  · exact ⟨hl, Or.inr ⟨r, hr, hon⟩⟩
  · split at h
    next hk =>
      simp only [leftOver, List.mem_map, List.mem_filter, Prod.mk.injEq, Option.some.injEq] at h
      obtain ⟨l', ⟨hl, -⟩, rfl, -⟩ := h
      exact ⟨hl, Or.inl hk⟩
    next => cases h
  · split at h
    · simp [rightOver] at h
    · cases h

theorem right_of_mem_join {r : β} {o : Option α} (h : (o, some r) ∈ join on how left right) :
    r ∈ right ∧ (how.keepsRight = true ∨ ∃ l ∈ left, on l r = true) := by
  simp only [join, List.mem_append, matched, List.mem_flatMap, List.mem_map, List.mem_filter,
    Prod.mk.injEq, Option.some.injEq] at h
  obtain ⟨l, hl, r', ⟨hr, hon⟩, -, rfl⟩ | h | h := h
  · exact ⟨hr, Or.inr ⟨l, hl, hon⟩⟩
  · split at h
    · simp [leftOver] at h
    · cases h
  · split at h
    next hk =>
      simp only [rightOver, List.mem_map, List.mem_filter, Prod.mk.injEq, Option.some.injEq] at h
      obtain ⟨r', ⟨hr, -⟩, -, rfl⟩ := h
      exact ⟨hr, Or.inl hk⟩
    next => cases h

/-- A left row that takes part is in some pair. -/
theorem left_mem_join {l : α} (hl : l ∈ left)
    (h : how.keepsLeft = true ∨ ∃ r ∈ right, on l r = true) :
    ∃ o, (some l, o) ∈ join on how left right ∧ ∀ r ∈ o, on l r = true := by
  by_cases hr : ∃ r ∈ right, on l r = true
  · obtain ⟨r, hr, hon⟩ := hr
    refine ⟨some r, List.mem_append_left _ ?_, by simpa using hon⟩
    exact List.mem_flatMap.mpr ⟨l, hl, List.mem_map_of_mem (List.mem_filter.mpr ⟨hr, hon⟩)⟩
  · have hk : how.keepsLeft = true := h.resolve_right hr
    refine ⟨none, List.mem_append_right _ (List.mem_append_left _ ?_), by simp⟩
    rw [if_pos hk]
    refine List.mem_map_of_mem (List.mem_filter.mpr ⟨hl, ?_⟩)
    simpa using hr

theorem right_mem_join {r : β} (hr : r ∈ right)
    (h : how.keepsRight = true ∨ ∃ l ∈ left, on l r = true) :
    ∃ o, (o, some r) ∈ join on how left right ∧ ∀ l ∈ o, on l r = true := by
  by_cases hl : ∃ l ∈ left, on l r = true
  · obtain ⟨l, hl, hon⟩ := hl
    refine ⟨some l, List.mem_append_left _ ?_, by simpa using hon⟩
    exact List.mem_flatMap.mpr ⟨l, hl, List.mem_map_of_mem (List.mem_filter.mpr ⟨hr, hon⟩)⟩
  · have hk : how.keepsRight = true := h.resolve_right hl
    refine ⟨none, List.mem_append_right _ (List.mem_append_right _ ?_), by simp⟩
    rw [if_pos hk]
    refine List.mem_map_of_mem (List.mem_filter.mpr ⟨hr, ?_⟩)
    simpa using hl

end Members

/-! ### Rewriting the condition and the rows -/

theorem any_congr {γ : Type} {rows : List γ} {p q : γ → Bool} (h : ∀ r ∈ rows, p r = q r) :
    rows.any p = rows.any q := by
  induction rows with
  | nil => rfl
  | cons r rows ih =>
    rw [List.any_cons, List.any_cons, h r List.mem_cons_self,
      ih fun r hr => h r (List.mem_cons_of_mem _ hr)]

section Rewriting

variable (how : JoinType)

theorem join_congr {on on' : α → β → Bool} {left : List α} {right : List β}
    (h : ∀ l ∈ left, ∀ r ∈ right, on l r = on' l r) :
    join on how left right = join on' how left right := by
  have hm : matched on left right = matched on' left right := by
    refine List.flatMap_congr fun l hl => ?_
    rw [List.filter_congr fun r hr => h l hl r hr]
  have hl : leftOver on left right = leftOver on' left right := by
    unfold leftOver
    rw [List.filter_congr fun l hl => ?_]
    rw [any_congr fun r hr => h l hl r hr]
  have hr : rightOver on left right = rightOver on' left right := by
    unfold rightOver
    rw [List.filter_congr fun r hr => ?_]
    rw [any_congr fun l hl => h l hl r hr]
  rw [join, join, hm, hl, hr]

variable {α' β' : Type} (f : α → α') (g : β → β')

theorem join_map (on : α' → β' → Bool) (left : List α) (right : List β) :
    join on how (left.map f) (right.map g) =
      (join (fun l r => on (f l) (g r)) how left right).map
        (Prod.map (Option.map f) (Option.map g)) := by
  have hm : matched on (left.map f) (right.map g) =
      (matched (fun l r => on (f l) (g r)) left right).map
        (Prod.map (Option.map f) (Option.map g)) := by
    simp [matched, List.flatMap_map, List.map_flatMap, List.filter_map, Function.comp_def]
  have hl : leftOver on (left.map f) (right.map g) =
      (leftOver (fun l r => on (f l) (g r)) left right).map
        (Prod.map (Option.map f) (Option.map g)) := by
    simp [leftOver, List.filter_map, Function.comp_def]
  have hr : rightOver on (left.map f) (right.map g) =
      (rightOver (fun l r => on (f l) (g r)) left right).map
        (Prod.map (Option.map f) (Option.map g)) := by
    simp [rightOver, List.filter_map, Function.comp_def]
  rw [join, join, hm, hl, hr, List.map_append, List.map_append]
  split <;> split <;> rfl

end Rewriting

/-! ### Splitting the tables -/

section Splitting

variable {on} (how : JoinType) {left : List α} {right : List β} {p : α → Bool} {q : β → Bool}

theorem matched_filter (h : ∀ l ∈ left, ∀ r ∈ right, on l r = true → p l = true → q r = true) :
    matched on (left.filter p) right = matched on (left.filter p) (right.filter q) := by
  refine List.flatMap_congr fun l hl => ?_
  rw [List.filter_filter]
  congr 1
  refine List.filter_congr fun r hr => ?_
  have := h l (List.mem_of_mem_filter hl) r hr
  have hp : p l = true := (List.mem_filter.mp hl).2
  cases hon : on l r <;> simp_all

theorem leftOver_filter (h : ∀ l ∈ left, ∀ r ∈ right, on l r = true → p l = true → q r = true) :
    leftOver on (left.filter p) right = leftOver on (left.filter p) (right.filter q) := by
  unfold leftOver
  congr 1
  refine List.filter_congr fun l hl => ?_
  have hp : p l = true := (List.mem_filter.mp hl).2
  rw [List.any_filter]
  congr 1
  refine any_congr fun r hr => ?_
  have := h l (List.mem_of_mem_filter hl) r hr
  cases hon : on l r <;> simp_all

theorem rightOver_filter (h : ∀ l ∈ left, ∀ r ∈ right, on l r = true → q r = true → p l = true) :
    rightOver on left (right.filter q) = rightOver on (left.filter p) (right.filter q) := by
  unfold rightOver
  congr 1
  refine List.filter_congr fun r hr => ?_
  have hq : q r = true := (List.mem_filter.mp hr).2
  rw [List.any_filter]
  congr 1
  refine any_congr fun l hl => ?_
  have := h l hl r (List.mem_of_mem_filter hr)
  cases hon : on l r <;> simp_all

theorem filter_perm (left : List α) (p : α → Bool) :
    left.Perm (left.filter p ++ left.filter fun l => !p l) :=
  (List.filter_append_perm p left).symm

theorem append_swap {γ : Type} {a a' b b' : List γ} :
    ((a ++ a') ++ (b ++ b')).Perm ((a ++ b) ++ (a' ++ b')) := by
  rw [List.append_assoc, List.append_assoc]
  exact (List.perm_append_comm_assoc a' b b').append_left a

variable (on left right p q) in
/-- Where rows match only within their class, the classes are joined one by one. -/
theorem join_split (h : ∀ l ∈ left, ∀ r ∈ right, on l r = true → p l = q r) :
    (join on how left right).Perm (join on how (left.filter p) (right.filter q) ++
      join on how (left.filter fun l => !p l) (right.filter fun r => !q r)) := by
  have hp : ∀ l ∈ left, ∀ r ∈ right, on l r = true → p l = true → q r = true :=
    fun l hl r hr hon => (h l hl r hr hon ▸ ·)
  have hq : ∀ l ∈ left, ∀ r ∈ right, on l r = true → q r = true → p l = true :=
    fun l hl r hr hon => (h l hl r hr hon ▸ ·)
  have hp' : ∀ l ∈ left, ∀ r ∈ right, on l r = true → (!p l) = true → (!q r) = true :=
    fun l hl r hr hon => (h l hl r hr hon ▸ ·)
  have hq' : ∀ l ∈ left, ∀ r ∈ right, on l r = true → (!q r) = true → (!p l) = true :=
    fun l hl r hr hon => (h l hl r hr hon ▸ ·)
  have hm : (matched on left right).Perm (matched on (left.filter p) (right.filter q) ++
      matched on (left.filter fun l => !p l) (right.filter fun r => !q r)) := by
    rw [← matched_filter hp, ← matched_filter hp', matched, matched, matched, ← List.flatMap_append]
    exact (filter_perm left p).flatMap_right _
  have hl : (leftOver on left right).Perm (leftOver on (left.filter p) (right.filter q) ++
      leftOver on (left.filter fun l => !p l) (right.filter fun r => !q r)) := by
    rw [← leftOver_filter hp, ← leftOver_filter hp', leftOver, leftOver, leftOver,
      ← List.map_append, ← List.filter_append]
    exact ((filter_perm left p).filter _).map _
  have hr : (rightOver on left right).Perm (rightOver on (left.filter p) (right.filter q) ++
      rightOver on (left.filter fun l => !p l) (right.filter fun r => !q r)) := by
    rw [← rightOver_filter hq, ← rightOver_filter hq', rightOver, rightOver, rightOver,
      ← List.map_append, ← List.filter_append]
    exact ((filter_perm right q).filter _).map _
  have hl' : (if how.keepsLeft then leftOver on left right else []).Perm
      ((if how.keepsLeft then leftOver on (left.filter p) (right.filter q) else []) ++
        if how.keepsLeft then
          leftOver on (left.filter fun l => !p l) (right.filter fun r => !q r) else []) := by
    split
    · exact hl
    · exact List.Perm.nil
  have hr' : (if how.keepsRight then rightOver on left right else []).Perm
      ((if how.keepsRight then rightOver on (left.filter p) (right.filter q) else []) ++
        if how.keepsRight then
          rightOver on (left.filter fun l => !p l) (right.filter fun r => !q r) else []) := by
    split
    · exact hr
    · exact List.Perm.nil
  exact (hm.append ((hl'.append hr').trans append_swap)).trans append_swap

end Splitting

/-! ### Rows of two parts -/

/-- Rows of two parts are the same rows when the pairs of the parts are. -/
theorem append_perm_iff {δ : Type} {n : Nat} {xs ys : List (List δ × List δ)}
    (hx : ∀ p ∈ xs, p.1.length = n) (hy : ∀ p ∈ ys, p.1.length = n) :
    (xs.map fun p => p.1 ++ p.2).Perm (ys.map fun p => p.1 ++ p.2) ↔ xs.Perm ys := by
  have hsplit : ∀ {zs : List (List δ × List δ)}, (∀ p ∈ zs, p.1.length = n) →
      (zs.map fun p => p.1 ++ p.2).map (fun row => (row.take n, row.drop n)) = zs := by
    intro zs hz
    rw [List.map_map]
    refine (List.map_congr_left fun p hp => ?_).trans (List.map_id zs)
    rw [Function.comp_apply, List.take_left' (hz p hp), List.drop_left' (hz p hp), id]
  constructor
  · intro hperm
    have := hperm.map fun row => (row.take n, row.drop n)
    rwa [hsplit hx, hsplit hy] at this
  · exact fun hperm => hperm.map _

/-! ### Every row matched with every row, or with none -/

theorem any_const {γ : Type} (b : Bool) {rows : List γ} (h : rows ≠ []) :
    (rows.any fun _ => b) = b := by
  obtain ⟨r, hr⟩ := List.exists_mem_of_ne_nil rows h
  cases b with
  | false => exact List.any_eq_false.mpr fun _ _ => Bool.false_ne_true
  | true => exact List.any_eq_true.mpr ⟨r, hr, rfl⟩

theorem join_never (how : JoinType) (left : List α) (right : List β) :
    join (fun _ _ => false) how left right =
      (if how.keepsLeft then left.map fun l => (some l, none) else []) ++
        if how.keepsRight then right.map fun r => (none, some r) else [] := by
  have hany : ∀ {γ : Type} (rows : List γ), (rows.any fun _ => false) = false :=
    fun rows => List.any_eq_false.mpr fun _ _ => Bool.false_ne_true
  simp [join, matched, leftOver, rightOver, hany]

theorem join_always {how : JoinType} {left : List α} {right : List β} (hl : left ≠ [])
    (hr : right ≠ []) :
    join (fun _ _ => true) how left right = left.map some ×ˢ right.map some := by
  simp [join, matched, leftOver, rightOver, any_const true hl, any_const true hr, SProd.sprod,
    List.product, List.flatMap_map, Function.comp_def]

section Crossing

variable {γ δ : Type} {A : List γ} {B : List δ} {a₀ : γ} {b₀ : δ}

theorem product_perm_left (hA : A ≠ []) :
    (A ×ˢ B).Perm (A.map fun a => (a, b₀)) ↔ B = [b₀] := by
  constructor
  · intro h
    have hlength : A.length * B.length = A.length * 1 := by
      simpa only [List.length_product, List.length_map, mul_one] using h.length_eq
    have hB : B.length = 1 := Nat.eq_of_mul_eq_mul_left (List.length_pos_iff.mpr hA) hlength
    obtain ⟨b, rfl⟩ := List.length_eq_one_iff.mp hB
    obtain ⟨a, ha⟩ := List.exists_mem_of_ne_nil A hA
    have hmem := h.subset (List.mem_product.mpr ⟨ha, List.mem_singleton_self b⟩)
    simp only [List.mem_map, Prod.mk.injEq] at hmem
    obtain ⟨-, -, -, rfl⟩ := hmem
    rfl
  · rintro rfl
    rw [List.map_eq_flatMap]
    rfl

theorem product_perm_swap (A : List γ) (B : List δ) :
    ((A ×ˢ B).map Prod.swap).Perm (B ×ˢ A) := by
  induction A with
  | nil => simp
  | cons a A ih =>
    rw [List.product_cons, List.map_append, List.map_map]
    exact (ih.append_left _).trans
      (List.map_append_flatMap_perm B (fun b => (b, a)) fun b => A.map fun a => (b, a))

theorem product_perm_right (hB : B ≠ []) :
    (A ×ˢ B).Perm (B.map fun b => (a₀, b)) ↔ A = [a₀] := by
  refine Iff.trans ?_ (product_perm_left hB)
  constructor
  · intro h
    have := (product_perm_swap A B).symm.trans (h.map Prod.swap)
    rwa [List.map_map] at this
  · intro h
    have := (product_perm_swap B A).symm.trans (h.map Prod.swap)
    rwa [List.map_map] at this

/-- A right row other than the blank one stands once among the left-overs, but in the product
once for each left row. -/
theorem product_perm_blank
    (h : (A ×ˢ B).Perm ((A.map fun a => (a, b₀)) ++ B.map fun b => (a₀, b))) :
    ∀ b ∈ B, b = b₀ := by
  classical
  by_contra hne
  push Not at hne
  obtain ⟨b, hb, hb₀⟩ := hne
  have hlength : A.length * B.length = A.length + B.length := by
    simpa only [List.length_product, List.length_append, List.length_map] using h.length_eq
  have hright := ((h.map Prod.snd).filter (· ≠ b₀)).length_eq
  have hproduct : (A ×ˢ B).map Prod.snd = A.flatMap fun _ => B := by
    simp [SProd.sprod, List.product, List.map_flatMap, Function.comp_def]
  have hcount : A.length * (B.filter (· ≠ b₀)).length = 1 * (B.filter (· ≠ b₀)).length := by
    rw [hproduct] at hright
    simpa [List.filter_flatMap, List.length_flatMap, Function.comp_def] using hright
  have hpos : 0 < (B.filter (· ≠ b₀)).length :=
    List.length_pos_of_mem (List.mem_filter.mpr ⟨hb, by simpa using hb₀⟩)
  have hone : A.length = 1 := Nat.eq_of_mul_eq_mul_right hpos hcount
  rw [hone] at hlength
  omega

theorem product_perm_both (hA : A ≠ []) (hB : B ≠ []) :
    (A ×ˢ B).Perm ((A.map fun a => (a, b₀)) ++ B.map fun b => (a₀, b)) ↔
      A = [a₀, a₀] ∧ B = [b₀, b₀] := by
  constructor
  · intro h
    have hswap : (B ×ˢ A).Perm ((B.map fun b => (b, a₀)) ++ A.map fun a => (b₀, a)) := by
      have := (product_perm_swap A B).symm.trans (h.map Prod.swap)
      rw [List.map_append, List.map_map, List.map_map] at this
      exact this.trans List.perm_append_comm
    have hlength : A.length * B.length = A.length + B.length := by
      simpa only [List.length_product, List.length_append, List.length_map] using h.length_eq
    have hApos := List.length_pos_iff.mpr hA
    have hBpos := List.length_pos_iff.mpr hB
    have htwo : A.length = 2 ∧ B.length = 2 := by
      obtain ⟨a, ha⟩ := Nat.exists_eq_add_of_lt hApos
      obtain ⟨b, hb⟩ := Nat.exists_eq_add_of_lt hBpos
      rw [ha, hb] at hlength
      have hab : a * b = 1 := by nlinarith
      have := Nat.eq_one_of_mul_eq_one_right hab
      have := Nat.eq_one_of_mul_eq_one_left hab
      omega
    exact ⟨List.eq_replicate_iff.mpr ⟨htwo.1, product_perm_blank hswap⟩,
      List.eq_replicate_iff.mpr ⟨htwo.2, product_perm_blank h⟩⟩
  · rintro ⟨rfl, rfl⟩
    exact List.Perm.refl _

/-- Whether it makes no difference that every row is matched with every other one. -/
def Indifferent (how : JoinType) (A : List γ) (B : List δ) (a₀ : γ) (b₀ : δ) : Prop :=
  A = [] ∨ B = [] ∨ match how with
    | .inner => False
    | .left => B = [b₀]
    | .right => A = [a₀]
    | .outer => A = [a₀, a₀] ∧ B = [b₀, b₀]

theorem join_always_perm_never (how : JoinType) (left : List α) (right : List β)
    (g : Option α → γ) (h : Option β → δ) :
    ((join (fun _ _ => true) how left right).map (Prod.map g h)).Perm
        ((join (fun _ _ => false) how left right).map (Prod.map g h)) ↔
      Indifferent how (left.map fun l => g (some l)) (right.map fun r => h (some r))
        (g none) (h none) := by
  rcases eq_or_ne left [] with rfl | hl
  · simp [Indifferent, join, matched, leftOver, rightOver]
  rcases eq_or_ne right [] with rfl | hr
  · simp [Indifferent, join, matched, leftOver, rightOver]
  have hA : left.map (fun l => g (some l)) ≠ [] := by simpa using hl
  have hB : right.map (fun r => h (some r)) ≠ [] := by simpa using hr
  have hproduct : (left.map some ×ˢ right.map some).map (Prod.map g h) =
      left.map (fun l => g (some l)) ×ˢ right.map fun r => h (some r) := by
    simp [SProd.sprod, List.product, List.map_flatMap, List.flatMap_map, Function.comp_def]
  rw [join_always hl hr, join_never, hproduct]
  cases how with
  | inner =>
    have hne : (left.map (fun l => g (some l)) ×ˢ right.map fun r => h (some r)).length ≠ 0 := by
      rw [List.length_product]
      exact Nat.mul_ne_zero (by simpa using hl) (by simpa using hr)
    rw [Indifferent, or_iff_right hA, or_iff_right hB, iff_false]
    intro hperm
    exact hne hperm.length_eq
  | left =>
    rw [Indifferent, or_iff_right hA, or_iff_right hB, ← product_perm_left hA]
    simp [JoinType.keepsLeft, JoinType.keepsRight, Function.comp_def]
  | right =>
    rw [Indifferent, or_iff_right hA, or_iff_right hB, ← product_perm_right hB]
    simp [JoinType.keepsLeft, JoinType.keepsRight, Function.comp_def]
  | outer =>
    rw [Indifferent, or_iff_right hA, or_iff_right hB, ← product_perm_both hA hB]
    simp [JoinType.keepsLeft, JoinType.keepsRight, Function.comp_def]

end Crossing

end PipelineIQ.Lib.Joins
