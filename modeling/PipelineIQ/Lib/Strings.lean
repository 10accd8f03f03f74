import Mathlib.Data.List.DropRight

namespace PipelineIQ.Lib.Strings

/-- A string as the list of its code points. -/
abbrev Text := List Char

instance : LawfulBEq Text := inferInstance

/-- The characters that `str.isspace` and the class `\s` accept. -/
def isSpace (c : Char) : Bool :=
  let n := c.toNat
  (9 ≤ n && n ≤ 13) || (28 ≤ n && n ≤ 32) || n == 0x85 || n == 0xA0 || n == 0x1680 ||
    (0x2000 ≤ n && n ≤ 0x200A) || n == 0x2028 || n == 0x2029 || n == 0x202F || n == 0x205F ||
    n == 0x3000

def lowerCase (s : Text) : Text := s.map Char.toLower

def strip (s : Text) : Text := (s.dropWhile isSpace).rdropWhile isSpace

/-- Whether a text occurs in another one. -/
def occurs (needle : Text) : Text → Bool
  | [] => needle.isEmpty
  | c :: s => needle.isPrefixOf (c :: s) || occurs needle s

/-- Replace every occurrence, from the left; `covered` characters belong to the last one. -/
def replaceFrom (old new : Text) : Nat → Text → Text
  | _, [] => []
  | covered + 1, _ :: s => replaceFrom old new covered s
  | 0, c :: s =>
    if old.isPrefixOf (c :: s) then new ++ replaceFrom old new (old.length - 1) s
    else c :: replaceFrom old new 0 s

def replace (old new s : Text) : Text := replaceFrom old new 0 s

/-! ### Replacing -/

section Replace

variable {old new s : Text}

theorem replaceFrom_covered (k : Nat) :
    replaceFrom old new k s = replaceFrom old new 0 (s.drop k) := by
  induction s generalizing k with
  | nil => cases k <;> rfl
  | cons c s ih =>
    cases k with
    | zero => rfl
    | succ k => exact ih k

/-- A text that does not occur is not replaced. -/
theorem replace_of_not_occurs (h : occurs old s = false) : replace old new s = s := by
  unfold replace
  induction s with
  | nil => rfl
  | cons c s ih =>
    rw [occurs, Bool.or_eq_false_iff] at h
    rw [replaceFrom, if_neg (by simp [h.1]), ih h.2]

variable {q : Char}

theorem count_replaceFrom_le (hnew : q ∉ new) (k : Nat) :
    (replaceFrom old new k s).count q ≤ s.count q := by
  induction s generalizing k with
  | nil => cases k <;> exact le_refl _
  | cons c s ih =>
    cases k with
    | succ k =>
      rw [replaceFrom]
      exact (ih k).trans ((List.sublist_cons_self c s).count_le q)
    | zero =>
      rw [replaceFrom]
      split
      · rw [List.count_append, List.count_eq_zero.mpr hnew, Nat.zero_add]
        exact (ih _).trans ((List.sublist_cons_self c s).count_le q)
      · rw [List.count_cons, List.count_cons]
        exact Nat.add_le_add_right (ih 0) _

theorem count_replace_le (hnew : q ∉ new) : (replace old new s).count q ≤ s.count q :=
  count_replaceFrom_le hnew 0

/-- Each replacement takes the characters away that the new text has not. -/
theorem count_replace_lt (hold : q ∈ old) (hnew : q ∉ new) (h : occurs old s = true) :
    (replace old new s).count q < s.count q := by
  unfold replace
  induction s with
  | nil =>
    rw [occurs, List.isEmpty_iff] at h
    subst h
    cases hold
  | cons c s ih =>
    rw [replaceFrom]
    split
    · next hprefix =>
      obtain ⟨rest, hrest⟩ := List.isPrefixOf_iff_prefix.mp hprefix
      have hdrop : s.drop (old.length - 1) = rest := by
        cases old with
        | nil => cases hold
        | cons o old =>
          rw [List.cons_append, List.cons.injEq] at hrest
          rw [← hrest.2]
          exact List.drop_left
      rw [← hrest, List.count_append, List.count_append, List.count_eq_zero.mpr hnew,
        replaceFrom_covered, hdrop]
      have hone : 0 < old.count q := List.count_pos_iff.mpr hold
      have hle : (replaceFrom old new 0 rest).count q ≤ rest.count q := count_replaceFrom_le hnew 0
      omega
    · next hprefix =>
      rw [occurs, Bool.or_eq_true] at h
      rw [List.count_cons, List.count_cons]
      exact Nat.add_lt_add_right (ih (h.resolve_left hprefix)) _

/-- A text occurs only where its first character does. -/
theorem occurs_append_of_not_mem {p : Char} {ps a : Text} (h : p ∉ a) (b : Text) :
    occurs (p :: ps) (a ++ b) = occurs (p :: ps) b := by
  induction a with
  | nil => rfl
  | cons c a ih =>
    rw [List.mem_cons, not_or] at h
    rw [List.cons_append, occurs, ih h.2, List.isPrefixOf, beq_eq_false_iff_ne.mpr h.1]
    rfl

end Replace

/-! ### Cutting at a mark -/

section Cut

variable {mark : Char} {s s' t t' : Text}

theorem ne_of_notMem (h : mark ∉ s) {c : Char} (hc : c ∈ s) : decide (c ≠ mark) = true := by
  apply decide_eq_true
  rintro rfl
  exact h hc

theorem takeWhile_append_mark (hs : mark ∉ s) : (s ++ mark :: t).takeWhile (· ≠ mark) = s := by
  rw [List.takeWhile_append_of_pos fun c hc => ne_of_notMem hs hc]
  simp

theorem rtakeWhile_append_mark (ht : mark ∉ t) : (s ++ mark :: t).rtakeWhile (· ≠ mark) = t := by
  rw [List.rtakeWhile, List.reverse_append, List.reverse_cons, List.append_assoc,
    List.singleton_append, takeWhile_append_mark fun h => ht (List.mem_reverse.mp h),
    List.reverse_reverse]

theorem rdropWhile_append_mark (ht : mark ∉ t) :
    (s ++ mark :: t).rdropWhile (· ≠ mark) = s ++ [mark] := by
  apply @List.append_cancel_right _ _ t _
  calc (s ++ mark :: t).rdropWhile (· ≠ mark) ++ t
      = (s ++ mark :: t).rdropWhile (· ≠ mark) ++ (s ++ mark :: t).rtakeWhile (· ≠ mark) := by
        rw [rtakeWhile_append_mark ht]
    _ = s ++ mark :: t := List.rdropWhile_append_rtakeWhile
    _ = s ++ [mark] ++ t := by rw [List.append_assoc, List.singleton_append]

/-- The part of a text before its first mark is known. -/
theorem append_first_inj (hs : mark ∉ s) (hs' : mark ∉ s') (h : s ++ mark :: t = s' ++ mark :: t') :
    s = s' ∧ t = t' := by
  have heq : s = s' := by rw [← takeWhile_append_mark hs, h, takeWhile_append_mark hs']
  subst heq
  exact ⟨rfl, (List.cons.inj (List.append_cancel_left h)).2⟩

/-- The part of a text behind its last mark is known. -/
theorem append_last_inj (ht : mark ∉ t) (ht' : mark ∉ t') (h : s ++ mark :: t = s' ++ mark :: t') :
    s = s' ∧ t = t' := by
  have heq : t = t' := by rw [← rtakeWhile_append_mark ht, h, rtakeWhile_append_mark ht']
  subst heq
  exact ⟨List.append_cancel_right h, rfl⟩

end Cut

theorem strip_eq (s : Text) : ∃ before after, s = before ++ strip s ++ after ∧
    (∀ c ∈ before, isSpace c = true) ∧ ∀ c ∈ after, isSpace c = true := by
  refine ⟨s.takeWhile isSpace, (s.dropWhile isSpace).rtakeWhile isSpace, ?_, ?_, ?_⟩
  · rw [List.append_assoc, strip, List.rdropWhile_append_rtakeWhile,
      List.takeWhile_append_dropWhile]
  · intro c hc
    exact List.mem_takeWhile_imp hc
  · intro c hc
    exact List.mem_rtakeWhile_imp hc

theorem isDigit_iff {c : Char} : c.isDigit = true ↔ 48 ≤ c.toNat ∧ c.toNat ≤ 57 := by
  simp only [Char.isDigit, Bool.and_eq_true, decide_eq_true_eq, ge_iff_le, UInt32.le_iff_toNat_le]
  rfl

theorem isAlpha_iff {c : Char} : c.isAlpha = true ↔
    (65 ≤ c.toNat ∧ c.toNat ≤ 90) ∨ (97 ≤ c.toNat ∧ c.toNat ≤ 122) := by
  delta Char.isAlpha Char.isUpper Char.isLower
  simp only [Bool.or_eq_true, Bool.and_eq_true, decide_eq_true_eq, ge_iff_le,
    UInt32.le_iff_toNat_le]
  rfl

/-- Only letters change in lower case. -/
theorem toLower_eq_or_isAlpha (c : Char) : c.toLower = c ∨ c.isAlpha = true := by
  unfold Char.toLower
  split
  · next h =>
    refine .inr (isAlpha_iff.mpr (.inl ?_))
    simp only [ge_iff_le, UInt32.le_iff_toNat_le] at h
    exact h
  · exact .inl rfl

/-- No white space below the first control character beyond ASCII but these. -/
theorem toNat_of_isSpace {c : Char} (h : isSpace c = true) :
    (9 ≤ c.toNat ∧ c.toNat ≤ 13) ∨ (28 ≤ c.toNat ∧ c.toNat ≤ 32) ∨ 133 ≤ c.toNat := by
  simp only [isSpace, Bool.or_eq_true, Bool.and_eq_true, decide_eq_true_eq, beq_iff_eq] at h
  omega

theorem isDigit_of_isSpace {c : Char} (h : isSpace c = true) : c.isDigit = false := by
  have hn := toNat_of_isSpace h
  by_contra hd
  rw [Bool.not_eq_false, isDigit_iff] at hd
  omega

theorem isAlpha_of_isSpace {c : Char} (h : isSpace c = true) : c.isAlpha = false := by
  have hn := toNat_of_isSpace h
  by_contra hd
  rw [Bool.not_eq_false, isAlpha_iff] at hd
  omega

/-- A text is cut at the last of its marks in one way only. -/
theorem append_mark_inj {mark : Char} {a b s t : Text} (hs : mark ∉ s) (ht : mark ∉ t)
    (h : a ++ mark :: s = b ++ mark :: t) : a = b ∧ s = t := by
  have htake : ∀ {a s : Text}, mark ∉ s →
      (a ++ mark :: s).reverse.takeWhile (fun c => decide (c ≠ mark)) = s.reverse := by
    intro a s hs
    rw [List.reverse_append, List.reverse_cons, List.append_assoc,
      List.takeWhile_append_of_pos fun c hc => decide_eq_true ?_]
    · simp
    · rintro rfl
      exact hs (List.mem_reverse.mp hc)
  have hboth := htake (a := a) hs
  rw [h, htake ht] at hboth
  have hst := (List.reverse_inj.mp hboth).symm
  subst hst
  exact ⟨List.append_cancel_right h, rfl⟩

end PipelineIQ.Lib.Strings
