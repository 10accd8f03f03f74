import Mathlib.Data.List.Basic

namespace PipelineIQ.Lib.Scan

/-- One move of a scanner: where it goes on, how many characters after the present one
it covers too, and what it puts out. -/
structure Move (σ β : Type*) where
  next : σ
  covers : Nat := 0
  output : List β

/-- A scanner that reads a text from left to right and may look ahead. -/
structure Scanner (σ α β : Type*) where
  move : σ → α → List α → Move σ β
  covered : α → List β

/-- The state of a scanner and the number of characters that its last move still covers. -/
@[ext] structure Config (σ : Type*) where
  pending : Nat := 0
  state : σ

variable {σ τ α β γ : Type*}

/-- Scan a text that `tail` follows. -/
@[grind =] def run (m : Scanner σ α β) (tail : List α) : Config σ → List α → Config σ × List β
  | c, [] => (c, [])
  | ⟨k + 1, s⟩, a :: rest =>
    let r := run m tail ⟨k, s⟩ rest
    (r.1, m.covered a ++ r.2)
  | ⟨0, s⟩, a :: rest =>
    let v := m.move s a (rest ++ tail)
    let r := run m tail ⟨v.covers, v.next⟩ rest
    (r.1, v.output ++ r.2)

/-- Every move the scanner makes on the text meets the guard. -/
@[grind =] def Along (m : Scanner σ α β) (guard : σ → α → List α → Prop) (tail : List α) :
    Config σ → List α → Prop
  | _, [] => True
  | ⟨k + 1, s⟩, _ :: rest => Along m guard tail ⟨k, s⟩ rest
  | ⟨0, s⟩, a :: rest =>
    guard s a (rest ++ tail) ∧
      Along m guard tail ⟨(m.move s a (rest ++ tail)).covers, (m.move s a (rest ++ tail)).next⟩ rest

instance decidableAlong (m : Scanner σ α β) (guard : σ → α → List α → Prop)
    [∀ s a rest, Decidable (guard s a rest)] (tail : List α) :
    ∀ (c : Config σ) (x : List α), Decidable (Along m guard tail c x)
  | _, [] => isTrue trivial
  | ⟨k + 1, s⟩, _ :: rest => decidableAlong m guard tail ⟨k, s⟩ rest
  | ⟨0, s⟩, a :: rest =>
    haveI := decidableAlong m guard tail
      ⟨(m.move s a (rest ++ tail)).covers, (m.move s a (rest ++ tail)).next⟩ rest
    inferInstanceAs (Decidable (_ ∧ _))

variable {m : Scanner σ α β} {n : Scanner τ α γ} {guard : σ → α → List α → Prop}
  {tail x y : List α} {c : Config σ} {s s' : σ} {t : τ} {k : Nat} {a : α}

@[simp] theorem run_nil : run m tail c [] = (c, []) := by
  rw [run]

theorem run_covered : run m tail ⟨k + 1, s⟩ (a :: x) =
    ((run m tail ⟨k, s⟩ x).1, m.covered a ++ (run m tail ⟨k, s⟩ x).2) := by
  rw [run]

theorem run_move {v : Move σ β} (h : m.move s a (x ++ tail) = v) :
    run m tail ⟨0, s⟩ (a :: x) = ((run m tail ⟨v.covers, v.next⟩ x).1,
      v.output ++ (run m tail ⟨v.covers, v.next⟩ x).2) := by
  rw [run, h]

/-- Scanning two texts in a row. -/
theorem run_append : run m tail c (x ++ y) =
    ((run m tail (run m (y ++ tail) c x).1 y).1,
      (run m (y ++ tail) c x).2 ++ (run m tail (run m (y ++ tail) c x).1 y).2) := by
  induction x generalizing c with
  | nil => simp
  | cons a x ih =>
    obtain ⟨_ | k, s⟩ := c
    · simp only [List.cons_append, run, ih, List.append_assoc]
    · simp only [List.cons_append, run_covered, ih, List.append_assoc]

theorem along_append : Along m guard tail c (x ++ y) ↔
    Along m guard (y ++ tail) c x ∧ Along m guard tail (run m (y ++ tail) c x).1 y := by
  induction x generalizing c with
  | nil => simp [Along]
  | cons a x ih =>
    obtain ⟨_ | k, s⟩ := c
    · simp only [List.cons_append, Along, run, ih, List.append_assoc, and_assoc]
    · simp only [List.cons_append, Along, run_covered, ih]

/-- The characters that the last move covers. -/
theorem run_covering (s : σ) (x : List α) :
    run m tail ⟨x.length, s⟩ x = (⟨0, s⟩, x.flatMap m.covered) := by
  induction x with
  | nil => rfl
  | cons a x ih => rw [List.length_cons, run_covered, ih, List.flatMap_cons]

/-- A move with all that it covers. -/
theorem run_token {out : List β} (h : m.move s a (x ++ tail) = ⟨s', x.length, out⟩) :
    run m tail ⟨0, s⟩ (a :: x) = (⟨0, s'⟩, out ++ x.flatMap m.covered) := by
  rw [run_move h, run_covering]

/-- A text that no move looks into may be left off. -/
theorem run_of_inert (h : ∀ s a rest, m.move s a (rest ++ tail) = m.move s a rest) :
    run m tail c x = run m [] c x := by
  induction x generalizing c with
  | nil => simp
  | cons a x ih =>
    obtain ⟨_ | k, s⟩ := c
    · simp only [run, h, ih, List.append_nil]
    · simp only [run_covered, ih]

theorem along_of_inert (h : ∀ s a rest, m.move s a (rest ++ tail) = m.move s a rest)
    (hg : ∀ s a rest, guard s a (rest ++ tail) ↔ guard s a rest) :
    Along m guard tail c x ↔ Along m guard [] c x := by
  induction x generalizing c with
  | nil => simp [Along]
  | cons a x ih =>
    obtain ⟨_ | k, s⟩ := c
    · simp only [Along, h, hg, ih, List.append_nil]
    · simp only [Along, ih]

/-- A scanner that covers no more than there is has nothing left to cover at the end. -/
theorem pending_run (h : ∀ s a rest, (m.move s a rest).covers ≤ rest.length)
    (hk : k ≤ x.length) : (run m [] ⟨k, s⟩ x).1.pending = 0 := by
  induction x generalizing k s with
  | nil => simpa using hk
  | cons a x ih =>
    cases k with
    | zero =>
      rw [run_move rfl]
      apply ih
      rw [List.append_nil]
      exact h s a x
    | succ k =>
      rw [run_covered]
      exact ih (Nat.le_of_succ_le_succ hk)

/-- What two scanners reading the same text keep of each other's states and of what they
have put out. The first argument is the number of characters still covered. -/
theorem run_pair {I : Nat → σ → List β → τ → List γ → Prop}
    (hcovered : ∀ k s os t ot a, I (k + 1) s os t ot →
      I k s (os ++ m.covered a) t (ot ++ n.covered a))
    (hmove : ∀ s os t ot a rest, I 0 s os t ot → guard s a rest →
      (m.move s a rest).covers = (n.move t a rest).covers ∧
      I (m.move s a rest).covers (m.move s a rest).next (os ++ (m.move s a rest).output)
        (n.move t a rest).next (ot ++ (n.move t a rest).output))
    {os : List β} {ot : List γ} (hg : Along m guard tail ⟨k, s⟩ x) (hI : I k s os t ot) :
    (run m tail ⟨k, s⟩ x).1.pending = (run n tail ⟨k, t⟩ x).1.pending ∧
      I (run m tail ⟨k, s⟩ x).1.pending
        (run m tail ⟨k, s⟩ x).1.state (os ++ (run m tail ⟨k, s⟩ x).2)
        (run n tail ⟨k, t⟩ x).1.state (ot ++ (run n tail ⟨k, t⟩ x).2) := by
  induction x generalizing k s t os ot with
  | nil => simpa using hI
  | cons a x ih =>
    cases k with
    | zero =>
      obtain ⟨hcovers, hnext⟩ := hmove s os t ot a (x ++ tail) hI hg.1
      have h := ih hg.2 hnext
      rw [run_move rfl, run_move rfl, ← List.append_assoc, ← List.append_assoc, ← hcovers]
      exact h
    | succ k =>
      have h := ih hg (hcovered k s os t ot a hI)
      rw [run_covered, run_covered, ← List.append_assoc, ← List.append_assoc]
      exact h

end PipelineIQ.Lib.Scan
