import Mathlib.Data.Rat.Defs
import Mathlib.Data.List.Lattice

namespace PipelineIQ.Lib.Difflib

variable {α β : Type} [DecidableEq α]

/-- A sequence as `SequenceMatcher` reads it: the elements that iteration gives, and what a
subscript gives, `none` where that raises. -/
structure Sequence (α : Type) where
  items : List α
  subscript : Nat → Option α

/-- Positions beyond the end are never asked for. -/
def Sequence.ofList [Inhabited α] (items : List α) : Sequence α :=
  ⟨items, fun j => some (items.getD j default)⟩

/-- A block of `size` equal elements, from position `i` of one sequence and `j` of the other. -/
structure Match where
  i : Nat
  j : Nat
  size : Nat

/-- Elements of a long sequence that are too frequent start no block. -/
def popular (b : List α) (x : α) : Bool := 200 ≤ b.length && b.length / 100 + 1 < b.count x

def commonLength (skip : α → Bool) : List α → List α → Nat
  | x :: a, y :: b => if x = y ∧ skip x = false then commonLength skip a b + 1 else 0
  | _, _ => 0

/-- The longest block, the earliest in `a` and then in `b` of several. -/
def longest (skip : α → Bool) (a b : List α) : Match :=
  (List.range a.length).foldl (fun best i => (List.range b.length).foldl (fun best j =>
    let k := commonLength skip (a.drop i) (b.drop j)
    if best.size < k then ⟨i, j, k⟩ else best) best) ⟨0, 0, 0⟩

section Blocks

variable (subscript : Nat → Option α) (skip : α → Bool)

def extendLeft (a : List α) (blo : Nat) : Nat → Nat → Nat → Option Match
  | i + 1, j + 1, size => do
    let y ← subscript (blo + j)
    if a[i]? = some y then extendLeft a blo i j (size + 1) else some ⟨i + 1, j + 1, size⟩
  | i, j, size => some ⟨i, j, size⟩

def extendRight (a b : List α) (blo : Nat) : Nat → Match → Option Match
  | 0, m => some m
  | fuel + 1, m =>
    if m.i + m.size < a.length ∧ m.j + m.size < b.length then do
      let y ← subscript (blo + (m.j + m.size))
      if a[m.i + m.size]? = some y then extendRight a b blo fuel { m with size := m.size + 1 }
      else some m
    else some m

/-- The block of a window of `a` and the window of `b` that begins at `blo`. -/
def findLongestMatch (a b : List α) (blo : Nat) : Option Match := do
  let m := longest skip a b
  let m ← extendLeft subscript a blo m.i m.j m.size
  extendRight subscript a b blo a.length m

/-- The elements in matching blocks: the longest one, then those to its left and right. -/
def matched : Nat → List α → List α → Nat → Option Nat
  | 0, _, _, _ => some 0
  | fuel + 1, a, b, blo => do
    let m ← findLongestMatch subscript skip a b blo
    if m.size = 0 then some 0
    else
      let left ← matched fuel (a.take m.i) (b.take m.j) blo
      let right ← matched fuel (a.drop (m.i + m.size)) (b.drop (m.j + m.size)) (blo + m.j + m.size)
      some (left + m.size + right)

end Blocks

def calculateRatio (matches' length : Nat) : ℚ :=
  if length = 0 then 1 else 2 * matches' / length

/-- The ratio of a candidate that reaches the cutoff; the cheap upper bounds come first. -/
def score (cutoff : ℚ) (word : Sequence α) (a : List α) : Option (Option ℚ) :=
  let b := word.items
  let length := a.length + b.length
  if calculateRatio (min a.length b.length) length < cutoff then some none
  else if calculateRatio (a.bagInter b).length length < cutoff then some none
  else do
    let n ← matched word.subscript (popular b) (a.length + 1) a b 0
    let ratio := calculateRatio n length
    some (if ratio < cutoff then none else some ratio)

/-- `get_close_matches` with `n=1`: the candidate of the highest score, `none` inside where no
score reaches the cutoff. Equal scores compare the candidates. -/
def closeMatch (cutoff : ℚ) (elements : β → List α) (before : β → β → Bool)
    (word : Sequence α) (candidates : List β) : Option (Option β) := do
  let scores ← candidates.mapM fun c => score cutoff word (elements c)
  let scored := (scores.zip candidates).filterMap fun p => p.1.map (·, p.2)
  let best := scored.foldl (fun best p => match best with
    | none => some p
    | some q => if q.1 < p.1 ∨ q.1 = p.1 ∧ before q.2 p.2 then some p else some q) none
  some (best.map Prod.snd)

section Returns

variable {subscript : Nat → Option α}

/-! A sequence whose subscripts never raise can be compared with everything. -/

theorem extendLeft_isSome (h : ∀ j, (subscript j).isSome) (a : List α) (blo i j size : Nat) :
    (extendLeft subscript a blo i j size).isSome := by
  induction i generalizing j size with
  | zero => rfl
  | succ i ih =>
    cases j with
    | zero => rfl
    | succ j =>
      obtain ⟨y, hy⟩ := Option.isSome_iff_exists.mp (h (blo + j))
      rw [extendLeft, hy, Option.bind_eq_bind, Option.bind_some]
      split
      · exact ih j (size + 1)
      · rfl

theorem extendRight_isSome (h : ∀ j, (subscript j).isSome) (a b : List α) (blo fuel : Nat)
    (m : Match) : (extendRight subscript a b blo fuel m).isSome := by
  induction fuel generalizing m with
  | zero => rfl
  | succ fuel ih =>
    obtain ⟨y, hy⟩ := Option.isSome_iff_exists.mp (h (blo + (m.j + m.size)))
    rw [extendRight]
    split
    · rw [hy, Option.bind_eq_bind, Option.bind_some]
      split
      · exact ih _
      · rfl
    · rfl

theorem findLongestMatch_isSome (h : ∀ j, (subscript j).isSome) (skip : α → Bool)
    (a b : List α) (blo : Nat) :
    (findLongestMatch subscript skip a b blo).isSome := by
  obtain ⟨m, hm⟩ := Option.isSome_iff_exists.mp
    (extendLeft_isSome h a blo (longest skip a b).i (longest skip a b).j (longest skip a b).size)
  simp only [findLongestMatch, hm, Option.bind_eq_bind, Option.bind_some]
  exact extendRight_isSome h a b blo a.length m

theorem matched_isSome (h : ∀ j, (subscript j).isSome) (skip : α → Bool) (fuel : Nat)
    (a b : List α) (blo : Nat) :
    (matched subscript skip fuel a b blo).isSome := by
  induction fuel generalizing a b blo with
  | zero => rfl
  | succ fuel ih =>
    obtain ⟨m, hm⟩ := Option.isSome_iff_exists.mp (findLongestMatch_isSome h skip a b blo)
    rw [matched, hm, Option.bind_eq_bind, Option.bind_some]
    split
    · rfl
    · obtain ⟨l, hl⟩ := Option.isSome_iff_exists.mp (ih (a.take m.i) (b.take m.j) blo)
      obtain ⟨r, hr⟩ := Option.isSome_iff_exists.mp
        (ih (a.drop (m.i + m.size)) (b.drop (m.j + m.size)) (blo + m.j + m.size))
      simp [hl, hr]

end Returns

theorem score_isSome {word : Sequence α} (h : ∀ j, (word.subscript j).isSome) (cutoff : ℚ)
    (a : List α) : (score cutoff word a).isSome := by
  obtain ⟨n, hn⟩ := Option.isSome_iff_exists.mp
    (matched_isSome h (popular word.items) (a.length + 1) a word.items 0)
  simp only [score]
  split
  · rfl
  · split
    · rfl
    · simp [hn]

theorem closeMatch_isSome {word : Sequence α} (h : ∀ j, (word.subscript j).isSome) (cutoff : ℚ)
    (elements : β → List α) (before : β → β → Bool) (candidates : List β) :
    (closeMatch cutoff elements before word candidates).isSome := by
  have hs : ∃ scores, candidates.mapM (fun c => score cutoff word (elements c)) = some scores := by
    induction candidates with
    | nil => exact ⟨[], rfl⟩
    | cons c candidates ih =>
      obtain ⟨s, hs⟩ := Option.isSome_iff_exists.mp (score_isSome h cutoff (elements c))
      obtain ⟨ss, hss⟩ := ih
      exact ⟨s :: ss, by rw [List.mapM_cons, hs, hss]; rfl⟩
  obtain ⟨scores, hscores⟩ := hs
  simp [closeMatch, hscores]

end PipelineIQ.Lib.Difflib
