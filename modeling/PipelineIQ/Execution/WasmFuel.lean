import Mathlib.Algebra.BigOperators.Group.List.Basic
import Mathlib.Algebra.GroupWithZero.Nat
import Mathlib.Algebra.Order.BigOperators.Group.List
import Mathlib.Algebra.Order.Group.Nat
import PipelineIQ.Execution.WasmExecutor

namespace PipelineIQ.Execution.WasmFuel

open PipelineIQ.Lib PipelineIQ.Lib.Strings PipelineIQ.Execution.WasmExecutor

def fuelPerStep : Nat := 10000000
def fuelPerRow : Nat := 1000

/-! ### Calls -/

/-- What a call of the guest function does: the fuel it needs to its end, if it has one, what it
ends in, and the memory it leaves, also where it is cut short after some fuel. -/
structure Call (α Memory : Type) where
  need : Option Nat
  result : CallResult α
  memory : Memory
  cutShort : Nat → Memory

/-- An instantiated module with its function; it can do anything with its memory. -/
structure Guest (α F Memory : Type) where
  initial : Memory
  call : Memory → List F → Call α Memory

structure Store (Memory : Type) where
  fuel : Nat
  memory : Memory

variable {α F Memory : Type}

def Store.setFuel (store : Store Memory) (fuel : Nat) : Store Memory := { store with fuel }

/-- A call traps exactly where the fuel of the store runs out: the fuel it consumes, what it ends
in, and the store behind it. -/
def Store.invoke (store : Store Memory) (call : Call α Memory) : Nat × CallResult α × Store Memory :=
  match call.need with
  | some need =>
    if need ≤ store.fuel then (need, call.result, ⟨store.fuel - need, call.memory⟩)
    else (store.fuel, .failed, ⟨0, call.cutShort store.fuel⟩)
  | none => (store.fuel, .failed, ⟨0, call.cutShort store.fuel⟩)

/-! ### The loop over the rows -/

section Execute

variable (L : Libraries α F) (t : Table α) (step : WasmComputeStep) (guest : Guest α F Memory)

/-- The rows from one on: the fuel of each call, and the lists at the end unless a row raises. -/
def executeRows : List Nat → Store Memory → State α → List Nat × Option (State α)
  | [], _, s => ([], some s)
  | i :: is, store, s =>
    match arguments L t step.inputColumns i with
    | none =>
      match executeRow L t step.inputColumns step.outputColumn (fun _ _ => .failed) s i with
      | none => ([], none)
      | some s => executeRows is store s
    | some args =>
      let (consumed, result, store) :=
        (store.setFuel fuelPerRow).invoke (guest.call store.memory args)
      match executeRow L t step.inputColumns step.outputColumn (fun _ _ => result) s i with
      | none => ([consumed], none)
      | some s =>
        let (calls, s) := executeRows is store s
        (consumed :: calls, s)

/-- `execute` with the fuel of its calls. -/
def execute : List Nat × Option (Table α) :=
  if step.function = [] ∨ step.inputColumns = [] ∨ step.outputColumn = [] then ([], none)
  else if step.inputColumns.any fun c => decide (c ∉ t.columns.keys) then ([], none)
  else
    let store : Store Memory := ⟨fuelPerStep, guest.initial⟩
    let (calls, s) := executeRows L t step guest (List.range t.rows) store
      ⟨initialArrays t step.inputColumns step.outputColumn, 0⟩
    (calls, s.bind fun s => resultTable L t step.outputColumn s.resultArrays)

/-- The rows that the guest function can be called for. -/
def callableRows : List Nat :=
  (List.range t.rows).filter fun i => (arguments L t step.inputColumns i).isSome

/-- The step has all its fields and its columns are there. -/
def Complete : Prop :=
  ¬ (step.function = [] ∨ step.inputColumns = [] ∨ step.outputColumn = []) ∧
    ∀ c ∈ step.inputColumns, c ∈ t.columns.keys

end Execute

/-- The documented bounds on what an execution consumes. -/
structure WithinBudget (calls : List Nat) : Prop where
  row : ∀ consumed ∈ calls, consumed ≤ fuelPerRow
  step : calls.sum ≤ fuelPerStep

/-! ### What the calls consume -/

section Bounds

variable {L : Libraries α F} {t : Table α} {step : WasmComputeStep} {guest : Guest α F Memory}

theorem invoke_le (store : Store Memory) (call : Call α Memory) :
    (store.invoke call).1 ≤ store.fuel := by
  unfold Store.invoke
  split
  · split
    · next h => exact h
    · exact Nat.le_refl _
  · exact Nat.le_refl _

/-- At most one call for each row, and none beyond the fuel of a row. -/
theorem executeRows_calls (is : List Nat) (store : Store Memory) (s : State α) :
    (∀ consumed ∈ (executeRows L t step guest is store s).1, consumed ≤ fuelPerRow) ∧
      (executeRows L t step guest is store s).1.length ≤
        (is.filter fun i => (arguments L t step.inputColumns i).isSome).length := by
  induction is generalizing store s with
  | nil => exact ⟨nofun, Nat.le_refl _⟩
  | cons i is ih =>
    rw [executeRows]
    cases hargs : arguments L t step.inputColumns i with
    | none =>
      rw [List.filter_cons_of_neg (by simp [hargs])]
      dsimp only
      split
      · exact ⟨nofun, Nat.zero_le _⟩
      · exact ih _ _
    | some args =>
      rw [List.filter_cons_of_pos (by simp [hargs])]
      dsimp only
      have hrow := invoke_le (store.setFuel fuelPerRow) (guest.call store.memory args)
      split
      · exact ⟨fun c hc => List.mem_singleton.mp hc ▸ hrow, Nat.succ_le_succ (Nat.zero_le _)⟩
      · next s' _ =>
        obtain ⟨hcalls, hlength⟩ :=
          ih ((store.setFuel fuelPerRow).invoke (guest.call store.memory args)).2.2 s'
        exact ⟨List.forall_mem_cons.mpr ⟨hrow, hcalls⟩, Nat.succ_le_succ hlength⟩

theorem execute_calls :
    (∀ consumed ∈ (execute L t step guest).1, consumed ≤ fuelPerRow) ∧
      (execute L t step guest).1.length ≤ (callableRows L t step).length := by
  unfold execute
  split
  · exact ⟨nofun, Nat.zero_le _⟩
  · split
    · exact ⟨nofun, Nat.zero_le _⟩
    · exact executeRows_calls _ _ _

theorem execute_calls_of_not_complete (h : ¬ Complete t step) : (execute L t step guest).1 = [] := by
  unfold execute
  split
  · rfl
  · next hfields =>
    split
    · rfl
    · next hcolumns =>
      refine absurd ⟨hfields, ?_⟩ h
      simpa using hcolumns

end Bounds

/-! ### The loop is that of the executor -/

section Refines

variable {L : Libraries α F} {t : Table α} {step : WasmComputeStep}

theorem executeRow_congr {g g' : WasmExecutor.Guest α F} {s : State α} {i : Nat}
    (h : ∀ args, g i args = g' i args) :
    executeRow L t step.inputColumns step.outputColumn g s i =
      executeRow L t step.inputColumns step.outputColumn g' s i := by
  unfold executeRow
  simp only [h]

theorem foldlM_executeRow_congr {g g' : WasmExecutor.Guest α F} {is : List Nat} {s : State α}
    (h : ∀ i ∈ is, ∀ args, g i args = g' i args) :
    is.foldlM (executeRow L t step.inputColumns step.outputColumn g) s =
      is.foldlM (executeRow L t step.inputColumns step.outputColumn g') s := by
  induction is generalizing s with
  | nil => rfl
  | cons i is ih =>
    rw [List.foldlM_cons, List.foldlM_cons, executeRow_congr (h i List.mem_cons_self)]
    congr 1
    funext s
    exact ih fun j hj => h j (List.mem_cons_of_mem i hj)

/-- A row as the guest of the executor answers it, the rows behind it as before. -/
theorem exists_answers_cons {i : Nat} {is : List Nat} (hi : i ∉ is) {s s' : State α}
    {result : CallResult α} {g : WasmExecutor.Guest α F}
    (hrow : executeRow L t step.inputColumns step.outputColumn (fun _ _ => result) s i = some s') :
    ∃ g' : WasmExecutor.Guest α F,
      (i :: is).foldlM (executeRow L t step.inputColumns step.outputColumn g') s =
        is.foldlM (executeRow L t step.inputColumns step.outputColumn g) s' := by
  refine ⟨fun j args => if j = i then result else g j args, ?_⟩
  have hfirst : executeRow L t step.inputColumns step.outputColumn
      (fun j args => if j = i then result else g j args) s i = some s' := by
    rw [← hrow]
    exact executeRow_congr fun args => if_pos rfl
  rw [List.foldlM_cons, hfirst]
  apply foldlM_executeRow_congr
  intro j hj args
  exact if_neg fun heq : j = i => hi (heq ▸ hj)

theorem exists_answers (guest : Guest α F Memory) {is : List Nat} (h : is.Nodup)
    (store : Store Memory) (s : State α) :
    ∃ g : WasmExecutor.Guest α F, (executeRows L t step guest is store s).2 =
      is.foldlM (executeRow L t step.inputColumns step.outputColumn g) s := by
  induction is generalizing store s with
  | nil => exact ⟨fun _ _ => .failed, rfl⟩
  | cons i is ih =>
    rw [List.nodup_cons] at h
    -- the answer of a row that raises does not depend on the others
    have hraises : ∀ result : CallResult α,
        executeRow L t step.inputColumns step.outputColumn (fun _ _ => result) s i = none →
        (i :: is).foldlM (executeRow L t step.inputColumns step.outputColumn fun _ _ => result) s =
          none := by
      intro result hrow
      rw [List.foldlM_cons, hrow]
      rfl
    rw [executeRows]
    cases hargs : arguments L t step.inputColumns i with
    | none =>
      dsimp only
      cases hrow : executeRow L t step.inputColumns step.outputColumn (fun _ _ => .failed) s i with
      | none => exact ⟨_, (hraises .failed hrow).symm⟩
      | some s' =>
        obtain ⟨g, hg⟩ := ih h.2 store s'
        obtain ⟨g', hg'⟩ := exists_answers_cons h.1 (g := g) hrow
        exact ⟨g', hg.trans hg'.symm⟩
    | some args =>
      dsimp only
      generalize (store.setFuel fuelPerRow).invoke (guest.call store.memory args) = outcome
      obtain ⟨consumed, result, store'⟩ := outcome
      dsimp only
      cases hrow : executeRow L t step.inputColumns step.outputColumn (fun _ _ => result) s i with
      | none => exact ⟨_, (hraises result hrow).symm⟩
      | some s' =>
        obtain ⟨g, hg⟩ := ih h.2 store' s'
        obtain ⟨g', hg'⟩ := exists_answers_cons h.1 (g := g) hrow
        exact ⟨g', hg.trans hg'.symm⟩

/-- Fuel apart, the executor does what it does with a guest that answers row by row. -/
theorem execute_refines (L : Libraries α F) (t : Table α) (step : WasmComputeStep)
    (guest : Guest α F Memory) :
    ∃ g, (execute L t step guest).2 = WasmExecutor.execute L t step (some g) := by
  obtain ⟨g, hg⟩ := @exists_answers _ _ _ L t step guest _ List.nodup_range
    ⟨fuelPerStep, guest.initial⟩ ⟨initialArrays t step.inputColumns step.outputColumn, 0⟩
  refine ⟨g, ?_⟩
  unfold execute WasmExecutor.execute
  split
  · rfl
  · split
    · rfl
    · dsimp only
      rw [hg]
      rfl

end Refines

/-! ### The budget of a step -/

section Budget

variable {L : Libraries α F} {t : Table α} {step : WasmComputeStep}

/-- A guest that consumes all the fuel of a row and returns. -/
def greedy : Guest α F Unit where
  initial := ()
  call _ _ := ⟨some fuelPerRow, .returned none, (), fun _ => ()⟩

theorem executeRows_greedy (is : List Nat) (store : Store Unit) (s : State α) :
    (executeRows L t step greedy is store s).1 =
      (is.filter fun i => (arguments L t step.inputColumns i).isSome).map fun _ => fuelPerRow := by
  induction is generalizing store s with
  | nil => rfl
  | cons i is ih =>
    rw [executeRows]
    cases hargs : arguments L t step.inputColumns i with
    | none =>
      rw [List.filter_cons_of_neg (by simp [hargs])]
      have hrow : ∃ s', executeRow L t step.inputColumns step.outputColumn (fun _ _ => .failed) s i =
          some s' := by
        rw [executeRow, hargs]
        exact ⟨_, rfl⟩
      obtain ⟨s', hs'⟩ := hrow
      dsimp only
      rw [hs']
      exact ih _ _
    | some args =>
      rw [List.filter_cons_of_pos (by simp [hargs]), List.map_cons]
      have hrow : ∃ s', executeRow L t step.inputColumns step.outputColumn
          (fun _ _ => .returned none) s i = some s' := by
        rw [executeRow, hargs]
        exact ⟨_, rfl⟩
      obtain ⟨s', hs'⟩ := hrow
      have hinvoke : (store.setFuel fuelPerRow).invoke (greedy.call store.memory args) =
          (fuelPerRow, (.returned none : CallResult α), ⟨fuelPerRow - fuelPerRow, ()⟩) := by
        have hfuel : fuelPerRow ≤ (store.setFuel fuelPerRow).fuel := Nat.le_refl _
        rw [Store.invoke, greedy]
        dsimp only
        rw [if_pos hfuel]
        rfl
      dsimp only
      rw [hinvoke]
      dsimp only
      rw [hs']
      dsimp only
      rw [ih]

theorem execute_greedy (h : Complete t step) :
    (execute L t step greedy).1 = (callableRows L t step).map fun _ => fuelPerRow := by
  have hcolumns : ¬ (step.inputColumns.any fun c => decide (c ∉ t.columns.keys)) = true := by
    simpa using h.2
  rw [execute, if_neg h.1, if_neg hcolumns]
  exact executeRows_greedy _ _ _

/-- Every guest program stays within the documented budget of a step if and only if the rows it can
be called for are not more than the fuel of the step has shares of a row. -/
theorem within_budget_iff (L : Libraries α F) (t : Table α) (step : WasmComputeStep) :
    (∀ (Memory : Type) (guest : Guest α F Memory), WithinBudget (execute L t step guest).1) ↔
      (Complete t step → (callableRows L t step).length ≤ fuelPerStep / fuelPerRow) := by
  have hshare : fuelPerStep / fuelPerRow * fuelPerRow = fuelPerStep := by decide
  constructor
  · intro h hcomplete
    have hsum := (h Unit greedy).step
    rw [execute_greedy hcomplete, List.map_const', List.sum_replicate_nat] at hsum
    exact (Nat.le_div_iff_mul_le (by decide)).mpr hsum
  · intro h Memory guest
    obtain ⟨hrow, hlength⟩ := @execute_calls _ _ _ L t step guest
    refine ⟨hrow, ?_⟩
    by_cases hcomplete : Complete t step
    · have hsum := List.sum_le_card_nsmul _ _ hrow
      calc (execute L t step guest).1.sum
          ≤ (execute L t step guest).1.length * fuelPerRow := hsum
        _ ≤ fuelPerStep / fuelPerRow * fuelPerRow :=
            Nat.mul_le_mul_right _ (hlength.trans (h hcomplete))
        _ = fuelPerStep := hshare
    · rw [execute_calls_of_not_complete hcomplete]
      exact Nat.zero_le _

end Budget

/-! ### One row too many -/

def ones (rows : Nat) : Table Nat where
  rows
  columns := ⟨[("a".toList, List.replicate rows (some 1))], List.nodup_singleton _⟩
  lengths := by
    intro e he
    rw [List.mem_singleton.mp he]
    exact List.length_replicate

theorem callableRows_ones (rows : Nat) :
    (callableRows wholeNumbers (ones rows) doubled).length = rows := by
  have hall : ∀ i ∈ List.range (ones rows).rows,
      (arguments wholeNumbers (ones rows) doubled.inputColumns i).isSome = true := by
    intro i hi
    have hi : i < rows := List.mem_range.mp hi
    have hvalue : wholeNumbers.rowValue (ones rows) ["a".toList] i "a".toList = some 1 := by
      change ((List.replicate rows (some 1))[i]?).join = some 1
      rw [List.getElem?_replicate, if_pos hi]
      rfl
    have hfloat : arguments wholeNumbers (ones rows) ["a".toList] i = some [1] := by
      rw [arguments, List.mapM_cons, if_neg (by decide), hvalue]
      rfl
    exact congrArg Option.isSome hfloat
  rw [callableRows, List.filter_eq_self.mpr hall]
  exact List.length_range

/-- Each call keeps to its share; all of them consume more than the budget of the step. -/
theorem step_budget_exceeded : ¬ ∀ guest : Guest Nat Nat Unit,
    WithinBudget (execute wholeNumbers (ones 10001) doubled guest).1 := by
  intro h
  have hcomplete : Complete (ones 10001) doubled := by
    refine ⟨by decide, ?_⟩
    intro c hc
    exact hc
  have hsum := (h greedy).step
  rw [execute_greedy hcomplete, List.map_const', List.sum_replicate_nat, callableRows_ones] at hsum
  exact absurd hsum (by decide)

end PipelineIQ.Execution.WasmFuel
