import Mathlib.Init

namespace PipelineIQ.Lib.Session

/-- A database session: in order; in a transaction that the server has aborted; or in one that cannot
go on until it is rolled back, as after a lost connection or a failed commit. -/
inductive Health where
  | good | aborted | invalid
  deriving DecidableEq, Repr

/-- What a statement can come to: an exception of the program that leaves the session alone, an
error of the server, or the loss of the connection. -/
inductive Fault where
  | raised | refused | disconnected
  deriving DecidableEq, Repr

def Fault.health : Fault → Health
  | .raised => .good
  | .refused => .aborted
  | .disconnected => .invalid

/-- Send a statement. The second part tells whether it went through. -/
def send : Health → Option Fault → Health × Bool
  | .good, none => (.good, true)
  | .good, some fault => (fault.health, false)
  | health, _ => (health, false)

/-- Send statements until one fails. -/
def sendAll : Health → List (Option Fault) → Health × Bool
  | health, [] => (health, true)
  | health, statement :: statements => match send health statement with
    | (health, true) => sendAll health statements
    | (health, false) => (health, false)

/-- Commit; a `dirty` session has changes that were not sent. Without any, the commit of an aborted
transaction rolls it back and raises nothing. -/
def commit (dirty : Bool) : Health → Option Fault → Health × Bool
  | .good, none => (.good, true)
  | .good, some .raised => (.good, false)
  | .good, some _ => (.invalid, false)
  | .aborted, _ => if dirty then (.invalid, false) else (.good, true)
  | .invalid, _ => (.invalid, false)

def firstFault (statements : List (Option Fault)) : Option Fault := (statements.filterMap id).head?

theorem sendAll_good (statements : List (Option Fault)) : sendAll .good statements =
    match firstFault statements with
    | none => (.good, true)
    | some fault => (fault.health, false) := by
  induction statements with
  | nil => rfl
  | cons statement statements ih =>
    cases statement with
    | none => exact ih
    | some fault => rfl

theorem sendAll_cons_of_ne_good {health : Health} (h : health ≠ .good) (statement : Option Fault)
    (statements : List (Option Fault)) :
    sendAll health (statement :: statements) = (health, false) := by
  cases health with
  | good => exact absurd rfl h
  | aborted | invalid => rfl

/-- No statement fails but by an exception of the program. -/
def Harmless (statements : List (Option Fault)) : Prop :=
  firstFault statements = none ∨ firstFault statements = some .raised

theorem sendAll_health_iff {statements : List (Option Fault)} :
    (sendAll .good statements).1 = .good ↔ Harmless statements := by
  unfold Harmless
  rw [sendAll_good]
  cases firstFault statements with
  | none => simp
  | some fault => cases fault <;> simp [Fault.health]

theorem sendAll_completes_iff {statements : List (Option Fault)} :
    (sendAll .good statements).2 = true ↔ firstFault statements = none := by
  rw [sendAll_good]
  cases firstFault statements with
  | none => simp
  | some fault => simp

theorem commit_health_iff {fault : Option Fault} {dirty : Bool} :
    (commit dirty .good fault).1 = .good ↔ fault = none ∨ fault = some .raised := by
  cases fault with
  | none => simp [commit]
  | some fault => cases fault <;> simp [commit]

end PipelineIQ.Lib.Session
