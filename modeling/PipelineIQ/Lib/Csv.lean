import PipelineIQ.Lib.Strings

namespace PipelineIQ.Lib.Csv

open PipelineIQ.Lib.Strings

/-! ### Lines -/

section Lines

variable {α : Type} [DecidableEq α]

/-- The lines of a text with the break behind each. A carriage return and the line feed after it
are one break, so the line feed is skipped. -/
def linesFrom (cr lf : α) (isBreak : α → Bool) : Bool → List α → List (List α × List α)
  | _, [] => []
  | true, _ :: text => linesFrom cr lf isBreak false text
  | false, c :: text =>
    if isBreak c then
      let crlf := c = cr ∧ text.head? = some lf
      ([], if crlf then [cr, lf] else [c]) :: linesFrom cr lf isBreak (decide crlf) text
    else match linesFrom cr lf isBreak false text with
      | [] => [([c], [])]
      | (line, ending) :: lines => (c :: line, ending) :: lines

theorem linesFrom_ne_nil {cr lf : α} {isBreak : α → Bool}
    {text : List α} (h : text ≠ []) : linesFrom cr lf isBreak false text ≠ [] := by
  cases text with
  | nil => exact absurd rfl h
  | cons c text =>
    rw [linesFrom]
    split
    · simp
    · split <;> simp

end Lines

def isNewline (c : Char) : Bool := c = '\n' || c = '\r'

/-- The breaks of `str.splitlines`. -/
def isLineBoundary (c : Char) : Bool :=
  let n := c.toNat
  (10 ≤ n && n ≤ 13) || (28 ≤ n && n ≤ 30) || n == 0x85 || n == 0x2028 || n == 0x2029

def splitlines (text : Text) : List Text :=
  (linesFrom '\r' '\n' isLineBoundary false text).map Prod.fst

/-- The lines of a text stream that keeps its line endings. -/
def linesKept (text : Text) : List Text :=
  (linesFrom '\r' '\n' isNewline false text).map fun l => l.1 ++ l.2

/-- The lines of a text stream that reads every line ending as a line feed. -/
def linesTranslated (text : Text) : List Text :=
  (linesFrom '\r' '\n' isNewline false text).map fun l => l.1 ++ if l.2 = [] then [] else ['\n']

/-! ### The reader -/

inductive State where
  | startRecord | startField | inField | inQuotedField | quoteInQuotedField | eatCrnl
  deriving DecidableEq, Repr

structure Reader where
  state : State
  field : Text
  fields : List Text

def Reader.start : Reader := ⟨.startRecord, [], []⟩

/-- The longest field that is read. -/
def fieldLimit : Nat := 131072

def addChar (r : Reader) (c : Char) (next : State) : Except String Reader :=
  if fieldLimit ≤ r.field.length then .error "field larger than field limit (131072)"
  else .ok { r with field := r.field ++ [c], state := next }

def saveField (r : Reader) (next : State) : Reader :=
  { state := next, field := [], fields := r.fields ++ [r.field] }

/-- One character outside quotes, at the start of a field or further on. -/
def unquotedChar (r : Reader) (c : Char) : Except String Reader :=
  if isNewline c then .ok (saveField r .eatCrnl)
  else if c = ',' then .ok (saveField r .startField)
  else addChar r c .inField

def processChar (r : Reader) (c : Char) : Except String Reader :=
  match r.state with
  | .startRecord =>
    if isNewline c then .ok { r with state := .eatCrnl }
    else if c = '"' then .ok { r with state := .inQuotedField }
    else unquotedChar r c
  | .startField => if c = '"' then .ok { r with state := .inQuotedField } else unquotedChar r c
  | .inField => unquotedChar r c
  | .inQuotedField =>
    if c = '"' then .ok { r with state := .quoteInQuotedField } else addChar r c .inQuotedField
  | .quoteInQuotedField =>
    if c = '"' then addChar r c .inQuotedField else unquotedChar r c
  | .eatCrnl =>
    if isNewline c then .ok r
    else .error ("new-line character seen in unquoted field - " ++
      "do you need to open the file with newline=''?")

/-- Inside quotes a record goes on in the next line. -/
def endOfLine (r : Reader) : Reader :=
  match r.state with
  | .startRecord | .eatCrnl => { r with state := .startRecord }
  | .startField | .inField | .quoteInQuotedField => saveField r .startRecord
  | .inQuotedField => r

def processLine (r : Reader) (line : Text) : Except String Reader :=
  (line.foldlM processChar r).map endOfLine

/-- Quotes that nothing closes end with the text. -/
def lastRecord (r : Reader) : List (List Text) :=
  if r.field ≠ [] ∨ r.state = .inQuotedField then [(saveField r .startRecord).fields] else []

def recordsFrom : Reader → List Text → Except String (List (List Text))
  | r, [] => .ok (lastRecord r)
  | r, line :: lines => do
    let r ← processLine r line
    if r.state = .startRecord then
      let records ← recordsFrom .start lines
      return r.fields :: records
    else recordsFrom r lines

/-- The records of the lines; a blank line is a record without fields. -/
def records (lines : List Text) : Except String (List (List Text)) := recordsFrom .start lines

def firstFrom : Reader → List Text → Except String (Option (List Text))
  | r, [] => .ok (lastRecord r).head?
  | r, line :: lines => do
    let r ← processLine r line
    if r.state = .startRecord then return some r.fields else firstFrom r lines

/-- The first record, which nothing after it can spoil. -/
def firstRecord (lines : List Text) : Except String (Option (List Text)) := firstFrom .start lines

example : records (linesKept "a,b\r\n\"x\"\"y\n\",2\n\n".toList) =
    .ok [["a".toList, "b".toList], ["x\"y\n".toList, "2".toList], []] := by decide

end PipelineIQ.Lib.Csv
