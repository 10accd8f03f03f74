import PipelineIQ.Lib.Dict
import PipelineIQ.Lib.Strings

namespace PipelineIQ.Lib.Yaml

open Strings

/-- A key of a mapping. Keys that are equal as numbers are one key, `true` and `1` too. -/
inductive Key where
  | null
  | number (q : Rat)
  | text (t : Text)
  deriving DecidableEq, Repr

/-- A loaded document. -/
inductive Node where
  | null
  | bool (b : Bool)
  | int (n : Int)
  | float (q : Rat)
  | text (t : Text)
  | seq (items : List Node)
  | map (entries : List (Key × Node))
  deriving Repr

abbrev Entries := List (Key × Node)

def key (name : String) : Key := .text name.toList

def str (s : String) : Node := .text s.toList

namespace Node

def isText : Node → Bool
  | .text _ => true
  | _ => false

def isSeq : Node → Bool
  | .seq _ => true
  | _ => false

def isMap : Node → Bool
  | .map _ => true
  | _ => false

/-- The truth value of a Python object. -/
def truthy : Node → Bool
  | .null => false
  | .bool b => b
  | .int n => n != 0
  | .float q => q != 0
  | .text t => !t.isEmpty
  | .seq items => !items.isEmpty
  | .map entries => !entries.isEmpty

def toKey : Node → Option Key
  | .null => some .null
  | .bool b => some (.number (if b then 1 else 0))
  | .int n => some (.number n)
  | .float q => some (.number q)
  | .text t => some (.text t)
  | _ => none

theorem text_of_toKey {v : Node} {t : Text} (h : v.toKey = some (.text t)) : v = .text t := by
  cases v with
  | text t' =>
    rw [toKey, Option.some.injEq, Key.text.injEq] at h
    rw [h]
  | _ => cases h

def asSeq : Node → Option (List Node)
  | .seq items => some items
  | _ => none

def asMap : Node → Option Entries
  | .map entries => some entries
  | _ => none

def asText : Node → Option Text
  | .text t => some t
  | _ => none

mutual

/-- Equality of Python objects: numbers by value, mappings without their order. -/
def same : Node → Node → Bool
  | .seq a, b => match b with
    | .seq b => sameItems a b
    | _ => false
  | .map a, b => match b with
    | .map b => a.length == b.length && sameEntries a b
    | _ => false
  | .null, b => b.toKey == some .null
  | .bool x, b => b.toKey == some (.number (if x then 1 else 0))
  | .int n, b => b.toKey == some (.number n)
  | .float q, b => b.toKey == some (.number q)
  | .text t, b => b.toKey == some (.text t)

def sameItems : List Node → List Node → Bool
  | [], b => b.isEmpty
  | x :: a, b => match b with
    | [] => false
    | y :: b => x.same y && sameItems a b

def sameEntries : List (Key × Node) → List (Key × Node) → Bool
  | [], _ => true
  | (k, x) :: a, b => (match Dict.find k b with
    | some y => x.same y
    | none => false) && sameEntries a b

end

end Node

def Key.toNode : Key → Node
  | .null => .null
  | .number q => if q.den = 1 then .int q.num else .float q
  | .text t => .text t

/-- What a `for` loop over an object goes through, `none` where it raises. -/
def Node.iterate : Node → Option (List Node)
  | .text t => some (t.map fun c => .text [c])
  | .seq items => some items
  | .map entries => some (entries.map fun e => e.1.toNode)
  | _ => none

/-- `d.get(key, default)`. -/
def Entries.getD (d : Entries) (k : Key) (default : Node) : Node := (Dict.find k d).getD default

def Entries.get? (d : Entries) (k : Key) : Option Node := Dict.find k d

def Entries.set (d : Entries) (k : Key) (v : Node) : Entries := Dict.assign k v d

@[simp] theorem Entries.get?_set (d : Entries) (k j : Key) (v : Node) :
    (d.set k v).get? j = if j = k then some v else d.get? j :=
  Dict.find_assign k j v d

theorem Entries.getD_set (d : Entries) (k j : Key) (v default : Node) :
    (d.set k v).getD j default = if j = k then v else d.getD j default := by
  unfold Entries.getD Entries.set
  rw [Dict.find_assign]
  split <;> rfl

end PipelineIQ.Lib.Yaml
