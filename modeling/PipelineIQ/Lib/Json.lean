import PipelineIQ.Lib.Dict

namespace PipelineIQ.Lib

/-- A JSON value. Numbers keep the text they are written with. -/
inductive Json where
  | null
  | bool (value : Bool)
  | num (literal : String)
  | str (value : String)
  | arr (items : List Json)
  | obj (fields : List (String × Json))

namespace Json

def nat (n : Nat) : Json := .num n.repr

def option {α : Type} (f : α → Json) : Option α → Json
  | none => .null
  | some a => f a

/-- An object as a dictionary: of two fields with one name the last one counts. -/
def asDict : Json → Option (Dict String Json)
  | .obj fields => some (Dict.ofList fields)
  | _ => none

def ofDict (d : Dict String Json) : Json := .obj d.entries

@[simp] theorem asDict_ofDict (d : Dict String Json) : (ofDict d).asDict = some d :=
  congrArg some (Dict.ofList_entries d)

end Json

/-- A serialiser and a parser of JSON documents, the parser undoing the serialiser. -/
structure JsonCodec (Bytes : Type) where
  dumps : Json → Bytes
  loads : Bytes → Option Json
  loads_dumps : ∀ document, loads (dumps document) = some document

end PipelineIQ.Lib
