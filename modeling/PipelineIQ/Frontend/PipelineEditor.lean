import Mathlib.Data.Rat.Defs
import Mathlib.Logic.Function.Basic
import PipelineIQ.Lib.Strings

namespace PipelineIQ.Frontend.PipelineEditor

open PipelineIQ.Lib.Strings

/-! ### Nodes and edges

`R` are the numbers of the browser and `C` the configurations of steps, both only copied. -/

structure NodeData (C : Type) where
  type : Option Text
  name : Option Text
  config : Option C
  inferredSchema : Option (List Text)
  validationError : Option Text
  label : Option Text
  backendSupported : Option Bool
  deriving DecidableEq, Repr

structure Node (R C : Type) where
  id : Text
  type : Option Text
  position : R × R
  data : NodeData C
  selected : Option Bool
  width : Option R
  height : Option R
  deriving DecidableEq, Repr

structure SerializedData (C : Type) where
  type : Text
  name : Text
  config : C
  inferredSchema : Option (List Text)
  validationError : Option Text
  deriving DecidableEq, Repr

structure SerializedNode (R C : Type) where
  id : Text
  type : Text
  position : R × R
  data : SerializedData C
  selected : Option Bool
  width : Option R
  height : Option R
  deriving DecidableEq, Repr

structure EdgeStyle where
  stroke : Text
  strokeWidth : Rat
  deriving DecidableEq, Repr

structure SerializedEdge where
  id : Text
  source : Text
  target : Text
  sourceHandle : Option Text
  targetHandle : Option Text
  animated : Option Bool
  deriving DecidableEq, Repr

structure Edge extends SerializedEdge where
  style : Option EdgeStyle
  deriving DecidableEq, Repr

/-- `text || fallback`, where an empty text is false too. -/
def textOr (text : Option Text) (fallback : Text) : Text :=
  match text with
  | none | some [] => fallback
  | some text => text

section Serialization

variable {R C : Type} [EmptyCollection C]

def serializeNode (node : Node R C) : SerializedNode R C where
  id := node.id
  type := textOr node.type "stepNode".toList
  position := node.position
  data :=
    { type := textOr node.data.type []
      name := textOr node.data.name node.id
      config := node.data.config.getD ∅
      inferredSchema := node.data.inferredSchema
      validationError := node.data.validationError }
  selected := node.selected
  width := node.width
  height := node.height

-- the label and the support flag of a node are not among what is serialized
def deserializeNode (serialized : SerializedNode R C) : Node R C where
  id := serialized.id
  type := some serialized.type
  position := serialized.position
  data :=
    { type := some serialized.data.type
      name := some serialized.data.name
      config := some serialized.data.config
      inferredSchema := serialized.data.inferredSchema
      validationError := serialized.data.validationError
      label := none
      backendSupported := none }
  selected := serialized.selected
  width := serialized.width
  height := serialized.height

def serializeEdge (edge : Edge) : SerializedEdge := edge.toSerializedEdge

def deserializeEdge (serialized : SerializedEdge) : Edge where
  toSerializedEdge := serialized
  style := some ⟨"#60a5fa".toList, 3 / 2⟩

end Serialization

/-! ### Edits -/

/-- The nodes and the edges that a client shows, by their ids. -/
@[ext] structure Canvas (R C : Type) where
  nodes : Text → Option (Node R C)
  edges : Text → Option Edge

section Edits

variable {R C : Type}

def addStepNode (id label stepType : Text) (position : R × R) (config : C)
    (backendSupported : Bool) : Node R C where
  id
  type := some "stepNode".toList
  position
  data :=
    { type := some stepType
      name := none
      config := some config
      inferredSchema := none
      validationError := none
      label := some label
      backendSupported := some backendSupported }
  selected := none
  width := none
  height := none

inductive Edit (R C : Type) where
  | add (id label stepType : Text) (position : R × R) (config : C) (backendSupported : Bool)
  | configure (id : Text) (config : C)
  | move (id : Text) (position : R × R)
  | delete (id : Text)
  deriving DecidableEq, Repr

namespace Edit

/-- The node that an edit is about. -/
def node : Edit R C → Text
  | .add id .. | .configure id _ | .move id _ | .delete id => id

def onNode : Edit R C → Option (Node R C) → Option (Node R C)
  | .add id label stepType position config backendSupported, _ =>
    some (addStepNode id label stepType position config backendSupported)
  | .configure _ config, node =>
    node.map fun node => { node with data := { node.data with config := some config } }
  | .move _ position, node => node.map fun node => { node with position }
  | .delete _, _ => none

/-- The edges of a deleted node go with it. -/
def keeps : Edit R C → Edge → Bool
  | .delete id, edge => edge.source != id && edge.target != id
  | _, _ => true

def isDelete : Edit R C → Bool
  | .delete _ => true
  | _ => false

/-- A new node gets an id of the time and chance, which no node has. -/
def fits : Edit R C → Option (Node R C) → Bool
  | .add .., node => node.isNone
  | _, _ => true

end Edit

def Canvas.edit (canvas : Canvas R C) (e : Edit R C) : Canvas R C where
  nodes := Function.update canvas.nodes e.node (e.onNode (canvas.nodes e.node))
  edges id := (canvas.edges id).filter e.keeps

/-- No edge refers to a node that is absent. -/
def Canvas.Closed (canvas : Canvas R C) : Prop :=
  ∀ id edge, canvas.edges id = some edge →
    (canvas.nodes edge.source).isSome ∧ (canvas.nodes edge.target).isSome

variable {canvas : Canvas R C} {e : Edit R C} {id : Text} {edge : Edge}
  {node : Option (Node R C)}

theorem Edit.isSome_onNode (h : e.isDelete = false) (hnode : node.isSome) :
    (e.onNode node).isSome := by
  cases e with
  | add => rfl
  | configure => exact (Option.isSome_map ..).trans hnode
  | move => exact (Option.isSome_map ..).trans hnode
  | delete => cases h

theorem Edit.ne_of_keeps (h : e.keeps edge) (hdelete : e.isDelete) :
    edge.source ≠ e.node ∧ edge.target ≠ e.node := by
  cases e with
  | delete => simpa [keeps, Edit.node] using h
  | _ => cases hdelete

@[simp] theorem Canvas.edit_nodes_self :
    (canvas.edit e).nodes e.node = e.onNode (canvas.nodes e.node) :=
  Function.update_self ..

theorem Canvas.edit_edges : (canvas.edit e).edges id = (canvas.edges id).filter e.keeps := rfl

theorem Canvas.edit_nodes_of_ne (h : id ≠ e.node) : (canvas.edit e).nodes id = canvas.nodes id :=
  Function.update_of_ne h ..

theorem Canvas.edit_edges_of_not_delete (h : e.isDelete = false) :
    (canvas.edit e).edges = canvas.edges := by
  funext id
  cases e with
  | delete => cases h
  | _ => cases hedge : canvas.edges id <;> simp [edit, Edit.keeps, hedge]

theorem Canvas.isSome_edit_nodes (hnode : (canvas.nodes id).isSome)
    (h : e.isDelete = true → id ≠ e.node) : ((canvas.edit e).nodes id).isSome := by
  by_cases hid : id = e.node
  · subst hid
    cases hdelete : e.isDelete with
    | true => exact absurd rfl (h hdelete)
    | false =>
      rw [edit_nodes_self]
      exact Edit.isSome_onNode hdelete hnode
  · rw [edit_nodes_of_ne hid]
    exact hnode

/-- Every edit leaves a canvas whose edges have their nodes. -/
theorem Canvas.Closed.edit (hclosed : canvas.Closed) : (canvas.edit e).Closed := by
  intro id edge hedge
  obtain ⟨hedge, hkeeps⟩ := Option.filter_eq_some_iff.mp hedge
  obtain ⟨hsource, htarget⟩ := hclosed id edge hedge
  constructor
  · exact isSome_edit_nodes hsource fun h => (Edit.ne_of_keeps hkeeps h).1
  · exact isSome_edit_nodes htarget fun h => (Edit.ne_of_keeps hkeeps h).2

end Edits

end PipelineIQ.Frontend.PipelineEditor
