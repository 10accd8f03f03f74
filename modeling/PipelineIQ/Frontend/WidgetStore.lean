import Mathlib.Data.List.Nodup
import Mathlib.Logic.Equiv.Basic
import PipelineIQ.Lib.Machine
import PipelineIQ.Lib.Strings

namespace PipelineIQ.Frontend.WidgetStore

open PipelineIQ.Lib.Machine PipelineIQ.Lib.Strings

/-! ### Layouts -/

inductive Direction where
  | row | col
  deriving DecidableEq, Repr

inductive LayoutNode where
  | widget (id : Text)
  | split (direction : Direction) (first second : LayoutNode)
  deriving DecidableEq, Repr

/-- A workspace without widgets has no layout. -/
abbrev Layout := Option LayoutNode

def LayoutNode.widgets : LayoutNode → List Text
  | .widget id => [id]
  | .split _ first second => first.widgets ++ second.widgets

def getAllWidgets : Layout → List Text
  | none => []
  | some node => node.widgets

/-- Null and the empty text are false. -/
def falsy (id : Option Text) : Bool := id.all List.isEmpty

def containsWidget (id : Option Text) : LayoutNode → Bool
  | .widget other => !falsy id && some other == id
  | .split _ first second => !falsy id && (containsWidget id first || containsWidget id second)

/-- The new widget beside the active one, or beside the first one where none is active. -/
def insertWidget (newId : Text) (activeId : Option Text) : Direction → LayoutNode → LayoutNode
  | parentDir, .widget id =>
    if some id = activeId ∨ falsy activeId then
      .split (if parentDir = .row then .col else .row) (.widget id) (.widget newId)
    else .widget id
  | _, .split direction first second =>
    if containsWidget activeId first then
      .split direction (insertWidget newId activeId direction first) second
    else if containsWidget activeId second then
      .split direction first (insertWidget newId activeId direction second)
    else .split direction (insertWidget newId activeId direction first) second

def addWidgetToTree (newId : Text) (activeId : Option Text) : Layout → LayoutNode
  | none => .widget newId
  | some root => insertWidget newId activeId .col root

/-- A split collapses where one of its sides is gone. -/
def collapse (direction : Direction) : Layout → Layout → Layout
  | none, second => second
  | some first, none => some first
  | some first, some second => some (.split direction first second)

def removeWidgetFromTree (id : Text) : LayoutNode → Layout
  | .widget other => if other = id then none else some (.widget other)
  | .split direction first second =>
    collapse direction (removeWidgetFromTree id first) (removeWidgetFromTree id second)

def swapWidgetsInTree (id1 id2 : Text) : LayoutNode → Layout
  | .widget id =>
    if id = id1 then some (.widget id2) else if id = id2 then some (.widget id1)
    else some (.widget id)
  | .split direction first second =>
    collapse direction (swapWidgetsInTree id1 id2 first) (swapWidgetsInTree id1 id2 second)

/-! ### The store -/

structure WidgetState where
  workspaces : Int → Layout
  activeWorkspaceId : Int
  activeWidgetId : Option Text

def DEFAULT_LAYOUT : LayoutNode :=
  .split .row (.widget "quick-stats".toList)
    (.split .col (.widget "pipeline-editor".toList) (.widget "run-monitor".toList))

def initial : WidgetState where
  workspaces := Function.update (fun _ => none) 1 (some DEFAULT_LAYOUT)
  activeWorkspaceId := 1
  activeWidgetId := some "quick-stats".toList

namespace WidgetState

def layout (s : WidgetState) : Layout := s.workspaces s.activeWorkspaceId

def setLayout (s : WidgetState) (workspace : Int) (layout : Layout) : WidgetState :=
  { s with workspaces := Function.update s.workspaces workspace layout }

def addWidget (s : WidgetState) (id : Text) : WidgetState :=
  if id ∈ getAllWidgets s.layout then { s with activeWidgetId := some id }
  else { s.setLayout s.activeWorkspaceId (some (addWidgetToTree id s.activeWidgetId s.layout)) with
    activeWidgetId := some id }

def removeWidget (s : WidgetState) (id : Text) : WidgetState :=
  if id ∈ getAllWidgets s.layout then
    let newLayout := s.layout.bind (removeWidgetFromTree id)
    { s.setLayout s.activeWorkspaceId newLayout with
      activeWidgetId := if s.activeWidgetId = some id then (getAllWidgets newLayout).getLast?
        else s.activeWidgetId }
  else s

def switchWorkspace (s : WidgetState) (id : Int) : WidgetState :=
  if id = s.activeWorkspaceId then s
  else { s with
    activeWorkspaceId := id
    activeWidgetId := (getAllWidgets (s.workspaces id)).getLast? }

def moveToWorkspace (s : WidgetState) (widgetId : Text) (target : Int) : WidgetState :=
  if s.activeWorkspaceId = target then s
  else
    let newLayout := s.layout.bind (removeWidgetFromTree widgetId)
    let s := s.setLayout s.activeWorkspaceId newLayout
    let s := if widgetId ∈ getAllWidgets (s.workspaces target) then s
      else s.setLayout target (some (addWidgetToTree widgetId none (s.workspaces target)))
    { s with activeWidgetId := (getAllWidgets newLayout).getLast? }

def swapWidgets (s : WidgetState) (id1 id2 : Text) : WidgetState :=
  s.setLayout s.activeWorkspaceId (s.layout.bind (swapWidgetsInTree id1 id2))

end WidgetState

inductive Action where
  | addWidget (id : Text)
  | removeWidget (id : Text)
  | setActiveWidget (id : Option Text)
  | resetLayout
  | switchWorkspace (id : Int)
  | moveToWorkspace (widgetId : Text) (target : Int)
  | swapWidgets (id1 id2 : Text)
  deriving DecidableEq, Repr

/-- An action; only null or a widget of the active layout is made active. -/
def step (s : WidgetState) : Action → Option WidgetState
  | .addWidget id => some (s.addWidget id)
  | .removeWidget id => some (s.removeWidget id)
  | .setActiveWidget id =>
    if ∀ widget ∈ id, widget ∈ getAllWidgets s.layout then some { s with activeWidgetId := id }
    else none
  | .resetLayout => some initial
  | .switchWorkspace id => some (s.switchWorkspace id)
  | .moveToWorkspace widgetId target => some (s.moveToWorkspace widgetId target)
  | .swapWidgets id1 id2 => some (s.swapWidgets id1 id2)

/-! ### What the store promises -/

structure Consistent (s : WidgetState) : Prop where
  once : ∀ workspace, (getAllWidgets (s.workspaces workspace)).Nodup
  active : ∀ id ∈ s.activeWidgetId, id ∈ getAllWidgets s.layout

/-- The widgets that an action is about: a reset is about all of them. -/
def named : Action → Text → Bool
  | .addWidget id, w | .removeWidget id, w | .moveToWorkspace id _, w => w == id
  | .swapWidgets id1 id2, w => w == id1 || w == id2
  | .resetLayout, _ => true
  | .setActiveWidget _, _ | .switchWorkspace _, _ => false

/-- An action changes only the widgets it is about, in every workspace, and a widget is there after
it was added. -/
structure Framed (s : WidgetState) (a : Action) (t : WidgetState) : Prop where
  others : ∀ workspace, (getAllWidgets (t.workspaces workspace)).filter (fun w => !named a w) =
    (getAllWidgets (s.workspaces workspace)).filter fun w => !named a w
  added : ∀ id, a = .addWidget id → id ∈ getAllWidgets t.layout

/-- Every state of a run is consistent, and every action of it is framed. -/
def Kept (actions : List Action) : Prop :=
  Always step Consistent initial actions ∧
    ∀ earlier a later, actions = earlier ++ a :: later → ∀ s, run step initial earlier = some s →
      ∀ t, step s a = some t → Framed s a t

/-- A swap that is about the active widget is one of two widgets of the active layout. -/
def SwapsActive (s : WidgetState) : Action → Prop
  | .swapWidgets id1 id2 => ∀ active ∈ s.activeWidgetId, active = id1 ∨ active = id2 →
      id1 ∈ getAllWidgets s.layout ∧ id2 ∈ getAllWidgets s.layout
  | _ => True

/-! ### Trees -/

section Trees

variable {newId id id1 id2 : Text} {activeId : Option Text} {layout : Layout}

theorem containsWidget_iff (node : LayoutNode) :
    containsWidget activeId node = true ↔
      falsy activeId = false ∧ ∃ id ∈ node.widgets, activeId = some id := by
  induction node with
  | widget other =>
    simp only [containsWidget, Bool.and_eq_true, Bool.not_eq_true', beq_iff_eq,
      LayoutNode.widgets, List.mem_singleton, exists_eq_left]
    rw [eq_comm (a := some other)]
  | split direction first second ihf ihs =>
    simp only [containsWidget, Bool.and_eq_true, Bool.or_eq_true, Bool.not_eq_true', ihf, ihs,
      LayoutNode.widgets, List.mem_append, or_and_right, exists_or]
    rw [← and_or_left, and_self_left]

/-- Where the active widget is in the tree, or none is, the new one is put between others. -/
theorem widgets_insertWidget (node : LayoutNode) (parentDir : Direction)
    (h : falsy activeId = true ∨ ∃ id ∈ node.widgets, activeId = some id) :
    ∃ before after, node.widgets = before ++ after ∧
      (insertWidget newId activeId parentDir node).widgets = before ++ newId :: after := by
  induction node generalizing parentDir with
  | widget id =>
    have hhere : some id = activeId ∨ falsy activeId := by
      rcases h with h | ⟨id', hid, h⟩
      · exact .inr h
      · rw [LayoutNode.widgets, List.mem_singleton] at hid
        exact .inl (hid ▸ h.symm)
    rw [insertWidget, if_pos hhere]
    exact ⟨[id], [], rfl, rfl⟩
  | split direction first second ihf ihs =>
    have hfirst : falsy activeId = true ∨ (∃ id ∈ first.widgets, activeId = some id) →
        ∃ before after, (LayoutNode.split direction first second).widgets = before ++ after ∧
          (LayoutNode.split direction (insertWidget newId activeId direction first)
            second).widgets = before ++ newId :: after := by
      intro hf
      obtain ⟨before, after, hold, hnew⟩ := ihf direction hf
      refine ⟨before, after ++ second.widgets, ?_, ?_⟩
      · rw [LayoutNode.widgets, hold, List.append_assoc]
      · rw [LayoutNode.widgets, hnew, List.append_assoc]
        rfl
    rw [insertWidget]
    by_cases hf : containsWidget activeId first = true
    · rw [if_pos hf]
      exact hfirst (.inr ((containsWidget_iff first).mp hf).2)
    · rw [if_neg hf]
      by_cases hs : containsWidget activeId second = true
      · rw [if_pos hs]
        obtain ⟨before, after, hold, hnew⟩ :=
          ihs direction (.inr ((containsWidget_iff second).mp hs).2)
        refine ⟨first.widgets ++ before, after, ?_, ?_⟩
        · rw [LayoutNode.widgets, hold, List.append_assoc]
        · rw [LayoutNode.widgets, hnew, List.append_assoc]
      · rw [if_neg hs]
        refine hfirst (.inl ?_)
        by_contra hfalsy
        obtain ⟨id, hid, hactive⟩ := h.resolve_left hfalsy
        rw [Bool.not_eq_true] at hfalsy
        rw [LayoutNode.widgets, List.mem_append] at hid
        rcases hid with hid | hid
        · exact hf ((containsWidget_iff first).mpr ⟨hfalsy, id, hid, hactive⟩)
        · exact hs ((containsWidget_iff second).mpr ⟨hfalsy, id, hid, hactive⟩)

theorem widgets_addWidgetToTree
    (h : falsy activeId = true ∨ ∃ id ∈ getAllWidgets layout, activeId = some id) :
    ∃ before after, getAllWidgets layout = before ++ after ∧
      (addWidgetToTree newId activeId layout).widgets = before ++ newId :: after := by
  cases layout with
  | none => exact ⟨[], [], rfl, rfl⟩
  | some root => exact widgets_insertWidget root .col h

theorem getAllWidgets_collapse (direction : Direction) (first second : Layout) :
    getAllWidgets (collapse direction first second) = getAllWidgets first ++ getAllWidgets second := by
  cases first with
  | none => rfl
  | some first =>
    cases second with
    | none => exact (List.append_nil _).symm
    | some second => rfl

theorem getAllWidgets_remove (node : LayoutNode) :
    getAllWidgets (removeWidgetFromTree id node) = node.widgets.filter (· ≠ id) := by
  induction node with
  | widget other =>
    rw [removeWidgetFromTree]
    by_cases h : other = id
    · simp [h, getAllWidgets, LayoutNode.widgets]
    · simp [h, getAllWidgets, LayoutNode.widgets]
  | split direction first second ihf ihs =>
    rw [removeWidgetFromTree, getAllWidgets_collapse, ihf, ihs, LayoutNode.widgets,
      List.filter_append]

theorem getAllWidgets_bind_remove :
    getAllWidgets (layout.bind (removeWidgetFromTree id)) =
      (getAllWidgets layout).filter (· ≠ id) := by
  cases layout with
  | none => rfl
  | some node => exact getAllWidgets_remove node

theorem getAllWidgets_swap (node : LayoutNode) :
    getAllWidgets (swapWidgetsInTree id1 id2 node) = node.widgets.map (Equiv.swap id1 id2) := by
  induction node with
  | widget id =>
    simp only [swapWidgetsInTree, LayoutNode.widgets, List.map_cons, List.map_nil,
      Equiv.swap_apply_def]
    split
    · rfl
    · split <;> rfl
  | split direction first second ihf ihs =>
    rw [swapWidgetsInTree, getAllWidgets_collapse, ihf, ihs, LayoutNode.widgets, List.map_append]

theorem getAllWidgets_bind_swap :
    getAllWidgets (layout.bind (swapWidgetsInTree id1 id2)) =
      (getAllWidgets layout).map (Equiv.swap id1 id2) := by
  cases layout with
  | none => rfl
  | some node => exact getAllWidgets_swap node

end Trees

/-! ### What each action keeps -/

section Actions

variable {s : WidgetState} {id id1 id2 : Text}

theorem nodup_insert {before after : List Text} (hid : id ∉ before ++ after)
    (hold : (before ++ after).Nodup) : (before ++ id :: after).Nodup := by
  rw [List.nodup_middle, List.nodup_cons]
  exact ⟨hid, hold⟩

theorem filter_insert {p : Text → Bool} {before after : List Text} (hid : p id = false) :
    (before ++ id :: after).filter p = (before ++ after).filter p := by
  rw [List.filter_append, List.filter_append, List.filter_cons_of_neg]
  rw [hid]
  exact Bool.false_ne_true

theorem filter_map_swap {p : Text → Bool} (h1 : p id1 = false) (h2 : p id2 = false)
    (widgets : List Text) : (widgets.map (Equiv.swap id1 id2)).filter p = widgets.filter p := by
  induction widgets with
  | nil => rfl
  | cons w widgets ih =>
    rw [List.map_cons, List.filter_cons, List.filter_cons, ih]
    by_cases hw1 : w = id1
    · rw [hw1, Equiv.swap_apply_left, if_neg (by simp [h2]), if_neg (by simp [h1])]
    · by_cases hw2 : w = id2
      · rw [hw2, Equiv.swap_apply_right, if_neg (by simp [h1]), if_neg (by simp [h2])]
      · rw [Equiv.swap_apply_of_ne_of_ne hw1 hw2]

theorem forall_setLayout {P : Int → Layout → Prop} {workspace : Int} {layout : Layout}
    (hs : ∀ w, P w (s.workspaces w)) (h : P workspace layout) :
    ∀ w, P w ((s.setLayout workspace layout).workspaces w) :=
  (Function.forall_update_iff s.workspaces P).mpr ⟨h, fun w _ => hs w⟩

theorem Consistent.found (hs : Consistent s) :
    falsy s.activeWidgetId = true ∨ ∃ id ∈ getAllWidgets s.layout, s.activeWidgetId = some id := by
  cases h : s.activeWidgetId with
  | none => exact .inl rfl
  | some id => exact .inr ⟨id, hs.active id h, rfl⟩

theorem mem_of_mem_getLast? {layout : Layout} :
    ∀ id ∈ (getAllWidgets layout).getLast?, id ∈ getAllWidgets layout :=
  fun _ h => List.mem_of_getLast? h

theorem consistent_initial : Consistent initial where
  once := by
    refine (Function.forall_update_iff (fun _ : Int => (none : Layout))
      fun _ layout => (getAllWidgets layout).Nodup).mpr ⟨by decide, ?_⟩
    intro workspace _
    exact List.nodup_nil
  active := by decide

/-! Adding -/

theorem consistent_addWidget (hs : Consistent s) : Consistent (s.addWidget id) := by
  unfold WidgetState.addWidget
  split
  next hid =>
    refine ⟨hs.once, ?_⟩
    rintro _ ⟨⟩
    exact hid
  next hid =>
    obtain ⟨before, after, hold, hnew⟩ := widgets_addWidgetToTree hs.found
    refine ⟨?_, ?_⟩
    · refine forall_setLayout (P := fun _ layout => (getAllWidgets layout).Nodup) hs.once ?_
      have honce := hs.once s.activeWorkspaceId
      change (getAllWidgets s.layout).Nodup at honce
      rw [hold] at honce hid
      rw [getAllWidgets, hnew]
      exact nodup_insert hid honce
    · rintro _ ⟨⟩
      dsimp only [WidgetState.layout, WidgetState.setLayout]
      rw [Function.update_self, ← WidgetState.layout, getAllWidgets, hnew]
      exact List.mem_append_right before List.mem_cons_self

theorem framed_addWidget (hs : Consistent s) : Framed s (.addWidget id) (s.addWidget id) := by
  refine ⟨?_, ?_⟩
  · unfold WidgetState.addWidget
    split
    next => exact fun _ => rfl
    next =>
      obtain ⟨before, after, hold, hnew⟩ := widgets_addWidgetToTree hs.found
      refine forall_setLayout (P := fun w layout => (getAllWidgets layout).filter _ =
        (getAllWidgets (s.workspaces w)).filter _) (fun _ => rfl) ?_
      change _ = (getAllWidgets s.layout).filter _
      rw [getAllWidgets, hnew, hold]
      exact filter_insert (by simp [named])
  · rintro _ ⟨⟩
    refine (consistent_addWidget hs).active id ?_
    unfold WidgetState.addWidget
    split <;> rfl

/-! Removing -/

theorem consistent_removeWidget (hs : Consistent s) : Consistent (s.removeWidget id) := by
  unfold WidgetState.removeWidget
  split
  next hid =>
    refine ⟨?_, ?_⟩
    · refine forall_setLayout (P := fun _ layout => (getAllWidgets layout).Nodup) hs.once ?_
      rw [getAllWidgets_bind_remove]
      exact (hs.once s.activeWorkspaceId).filter _
    · dsimp only [WidgetState.layout, WidgetState.setLayout]
      rw [Function.update_self]
      split
      next => exact mem_of_mem_getLast?
      next hactive =>
        intro active h
        rw [← WidgetState.layout, getAllWidgets_bind_remove, List.mem_filter, decide_eq_true_iff]
        refine ⟨hs.active active h, ?_⟩
        rintro rfl
        exact hactive h
  next => exact hs

theorem filter_bind_remove (layout : Layout) {p : Text → Bool} (hid : p id = false) :
    (getAllWidgets (layout.bind (removeWidgetFromTree id))).filter p =
      (getAllWidgets layout).filter p := by
  rw [getAllWidgets_bind_remove, List.filter_filter]
  refine List.filter_congr fun w _ => ?_
  by_cases h : w = id
  · simp [h, hid]
  · simp [h]

theorem framed_removeWidget : Framed s (.removeWidget id) (s.removeWidget id) := by
  refine ⟨?_, fun _ h => nomatch h⟩
  unfold WidgetState.removeWidget
  split
  next =>
    refine forall_setLayout (P := fun w layout => (getAllWidgets layout).filter _ =
      (getAllWidgets (s.workspaces w)).filter _) (fun _ => rfl) ?_
    exact filter_bind_remove s.layout (by simp [named])
  next => exact fun _ => rfl

/-! Moving -/

/-- A move leaves the target as it is where the widget is there already. -/
theorem moveToWorkspace_eq {target : Int} (h : s.activeWorkspaceId ≠ target) :
    ∃ arrival, (arrival = s.workspaces target ∨ id ∉ getAllWidgets (s.workspaces target) ∧
        arrival = some (addWidgetToTree id none (s.workspaces target))) ∧
      s.moveToWorkspace id target =
        { (s.setLayout s.activeWorkspaceId (s.layout.bind (removeWidgetFromTree id))).setLayout
            target arrival with
          activeWidgetId :=
            (getAllWidgets (s.layout.bind (removeWidgetFromTree id))).getLast? } := by
  unfold WidgetState.moveToWorkspace
  rw [if_neg h]
  have htarget : (s.setLayout s.activeWorkspaceId
      (s.layout.bind (removeWidgetFromTree id))).workspaces target = s.workspaces target :=
    Function.update_of_ne h.symm ..
  dsimp only
  by_cases hid : id ∈ getAllWidgets (s.workspaces target)
  · refine ⟨s.workspaces target, .inl rfl, ?_⟩
    rw [htarget, if_pos hid]
    dsimp only [WidgetState.setLayout]
    rw [← htarget]
    dsimp only [WidgetState.setLayout]
    rw [Function.update_eq_self]
  · refine ⟨_, .inr ⟨hid, rfl⟩, ?_⟩
    rw [htarget, if_neg hid]

theorem nodup_arrival {layout arrival : Layout} (honce : (getAllWidgets layout).Nodup)
    (h : arrival = layout ∨ id ∉ getAllWidgets layout ∧
      arrival = some (addWidgetToTree id none layout)) : (getAllWidgets arrival).Nodup := by
  rcases h with rfl | ⟨hid, rfl⟩
  · exact honce
  · have hnone : falsy none = true := rfl
    obtain ⟨before, after, hold, hnew⟩ := widgets_addWidgetToTree (.inl hnone)
    rw [hold] at honce hid
    rw [getAllWidgets, hnew]
    exact nodup_insert hid honce

theorem filter_arrival {layout arrival : Layout} {p : Text → Bool} (hp : p id = false)
    (h : arrival = layout ∨ id ∉ getAllWidgets layout ∧
      arrival = some (addWidgetToTree id none layout)) :
    (getAllWidgets arrival).filter p = (getAllWidgets layout).filter p := by
  rcases h with rfl | ⟨-, rfl⟩
  · rfl
  · have hnone : falsy none = true := rfl
    obtain ⟨before, after, hold, hnew⟩ := widgets_addWidgetToTree (.inl hnone)
    rw [getAllWidgets, hnew, hold]
    exact filter_insert hp

theorem consistent_moveToWorkspace {target : Int} (hs : Consistent s) :
    Consistent (s.moveToWorkspace id target) := by
  by_cases h : s.activeWorkspaceId = target
  · rw [WidgetState.moveToWorkspace, if_pos h]
    exact hs
  · obtain ⟨arrival, harrival, heq⟩ := moveToWorkspace_eq h
    rw [heq]
    refine ⟨?_, ?_⟩
    · refine forall_setLayout (P := fun _ layout => (getAllWidgets layout).Nodup) ?_ ?_
      · refine forall_setLayout (P := fun _ layout => (getAllWidgets layout).Nodup) hs.once ?_
        rw [getAllWidgets_bind_remove]
        exact (hs.once s.activeWorkspaceId).filter _
      · exact nodup_arrival (hs.once target) harrival
    · dsimp only [WidgetState.layout, WidgetState.setLayout]
      rw [Function.update_of_ne h, Function.update_self]
      exact mem_of_mem_getLast?

theorem framed_moveToWorkspace {target : Int} :
    Framed s (.moveToWorkspace id target) (s.moveToWorkspace id target) := by
  refine ⟨?_, fun _ h => nomatch h⟩
  by_cases h : s.activeWorkspaceId = target
  · rw [WidgetState.moveToWorkspace, if_pos h]
    exact fun _ => rfl
  · obtain ⟨arrival, harrival, heq⟩ := moveToWorkspace_eq h
    rw [heq]
    refine forall_setLayout (P := fun w layout => (getAllWidgets layout).filter _ =
      (getAllWidgets (s.workspaces w)).filter _) ?_ ?_
    · refine forall_setLayout (P := fun w layout => (getAllWidgets layout).filter _ =
        (getAllWidgets (s.workspaces w)).filter _) (fun _ => rfl) ?_
      exact filter_bind_remove s.layout (by simp [named])
    · exact filter_arrival (by simp [named]) harrival

/-! Swapping -/

theorem mem_map_swap_iff {active : Text} {widgets : List Text} (h : active ∈ widgets) :
    active ∈ widgets.map (Equiv.swap id1 id2) ↔
      (active = id1 ∨ active = id2 → id1 ∈ widgets ∧ id2 ∈ widgets) := by
  have hinvolutive : Function.Involutive (Equiv.swap id1 id2) := Equiv.swap_apply_self id1 id2
  rw [List.mem_map_of_involutive hinvolutive]
  by_cases h1 : active = id1
  · subst h1
    rw [Equiv.swap_apply_left]
    exact ⟨fun h2 _ => ⟨h, h2⟩, fun hboth => (hboth (.inl rfl)).2⟩
  · by_cases h2 : active = id2
    · subst h2
      rw [Equiv.swap_apply_right]
      exact ⟨fun h1 _ => ⟨h1, h⟩, fun hboth => (hboth (.inr rfl)).1⟩
    · rw [Equiv.swap_apply_of_ne_of_ne h1 h2]
      exact ⟨fun _ hnamed => (hnamed.elim h1 h2).elim, fun _ => h⟩

/-- A swap does not move the active widget with the others: it stays where it was named. -/
theorem consistent_swapWidgets_iff (hs : Consistent s) :
    Consistent (s.swapWidgets id1 id2) ↔ SwapsActive s (.swapWidgets id1 id2) := by
  have hlayout : getAllWidgets (s.swapWidgets id1 id2).layout =
      (getAllWidgets s.layout).map (Equiv.swap id1 id2) := by
    dsimp only [WidgetState.layout, WidgetState.swapWidgets, WidgetState.setLayout]
    rw [Function.update_self]
    exact getAllWidgets_bind_swap
  constructor
  · intro ht active hactive
    have hin := ht.active active hactive
    rw [hlayout] at hin
    exact (mem_map_swap_iff (hs.active active hactive)).mp hin
  · intro hswap
    refine ⟨?_, ?_⟩
    · refine forall_setLayout (P := fun _ layout => (getAllWidgets layout).Nodup) hs.once ?_
      rw [getAllWidgets_bind_swap]
      exact (hs.once s.activeWorkspaceId).map (Equiv.swap id1 id2).injective
    · intro active hactive
      rw [hlayout]
      exact (mem_map_swap_iff (hs.active active hactive)).mpr (hswap active hactive)

theorem framed_swapWidgets : Framed s (.swapWidgets id1 id2) (s.swapWidgets id1 id2) := by
  refine ⟨?_, fun _ h => nomatch h⟩
  refine forall_setLayout (P := fun w layout => (getAllWidgets layout).filter _ =
    (getAllWidgets (s.workspaces w)).filter _) (fun _ => rfl) ?_
  rw [getAllWidgets_bind_swap]
  exact filter_map_swap (by simp [named]) (by simp [named]) _

/-! Switching -/

theorem consistent_switchWorkspace {workspace : Int} (hs : Consistent s) :
    Consistent (s.switchWorkspace workspace) := by
  unfold WidgetState.switchWorkspace
  split
  next => exact hs
  next => exact ⟨hs.once, mem_of_mem_getLast?⟩

theorem framed_switchWorkspace {workspace : Int} :
    Framed s (.switchWorkspace workspace) (s.switchWorkspace workspace) := by
  refine ⟨?_, fun _ h => nomatch h⟩
  unfold WidgetState.switchWorkspace
  split <;> exact fun _ => rfl

end Actions

/-! ### Runs -/

section Runs

variable {s t : WidgetState} {a : Action}

theorem consistent_step_iff (hs : Consistent s) (h : step s a = some t) :
    Consistent t ↔ SwapsActive s a := by
  cases a with
  | addWidget id =>
    cases h
    exact iff_of_true (consistent_addWidget hs) trivial
  | removeWidget id =>
    cases h
    exact iff_of_true (consistent_removeWidget hs) trivial
  | setActiveWidget id =>
    rw [step] at h
    split at h
    next hactive =>
      cases h
      exact iff_of_true ⟨hs.once, hactive⟩ trivial
    next => cases h
  | resetLayout =>
    cases h
    exact iff_of_true consistent_initial trivial
  | switchWorkspace id =>
    cases h
    exact iff_of_true (consistent_switchWorkspace hs) trivial
  | moveToWorkspace widgetId target =>
    cases h
    exact iff_of_true (consistent_moveToWorkspace hs) trivial
  | swapWidgets id1 id2 =>
    cases h
    exact consistent_swapWidgets_iff hs

theorem framed_step (hs : Consistent s) (h : step s a = some t) : Framed s a t := by
  cases a with
  | addWidget id =>
    cases h
    exact framed_addWidget hs
  | removeWidget id =>
    cases h
    exact framed_removeWidget
  | setActiveWidget id =>
    rw [step] at h
    split at h
    next =>
      cases h
      exact ⟨fun _ => rfl, fun _ h => nomatch h⟩
    next => cases h
  | resetLayout =>
    refine ⟨fun _ => ?_, fun _ h => nomatch h⟩
    simp [named]
  | switchWorkspace id =>
    cases h
    exact framed_switchWorkspace
  | moveToWorkspace widgetId target =>
    cases h
    exact framed_moveToWorkspace
  | swapWidgets id1 id2 =>
    cases h
    exact framed_swapWidgets

/-- A run keeps what the store promises exactly when each swap of it that is about the active widget
is one of two widgets of the active layout. -/
theorem kept_iff (actions : List Action) :
    Kept actions ↔ Along step SwapsActive initial actions := by
  have hnone : ∀ s a, step s a = none → SwapsActive s a := by
    intro s a h
    cases a with
    | swapWidgets id1 id2 => cases h
    | _ => trivial
  have halways : Always step Consistent initial actions ↔ Along step SwapsActive initial actions :=
    always_iff_along_all (I := fun _ => True) (fun _ _ _ _ _ => trivial) hnone
      (fun _ _ _ _ hs h => consistent_step_iff hs h) trivial consistent_initial
  constructor
  · rintro ⟨hconsistent, -⟩
    exact halways.mp hconsistent
  · intro h
    refine ⟨halways.mpr h, ?_⟩
    intro earlier a later hactions s hs t ht
    exact framed_step (halways.mpr h earlier (a :: later) hactions s hs) ht

/-- The active widget is swapped for one that is not there, and the widget that is added next is
added nowhere. -/
theorem add_after_swap_lost : ¬ ∀ actions, Kept actions := by
  intro h
  have hadded := (h [.swapWidgets "quick-stats".toList "templates".toList,
    .addWidget "schedules".toList]).2 [.swapWidgets "quick-stats".toList "templates".toList]
    (.addWidget "schedules".toList) [] rfl _ rfl _ rfl
  exact absurd (hadded.added _ rfl) (by decide)

end Runs

end PipelineIQ.Frontend.WidgetStore
