import PipelineIQ.Frontend.CanvasEditing
import PipelineIQ.Frontend.Resaving

namespace PipelineIQ.Frontend.CanvasRoundTrip

open PipelineIQ.Lib PipelineIQ.Lib.Strings PipelineIQ.Lib.Yaml PipelineIQ.Pipeline.Parser
open PipelineIQ.Frontend.PipelineEditor PipelineIQ.Frontend.StepNames PipelineIQ.Frontend.YamlGraph
open PipelineIQ.Frontend.EmittedSteps PipelineIQ.Frontend.YamlToGraph
open PipelineIQ.Frontend.TopologicalOrder PipelineIQ.Frontend.CanvasEditing
open PipelineIQ.Frontend.PlacedSteps PipelineIQ.Frontend.ReopenedGraph PipelineIQ.Frontend.Resaving

variable {R : Type}

/-! ### The sources of a placed node -/

/-- An edge from a node to another at a handle. -/
def Feeds (edges : List Edge) (source target handle : Text) : Prop :=
  ∃ e ∈ edges, e.source = source ∧ e.target = target ∧ e.targetHandle = some handle

/-- A step is placed for a node: it has its type, and its sources are the names of the steps
that the edges into the node come from. -/
structure PlacedAs (edges : List Edge) (all : List (PipelineEditor.Node R Entries × Placed))
    (node : PipelineEditor.Node R Entries) (p : Placed) : Prop where
  type : stepTypeOf node = some p.stepType
  sources : ∃ stepNames : Dict Text Text, p.sources = sourcesOf p.stepType stepNames
      (incoming edges node.id) ∧ ∀ e ∈ incoming edges node.id, ∃ r ∈ all, r.1.id = e.source ∧
        stepNames.get? e.source = some r.2.stepName

variable {s : Editor R} {rest ordered : List (PipelineEditor.Node R Entries)}
  {placed : List Placed} {stepNames : Dict Text Text} {used : List Text} {index : Nat}

theorem incomingEdges_eq {edges : List Edge} {id : Text}
    (h : ∀ e ∈ incoming edges id, (stepNames.get? e.source).isSome) :
    incomingEdges edges stepNames id = incoming edges id := by
  rw [incomingEdges]
  exact List.filter_eq_self.mpr h

theorem PlacedAs.mono {edges : List Edge} {all all' : List (PipelineEditor.Node R Entries × Placed)}
    {node : PipelineEditor.Node R Entries} {p : Placed} (h : PlacedAs edges all node p)
    (hsub : ∀ r ∈ all, r ∈ all') : PlacedAs edges all' node p := by
  obtain ⟨stepNames, hsources, hnamed⟩ := h.sources
  refine ⟨h.type, stepNames, hsources, fun e he => ?_⟩
  obtain ⟨r, hr, hget⟩ := hnamed e he
  exact ⟨r, hsub r hr, hget⟩

/-- Every node of an order is placed, its sources before it. -/
theorem placeFrom_placedAs (h : Sound s) (done : List (PipelineEditor.Node R Entries × Placed))
    (hperm : (done.map Prod.fst ++ rest).Perm s.nodes)
    (hforward : Kahn.Forward (Linked s.nodes s.edges) ((done.map Prod.fst ++ rest).map (·.id)))
    (hnamed : ∀ r ∈ done, stepNames.get? r.1.id = some r.2.stepName)
    (hplaced : placeFrom s.nodes s.edges index used stepNames rest = some placed) :
    List.Forall₂ (PlacedAs s.edges (done ++ rest.zip placed)) rest placed := by
  induction rest generalizing index used stepNames placed done with
  | nil =>
    cases hplaced
    exact .nil
  | cons node rest ih =>
    have hnode : node ∈ s.nodes :=
      hperm.mem_iff.mp (List.mem_append_right _ List.mem_cons_self)
    obtain ⟨t, config, htype, -, stepName, after, -, hafter, rfl⟩ :=
      placeFrom_cons h.ids_nodup hnode hplaced
    have hids := (hperm.map (·.id)).nodup_iff.mpr h.ids_nodup
    have hsplit : (done.map Prod.fst ++ node :: rest).map (·.id) =
        (done.map Prod.fst).map (·.id) ++ node.id :: rest.map (·.id) := by
      rw [List.map_append, List.map_cons]
    rw [hsplit] at hids
    have hbefore : ∀ e ∈ incoming s.edges node.id, ∃ r ∈ done, r.1.id = e.source := by
      intro e he
      rw [incoming, List.mem_filter, decide_eq_true_eq] at he
      have hlinked : Linked s.nodes s.edges e.source node.id :=
        ⟨(h.closed e he.1).1, List.mem_map_of_mem hnode, List.mem_map.mpr ⟨e, he.1, by rw [he.2]⟩⟩
      have hmem := hforward _ node.id _ hsplit e.source hlinked
      rw [List.map_map] at hmem
      exact List.mem_map.mp hmem
    have hnamed' : ∀ r ∈ done, (stepNames.set node.id stepName).get? r.1.id = some r.2.stepName := by
      intro r hr
      rw [Dict.get?_set, if_neg]
      · exact hnamed r hr
      · intro hid
        have hmem : r.1.id ∈ (done.map Prod.fst).map (·.id) :=
          List.mem_map_of_mem (List.mem_map_of_mem hr)
        exact List.disjoint_of_nodup_append hids hmem (hid ▸ List.mem_cons_self)
    have hincoming : incomingEdges s.edges (stepNames.set node.id stepName) node.id =
        incoming s.edges node.id := by
      apply incomingEdges_eq
      intro e he
      obtain ⟨r, hr, hid⟩ := hbefore e he
      rw [← hid, hnamed' r hr]
      rfl
    have hself : PlacedAs s.edges (done ++ (node :: rest).zip (⟨stepName, t, sourcesOf t
        (stepNames.set node.id stepName) (incomingEdges s.edges (stepNames.set node.id stepName)
          node.id), config⟩ :: after)) node ⟨stepName, t, sourcesOf t (stepNames.set node.id stepName)
        (incomingEdges s.edges (stepNames.set node.id stepName) node.id), config⟩ := by
      refine ⟨htype, stepNames.set node.id stepName, by rw [hincoming], ?_⟩
      intro e he
      obtain ⟨r, hr, hid⟩ := hbefore e he
      exact ⟨r, List.mem_append_left _ hr, hid, hid ▸ hnamed' r hr⟩
    refine .cons hself ?_
    rw [List.zip_cons_cons, List.append_cons]
    have hdone : ∀ p : Placed, (done ++ [(node, p)]).map Prod.fst ++ rest =
        done.map Prod.fst ++ node :: rest := by
      intro p
      rw [List.map_append, List.map_singleton, List.append_assoc, List.singleton_append]
    apply ih _ _ _ _ hafter
    · rwa [hdone]
    · rwa [hdone]
    · intro r hr
      cases List.mem_append.mp hr with
      | inl hr => exact hnamed' r hr
      | inr hr => rw [List.mem_singleton.mp hr, Dict.get?_set, if_pos rfl]

/-! ### Sources and links -/

/-- Of the things that at most one is, there are no two. -/
theorem eq_of_countP_le_one {α : Type} {p : α → Bool} {xs : List α} (h : xs.countP p ≤ 1) {x y : α}
    (hx : x ∈ xs) (hy : y ∈ xs) (hpx : p x = true) (hpy : p y = true) : x = y := by
  rw [List.countP_eq_length_filter] at h
  have hmemx : x ∈ xs.filter p := List.mem_filter.mpr ⟨hx, hpx⟩
  have hmemy : y ∈ xs.filter p := List.mem_filter.mpr ⟨hy, hpy⟩
  cases hfilter : xs.filter p with
  | nil =>
    rw [hfilter] at hmemx
    cases hmemx
  | cons z zs =>
    rw [hfilter, List.length_cons] at h
    rw [hfilter, List.length_eq_zero_iff.mp (by omega : zs.length = 0), List.mem_singleton] at hmemx hmemy
    rw [hmemx, hmemy]

section Sources

variable {id : Text} {node : PipelineEditor.Node R Entries}
  {all : List (PipelineEditor.Node R Entries × Placed)} {u : PipelineEditor.Node R Entries × Placed}

theorem mem_incoming {edges : List Edge} {e : Edge} :
    e ∈ incoming edges id ↔ e ∈ edges ∧ e.target = id := by
  rw [incoming, List.mem_filter, decide_eq_true_eq]

theorem find_handle {handle : Text} (hone : atHandle s.edges id handle ≤ 1) {e : Edge}
    (he : e ∈ incoming s.edges id) (hhandle : e.targetHandle = some handle) :
    (incoming s.edges id).find? (fun e => decide (e.targetHandle = some handle)) = some e := by
  obtain ⟨found, hfound⟩ : ∃ found, (incoming s.edges id).find?
      (fun e => decide (e.targetHandle = some handle)) = some found := by
    rw [← Option.isSome_iff_exists, List.find?_isSome]
    exact ⟨e, he, decide_eq_true hhandle⟩
  have hmem := List.mem_of_find?_eq_some hfound
  have hfits := List.find?_some hfound
  rw [decide_eq_true_eq] at hfits
  rw [mem_incoming] at he hmem
  rw [hfound, Option.some.injEq]
  apply eq_of_countP_le_one hone hmem.1 he.1
  · exact decide_eq_true ⟨hmem.2, hfits⟩
  · exact decide_eq_true ⟨he.2, hhandle⟩

theorem atHandle_eq_zero_iff {handle : Text} : atHandle s.edges id handle = 0 ↔
    ∀ e ∈ incoming s.edges id, e.targetHandle ≠ some handle := by
  rw [atHandle, List.countP_eq_zero]
  constructor
  · intro h e he hhandle
    rw [mem_incoming] at he
    exact h e he.1 (decide_eq_true ⟨he.2, hhandle⟩)
  · intro h e he hboth
    rw [decide_eq_true_eq] at hboth
    exact h e (mem_incoming.mpr ⟨he, hboth.1⟩) hboth.2

/-- Every placed name stands for one node. -/
structure Named (all : List (PipelineEditor.Node R Entries × Placed)) : Prop where
  ids : ∀ r ∈ all, ∀ r' ∈ all, r.1.id = r'.1.id → r = r'
  names : ∀ r ∈ all, ∀ r' ∈ all, r.2.stepName = r'.2.stepName → r = r'
  ne_nil : ∀ r ∈ all, r.2.stepName ≠ []

theorem sourceText_eq_iff (hall : Named all) (hu : u ∈ all) {edge : Option Edge}
    (hnamed : ∀ e, edge = some e → ∃ r ∈ all, r.1.id = e.source ∧
      stepNames.get? e.source = some r.2.stepName) :
    sourceText stepNames edge = u.2.stepName ↔ ∃ e, edge = some e ∧ e.source = u.1.id := by
  cases edge with
  | none =>
    refine iff_of_false ?_ (by rintro ⟨e, ⟨⟩, -⟩)
    exact fun h => hall.ne_nil u hu h.symm
  | some e =>
    obtain ⟨r, hr, hid, hget⟩ := hnamed e rfl
    rw [sourceText, Option.bind_some, hget, Option.getD_some]
    simp only [Option.some.injEq, exists_eq_left']
    rw [← hid]
    exact ⟨fun h => by rw [hall.names r hr u hu h], fun h => by rw [hall.ids r hr u hu h]⟩

/-- With only a right edge, a join is written with it on both sides. -/
theorem leftEdge_source_iff (h : Sound s) (hnode : node ∈ s.nodes) (hjoin : stepTypeOf node = some .join)
    {source : Text} : (∃ e, leftEdge (incoming s.edges node.id) = some e ∧ e.source = source) ↔
      Feeds s.edges source node.id leftHandle ∨
        atHandle s.edges node.id leftHandle = 0 ∧ Feeds s.edges source node.id rightHandle := by
  obtain ⟨hleft, hright, hhandles⟩ := h.join node hnode hjoin
  have hfirst : ∀ e, leftEdge (incoming s.edges node.id) = some e ↔
      (incoming s.edges node.id).find? (fun e => decide (e.targetHandle = some leftHandle)) = some e ∨
        (incoming s.edges node.id).find? (fun e => decide (e.targetHandle = some leftHandle)) = none ∧
          (incoming s.edges node.id).head? = some e := by
    intro e
    exact Option.or_eq_some_iff
  constructor
  · rintro ⟨e, he, rfl⟩
    rcases (hfirst e).mp he with hfind | ⟨hnone, hhead⟩
    · have hmem := mem_incoming.mp (List.mem_of_find?_eq_some hfind)
      have hfits := List.find?_some hfind
      rw [decide_eq_true_eq] at hfits
      exact .inl ⟨e, hmem.1, rfl, hmem.2, hfits⟩
    · rw [List.find?_eq_none] at hnone
      have hzero : ∀ e ∈ incoming s.edges node.id, e.targetHandle ≠ some leftHandle :=
        fun e he heq => hnone e he (decide_eq_true heq)
      have hmem := List.mem_of_head? hhead
      have hother := (hhandles e hmem).resolve_left (hzero e hmem)
      rw [mem_incoming] at hmem
      exact .inr ⟨atHandle_eq_zero_iff.mpr hzero, e, hmem.1, rfl, hmem.2, hother⟩
  · rintro (⟨e, he, rfl, htarget, hhandle⟩ | ⟨hzero, e, he, rfl, htarget, hhandle⟩)
    · exact ⟨e, (hfirst e).mpr (.inl (find_handle hleft (mem_incoming.mpr ⟨he, htarget⟩) hhandle)), rfl⟩
    · have hmem := mem_incoming.mpr ⟨he, htarget⟩
      rw [atHandle_eq_zero_iff] at hzero
      have hnone : (incoming s.edges node.id).find?
          (fun e => decide (e.targetHandle = some leftHandle)) = none := by
        rw [List.find?_eq_none]
        exact fun e he heq => hzero e he (of_decide_eq_true heq)
      obtain ⟨first, tail, hcons⟩ := List.exists_cons_of_ne_nil (List.ne_nil_of_mem hmem)
      have hhead : (incoming s.edges node.id).head? = some first := by
        rw [hcons]
        rfl
      have hfirst' := List.mem_of_head? hhead
      have hother := (hhandles first hfirst').resolve_left (hzero first hfirst')
      have hsame := (find_handle hright hfirst' hother).symm.trans (find_handle hright hmem hhandle)
      cases hsame
      exact ⟨e, (hfirst e).mpr (.inr ⟨hnone, hhead⟩), rfl⟩

theorem rightEdge_source_iff (h : Sound s) (hnode : node ∈ s.nodes)
    (hjoin : stepTypeOf node = some .join) {source : Text} :
    (∃ e, rightEdge (incoming s.edges node.id) = some e ∧ e.source = source) ↔
      Feeds s.edges source node.id rightHandle := by
  obtain ⟨hleft, hright, hhandles⟩ := h.join node hnode hjoin
  constructor
  · rintro ⟨e, he, rfl⟩
    rcases Option.or_eq_some_iff.mp he with hfind | ⟨hnone, hfind⟩
    · have hmem := mem_incoming.mp (List.mem_of_find?_eq_some hfind)
      have hfits := List.find?_some hfind
      rw [decide_eq_true_eq] at hfits
      exact ⟨e, hmem.1, rfl, hmem.2, hfits⟩
    · -- no edge goes to the right, so the only one is the left one
      rw [List.find?_eq_none] at hnone
      have hmem := List.mem_of_find?_eq_some hfind
      have hfits := List.find?_some hfind
      rw [decide_eq_true_eq] at hfits
      have hhandle := (hhandles e hmem).resolve_right fun heq => hnone e hmem (decide_eq_true heq)
      refine absurd ?_ hfits
      exact (Option.or_eq_some_iff.mpr (.inl (find_handle hleft hmem hhandle))).symm
  · rintro ⟨e, he, rfl, htarget, hhandle⟩
    exact ⟨e, Option.or_eq_some_iff.mpr
      (.inl (find_handle hright (mem_incoming.mpr ⟨he, htarget⟩) hhandle)), rfl⟩

/-- What the sources of a step are, in terms of the edges into its node. -/
structure SourcesOf (s : Editor R) (all : List (PipelineEditor.Node R Entries × Placed))
    (node : PipelineEditor.Node R Entries) (p : Placed) : Prop where
  any : ∀ u ∈ all, u.2.stepName ∈ p.sources ↔ ∃ e ∈ incoming s.edges node.id, e.source = u.1.id
  join : p.stepType = .join → ∃ left right, p.sources = [left, right] ∧ ∀ u ∈ all,
    (left = u.2.stepName ↔ Feeds s.edges u.1.id node.id leftHandle ∨
      atHandle s.edges node.id leftHandle = 0 ∧ Feeds s.edges u.1.id node.id rightHandle) ∧
    (right = u.2.stepName ↔ Feeds s.edges u.1.id node.id rightHandle)

theorem PlacedAs.sourcesOf (h : Sound s) (hall : Named all) (hnode : node ∈ s.nodes) {p : Placed}
    (hp : PlacedAs s.edges all node p) : SourcesOf s all node p := by
  obtain ⟨stepNames, hsources, hnamed⟩ := hp.sources
  have htext : ∀ u ∈ all, ∀ edge : Option Edge, (∀ e, edge = some e → e ∈ incoming s.edges node.id) →
      (sourceText stepNames edge = u.2.stepName ↔ ∃ e, edge = some e ∧ e.source = u.1.id) :=
    fun u hu edge hmem => sourceText_eq_iff hall hu fun e he => hnamed e (hmem e he)
  by_cases hjoin : p.stepType = .join
  · have hnodeJoin : stepTypeOf node = some .join := hjoin ▸ hp.type
    rw [PlacedSteps.sourcesOf, if_pos hjoin] at hsources
    have hsides : ∀ u ∈ all, _ ∧ _ := fun u hu =>
      And.intro ((htext u hu _ fun e => CanvasNames.mem_of_leftEdge).trans (leftEdge_source_iff h hnode hnodeJoin))
        ((htext u hu _ fun e => CanvasNames.mem_of_rightEdge).trans (rightEdge_source_iff h hnode hnodeJoin))
    refine ⟨?_, fun _ => ⟨_, _, hsources, hsides⟩⟩
    intro u hu
    rw [hsources, List.mem_pair,
      or_congr (eq_comm.trans (hsides u hu).1) (eq_comm.trans (hsides u hu).2)]
    have hfeeds : ∀ handle, Feeds s.edges u.1.id node.id handle →
        ∃ e ∈ incoming s.edges node.id, e.source = u.1.id := by
      rintro handle ⟨e, he, hsource, htarget, -⟩
      exact ⟨e, mem_incoming.mpr ⟨he, htarget⟩, hsource⟩
    constructor
    · rintro ((hleft | ⟨-, hright⟩) | hright)
      · exact hfeeds _ hleft
      · exact hfeeds _ hright
      · exact hfeeds _ hright
    · rintro ⟨e, he, hsource⟩
      have hmem := mem_incoming.mp he
      cases (h.join node hnode hnodeJoin).2.2 e he with
      | inl hhandle => exact .inl (.inl ⟨e, hmem.1, hsource, hmem.2, hhandle⟩)
      | inr hhandle => exact .inr ⟨e, hmem.1, hsource, hmem.2, hhandle⟩
  · refine ⟨?_, fun hj => absurd hj hjoin⟩
    intro u hu
    have hone := h.arity node hnode _ hp.type hjoin
    have hmax : maxInputs p.stepType ≤ 1 := by
      cases hp : p.stepType <;> first
        | exact absurd hp hjoin
        | decide
    rw [PlacedSteps.sourcesOf, if_neg hjoin] at hsources
    cases hincoming : incoming s.edges node.id with
    | nil =>
      rw [hincoming] at hsources
      refine iff_of_false ?_ (by rintro ⟨e, ⟨⟩, -⟩)
      rw [hsources]
      split
      · rw [List.mem_singleton]
        exact fun heq => hall.ne_nil u hu heq
      · exact List.not_mem_nil
    | cons e rest =>
      rw [hincoming, List.length_cons] at hone
      have hrest : rest = [] := List.length_eq_zero_iff.mp (by omega)
      have htext' := htext u hu (some e) (by
        rintro _ ⟨⟩
        rw [hincoming]
        exact List.mem_cons_self)
      rw [hsources, if_pos (by omega), hincoming, hrest, List.head?_cons, List.mem_singleton, eq_comm,
        htext']
      simp only [Option.some.injEq, exists_eq_left', List.mem_singleton, exists_eq_left]

end Sources

/-! ### The canvas and what it is opened as -/

/-- A saved canvas and the canvas that its text is opened as, node by node. -/
structure RoundTrip (s : Editor R) (g : BuilderGraph)
    (pairs : List (PipelineEditor.Node R Entries × BuilderNode)) : Prop where
  saved : (pairs.map Prod.fst).Perm s.nodes
  opened : pairs.map Prod.snd = g.nodes
  ids_nodup : (g.nodes.map (·.id)).Nodup
  type : ∀ p ∈ pairs, p.2.data.type = p.1.data.type
  linked : ∀ p ∈ pairs, ∀ q ∈ pairs,
    Linked g.nodes g.edges p.2.id q.2.id ↔ Linked s.nodes s.edges p.1.id q.1.id
  /-- A join with its right input alone is opened with it on both sides. -/
  left : ∀ p ∈ pairs, ∀ q ∈ pairs, stepTypeOf q.1 = some .join →
    (Feeds g.edges p.2.id q.2.id leftHandle ↔ Feeds s.edges p.1.id q.1.id leftHandle ∨
      atHandle s.edges q.1.id leftHandle = 0 ∧ Feeds s.edges p.1.id q.1.id rightHandle)
  right : ∀ p ∈ pairs, ∀ q ∈ pairs, stepTypeOf q.1 = some .join →
    (Feeds g.edges p.2.id q.2.id rightHandle ↔ Feeds s.edges p.1.id q.1.id rightHandle)

theorem type_of_stepTypeOf {node : PipelineEditor.Node R Entries} {t : StepType}
    (h : stepTypeOf node = some t) : node.data.type = some t.value.toList := by
  obtain ⟨text, htext, hof⟩ := Option.bind_eq_some_iff.mp h
  have hvalue := List.find?_some hof
  rw [decide_eq_true_eq] at hvalue
  rw [htext, hvalue]

theorem feeds_opened_iff (hfit : FitAll [] placed) {q r : Placed × Text} (hq : q ∈ numbered placed)
    (hr : r ∈ numbered placed) {left right : Text} (hjoin : q.1.stepType = .join)
    (hsources : q.1.sources = [left, right]) :
    (Feeds (openedGraphEdges placed) r.2 q.2 leftHandle ↔ left = r.1.stepName) ∧
      (Feeds (openedGraphEdges placed) r.2 q.2 rightHandle ↔ right = r.1.stepName) := by
  have hfields : refFields q.1.stepType = ["left", "right"] := hjoin ▸ rfl
  have hedge : ∀ handle, Feeds (openedGraphEdges placed) r.2 q.2 handle ↔
      ∃ ref ∈ [("left", left), ("right", right)], ref.1.toList = handle ∧ ref.2 = r.1.stepName := by
    intro handle
    constructor
    · rintro ⟨e, he, hsource, htarget, hhandle⟩
      obtain ⟨q', hq', he⟩ := List.mem_flatMap.mp he
      obtain ⟨ref, href, r', hr', hname, rfl⟩ := (mem_openedEdges hfit).mp he
      cases eq_of_id hq' hq htarget
      cases eq_of_id hr' hr hsource
      rw [hfields, hsources] at href
      exact ⟨ref, href, Option.some.inj hhandle, hname.symm⟩
    · rintro ⟨ref, href, rfl, hname⟩
      refine ⟨toEdge r.2 q.2 ref.1.toList (decide (q.1.stepType = .join)), ?_, rfl, rfl, rfl⟩
      refine List.mem_flatMap.mpr ⟨q, hq, (mem_openedEdges hfit).mpr ⟨ref, ?_, r, hr, hname.symm, rfl⟩⟩
      rw [hfields, hsources]
      exact href
  constructor
  · rw [hedge]
    simp [leftHandle]
  · rw [hedge]
    simp [rightHandle]

section Pairs

variable (h : Sound s) (hperm : ordered.Perm s.nodes) (hfit : FitAll [] placed)
  (hall : List.Forall₂ (PlacedAs s.edges (ordered.zip placed)) ordered placed)
include hall

theorem mem_zip_placed {r : PipelineEditor.Node R Entries × (Placed × Text)}
    (hr : r ∈ ordered.zip (numbered placed)) : (r.1, r.2.1) ∈ ordered.zip placed ∧
      r.2 ∈ numbered placed ∧ PlacedAs s.edges (ordered.zip placed) r.1 r.2.1 := by
  have hmem : (r.1, r.2.1) ∈ ordered.zip placed := by
    have hzip : ordered.zip placed = (ordered.zip (numbered placed)).map (Prod.map id Prod.fst) := by
      conv_lhs => rw [← map_fst_numbered placed]
      exact List.zip_map_right
    rw [hzip]
    exact List.mem_map.mpr ⟨r, hr, rfl⟩
  exact ⟨hmem, (List.of_mem_zip hr).2, List.forall₂_zip hall hmem⟩

include h hperm hfit

theorem named_zip : Named (ordered.zip placed) := by
  have hlength := hall.length_eq
  have hids : ((ordered.zip placed).map (·.1.id)).Nodup := by
    have hmap : (ordered.zip placed).map (·.1.id) = ordered.map (·.id) := by
      conv_rhs => rw [← List.map_fst_zip hlength.le]
      rw [List.map_map]
      rfl
    rw [hmap]
    exact (hperm.map _).nodup_iff.mpr h.ids_nodup
  have hnames : ((ordered.zip placed).map (·.2.stepName)).Nodup := by
    have hmap : (ordered.zip placed).map (·.2.stepName) = placed.map (·.stepName) := by
      conv_rhs => rw [← List.map_snd_zip hlength.ge]
      rw [List.map_map]
      rfl
    rw [hmap]
    exact (FitAll.names hfit).1
  refine ⟨fun r hr r' hr' => List.inj_on_of_nodup_map hids hr hr',
    fun r hr r' hr' => List.inj_on_of_nodup_map hnames hr hr', fun r hr => ?_⟩
  exact ((FitAll.names hfit).2 r.2 (List.of_mem_zip hr).2).1.ne_nil

theorem roundTrip_of_placed (pipelineName : Text) : RoundTrip s (reopened pipelineName placed)
    ((ordered.zip (numbered placed)).map fun r => (r.1, openedNode r.2)) := by
  have hnumbered : (numbered placed).length = placed.length := by
    rw [← List.length_map Prod.fst, map_fst_numbered]
  have hlength : ordered.length = (numbered placed).length := hall.length_eq.trans hnumbered.symm
  have hnamed := named_zip h hperm hfit hall
  have hsources : ∀ r ∈ ordered.zip (numbered placed),
      SourcesOf s (ordered.zip placed) r.1 r.2.1 := fun r hr =>
    (mem_zip_placed hall hr).2.2.sourcesOf h hnamed (hperm.mem_iff.mp (List.of_mem_zip hr).1)
  have hnode : ∀ r ∈ ordered.zip (numbered placed), r.1 ∈ s.nodes := fun r hr =>
    hperm.mem_iff.mp (List.of_mem_zip hr).1
  have hjoined : ∀ r ∈ ordered.zip (numbered placed), stepTypeOf r.1 = some .join →
      r.2.1.stepType = .join := fun r hr hjoin =>
    Option.some.inj ((mem_zip_placed hall hr).2.2.type.symm.trans hjoin)
  constructor
  · rw [List.map_map]
    have hfst : (ordered.zip (numbered placed)).map Prod.fst = ordered := List.map_fst_zip hlength.le
    exact hfst.symm ▸ hperm
  · rw [List.map_map]
    conv_rhs => rw [reopened, ← List.map_snd_zip hlength.ge, List.map_map]
    rfl
  · exact ids_opened (numbered placed) ▸ (ids_numbered placed).1
  · rw [List.forall_mem_map]
    intro r hr
    exact (type_of_stepTypeOf (mem_zip_placed hall hr).2.2.type).symm
  · rw [List.forall_mem_map]
    intro r hr
    rw [List.forall_mem_map]
    intro q hq
    have hedge : Linked (reopened pipelineName placed).nodes (reopened pipelineName placed).edges
        r.2.2 q.2.2 ↔ ∃ r' ∈ numbered placed, r'.2 = r.2.2 ∧ r'.1.stepName ∈ q.2.1.sources := by
      rw [← edge_opened_iff hfit (mem_zip_placed hall hq).2.1, ← ids_opened]
      rfl
    refine hedge.trans ?_
    have hsame : (∃ r' ∈ numbered placed, r'.2 = r.2.2 ∧ r'.1.stepName ∈ q.2.1.sources) ↔
        r.2.1.stepName ∈ q.2.1.sources := by
      constructor
      · rintro ⟨r', hr', hid, hmem⟩
        rwa [eq_of_id hr' (mem_zip_placed hall hr).2.1 hid] at hmem
      · exact fun hmem => ⟨r.2, (mem_zip_placed hall hr).2.1, rfl, hmem⟩
    rw [hsame, (hsources q hq).any _ (mem_zip_placed hall hr).1]
    constructor
    · rintro ⟨e, he, hsource⟩
      rw [mem_incoming] at he
      exact ⟨List.mem_map_of_mem (hnode r hr), List.mem_map_of_mem (hnode q hq),
        List.mem_map.mpr ⟨e, he.1, by rw [hsource, he.2]⟩⟩
    · rintro ⟨-, -, hmem⟩
      obtain ⟨e, he, hends⟩ := List.mem_map.mp hmem
      obtain ⟨hsource, htarget⟩ := Prod.mk.inj hends
      exact ⟨e, mem_incoming.mpr ⟨he, htarget⟩, hsource⟩
  · rw [List.forall_mem_map]
    intro r hr
    rw [List.forall_mem_map]
    intro q hq hjoin
    obtain ⟨left, right, hlist, hsides⟩ := (hsources q hq).join (hjoined q hq hjoin)
    exact (feeds_opened_iff hfit (mem_zip_placed hall hq).2.1 (mem_zip_placed hall hr).2.1
      (hjoined q hq hjoin) hlist).1.trans (hsides _ (mem_zip_placed hall hr).1).1
  · rw [List.forall_mem_map]
    intro r hr
    rw [List.forall_mem_map]
    intro q hq hjoin
    obtain ⟨left, right, hlist, hsides⟩ := (hsources q hq).join (hjoined q hq hjoin)
    exact (feeds_opened_iff hfit (mem_zip_placed hall hq).2.1 (mem_zip_placed hall hr).2.1
      (hjoined q hq hjoin) hlist).2.trans (hsides _ (mem_zip_placed hall hr).1).2

end Pairs

section Examples

def salesEditor : Editor Unit where
  nodes := salesNodes
  edges := salesEdges

theorem sound_sales : Sound salesEditor := by
  have hnodes : ∀ node ∈ salesEditor.nodes,
      stepTypeOf node = some .select ∧ (incoming salesEditor.edges node.id).length = 1 ∨
        stepTypeOf node = some .load ∧ (incoming salesEditor.edges node.id).length = 0 ∧
          ∀ edge ∈ salesEditor.edges, node.id ≠ edge.target := by
    decide
  refine ⟨by decide, by decide, ?_, ?_, ?_, ?_, by decide⟩
  · intro u hcycle
    have hnone : TopologicalOrder.topologicalSort salesNodes salesEdges = none :=
      (topologicalSort_eq_none_iff (by decide) (by decide)).mpr ⟨u, hcycle⟩
    cases hnone.symm.trans sort_sales
  · intro node hnode t ht _
    rcases hnodes node hnode with ⟨htype, hlength⟩ | ⟨htype, hlength, -⟩
    · cases ht.symm.trans htype
      rw [hlength]
      decide
    · rw [hlength]
      exact Nat.zero_le _
  · intro node hnode hjoin
    rcases hnodes node hnode with ⟨htype, -⟩ | ⟨htype, -, -⟩ <;> cases hjoin.symm.trans htype
  · intro edge hedge node hnode t ht
    rcases hnodes node hnode with ⟨htype, -⟩ | ⟨htype, -, htarget⟩ <;> cases ht.symm.trans htype
    · exact ⟨fun _ => rfl, fun _ => rfl⟩
    · exact ⟨fun _ => rfl, fun hid => absurd hid (htarget edge hedge)⟩

end Examples

end PipelineIQ.Frontend.CanvasRoundTrip
