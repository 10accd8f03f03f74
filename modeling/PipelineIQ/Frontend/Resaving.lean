import PipelineIQ.Frontend.ReopenedGraph

namespace PipelineIQ.Frontend.Resaving

open PipelineIQ.Lib PipelineIQ.Lib.Strings PipelineIQ.Lib.Yaml PipelineIQ.Pipeline.Parser
open PipelineIQ.Frontend.PipelineEditor PipelineIQ.Frontend.StepNames PipelineIQ.Frontend.YamlGraph
open PipelineIQ.Frontend.EmittedSteps PipelineIQ.Frontend.YamlToGraph PipelineIQ.Frontend.SettledConfigs
open PipelineIQ.Frontend.TopologicalOrder PipelineIQ.Frontend.PlacedSteps
open PipelineIQ.Frontend.ReopenedGraph

variable {placed : List Placed} {q : Placed × Text} {earlier later rest : List (Placed × Text)}
  {stepNames : Dict Text Text} {index : Nat} {used : List Text}

/-! ### Steps, names and ids -/

theorem eq_of_map_eq {α β : Type} {f : α → β} {xs ys : List α}
    (hinj : ∀ x ∈ xs, ∀ y ∈ ys, f x = f y → x = y) (h : xs.map f = ys.map f) : xs = ys := by
  induction xs generalizing ys with
  | nil => exact (List.map_eq_nil_iff.mp h.symm).symm
  | cons x xs ih =>
    cases ys with
    | nil => cases h
    | cons y ys =>
      rw [List.map_cons, List.map_cons, List.cons.injEq] at h
      have hrest : ∀ a ∈ xs, ∀ b ∈ ys, f a = f b → a = b := fun a ha b hb =>
        hinj a (List.mem_cons_of_mem x ha) b (List.mem_cons_of_mem y hb)
      rw [hinj x List.mem_cons_self y List.mem_cons_self h.1, ih hrest h.2]

theorem ids_opened (pairs : List (Placed × Text)) :
    (pairs.map openedNode).map (·.id) = pairs.map Prod.snd := by
  rw [List.map_map]
  rfl

theorem map_name_numbered (placed : List Placed) :
    (numbered placed).map (·.1.stepName) = placed.map (·.stepName) := by
  conv_rhs => rw [← map_fst_numbered placed]
  rw [List.map_map]
  rfl

theorem nameOf_step (p : Placed) : nameOf p.step = p.stepName := by
  rw [nameOf, field_step p (by decide)]
  rfl

theorem ids_numbered (placed : List Placed) : ((numbered placed).map Prod.snd).Nodup ∧
    ∀ q ∈ numbered placed, q.2 ≠ [] := by
  obtain ⟨hnodup, hall⟩ := nodeIds_new 0 [] (placed.map (·.stepName))
  rw [← map_snd_numbered] at hnodup hall
  exact ⟨hnodup, fun q hq => (hall q.2 (List.mem_map_of_mem hq)).1⟩

theorem eq_of_id {q' : Placed × Text} (hq : q ∈ numbered placed) (hq' : q' ∈ numbered placed)
    (h : q.2 = q'.2) : q = q' :=
  List.inj_on_of_nodup_map (ids_numbered placed).1 hq hq' h

section Fit

variable (hfit : FitAll [] placed)
include hfit

theorem names_numbered : ((numbered placed).map (·.1.stepName)).Nodup := by
  rw [map_name_numbered]
  exact (FitAll.names hfit).1

theorem eq_of_name {q' : Placed × Text} (hq : q ∈ numbered placed) (hq' : q' ∈ numbered placed)
    (h : q.1.stepName = q'.1.stepName) : q = q' :=
  List.inj_on_of_nodup_map (names_numbered hfit) hq hq' h

theorem idOf_eq_some_iff {stepName id : Text} : idOf (numbered placed) stepName = some id ↔
    ∃ q ∈ numbered placed, q.1.stepName = stepName ∧ q.2 = id := by
  rw [idOf, Option.map_eq_some_iff]
  constructor
  · rintro ⟨q, hq, rfl⟩
    have hname := List.find?_some hq
    rw [decide_eq_true_eq] at hname
    exact ⟨q, List.mem_reverse.mp (List.mem_of_find?_eq_some hq), hname, rfl⟩
  · rintro ⟨q, hq, rfl, rfl⟩
    have hsome : ((numbered placed).reverse.find? fun q' =>
        decide (q'.1.stepName = q.1.stepName)).isSome := by
      rw [List.find?_isSome]
      exact ⟨q, List.mem_reverse.mpr hq, decide_eq_true rfl⟩
    obtain ⟨found, hfound⟩ := Option.isSome_iff_exists.mp hsome
    have hname := List.find?_some hfound
    rw [decide_eq_true_eq] at hname
    have hmem := List.mem_reverse.mp (List.mem_of_find?_eq_some hfound)
    exact ⟨found, hfound, congrArg Prod.snd (eq_of_name hfit hmem hq hname)⟩

/-- The sources of a step are steps before it. -/
theorem source_before (heq : numbered placed = earlier ++ q :: later) {source : Text}
    (hsource : source ∈ q.1.sources) (hne : source ≠ []) :
    ∃ r ∈ earlier, r.1.stepName = source := by
  have hplaced : placed = earlier.map Prod.fst ++ q.1 :: later.map Prod.fst := by
    rw [← map_fst_numbered placed, heq, List.map_append, List.map_cons]
  have hmem := (FitAll.fits hfit hplaced).known source hsource hne
  rw [List.append_nil, List.mem_reverse, List.map_map] at hmem
  exact List.mem_map.mp hmem

theorem fits_of_mem (hq : q ∈ numbered placed) : IsName q.1.stepName ∧
    q.1.stepName.getLast? ≠ some '_' ∧ q.1.sources.length = (refFields q.1.stepType).length ∧
      (q.1.sources.head? = some [] → ∀ source ∈ q.1.sources, source = []) := by
  obtain ⟨hmem, -⟩ := isName_of_numbered hfit hq
  obtain ⟨before, after, heq⟩ := List.append_of_mem hmem
  have hfits := FitAll.fits hfit heq
  exact ⟨hfits.isName, hfits.noUnderscore, hfits.arity, hfits.leftFirst⟩

/-! ### The edges into a node -/

theorem mem_openedEdges {e : Edge} : e ∈ openedEdges (numbered placed) q ↔
    ∃ ref ∈ (refFields q.1.stepType).zip q.1.sources, ∃ r ∈ numbered placed,
      r.1.stepName = ref.2 ∧ e = toEdge r.2 q.2 ref.1.toList (decide (q.1.stepType = .join)) := by
  rw [openedEdges, List.mem_filterMap]
  refine exists_congr fun ref => and_congr_right fun _ => ?_
  rw [Option.map_eq_some_iff]
  constructor
  · rintro ⟨id, hid, rfl⟩
    obtain ⟨r, hr, hname, rfl⟩ := (idOf_eq_some_iff hfit).mp hid
    exact ⟨r, hr, hname, rfl⟩
  · rintro ⟨r, hr, hname, rfl⟩
    exact ⟨r.2, (idOf_eq_some_iff hfit).mpr ⟨r, hr, hname, rfl⟩, rfl⟩

theorem filter_target (hq : q ∈ numbered placed) :
    ((numbered placed).flatMap (openedEdges (numbered placed))).filter
      (fun e => decide (e.target = q.2)) = openedEdges (numbered placed) q := by
  have htarget : ∀ r, ∀ e ∈ openedEdges (numbered placed) r, e.target = r.2 := by
    intro r e he
    obtain ⟨ref, -, source, -, -, rfl⟩ := (mem_openedEdges hfit).mp he
    rfl
  have hself : (openedEdges (numbered placed) q).filter (fun e => decide (e.target = q.2)) =
      openedEdges (numbered placed) q := by
    rw [List.filter_eq_self]
    exact fun e he => decide_eq_true (htarget q e he)
  have hother : ∀ r ∈ numbered placed, r ≠ q →
      (openedEdges (numbered placed) r).filter (fun e => decide (e.target = q.2)) = [] := by
    intro r hr hne
    rw [List.filter_eq_nil_iff]
    intro e he
    rw [decide_eq_true_eq, htarget r e he]
    exact fun hid => hne (eq_of_id hr hq hid)
  obtain ⟨earlier, later, heq⟩ := List.append_of_mem hq
  have hnodup := (ids_numbered placed).1.of_map
  have hne : ∀ r, r ∈ earlier ∨ r ∈ later → r ∈ numbered placed ∧ r ≠ q := by
    intro r hr
    constructor
    · rw [heq, List.mem_append, List.mem_cons]
      tauto
    · rintro rfl
      rw [heq, List.nodup_middle, List.nodup_cons, List.mem_append] at hnodup
      exact hnodup.1 hr
  have hsides : ∀ side : List (Placed × Text), (∀ r ∈ side, r ∈ earlier ∨ r ∈ later) →
      (side.flatMap (openedEdges (numbered placed))).filter (fun e => decide (e.target = q.2)) = [] := by
    intro side hside
    rw [List.filter_flatMap, List.flatMap_eq_nil_iff]
    exact fun r hr => hother r (hne r (hside r hr)).1 (hne r (hside r hr)).2
  conv_lhs => rw [heq]
  rw [List.flatMap_append, List.flatMap_cons, List.filter_append, List.filter_append, ← heq, hself,
    hsides earlier fun r hr => .inl hr, hsides later fun r hr => .inr hr, List.nil_append,
    List.append_nil]

/-- From the edges into a node its sources are found again. -/
theorem sourcesOf_opened (hq : q ∈ numbered placed)
    (hnamed : ∀ source ∈ q.1.sources, source ≠ [] →
      ∃ id, idOf (numbered placed) source = some id ∧ stepNames.get? id = some source) :
    sourcesOf q.1.stepType stepNames (openedEdges (numbered placed) q) = q.1.sources := by
  obtain ⟨hname, -, harity, hleft⟩ := fits_of_mem hfit hq
  have hnil : idOf (numbered placed) [] = none :=
    idOf_nil fun r hr => (isName_of_numbered hfit hr).2
  obtain ⟨hjoin, left, right, hsources⟩ | ⟨hjoin, ⟨hmax, input, hsources⟩ | ⟨hmax, hsources⟩⟩ :=
    sources_cases harity
  · have hfields : refFields q.1.stepType = ["left", "right"] := hjoin ▸ rfl
    rw [sourcesOf, if_pos hjoin, openedEdges, hfields, hsources]
    rw [hsources] at hnamed hleft
    by_cases hl : left = []
    · have hr : right = [] := hleft (congrArg some hl) right (List.mem_cons_of_mem _ List.mem_cons_self)
      rw [hl, hr]
      simp [hnil, leftEdge, rightEdge, sourceText]
    · obtain ⟨i, hi, hgeti⟩ := hnamed left List.mem_cons_self hl
      by_cases hr : right = []
      · rw [hr]
        simp [hnil, hi, leftEdge, rightEdge, sourceText, toEdge, hgeti]
      · obtain ⟨j, hj, hgetj⟩ := hnamed right (List.mem_cons_of_mem _ List.mem_cons_self) hr
        simp [hi, hj, leftEdge, rightEdge, sourceText, toEdge, hgeti, hgetj]
  · have hfields : refFields q.1.stepType = ["input"] := by
      rw [refFields, if_neg hjoin, if_pos hmax]
    rw [sourcesOf, if_neg hjoin, if_pos hmax, openedEdges, hfields, hsources]
    rw [hsources] at hnamed
    by_cases hi : input = []
    · rw [hi]
      simp [hnil, sourceText]
    · obtain ⟨i, hid, hget⟩ := hnamed input List.mem_cons_self hi
      simp [hid, hget, sourceText, toEdge]
  · rw [sourcesOf, if_neg hjoin, if_neg (Nat.not_lt.mpr hmax.le), hsources]

/-! ### Writing the opened canvas -/

/-- The step that an opened node is placed as again. -/
def replaced (q : Placed × Text) : Placed :=
  { q.1 with config := extractConfigForUi q.1.stepType.value.toList q.1.step }

def openedGraphEdges (placed : List Placed) : List Edge :=
  (numbered placed).flatMap (openedEdges (numbered placed))

omit hfit in
theorem nodeById_opened (hq : q ∈ numbered placed) :
    nodeById ((numbered placed).map openedNode) (openedNode q).id = some (openedNode q) := by
  apply TopologicalOrder.nodeById_eq
  · rw [ids_opened]
    exact (ids_numbered placed).1
  · exact List.mem_map_of_mem hq

/-- An opened node is named by its label. -/
theorem name_opened (hq : q ∈ numbered placed) (hnew : q.1.stepName ∉ used) (index : Nat)
    (fallback : Text) :
    sanitizeStepName (textOr (openedNode q).data.label fallback) index used = q.1.stepName := by
  obtain ⟨hname, hlast, -, -⟩ := fits_of_mem hfit hq
  have htext : textOr (openedNode q).data.label fallback = q.1.stepName := by
    obtain ⟨c, t, hct, -⟩ := hname
    change textOr (some q.1.stepName) fallback = q.1.stepName
    rw [hct]
    rfl
  have hbase := hname.baseName_eq hlast index
  rw [htext, sanitizeStepName_of_not_mem (hbase.symm ▸ hnew), hbase]

theorem placeFrom_opened_cons (hq : q ∈ numbered placed) (hnew : q.1.stepName ∉ used)
    (hstep : StepType.ofNode (.text q.1.stepType.value.toList) = some q.1.stepType) :
    placeFrom ((numbered placed).map openedNode) (openedGraphEdges placed) index used stepNames
        ((q :: rest).map openedNode) =
      (placeFrom ((numbered placed).map openedNode) (openedGraphEdges placed) (index + 1)
        (q.1.stepName :: used) (stepNames.set q.2 q.1.stepName) (rest.map openedNode)).map
        fun after => ⟨q.1.stepName, q.1.stepType, sourcesOf q.1.stepType
          (stepNames.set q.2 q.1.stepName) (incomingEdges (openedGraphEdges placed)
            (stepNames.set q.2 q.1.stepName) q.2), (replaced q).config⟩ :: after := by
  have htype : stepTypeOf (openedNode q) = some q.1.stepType := hstep
  have hconfig : (openedNode q).data.config = some (replaced q).config := rfl
  have hid : (openedNode q).id = q.2 := rfl
  rw [List.map_cons, placeFrom, nodeById_opened hq]
  dsimp only [Option.getD_some]
  rw [htype, hconfig, hid]
  simp only [Option.bind_eq_bind, Option.bind_some, name_opened hfit hq hnew, Option.map_eq_bind]
  rfl

/-- The names of an order of the opened nodes are their labels. -/
theorem placeFrom_names (hrest : ∀ q ∈ rest, q ∈ numbered placed)
    (hnodup : (rest.map (·.1.stepName)).Nodup) (hnew : ∀ q ∈ rest, q.1.stepName ∉ used) :
    ∃ again, placeFrom ((numbered placed).map openedNode) (openedGraphEdges placed) index used
        stepNames (rest.map openedNode) = some again ∧
      again.map (·.stepName) = rest.map (·.1.stepName) := by
  induction rest generalizing index used stepNames with
  | nil => exact ⟨[], rfl, rfl⟩
  | cons q rest ih =>
    obtain ⟨hq, hrest⟩ := List.forall_mem_cons.mp hrest
    obtain ⟨hqnew, hnew⟩ := List.forall_mem_cons.mp hnew
    rw [List.map_cons, List.nodup_cons] at hnodup
    obtain ⟨again, hagain, hnames⟩ := @ih (stepNames.set q.2 q.1.stepName)
      (index + 1) (q.1.stepName :: used) hrest hnodup.2 (by
        intro r hr hmem
        cases List.mem_cons.mp hmem with
        | inl heq => exact hnodup.1 (List.mem_map.mpr ⟨r, hr, heq⟩)
        | inr hmem => exact hnew r hr hmem)
    rw [placeFrom_opened_cons hfit hq hqnew (ofNode_value _), hagain]
    refine ⟨_, rfl, ?_⟩
    rw [List.map_cons, List.map_cons, hnames]

/-- In their own order the opened nodes are placed as the steps that they were. -/
theorem placeFrom_again (heq : numbered placed = earlier ++ rest)
    (hused : ∀ name, name ∈ used ↔ name ∈ earlier.map (·.1.stepName))
    (hnamed : ∀ q ∈ earlier, stepNames.get? q.2 = some q.1.stepName) :
    placeFrom ((numbered placed).map openedNode) (openedGraphEdges placed) index used stepNames
      (rest.map openedNode) = some (rest.map replaced) := by
  induction rest generalizing index used stepNames earlier with
  | nil => rfl
  | cons q rest ih =>
    have hq : q ∈ numbered placed := heq ▸ List.mem_append_right _ List.mem_cons_self
    have hnames := names_numbered hfit
    have hids := (ids_numbered placed).1
    rw [heq, List.map_append, List.map_cons] at hnames hids
    have hnew : q.1.stepName ∉ used := by
      rw [hused]
      exact fun hmem => List.disjoint_of_nodup_append hnames hmem List.mem_cons_self
    have hnamed' : ∀ r ∈ earlier ++ [q],
        (stepNames.set q.2 q.1.stepName).get? r.2 = some r.1.stepName := by
      intro r hr
      rw [Dict.get?_set]
      cases List.mem_append.mp hr with
      | inl hr =>
        rw [if_neg]
        · exact hnamed r hr
        · intro hid
          exact List.disjoint_of_nodup_append hids (List.mem_map_of_mem hr) (hid ▸ List.mem_cons_self)
      | inr hr => rw [List.mem_singleton.mp hr, if_pos rfl]
    have hincoming : incomingEdges (openedGraphEdges placed) (stepNames.set q.2 q.1.stepName) q.2 =
        openedEdges (numbered placed) q := by
      rw [incomingEdges, openedGraphEdges, filter_target hfit hq, List.filter_eq_self]
      intro e he
      obtain ⟨ref, href, r, hr, hname, rfl⟩ := (mem_openedEdges hfit).mp he
      obtain ⟨r', hr', hname'⟩ := source_before hfit heq (List.of_mem_zip href).2
        (hname ▸ (isName_of_numbered hfit hr).2.ne_nil)
      have hsame : r' = r := by
        apply eq_of_name hfit _ hr (hname'.trans hname.symm)
        rw [heq]
        exact List.mem_append_left _ hr'
      change ((stepNames.set q.2 q.1.stepName).get? r.2).isSome = true
      rw [hnamed' r (List.mem_append_left _ (hsame ▸ hr'))]
      rfl
    have hsources : sourcesOf q.1.stepType (stepNames.set q.2 q.1.stepName)
        (openedEdges (numbered placed) q) = q.1.sources := by
      apply sourcesOf_opened hfit hq
      intro source hsource hne
      obtain ⟨r, hr, hname⟩ := source_before hfit heq hsource hne
      refine ⟨r.2, (idOf_eq_some_iff hfit).mpr ⟨r, ?_, hname, rfl⟩, ?_⟩
      · rw [heq]
        exact List.mem_append_left _ hr
      · rw [hnamed' r (List.mem_append_left _ hr), hname]
    rw [placeFrom_opened_cons hfit hq hnew (ofNode_value _), hincoming, hsources,
      ih (by rw [heq, List.append_cons]) _ hnamed']
    · rfl
    · intro name
      rw [List.mem_cons, hused, List.map_append, List.mem_append, List.map_singleton,
        List.mem_singleton, or_comm]

/-! ### The order of the opened nodes -/

/-- What comes before a step in the order of the ids must come before it, unless the step has to
wait for a source. -/
def KeepsOrder (placed : List Placed) : Prop :=
  ∀ earlier v middle w later, numbered placed = earlier ++ v :: (middle ++ w :: later) →
    (∀ source ∈ w.1.sources, source ≠ [] → source ∈ earlier.map (·.1.stepName)) →
      Utf16.le v.2 w.2 = true

theorem edge_opened_iff {u : Text} (hq : q ∈ numbered placed) :
    Kahn.Edge ((numbered placed).map Prod.snd) (endpoints (openedGraphEdges placed)) u q.2 ↔
      ∃ r ∈ numbered placed, r.2 = u ∧ r.1.stepName ∈ q.1.sources := by
  constructor
  · rintro ⟨-, -, hedge⟩
    obtain ⟨e, he, hends⟩ := List.mem_map.mp hedge
    obtain ⟨q', hq', he⟩ := List.mem_flatMap.mp he
    obtain ⟨ref, href, r, hr, hname, rfl⟩ := (mem_openedEdges hfit).mp he
    obtain ⟨rfl, htarget⟩ := Prod.mk.inj hends
    cases eq_of_id hq' hq htarget
    exact ⟨r, hr, rfl, hname ▸ (List.of_mem_zip href).2⟩
  · rintro ⟨r, hr, rfl, hsource⟩
    refine ⟨List.mem_map_of_mem hr, List.mem_map_of_mem hq, ?_⟩
    have hsources := List.map_snd_zip (fits_of_mem hfit hq).2.2.1.le
    rw [← hsources] at hsource
    obtain ⟨ref, href, hname⟩ := List.mem_map.mp hsource
    refine List.mem_map.mpr ⟨toEdge r.2 q.2 ref.1.toList (decide (q.1.stepType = .join)), ?_, rfl⟩
    exact List.mem_flatMap.mpr ⟨q, hq, (mem_openedEdges hfit).mpr ⟨ref, href, r, hr, hname.symm, rfl⟩⟩

theorem edge_before (heq : numbered placed = earlier ++ q :: later) {u : Text}
    (h : Kahn.Edge ((numbered placed).map Prod.snd) (endpoints (openedGraphEdges placed)) u q.2) :
    u ∈ earlier.map Prod.snd := by
  have hq : q ∈ numbered placed := heq ▸ List.mem_append_right _ List.mem_cons_self
  obtain ⟨r, hr, rfl, hsource⟩ := (edge_opened_iff hfit hq).mp h
  obtain ⟨r', hr', hname⟩ := source_before hfit heq hsource (isName_of_numbered hfit hr).2.ne_nil
  have hmem : r' ∈ numbered placed := heq ▸ List.mem_append_left _ hr'
  cases eq_of_name hfit hmem hr hname
  exact List.mem_map_of_mem hr'

theorem forward_opened : Kahn.Forward (Kahn.Edge ((numbered placed).map Prod.snd)
    (endpoints (openedGraphEdges placed))) ((numbered placed).map Prod.snd) := by
  intro before v after heq u hu
  obtain ⟨earlier, tail, hsplit, rfl, htail⟩ := List.map_eq_append_iff.mp heq
  obtain ⟨w, later, rfl, rfl, rfl⟩ := List.map_eq_cons_iff.mp htail
  exact edge_before hfit hsplit hu

theorem keepsOrder_iff : Kahn.kahn Utf16.le List.isEmpty ((numbered placed).map Prod.snd)
    (endpoints (openedGraphEdges placed)) = some ((numbered placed).map Prod.snd) ↔
      KeepsOrder placed := by
  obtain ⟨hids, hne⟩ := ids_numbered placed
  have hhalts : ∀ id ∈ (numbered placed).map Prod.snd, List.isEmpty id = false := by
    intro id hid
    obtain ⟨q, hq, rfl⟩ := List.mem_map.mp hid
    exact List.isEmpty_eq_false_iff.mpr (hne q hq)
  rw [Kahn.kahn_eq_self_iff Utf16.total_le hids hhalts (forward_opened hfit)]
  constructor
  · intro h earlier v middle w later heq hready
    apply h (earlier.map Prod.snd) v.2 (middle.map Prod.snd) w.2 (later.map Prod.snd)
    · rw [heq, List.map_append, List.map_cons, List.map_append, List.map_cons]
    · intro u hu
      have hw : w ∈ numbered placed := by simp [heq]
      obtain ⟨r, hr, rfl, hsource⟩ := (edge_opened_iff hfit hw).mp hu
      obtain ⟨r', hr', hname⟩ := List.mem_map.mp
        (hready _ hsource (isName_of_numbered hfit hr).2.ne_nil)
      have hmem : r' ∈ numbered placed := heq ▸ List.mem_append_left _ hr'
      cases eq_of_name hfit hmem hr hname
      exact List.mem_map_of_mem hr'
  · intro h before v middle w after heq hready
    obtain ⟨earlier, tail, hsplit, rfl, htail⟩ := List.map_eq_append_iff.mp heq
    obtain ⟨v, tail', rfl, rfl, htail'⟩ := List.map_eq_cons_iff.mp htail
    obtain ⟨middle, tail'', rfl, rfl, htail''⟩ := List.map_eq_append_iff.mp htail'
    obtain ⟨w, later, rfl, rfl, rfl⟩ := List.map_eq_cons_iff.mp htail''
    refine h earlier v middle w later hsplit ?_
    intro source hsource hnil
    have hw : w ∈ numbered placed := by simp [hsplit]
    have hwaits : numbered placed = (earlier ++ v :: middle) ++ w :: later := by
      rw [hsplit, List.append_assoc, List.cons_append]
    obtain ⟨r, hr, rfl⟩ := source_before hfit hwaits hsource hnil
    have hmem : r ∈ numbered placed := hwaits ▸ List.mem_append_left _ hr
    have hbefore := hready r.2 ((edge_opened_iff hfit hw).mpr ⟨r, hmem, rfl, hsource⟩)
    obtain ⟨r', hr', hid⟩ := List.mem_map.mp hbefore
    cases eq_of_id (hsplit ▸ List.mem_append_left _ hr') hmem hid
    exact List.mem_map_of_mem hr'

/-- The opened nodes have an order, and it is their own where it is kept. -/
theorem sort_opened : ∃ ordered : List (Placed × Text), ordered.Perm (numbered placed) ∧
    TopologicalOrder.topologicalSort ((numbered placed).map openedNode) (openedGraphEdges placed) =
      some (ordered.map openedNode) ∧ (KeepsOrder placed ↔ ordered = numbered placed) := by
  obtain ⟨hids, hne⟩ := ids_numbered placed
  have hids' : (((numbered placed).map openedNode).map (·.id)).Nodup := ids_opened _ ▸ hids
  have hne' : ∀ node ∈ (numbered placed).map openedNode, node.id ≠ [] :=
    List.forall_mem_map.mpr hne
  cases hsort : TopologicalOrder.topologicalSort ((numbered placed).map openedNode)
      (openedGraphEdges placed) with
  | none =>
    obtain ⟨u, hcycle⟩ := (topologicalSort_eq_none_iff hids' hne').mp hsort
    obtain ⟨w, hfirst, -⟩ := Relation.TransGen.head'_iff.mp hcycle
    have hlinked : Linked ((numbered placed).map openedNode) (openedGraphEdges placed) =
        Kahn.Edge ((numbered placed).map Prod.snd) (endpoints (openedGraphEdges placed)) := by
      rw [← ids_opened]
      rfl
    rw [hlinked] at hfirst hcycle
    exact absurd hcycle ((forward_opened hfit).acyclic hids hfirst.1)
  | some nodes =>
    obtain ⟨hkahn, hperm⟩ := (topologicalSort_eq_some_iff hids' hne').mp hsort
    obtain ⟨ordered, hordered, rfl⟩ : ∃ ordered : List (Placed × Text),
        ordered.Perm (numbered placed) ∧ ordered.map openedNode = nodes := by
      have hall : List.Forall₂ (fun node q => node = openedNode q) ((numbered placed).map openedNode)
          (numbered placed) := by
        rw [List.forall₂_map_left_iff]
        exact List.forall₂_same.mpr fun _ _ => rfl
      obtain ⟨ordered, hsame, hordered⟩ := List.perm_comp_forall₂ hperm hall
      rw [← List.forall₂_map_right_iff, List.forall₂_eq_eq_eq] at hsame
      exact ⟨ordered, hordered, hsame.symm⟩
    refine ⟨ordered, hordered, rfl, ?_⟩
    rw [← keepsOrder_iff hfit, ← ids_opened, hkahn, Option.some.injEq, ids_opened, ids_opened]
    constructor
    · intro hsame
      exact eq_of_map_eq (fun q hq q' hq' => eq_of_id (hordered.mem_iff.mp hq) hq') hsame
    · exact fun hsame => by rw [hsame]

/-! ### The steps that are written again -/

/-- The canvas of written steps is written as steps of some order; they are the same steps
exactly where the order is kept and every configuration is settled. -/
theorem graphSteps_opened : ∃ again, graphSteps Utf16.le ((numbered placed).map openedNode)
    (openedGraphEdges placed) = some (some again) ∧ (again = placed.map Placed.step ↔
      KeepsOrder placed ∧ ∀ p ∈ placed, SettledConfig p.config p.stepType) := by
  obtain ⟨ordered, hperm, hsort, horder⟩ := sort_opened hfit
  have hmem : ∀ q ∈ ordered, q ∈ numbered placed := fun q hq => hperm.mem_iff.mp hq
  obtain ⟨again, hagain, hnames⟩ := @placeFrom_names placed ordered ∅ 0 [] hfit hmem
    ((hperm.map _).nodup_iff.mpr (names_numbered hfit)) (by rintro q _ ⟨⟩)
  have hsteps := graphSteps_of_sort hsort
  rw [placedSteps, hsort, Option.bind_some, hagain, Option.map_some] at hsteps
  refine ⟨again.map Placed.step, hsteps, ?_⟩
  by_cases hkept : KeepsOrder placed
  · rw [and_iff_right hkept]
    rw [horder.mp hkept, @placeFrom_again placed [] (numbered placed) ∅ 0 [] hfit rfl (by simp) (by simp),
      Option.some.injEq] at hagain
    rw [← hagain]
    conv_lhs => rhs; rw [← map_fst_numbered placed]
    rw [List.map_map, List.map_map, List.map_inj_left]
    have hall : (∀ p ∈ placed, SettledConfig p.config p.stepType) ↔
        ∀ q ∈ numbered placed, SettledConfig q.1.config q.1.stepType := by
      conv_lhs => rw [← map_fst_numbered placed]
      exact List.forall_mem_map
    rw [hall]
    refine forall₂_congr fun q _ => ?_
    have hemit : ∀ config, emitStep q.1.stepName q.1.stepType (refsFor q.1.stepType q.1.sources)
        config = _ := fun config => emitStep_eq refsFor_own
    change emitStep q.1.stepName q.1.stepType (refsFor q.1.stepType q.1.sources)
      (replaced q).config = emitStep q.1.stepName q.1.stepType (refsFor q.1.stepType q.1.sources)
        q.1.config ↔ _
    rw [hemit, hemit, List.append_cancel_left_eq]
    exact (settledConfig_iff refsFor_own q.1.config).symm
  · refine iff_of_false ?_ (fun h => hkept h.1)
    intro hsame
    apply hkept
    rw [horder]
    have hwritten := congrArg (List.map nameOf) hsame
    rw [List.map_map, List.map_map] at hwritten
    apply eq_of_map_eq fun q hq q' hq' => eq_of_name hfit (hmem q hq) hq'
    rw [map_name_numbered, ← hnames]
    have hname : nameOf ∘ Placed.step = (·.stepName) := funext nameOf_step
    rwa [hname] at hwritten

end Fit

/-! ### Texts that stay as they are -/

section Resave

variable {R : Type} (js : JsYaml)

/-- The text of a canvas. -/
def save (nodes : List (PipelineEditor.Node R Entries)) (edges : List Edge) (pipelineName : Text) :
    Option Text :=
  graphToYAML js.dump Utf16.le nodes edges pipelineName

/-- The text of the canvas that a text is opened as. -/
def resave (text : Text) : Option Text :=
  save js (yamlToGraph js text).nodes (yamlToGraph js text).edges (yamlToGraph js text).pipelineName

variable {js}

theorem graphDocument_inj {name name' : Text} {steps steps' : List Entries}
    (h : graphDocument name steps = graphDocument name' steps') : steps = steps' := by
  have hpipeline := record_injective h
  rw [List.cons.injEq, Prod.mk.injEq, Yaml.Node.map.injEq] at hpipeline
  have hfields := record_injective hpipeline.1.2
  simp only [List.cons.injEq, Prod.mk.injEq, Yaml.Node.seq.injEq, true_and, and_true] at hfields
  exact List.map_injective_iff.mpr (fun _ _ => Yaml.Node.map.inj) hfields.2

theorem graphDocument_writtenName (pipelineName : Text) (steps : List Entries) :
    graphDocument (writtenName pipelineName) steps = graphDocument pipelineName steps := by
  rw [graphDocument, graphDocument, trim_writtenName, orText, if_neg (writtenName_ne_nil _)]
  rfl

theorem dump_eq_iff {name name' : Text} {steps steps' : List Entries} (h : Reads js name steps)
    (h' : Reads js name' steps') : js.dump (.map (graphDocument name steps)) =
      js.dump (.map (graphDocument name' steps')) ↔ graphDocument name steps = graphDocument name' steps' := by
  constructor
  · intro hsame
    have hload := h.load
    rw [hsame, h'.load, Except.ok.injEq, Yaml.Node.map.injEq] at hload
    exact hload.symm
  · exact fun hsame => by rw [hsame]

theorem placeFrom_ne_nil {nodes rest : List (PipelineEditor.Node R Entries)} {edges : List Edge}
    (hrest : rest ≠ []) (h : placeFrom nodes edges index used stepNames rest = some placed) :
    placed ≠ [] := by
  cases rest with
  | nil => exact absurd rfl hrest
  | cons node rest =>
    rw [placeFrom] at h
    simp only [Option.bind_eq_bind, Option.bind_eq_some_iff, Option.some.injEq] at h
    obtain ⟨t, -, config, -, after, -, rfl⟩ := h
    exact List.cons_ne_nil _ _

theorem save_eq {nodes : List (PipelineEditor.Node R Entries)} (hnodes : nodes ≠ [])
    (edges : List Edge) (pipelineName : Text) : save js nodes edges pipelineName =
      (graphSteps Utf16.le nodes edges).map fun steps =>
        steps.elim [] fun steps => js.dump (.map (graphDocument pipelineName steps)) := by
  rw [save, graphToYAML, if_neg (by rwa [List.isEmpty_iff])]
  congr 1
  funext steps
  cases steps <;> rfl

/-- What is saved of a canvas, opened and saved again, is the same text exactly where the canvas
has no cycle, the ids of its names keep its order, and its configurations are settled. -/
theorem resave_iff {nodes : List (PipelineEditor.Node R Entries)} {edges : List Edge}
    {pipelineName text : Text} (hids : (nodes.map (·.id)).Nodup) (hne : ∀ node ∈ nodes, node.id ≠ [])
    (hnodes : nodes ≠ []) (hsave : save js nodes edges pipelineName = some text)
    (hfirst : ∀ steps, graphSteps Utf16.le nodes edges = some (some steps) →
      Reads js pipelineName steps)
    (hsecond : ∀ steps,
      graphSteps Utf16.le (yamlToGraph js text).nodes (yamlToGraph js text).edges =
        some (some steps) → Reads js (yamlToGraph js text).pipelineName steps) :
    resave js text = some text ↔ ∃ placed, placedSteps nodes edges = some placed ∧
      KeepsOrder placed ∧ ∀ p ∈ placed, SettledConfig p.config p.stepType := by
  rw [save_eq hnodes] at hsave
  cases hsort : TopologicalOrder.topologicalSort nodes edges with
  | none =>
    have hnone : graphSteps Utf16.le nodes edges = some none := by
      rw [TopologicalOrder.topologicalSort] at hsort
      rw [graphSteps, hsort]
    rw [hnone] at hsave
    obtain rfl : ([] : Text) = text := Option.some.inj hsave
    refine iff_of_false ?_ ?_
    · intro h
      cases Option.some.inj h
    · rintro ⟨placed, hplaced, -⟩
      rw [placedSteps, hsort] at hplaced
      cases hplaced
  | some ordered =>
    have hgraph := graphSteps_of_sort hsort
    cases hplaced : placedSteps nodes edges with
    | none =>
      rw [hgraph, hplaced] at hsave
      cases hsave
    | some placed =>
      rw [hplaced, Option.map_some] at hgraph
      rw [hgraph] at hsave
      obtain rfl : js.dump (.map (graphDocument pipelineName (placed.map Placed.step))) = text :=
        Option.some.inj hsave
      have hfit := placedSteps_fit hids hne hplaced
      have hsome : placed ≠ [] := by
        rw [placedSteps, hsort, Option.bind_some] at hplaced
        apply placeFrom_ne_nil _ hplaced
        rintro rfl
        exact hnodes (((topologicalSort_eq_some_iff hids hne).mp hsort).2.symm.eq_nil)
      have hreads := hfirst _ hgraph
      have hopened := yamlToGraph_written hfit hsome hreads
      obtain ⟨again, hagain, hiff⟩ := graphSteps_opened hfit
      rw [hopened] at hsecond
      have hreads' := hsecond again hagain
      have hnodes' : (reopened pipelineName placed).nodes ≠ [] := by
        intro hnil
        rw [reopened, List.map_eq_nil_iff] at hnil
        apply hsome
        rw [← map_fst_numbered placed, hnil, List.map_nil]
      have hresave : resave js (js.dump (.map (graphDocument pipelineName (placed.map Placed.step)))) =
          some (js.dump (.map (graphDocument (writtenName pipelineName) again))) := by
        rw [resave, hopened, save_eq hnodes']
        exact congrArg (Option.map _) hagain
      have hwritten : graphDocument (writtenName pipelineName) again =
          graphDocument pipelineName (placed.map Placed.step) ↔ again = placed.map Placed.step := by
        constructor
        · exact graphDocument_inj
        · rintro rfl
          exact graphDocument_writtenName _ _
      rw [hresave, Option.some.injEq]
      refine (dump_eq_iff hreads' hreads).trans (hwritten.trans (hiff.trans ?_))
      simp only [Option.some.injEq, exists_eq_left']

end Resave

section Examples

/-- A canvas whose nodes are not in the order of its one edge. -/
def salesNodes : List (PipelineEditor.Node Unit Entries) :=
  [addStepNode "n2".toList "Keep columns".toList "select".toList ((), ())
      (record [("columns", .seq [str "id", str "amount"])]) true,
    addStepNode "n1".toList "Load orders".toList "load".toList ((), ())
      (record [("file_id", str "f-1")]) true]

def salesEdges : List Edge := [candidateEdge "n1".toList "n2".toList]

def salesSteps : List Entries :=
  [record [("name", str "Load_orders"), ("type", str "load"), ("file_id", str "f-1")],
    record [("name", str "Keep_columns"), ("type", str "select"), ("input", str "Load_orders"),
      ("columns", .seq [str "id", str "amount"])]]

def salesText : Text :=
  ("pipeline:\n  name: sales\n  steps:\n    - name: Load_orders\n      type: load\n" ++
    "      file_id: f-1\n    - name: Keep_columns\n      type: select\n" ++
    "      input: Load_orders\n      columns:\n        - id\n        - amount\n").toList

def salesJs : JsYaml where
  load _ := .ok (.map (graphDocument "sales".toList salesSteps))
  dump _ := salesText

theorem dump_sales (d : Yaml.Node) : salesJs.dump d = salesText := by
  rw [salesJs]

def salesGraph : BuilderGraph := buildGraphFromSteps "sales".toList (salesSteps.map .map)

theorem sort_sales :
    TopologicalOrder.topologicalSort salesNodes salesEdges = some salesNodes.reverse :=
  (topologicalSort_eq_some_iff (by decide) (by decide)).mpr
    ⟨by decide +kernel, salesNodes.reverse_perm⟩

theorem graphSteps_sales :
    graphSteps Utf16.le salesNodes salesEdges = some (some salesSteps) := by
  rw [graphSteps_of_sort sort_sales, placedSteps, sort_sales]
  rfl

theorem save_sales : save salesJs salesNodes salesEdges "sales".toList = some salesText := by
  have hnodes : salesNodes ≠ [] := by rintro ⟨⟩
  rw [save_eq hnodes, graphSteps_sales, Option.map_some, Option.elim_some, dump_sales]

theorem trim_sales : trim salesText ≠ [] := by decide +kernel

theorem reads_sales : Reads salesJs "sales".toList salesSteps where
  load := rfl
  notBlank := by
    rw [dump_sales]
    exact trim_sales

theorem yamlToGraph_sales : yamlToGraph salesJs salesText = salesGraph :=
  yamlToGraph_of_load trim_sales rfl rfl (by decide) (by decide) rfl (by rintro ⟨⟩)

theorem graphSteps_salesGraph :
    graphSteps Utf16.le salesGraph.nodes salesGraph.edges = some (some salesSteps) := by
  have hsort : TopologicalOrder.topologicalSort salesGraph.nodes salesGraph.edges =
      some salesGraph.nodes :=
    (topologicalSort_eq_some_iff (by decide) (by decide)).mpr ⟨by decide +kernel, .refl _⟩
  rw [graphSteps_of_sort hsort, placedSteps, hsort]
  rfl

/-- A load and a selection from it. -/
theorem resave_iff_sales : resave salesJs salesText = some salesText ↔
    ∃ placed, placedSteps salesNodes salesEdges = some placed ∧ KeepsOrder placed ∧
      ∀ p ∈ placed, SettledConfig p.config p.stepType := by
  refine resave_iff (by decide) (by decide) (by rintro ⟨⟩) save_sales ?_ ?_
  · intro steps hsteps
    rw [graphSteps_sales, Option.some.injEq, Option.some.injEq] at hsteps
    exact hsteps ▸ reads_sales
  · intro steps hsteps
    rw [yamlToGraph_sales] at hsteps ⊢
    rw [graphSteps_salesGraph, Option.some.injEq, Option.some.injEq] at hsteps
    exact hsteps ▸ reads_sales

end Examples

end PipelineIQ.Frontend.Resaving
