import Mathlib.Data.Fintype.Card
import Mathlib.Data.List.Nodup
import Mathlib.Data.Set.Finite.Basic
import Mathlib.Logic.Function.Basic
import Mathlib.Logic.Relation
import Mathlib.Order.WellFounded

namespace PipelineIQ.Lib.Kahn

variable {α : Type}

/-! ### Orders along a relation -/

/-- Every node comes after the nodes before it. -/
def Forward (r : α → α → Prop) (order : List α) : Prop :=
  ∀ before v after, order = before ++ v :: after → ∀ u, r u v → u ∈ before

theorem forward_nil {r : α → α → Prop} : Forward r [] := by
  intro before v after heq
  cases before <;> cases heq

theorem Forward.concat {r : α → α → Prop} {order : List α} {v : α} (h : Forward r order)
    (hv : ∀ u, r u v → u ∈ order) : Forward r (order ++ [v]) := by
  intro before w after heq u hadj
  rcases List.eq_nil_or_concat after with rfl | ⟨init, last, rfl⟩
  · obtain ⟨rfl, hw⟩ := List.append_inj' heq rfl
    rw [List.singleton_inj] at hw
    subst hw
    exact hv u hadj
  · rw [List.concat_eq_append, ← List.cons_append, ← List.append_assoc] at heq
    obtain ⟨rfl, -⟩ := List.append_inj' heq rfl
    exact h before w init rfl u hadj

/-- Without cycles, some node of any finite choice has no predecessor there. -/
theorem exists_source {r : α → α → Prop} (h : ∀ u, ¬ Relation.TransGen r u u) {rest : List α}
    (hne : rest ≠ []) : ∃ v ∈ rest, ∀ u ∈ rest, ¬ r u v := by
  let before : {v // v ∈ rest} → {v // v ∈ rest} → Prop := fun u v => Relation.TransGen r u v
  have : Finite {v // v ∈ rest} := (List.finite_toSet rest).to_subtype
  have : IsTrans _ before := ⟨fun _ _ _ huv hvw => huv.trans hvw⟩
  have : Std.Irrefl before := ⟨fun u => h u⟩
  obtain ⟨v, hv⟩ := List.exists_mem_of_ne_nil _ hne
  obtain ⟨m, -, hmin⟩ := (Finite.wellFounded_of_trans_of_irrefl before).has_min Set.univ
    ⟨⟨v, hv⟩, Set.mem_univ _⟩
  exact ⟨m, m.2, fun u hu hadj => hmin ⟨u, hu⟩ (Set.mem_univ _) (.single hadj)⟩

/-! ### The algorithm with counters -/

variable [DecidableEq α]

/-- The distinct successors of each node and the number of its distinct predecessors. -/
structure Links (α : Type) where
  adjacency : α → List α
  inDegree : α → Int

/-- An edge counts once, and where both its ends are nodes. -/
def link (ids : List α) (s : Links α) (e : α × α) : Links α :=
  if e.1 ∈ ids ∧ e.2 ∈ ids ∧ e.2 ∉ s.adjacency e.1 then
    { adjacency := Function.update s.adjacency e.1 (s.adjacency e.1 ++ [e.2])
      inDegree := Function.update s.inDegree e.2 (s.inDegree e.2 + 1) }
  else s

def links (ids : List α) (edges : List (α × α)) : Links α :=
  edges.foldl (link ids) ⟨fun _ => [], fun _ => 0⟩

section Loop

variable (le : α → α → Bool) (halts : α → Bool)

/-- One predecessor less; a node without any joins the sorted queue. -/
def release (s : (α → Int) × List α) (neighbor : α) : (α → Int) × List α :=
  let next := s.1 neighbor - 1
  (Function.update s.1 neighbor next,
    if next = 0 then (s.2 ++ [neighbor]).mergeSort le else s.2)

/-- Take nodes from the queue, which ends at a node that halts it. -/
def run (adjacency : α → List α) : Nat → (α → Int) → List α → List α → List α
  | 0, _, _, order => order
  | _ + 1, _, [], order => order
  | fuel + 1, inDegree, id :: queue, order =>
    if halts id then order
    else
      let s := (adjacency id).foldl (release le) (inDegree, queue)
      run adjacency fuel s.1 s.2 (order ++ [id])

/-- An order of all nodes, `none` where some stay behind. -/
def kahn (ids : List α) (edges : List (α × α)) : Option (List α) :=
  let l := links ids edges
  let queue := (ids.filter fun id => decide (l.inDegree id = 0)).mergeSort le
  let order := run le halts l.adjacency ids.length l.inDegree queue []
  if order.length = ids.length then some order else none

end Loop

/-! ### Counting predecessors -/

/-- One more element passes the second test than the first. -/
theorem countP_flip {p q : α → Bool} {xs : List α} {a : α} (hnodup : xs.Nodup) (ha : a ∈ xs)
    (hp : p a = false) (hq : q a = true) (hother : ∀ u ∈ xs, u ≠ a → p u = q u) :
    xs.countP q = xs.countP p + 1 := by
  induction xs with
  | nil => cases ha
  | cons b xs ih =>
    rw [List.nodup_cons] at hnodup
    by_cases hb : b = a
    · subst hb
      have hrest : xs.countP q = xs.countP p := by
        apply List.countP_congr
        intro u hu
        rw [hother u (List.mem_cons_of_mem _ hu) (ne_of_mem_of_not_mem hu hnodup.1)]
      rw [List.countP_cons_of_pos hq, List.countP_cons_of_neg (by simp [hp]), hrest]
    · have hrest := ih hnodup.2 ((List.mem_cons.mp ha).resolve_left (Ne.symm hb))
        fun u hu => hother u (List.mem_cons_of_mem _ hu)
      rw [List.countP_cons, List.countP_cons, hrest, hother b List.mem_cons_self hb]
      omega

/-- The number of predecessors that are not placed yet. -/
def pending (adjacency : α → List α) (ids order : List α) (v : α) : Nat :=
  ids.countP fun u => decide (u ∉ order) && decide (v ∈ adjacency u)

variable {ids order queue : List α} {edges : List (α × α)} {adjacency : α → List α}
  {inDegree : α → Int} {u v id : α}

theorem pending_eq_zero_iff :
    pending adjacency ids order v = 0 ↔ ∀ u ∈ ids, v ∈ adjacency u → u ∈ order := by
  rw [pending, List.countP_eq_zero]
  refine forall₂_congr fun u _ => ?_
  rw [Bool.and_eq_true, decide_eq_true_eq, decide_eq_true_eq, and_comm, not_and, not_not]

theorem pending_concat (hnodup : ids.Nodup) (hid : id ∈ ids) (hplaced : id ∉ order) (v : α) :
    pending adjacency ids order v =
      pending adjacency ids (order ++ [id]) v + if v ∈ adjacency id then 1 else 0 := by
  unfold pending
  split
  · next hv =>
    refine countP_flip hnodup hid (by simp) (by simp [hplaced, hv]) ?_
    intro u _ hu
    simp [hu]
  · next hv =>
    apply List.countP_congr
    intro u _
    by_cases hu : u = id
    · subst hu
      simp [hv]
    · simp [hu]

/-! ### The links -/

/-- What the links are after some of the edges. -/
structure Linked (ids : List α) (edges : List (α × α)) (s : Links α) : Prop where
  mem : ∀ u v, v ∈ s.adjacency u ↔ u ∈ ids ∧ v ∈ ids ∧ (u, v) ∈ edges
  nodup : ∀ u, (s.adjacency u).Nodup
  degree : ∀ v, s.inDegree v = pending s.adjacency ids [] v

theorem Linked.add {s : Links α} {a b : α} (h : Linked ids edges s) (hnodup : ids.Nodup)
    (ha : a ∈ ids) (hb : b ∈ ids) (hfresh : b ∉ s.adjacency a) :
    Linked ids (edges ++ [(a, b)]) ⟨Function.update s.adjacency a (s.adjacency a ++ [b]),
      Function.update s.inDegree b (s.inDegree b + 1)⟩ := by
  refine ⟨fun u v => ?_, fun u => ?_, fun v => ?_⟩ <;> dsimp only
  · by_cases hu : u = a
    · subst hu
      simp only [Function.update_self, List.mem_append, List.mem_singleton, h.mem,
        Prod.mk.injEq, true_and]
      constructor
      · rintro (⟨-, hv, he⟩ | rfl)
        · exact ⟨ha, hv, .inl he⟩
        · exact ⟨ha, hb, .inr rfl⟩
      · rintro ⟨-, hv, he | rfl⟩
        · exact .inl ⟨ha, hv, he⟩
        · exact .inr rfl
    · simp only [Function.update_of_ne hu, h.mem, List.mem_append, List.mem_singleton,
        Prod.mk.injEq, hu, false_and, or_false]
  · by_cases hu : u = a
    · subst hu
      rw [Function.update_self, List.nodup_append]
      refine ⟨h.nodup u, List.nodup_singleton b, ?_⟩
      rintro x hx y hy rfl
      exact hfresh (List.mem_singleton.mp hy ▸ hx)
    · rw [Function.update_of_ne hu]
      exact h.nodup u
  · by_cases hv : v = b
    · subst hv
      have hcount := countP_flip (p := fun u => decide (v ∈ s.adjacency u))
        (q := fun u => decide (v ∈ Function.update s.adjacency a (s.adjacency a ++ [v]) u))
        hnodup ha (decide_eq_false hfresh) (by simp) fun u _ hu => by
          rw [Function.update_of_ne hu]
      have hdegree := h.degree v
      simp only [pending, List.not_mem_nil, not_false_eq_true, decide_true,
        Bool.true_and] at hdegree ⊢
      rw [Function.update_self, hdegree, hcount]
      rfl
    · rw [Function.update_of_ne hv, h.degree v, pending, pending]
      congr 1
      apply List.countP_congr
      intro u _
      by_cases hu : u = a
      · subst hu
        simp [hv]
      · rw [Function.update_of_ne hu]

/-- An edge that is there already, or without its ends, changes nothing. -/
theorem Linked.ignore {s : Links α} {a b : α} (h : Linked ids edges s)
    (hknown : ¬ (a ∈ ids ∧ b ∈ ids ∧ b ∉ s.adjacency a)) : Linked ids (edges ++ [(a, b)]) s := by
  refine ⟨fun u v => ?_, h.nodup, h.degree⟩
  rw [h.mem]
  simp only [List.mem_append, List.mem_singleton, Prod.mk.injEq]
  constructor
  · rintro ⟨hu, hv, he⟩
    exact ⟨hu, hv, .inl he⟩
  · rintro ⟨hu, hv, he | ⟨rfl, rfl⟩⟩
    · exact ⟨hu, hv, he⟩
    · by_contra hnot
      exact hknown ⟨hu, hv, fun hmem => hnot ((h.mem u v).mp hmem)⟩

theorem Linked.link {s : Links α} (h : Linked ids edges s) (hnodup : ids.Nodup) (e : α × α) :
    Linked ids (edges ++ [e]) (link ids s e) := by
  unfold Kahn.link
  split
  · next hnew => exact h.add hnodup hnew.1 hnew.2.1 hnew.2.2
  · next hknown => exact h.ignore hknown

theorem links_linked (hnodup : ids.Nodup) (edges : List (α × α)) :
    Linked ids edges (links ids edges) := by
  have hall : ∀ (rest done : List (α × α)) (s : Links α), Linked ids done s →
      Linked ids (done ++ rest) (rest.foldl (link ids) s) := by
    intro rest
    induction rest with
    | nil =>
      intro done s h
      rw [List.append_nil]
      exact h
    | cons e rest ih =>
      intro done s h
      have hstep := ih (done ++ [e]) (link ids s e) (h.link hnodup e)
      rwa [List.append_assoc, List.singleton_append] at hstep
  refine hall edges [] _ ⟨?_, ?_, ?_⟩
  · simp
  · exact fun _ => List.nodup_nil
  · intro v
    simp [pending]

/-! ### The loop -/

theorem foldl_release (le : α → α → Bool) {ns : List α} (hnodup : ns.Nodup)
    (s : (α → Int) × List α) :
    (∀ v, (ns.foldl (release le) s).1 v = s.1 v - if v ∈ ns then 1 else 0) ∧
      (ns.foldl (release le) s).2.Perm (s.2 ++ ns.filter fun v => decide (s.1 v = 1)) := by
  induction ns generalizing s with
  | nil => simp
  | cons n ns ih =>
    rw [List.nodup_cons] at hnodup
    obtain ⟨hdegree, hqueue⟩ := ih hnodup.2 (release le s n)
    have hkeep : ∀ v, v ≠ n → (release le s n).1 v = s.1 v := fun v hv =>
      Function.update_of_ne hv ..
    constructor
    · intro v
      rw [List.foldl_cons, hdegree]
      by_cases hv : v = n
      · subst hv
        have hself : (release le s v).1 v = s.1 v - 1 := Function.update_self ..
        rw [hself, if_neg hnodup.1, if_pos List.mem_cons_self]
        omega
      · rw [hkeep v hv]
        simp [hv]
    · have hfilter : ns.filter (fun v => decide ((release le s n).1 v = 1)) =
          ns.filter fun v => decide (s.1 v = 1) := by
        apply List.filter_congr
        intro v hv
        rw [hkeep v (ne_of_mem_of_not_mem hv hnodup.1)]
      rw [List.foldl_cons]
      refine hqueue.trans ?_
      rw [hfilter]
      by_cases hn : s.1 n = 1
      · have hnext : s.1 n - 1 = 0 := by omega
        rw [release]
        dsimp only
        rw [if_pos hnext, List.filter_cons_of_pos (by simp [hn])]
        refine ((List.mergeSort_perm (s.2 ++ [n]) le).append_right _).trans ?_
        rw [List.append_assoc, List.singleton_append]
      · have hnext : s.1 n - 1 ≠ 0 := by omega
        rw [release]
        dsimp only
        rw [if_neg hnext, List.filter_cons_of_neg (by simp [hn])]

/-- The state of the loop: what waits has all its predecessors placed, and every node
like that is placed or waits. -/
structure Sorting (adjacency : α → List α) (ids : List α) (inDegree : α → Int)
    (queue order : List α) : Prop where
  nodup : (order ++ queue).Nodup
  degree : ∀ v, inDegree v = pending adjacency ids order v
  ready : ∀ v, v ∈ order ++ queue ↔ v ∈ ids ∧ pending adjacency ids order v = 0
  forward : Forward (fun u v => u ∈ ids ∧ v ∈ adjacency u) order

theorem Sorting.next (le : α → α → Bool) (hids : ids.Nodup)
    (hadjacency : ∀ u v, v ∈ adjacency u → v ∈ ids) (hdistinct : ∀ u, (adjacency u).Nodup)
    (h : Sorting adjacency ids inDegree (id :: queue) order) :
    Sorting adjacency ids ((adjacency id).foldl (release le) (inDegree, queue)).1
      ((adjacency id).foldl (release le) (inDegree, queue)).2 (order ++ [id]) := by
  obtain ⟨hid, hready⟩ := (h.ready id).mp (List.mem_append_right _ List.mem_cons_self)
  have hplaced : id ∉ order := fun hmem =>
    List.disjoint_of_nodup_append h.nodup hmem List.mem_cons_self
  have hpending := @pending_concat _ _ _ _ adjacency _ hids hid hplaced
  obtain ⟨hdegree, hqueue⟩ := foldl_release le (hdistinct id) (inDegree, queue)
  have hold : order ++ [id] ++ queue = order ++ id :: queue := by
    rw [List.append_assoc, List.singleton_append]
  have hperm := hqueue.append_left (order ++ [id])
  rw [← List.append_assoc, hold] at hperm
  have hnew : ∀ v, v ∈ (adjacency id).filter (fun v => decide (inDegree v = 1)) ↔
      v ∈ adjacency id ∧ pending adjacency ids (order ++ [id]) v = 0 := by
    intro v
    rw [List.mem_filter, decide_eq_true_eq, h.degree v]
    refine and_congr_right fun hv => ?_
    rw [hpending v, if_pos hv]
    omega
  constructor
  · rw [hperm.nodup_iff, List.nodup_append]
    refine ⟨h.nodup, (hdistinct id).filter _, ?_⟩
    rintro x hx y hy rfl
    obtain ⟨hadj, hzero⟩ := (hnew x).mp hy
    have hx' := ((h.ready x).mp hx).2
    rw [hpending x, if_pos hadj] at hx'
    omega
  · intro v
    rw [hdegree v]
    dsimp only
    rw [h.degree v, hpending v]
    split <;> omega
  · intro v
    rw [hperm.mem_iff, List.mem_append, h.ready, hnew, hpending v]
    constructor
    · rintro (⟨hv, hzero⟩ | ⟨hv, hzero⟩)
      · exact ⟨hv, by omega⟩
      · exact ⟨hadjacency id v hv, hzero⟩
    · rintro ⟨hv, hzero⟩
      by_cases hadj : v ∈ adjacency id
      · exact .inr ⟨hadj, hzero⟩
      · rw [if_neg hadj]
        exact .inl ⟨hv, by omega⟩
  · exact h.forward.concat fun u hu => pending_eq_zero_iff.mp hready u hu.1 hu.2

/-- The loop ends with an empty queue. -/
theorem Sorting.run (le : α → α → Bool) {halts : α → Bool} (hids : ids.Nodup)
    (hadjacency : ∀ u v, v ∈ adjacency u → v ∈ ids) (hdistinct : ∀ u, (adjacency u).Nodup)
    (hhalts : ∀ id ∈ ids, halts id = false) {fuel : Nat}
    (h : Sorting adjacency ids inDegree queue order) (hfuel : order.length + fuel = ids.length) :
    ∃ final, Sorting adjacency ids final []
      (Kahn.run le halts adjacency fuel inDegree queue order) := by
  induction fuel generalizing inDegree queue order with
  | zero =>
    have hsub : order ++ queue ⊆ ids := fun v hv => ((h.ready v).mp hv).1
    have hlength := (h.nodup.subperm hsub).length_le
    rw [List.length_append] at hlength
    have hqueue : queue = [] := List.length_eq_zero_iff.mp (by omega)
    subst hqueue
    exact ⟨inDegree, h⟩
  | succ fuel ih =>
    cases queue with
    | nil => exact ⟨inDegree, h⟩
    | cons id queue =>
      have hid := ((h.ready id).mp (List.mem_append_right _ List.mem_cons_self)).1
      rw [Kahn.run, if_neg (by rw [hhalts id hid]; exact Bool.false_ne_true)]
      refine ih (h.next le hids hadjacency hdistinct) ?_
      rw [List.length_append, List.length_singleton]
      omega

/-- An edge between nodes. -/
def Edge (ids : List α) (edges : List (α × α)) (u v : α) : Prop :=
  u ∈ ids ∧ v ∈ ids ∧ (u, v) ∈ edges

/-- The order that the loop ends with. -/
def placedOrder (le : α → α → Bool) (halts : α → Bool) (ids : List α) (edges : List (α × α)) :
    List α :=
  let l := links ids edges
  run le halts l.adjacency ids.length l.inDegree
    ((ids.filter fun id => decide (l.inDegree id = 0)).mergeSort le) []

theorem kahn_eq (le : α → α → Bool) (halts : α → Bool) :
    kahn le halts ids edges =
      if (placedOrder le halts ids edges).length = ids.length then
        some (placedOrder le halts ids edges)
      else none := rfl

theorem sorting_start (le : α → α → Bool) (hids : ids.Nodup) (edges : List (α × α)) :
    Sorting (links ids edges).adjacency ids (links ids edges).inDegree
      ((ids.filter fun id => decide ((links ids edges).inDegree id = 0)).mergeSort le) [] := by
  have hlinked := links_linked hids edges
  refine ⟨?_, hlinked.degree, ?_, forward_nil⟩
  · rw [List.nil_append, (List.mergeSort_perm _ le).nodup_iff]
    exact hids.filter _
  · intro v
    rw [List.nil_append, List.mem_mergeSort, List.mem_filter, decide_eq_true_eq,
      hlinked.degree v]
    exact and_congr_right fun _ => Int.natCast_eq_zero

theorem sorting_end (le : α → α → Bool) {halts : α → Bool} (hids : ids.Nodup)
    (hhalts : ∀ id ∈ ids, halts id = false) (edges : List (α × α)) :
    ∃ final, Sorting (links ids edges).adjacency ids final [] (placedOrder le halts ids edges) :=
  (sorting_start le hids edges).run le hids
    (fun u v hv => (((links_linked hids edges).mem u v).mp hv).2.1)
    (links_linked hids edges).nodup hhalts (Nat.zero_add _)

theorem adjacency_iff (hids : ids.Nodup) :
    u ∈ ids ∧ v ∈ (links ids edges).adjacency u ↔ Edge ids edges u v := by
  rw [(links_linked hids edges).mem u v, Edge]
  exact and_iff_right_of_imp And.left

/-- An order of all nodes that the algorithm finds puts each node behind its predecessors. -/
theorem kahn_eq_some (le : α → α → Bool) {halts : α → Bool} (hids : ids.Nodup)
    (hhalts : ∀ id ∈ ids, halts id = false) (h : kahn le halts ids edges = some order) :
    order.Perm ids ∧ Forward (Edge ids edges) order := by
  obtain ⟨final, hfinal⟩ := sorting_end le hids hhalts edges
  rw [kahn_eq] at h
  split at h
  · next hlength =>
    obtain rfl := Option.some.inj h
    have hnodup := hfinal.nodup
    rw [List.append_nil] at hnodup
    have hsub : placedOrder le halts ids edges ⊆ ids := fun v hv =>
      ((hfinal.ready v).mp (List.mem_append_left _ hv)).1
    refine ⟨(hnodup.subperm hsub).perm_of_length_le hlength.ge, ?_⟩
    intro before v after heq u hedge
    exact hfinal.forward before v after heq u ((adjacency_iff hids).mpr hedge)
  · cases h

/-- Without cycles the algorithm orders all nodes, each after its predecessors. -/
theorem kahn_of_acyclic (le : α → α → Bool) {halts : α → Bool} (hids : ids.Nodup)
    (hhalts : ∀ id ∈ ids, halts id = false)
    (hacyclic : ∀ u, ¬ Relation.TransGen (Edge ids edges) u u) :
    ∃ order, kahn le halts ids edges = some order ∧ order.Perm ids ∧
      Forward (Edge ids edges) order := by
  obtain ⟨final, hfinal⟩ := sorting_end le hids hhalts edges
  have hready := hfinal.ready
  rw [List.append_nil] at hready
  have hnodup := hfinal.nodup
  rw [List.append_nil] at hnodup
  have hsub : ∀ v ∈ ids, v ∈ placedOrder le halts ids edges := by
    by_contra hnot
    push Not at hnot
    obtain ⟨w, hw, hwout⟩ := hnot
    have hne : (ids.filter fun v => decide (v ∉ placedOrder le halts ids edges)) ≠ [] := by
      apply List.ne_nil_of_mem
      exact List.mem_filter.mpr ⟨hw, decide_eq_true hwout⟩
    obtain ⟨v, hv, hsource⟩ := exists_source hacyclic hne
    obtain ⟨hvids, hvout⟩ := List.mem_filter.mp hv
    refine of_decide_eq_true hvout ((hready v).mpr ⟨hvids, pending_eq_zero_iff.mpr ?_⟩)
    intro u hu hadj
    by_contra huout
    exact hsource u (List.mem_filter.mpr ⟨hu, decide_eq_true huout⟩)
      ((adjacency_iff hids).mp ⟨hu, hadj⟩)
  have hperm := (List.perm_ext_iff_of_nodup hnodup hids).mpr fun v =>
    ⟨fun hv => ((hready v).mp hv).1, hsub v⟩
  have hkahn : kahn le halts ids edges = some (placedOrder le halts ids edges) := by
    rw [kahn_eq, if_pos hperm.length_eq]
  exact ⟨_, hkahn, kahn_eq_some le hids hhalts hkahn⟩

end PipelineIQ.Lib.Kahn
