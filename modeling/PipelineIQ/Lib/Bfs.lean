import Mathlib.Data.List.Basic
import Mathlib.Data.List.Perm.Subperm
import Mathlib.Data.Nat.Basic
import Mathlib.Data.Nat.Find
import Mathlib.Logic.Relation
import Mathlib.Order.Basic

namespace PipelineIQ.Lib.Bfs

variable {α : Type} [DecidableEq α]

/-! ### Walks and distances -/

section Walks

variable (edges : List (α × α)) (starts : List α)

/-- A walk along a number of edges, from one of the starts. -/
inductive Walk : Nat → α → Prop where
  | start {a : α} (h : a ∈ starts) : Walk 0 a
  | step {n : Nat} {a b : α} (h : Walk n a) (e : (a, b) ∈ edges) : Walk (n + 1) b

/-- The length of a shortest walk. -/
structure Distance (n : Nat) (b : α) : Prop where
  walk : Walk edges starts n b
  least : ∀ m, Walk edges starts m b → n ≤ m

/-- A list of nodes with depths that has the distances up to a limit, and no depth
without a walk of that length. -/
structure Explores (limit : Nat) (found : List (α × Nat)) : Prop where
  sound : ∀ b n, (b, n) ∈ found → n ≤ limit ∧ Walk edges starts n b
  complete : ∀ b n, n ≤ limit → Distance edges starts n b → (b, n) ∈ found

end Walks

variable {edges others : List (α × α)} {starts begins : List α} {limit : Nat} {a b : α} {n : Nat}

omit [DecidableEq α] in
theorem Walk.mono (hedges : ∀ e ∈ edges, e ∈ others) (hstarts : ∀ a ∈ starts, a ∈ begins)
    (h : Walk edges starts n a) : Walk others begins n a := by
  induction h with
  | start h => exact .start (hstarts _ h)
  | step _ e ih => exact .step ih (hedges _ e)

omit [DecidableEq α] in
theorem Walk.congr (hedges : ∀ e, e ∈ edges ↔ e ∈ others) (hstarts : ∀ a, a ∈ starts ↔ a ∈ begins) :
    Walk edges starts n a ↔ Walk others begins n a :=
  ⟨.mono (fun e => (hedges e).mp) fun a => (hstarts a).mp,
    .mono (fun e => (hedges e).mpr) fun a => (hstarts a).mpr⟩

omit [DecidableEq α] in
theorem Walk.exists_distance (h : Walk edges starts n b) :
    ∃ m ≤ n, Distance edges starts m b := by
  classical
  have hex : ∃ m, Walk edges starts m b := ⟨n, h⟩
  exact ⟨Nat.find hex, Nat.find_le h, Nat.find_spec hex, fun m hm => Nat.find_le hm⟩

omit [DecidableEq α] in
theorem distance_zero_iff : Distance edges starts 0 a ↔ a ∈ starts := by
  constructor
  · rintro ⟨hwalk, -⟩
    cases hwalk with
    | start h => exact h
  · intro h
    exact ⟨.start h, fun m _ => Nat.zero_le m⟩

omit [DecidableEq α] in
theorem Distance.unique {m : Nat} (h : Distance edges starts n b)
    (h' : Distance edges starts m b) : n = m :=
  le_antisymm (h.least m h'.walk) (h'.least n h.walk)

/-! ### The smallest depth found -/

/-- The smallest depth that a node is found at. -/
def shallowest (found : List (α × Nat)) (b : α) : Option Nat :=
  ((found.filter fun e => decide (e.1 = b)).map Prod.snd).min?

theorem shallowest_eq_some_iff {found : List (α × Nat)} :
    shallowest found b = some n ↔ (b, n) ∈ found ∧ ∀ m, (b, m) ∈ found → n ≤ m := by
  have hmem : ∀ m, m ∈ (found.filter fun e => decide (e.1 = b)).map Prod.snd ↔ (b, m) ∈ found := by
    intro m
    rw [List.mem_map]
    constructor
    · rintro ⟨⟨c, k⟩, hc, rfl⟩
      rw [List.mem_filter, decide_eq_true_eq] at hc
      obtain ⟨hc, rfl⟩ := hc
      exact hc
    · intro h
      exact ⟨(b, m), List.mem_filter.mpr ⟨h, decide_eq_true rfl⟩, rfl⟩
  rw [shallowest, List.min?_eq_some_iff, hmem]
  simp only [hmem]

/-- Every exploration finds the nodes within the limit, each first at its distance. -/
theorem Explores.shallowest_eq_some_iff {found : List (α × Nat)}
    (h : Explores edges starts limit found) :
    shallowest found b = some n ↔ n ≤ limit ∧ Distance edges starts n b := by
  rw [Bfs.shallowest_eq_some_iff]
  constructor
  · rintro ⟨hmem, hmin⟩
    obtain ⟨hn, hwalk⟩ := h.sound b n hmem
    refine ⟨hn, hwalk, fun m hm => ?_⟩
    obtain ⟨k, hk, hdist⟩ := hm.exists_distance
    by_cases hkn : k ≤ limit
    · exact (hmin k (h.complete b k hkn hdist)).trans hk
    · omega
  · rintro ⟨hn, hdist⟩
    exact ⟨h.complete b n hn hdist, fun m hm => hdist.least m (h.sound b m hm).2⟩

/-- Two explorations of one graph agree. -/
theorem Explores.shallowest_eq {found other : List (α × Nat)}
    (h : Explores edges starts limit found) (ho : Explores others begins limit other)
    (hedges : ∀ e, e ∈ edges ↔ e ∈ others) (hstarts : ∀ a, a ∈ starts ↔ a ∈ begins) (b : α) :
    shallowest found b = shallowest other b := by
  apply Option.ext
  intro n
  rw [h.shallowest_eq_some_iff, ho.shallowest_eq_some_iff]
  refine and_congr_right fun _ => ?_
  constructor
  · rintro ⟨hwalk, hleast⟩
    exact ⟨(Walk.congr hedges hstarts).mp hwalk,
      fun m hm => hleast m ((Walk.congr hedges hstarts).mpr hm)⟩
  · rintro ⟨hwalk, hleast⟩
    exact ⟨(Walk.congr hedges hstarts).mpr hwalk,
      fun m hm => hleast m ((Walk.congr hedges hstarts).mp hm)⟩

omit [DecidableEq α] in
/-- The order of what is found, and how often it is listed, do not matter. -/
theorem Explores.of_mem_iff {found other : List (α × Nat)} (h : Explores edges starts limit found)
    (hmem : ∀ e, e ∈ other ↔ e ∈ found) : Explores edges starts limit other where
  sound b n hb := h.sound b n ((hmem _).mp hb)
  complete b n hn hdist := (hmem _).mpr (h.complete b n hn hdist)

/-- Explorations of one graph agree just when they start from the same nodes. -/
theorem Explores.shallowest_eq_iff {found other : List (α × Nat)}
    (h : Explores edges starts limit found) (ho : Explores others begins limit other)
    (hedges : ∀ e, e ∈ edges ↔ e ∈ others) :
    (∀ b, shallowest found b = shallowest other b) ↔ ∀ a, a ∈ starts ↔ a ∈ begins := by
  constructor
  · intro heq a
    have hstart := h.shallowest_eq_some_iff (b := a) (n := 0)
    rw [heq a, ho.shallowest_eq_some_iff] at hstart
    simpa [distance_zero_iff] using hstart.symm
  · exact fun hstarts => h.shallowest_eq ho hedges hstarts

/-! ### Paths without repetition -/

/-- The ways to go on from a path, which has its last node first. -/
def extend (edges : List (α × α)) : List α → List (List α)
  | [] => []
  | last :: path => (edges.filter fun e => decide (e.1 = last) && decide (e.2 ∉ last :: path)).map
      fun e => e.2 :: last :: path

def simplePaths (edges : List (α × α)) (starts : List α) : Nat → List (List α)
  | 0 => starts.map fun a => [a]
  | n + 1 => (simplePaths edges starts n).flatMap (extend edges)

theorem mem_extend {path longer : List α} : longer ∈ extend edges path ↔
    ∃ last rest b, path = last :: rest ∧ longer = b :: path ∧ (last, b) ∈ edges ∧ b ∉ path := by
  cases path with
  | nil =>
    constructor
    · intro h
      cases h
    · rintro ⟨last, rest, b, h, -⟩
      cases h
  | cons last rest =>
    simp only [extend, List.mem_map, List.mem_filter, Bool.and_eq_true, decide_eq_true_eq]
    constructor
    · rintro ⟨⟨a, b⟩, ⟨he, rfl, hb⟩, rfl⟩
      exact ⟨a, rest, b, rfl, rfl, he, hb⟩
    · rintro ⟨last', rest', b, heq, rfl, he, hb⟩
      cases heq
      exact ⟨(last, b), ⟨he, rfl, hb⟩, rfl⟩

theorem walk_of_simplePath {path : List α} (h : b :: path ∈ simplePaths edges starts n) :
    Walk edges starts n b := by
  induction n generalizing b path with
  | zero =>
    obtain ⟨a, ha, heq⟩ := List.mem_map.mp h
    cases heq
    exact .start ha
  | succ n ih =>
    obtain ⟨shorter, hmem, hext⟩ := List.mem_flatMap.mp h
    obtain ⟨last, rest, c, rfl, heq, he, -⟩ := mem_extend.mp hext
    cases heq
    exact .step (ih hmem) he

/-- A shortest walk meets no node twice. -/
theorem exists_simplePath (h : Distance edges starts n b) :
    ∃ path, b :: path ∈ simplePaths edges starts n ∧
      ∀ a ∈ path, ∃ m < n, Walk edges starts m a := by
  induction n generalizing b with
  | zero =>
    have hb := distance_zero_iff.mp h
    exact ⟨[], List.mem_map.mpr ⟨b, hb, rfl⟩, fun a ha => absurd ha List.not_mem_nil⟩
  | succ n ih =>
    obtain ⟨hwalk, hleast⟩ := h
    cases hwalk with
    | step hwalk e =>
      rename_i a
      have hdist : Distance edges starts n a :=
        ⟨hwalk, fun m hm => Nat.le_of_succ_le_succ (hleast (m + 1) (.step hm e))⟩
      obtain ⟨path, hpath, hbefore⟩ := ih hdist
      have hall : ∀ c ∈ a :: path, ∃ m < n + 1, Walk edges starts m c := by
        intro c hc
        rcases List.mem_cons.mp hc with rfl | hc
        · exact ⟨n, Nat.lt_succ_self n, hwalk⟩
        · obtain ⟨m, hm, hw⟩ := hbefore c hc
          exact ⟨m, Nat.lt_succ_of_lt hm, hw⟩
      have hfresh : b ∉ a :: path := by
        intro hb
        obtain ⟨m, hm, hw⟩ := hall b hb
        exact Nat.not_lt.mpr (hleast m hw) hm
      refine ⟨a :: path, List.mem_flatMap.mpr ⟨a :: path, hpath, ?_⟩, hall⟩
      exact mem_extend.mpr ⟨a, path, b, rfl, rfl, e, hfresh⟩

/-! ### Breadth-first search -/

/-- The nodes still to visit after a visit. -/
def enqueue (edges : List (α × α)) (limit : Nat) (visited : List α) (a : α) (depth : Nat) :
    List (α × Nat) :=
  if depth < limit then
    ((edges.filter fun e => decide (e.1 = a)).filter fun e => decide (e.2 ∉ visited)).map
      fun e => (e.2, depth + 1)
  else []

/-- Take nodes from the queue and visit those that were not visited yet. -/
def search (edges : List (α × α)) (limit : Nat) :
    Nat → List (α × Nat) → List (α × Nat) → List (α × Nat)
  | 0, results, _ => results
  | _ + 1, results, [] => results
  | fuel + 1, results, (a, depth) :: queue =>
    if a ∈ results.map Prod.fst then search edges limit fuel results queue
    else
      let results := results ++ [(a, depth)]
      search edges limit fuel results
        (queue ++ enqueue edges limit (results.map Prod.fst) a depth)

/-- Every edge puts one node into the queue at most. -/
def bfs (edges : List (α × α)) (starts : List α) (limit : Nat) : List (α × Nat) :=
  search edges limit (starts.length + edges.length) [] (starts.map fun a => (a, 0))

/-- The state of a search: what is visited and what waits make one list in the order
of the depths. -/
structure Searching (edges : List (α × α)) (starts : List α) (limit : Nat)
    (results queue : List (α × Nat)) : Prop where
  sound : ∀ e ∈ results ++ queue, e.2 ≤ limit ∧ Walk edges starts e.2 e.1
  started : ∀ a ∈ starts, (a, 0) ∈ results ++ queue
  closed : ∀ a d b, (a, d) ∈ results → d < limit → (a, b) ∈ edges →
    ∃ k ≤ d + 1, (b, k) ∈ results ++ queue
  sorted : (results ++ queue).Pairwise fun e f => e.2 ≤ f.2
  span : ∀ e ∈ queue, ∀ f ∈ queue, e.2 ≤ f.2 + 1

variable {results queue : List (α × Nat)} {depth : Nat}

theorem mem_enqueue {visited : List α} {e : α × Nat} :
    e ∈ enqueue edges limit visited a depth ↔
      depth < limit ∧ (a, e.1) ∈ edges ∧ e.1 ∉ visited ∧ e.2 = depth + 1 := by
  unfold enqueue
  split
  · next hlt =>
    simp only [List.mem_map, List.mem_filter, decide_eq_true_eq]
    constructor
    · rintro ⟨⟨c, d⟩, ⟨⟨he, rfl⟩, hd⟩, rfl⟩
      exact ⟨hlt, he, hd, rfl⟩
    · rintro ⟨-, he, hv, hd⟩
      exact ⟨(a, e.1), ⟨⟨he, rfl⟩, hv⟩, by rw [← hd]⟩
  · next hlt =>
    constructor
    · intro h
      cases h
    · intro h
      exact absurd h.1 hlt

omit [DecidableEq α] in
theorem searching_start : Searching edges starts limit [] (starts.map fun a => (a, 0)) where
  sound e he := by
    obtain ⟨a, ha, rfl⟩ := List.mem_map.mp he
    exact ⟨Nat.zero_le limit, .start ha⟩
  started a ha := List.mem_map.mpr ⟨a, ha, rfl⟩
  closed a d b h := nomatch h
  sorted := by
    rw [List.nil_append, List.pairwise_map]
    exact List.pairwise_of_forall fun _ _ => Nat.le_refl 0
  span e he f hf := by
    obtain ⟨a, -, rfl⟩ := List.mem_map.mp he
    exact Nat.zero_le _

omit [DecidableEq α] in
/-- What was visited before is not visited again. -/
theorem Searching.skip (h : Searching edges starts limit results ((a, depth) :: queue))
    (hvisited : a ∈ results.map Prod.fst) : Searching edges starts limit results queue := by
  obtain ⟨⟨a', d'⟩, hres, rfl⟩ := List.mem_map.mp hvisited
  have hd' : d' ≤ depth :=
    (List.pairwise_append.mp h.sorted).2.2 _ hres _ List.mem_cons_self
  have hkeep : ∀ c k, (c, k) ∈ results ++ (a', depth) :: queue →
      ∃ j ≤ k, (c, j) ∈ results ++ queue := by
    intro c k hmem
    rcases List.mem_append.mp hmem with hmem | hmem
    · exact ⟨k, Nat.le_refl k, List.mem_append_left _ hmem⟩
    · rcases List.mem_cons.mp hmem with heq | hmem
      · cases heq
        exact ⟨d', hd', List.mem_append_left _ hres⟩
      · exact ⟨k, Nat.le_refl k, List.mem_append_right _ hmem⟩
  have hsub : (results ++ queue).Sublist (results ++ (a', depth) :: queue) :=
    (List.sublist_cons_self _ _).append_left results
  constructor
  · intro e he
    exact h.sound e (hsub.subset he)
  · intro c hc
    obtain ⟨j, hj, hmem⟩ := hkeep c 0 (h.started c hc)
    cases Nat.le_zero.mp hj
    exact hmem
  · intro c d b hmem hlt he
    obtain ⟨k, hk, hk'⟩ := h.closed c d b hmem hlt he
    obtain ⟨j, hj, hj'⟩ := hkeep b k hk'
    exact ⟨j, hj.trans hk, hj'⟩
  · exact h.sorted.sublist hsub
  · intro e he f hf
    exact h.span e (List.mem_cons_of_mem _ he) f (List.mem_cons_of_mem _ hf)

/-- A visit keeps the depths of the queue within one of each other. -/
theorem Searching.visit (h : Searching edges starts limit results ((a, depth) :: queue)) :
    Searching edges starts limit (results ++ [(a, depth)])
      (queue ++ enqueue edges limit ((results ++ [(a, depth)]).map Prod.fst) a depth) := by
  have hassoc : (results ++ [(a, depth)]) ++ (queue ++
      enqueue edges limit ((results ++ [(a, depth)]).map Prod.fst) a depth) =
      (results ++ (a, depth) :: queue) ++
        enqueue edges limit ((results ++ [(a, depth)]).map Prod.fst) a depth := by
    simp only [List.append_assoc, List.cons_append, List.nil_append]
  have hhead : (a, depth) ∈ results ++ (a, depth) :: queue :=
    List.mem_append_right _ List.mem_cons_self
  obtain ⟨-, hqueue, hcross⟩ := List.pairwise_append.mp h.sorted
  have hbelow : ∀ e ∈ results ++ (a, depth) :: queue, e.2 ≤ depth + 1 := by
    intro e he
    rcases List.mem_append.mp he with he | he
    · exact (hcross e he _ List.mem_cons_self).trans (Nat.le_succ depth)
    · exact h.span e he _ List.mem_cons_self
  have hnear : ∀ e ∈ queue ++ enqueue edges limit ((results ++ [(a, depth)]).map Prod.fst) a depth,
      depth ≤ e.2 ∧ e.2 ≤ depth + 1 := by
    intro e he
    rcases List.mem_append.mp he with he | he
    · exact ⟨(List.pairwise_cons.mp hqueue).1 e he,
        h.span e (List.mem_cons_of_mem _ he) _ List.mem_cons_self⟩
    · obtain ⟨-, -, -, hd⟩ := mem_enqueue.mp he
      exact ⟨hd ▸ Nat.le_succ depth, Nat.le_of_eq hd⟩
  constructor
  · intro e he
    rw [hassoc] at he
    rcases List.mem_append.mp he with he | he
    · exact h.sound e he
    · obtain ⟨hlt, hedge, -, hd⟩ := mem_enqueue.mp he
      rw [hd]
      exact ⟨hlt, .step (h.sound _ hhead).2 hedge⟩
  · intro c hc
    rw [hassoc]
    exact List.mem_append_left _ (h.started c hc)
  · intro c d b hmem hlt he
    rw [hassoc]
    rcases List.mem_append.mp hmem with hmem | hmem
    · obtain ⟨k, hk, hk'⟩ := h.closed c d b hmem hlt he
      exact ⟨k, hk, List.mem_append_left _ hk'⟩
    · cases List.mem_singleton.mp hmem
      by_cases hb : b ∈ (results ++ [(a, depth)]).map Prod.fst
      · obtain ⟨⟨b', k⟩, hk, rfl⟩ := List.mem_map.mp hb
        have hk' : (b', k) ∈ results ++ (a, depth) :: queue := by
          rcases List.mem_append.mp hk with hk | hk
          · exact List.mem_append_left _ hk
          · exact List.mem_singleton.mp hk ▸ hhead
        exact ⟨k, hbelow _ hk', List.mem_append_left _ hk'⟩
      · exact ⟨depth + 1, Nat.le_refl _,
          List.mem_append_right _ (mem_enqueue.mpr ⟨hlt, he, hb, rfl⟩)⟩
  · rw [hassoc, List.pairwise_append]
    refine ⟨h.sorted, ?_, ?_⟩
    · rw [List.pairwise_iff_forall_sublist]
      intro e f hef
      have he := hef.subset List.mem_cons_self
      have hf := hef.subset (List.mem_cons_of_mem _ List.mem_cons_self)
      rw [(mem_enqueue.mp he).2.2.2, (mem_enqueue.mp hf).2.2.2]
    · intro e he f hf
      rw [(mem_enqueue.mp hf).2.2.2]
      exact hbelow e he
  · intro e he f hf
    exact (hnear e he).2.trans (Nat.succ_le_succ (hnear f hf).1)

omit [DecidableEq α] in
/-- A search that is over has explored the graph. -/
theorem Searching.explores (h : Searching edges starts limit results []) :
    Explores edges starts limit results := by
  have hsound : ∀ b n, (b, n) ∈ results → n ≤ limit ∧ Walk edges starts n b :=
    fun b n hmem => h.sound (b, n) (List.mem_append_left _ hmem)
  have hreach : ∀ {n b}, Walk edges starts n b → n ≤ limit → ∃ k ≤ n, (b, k) ∈ results := by
    intro n b hwalk
    induction hwalk with
    | start hstart =>
      intro _
      have hmem := h.started _ hstart
      rw [List.append_nil] at hmem
      exact ⟨0, Nat.le_refl 0, hmem⟩
    | step _ e ih =>
      intro hn
      obtain ⟨k, hk, hmem⟩ := ih (Nat.le_of_succ_le hn)
      obtain ⟨j, hj, hj'⟩ := h.closed _ k _ hmem (Nat.lt_of_le_of_lt hk hn) e
      rw [List.append_nil] at hj'
      exact ⟨j, hj.trans (Nat.succ_le_succ hk), hj'⟩
  refine ⟨hsound, fun b n hn hdist => ?_⟩
  obtain ⟨k, hk, hmem⟩ := hreach hdist.walk hn
  cases le_antisymm hk (hdist.least k (hsound b k hmem).2)
  exact hmem

/-- The edges that leave a node not visited yet. -/
def unexplored (edges : List (α × α)) (results : List (α × Nat)) : List (α × α) :=
  edges.filter fun e => decide (e.1 ∉ results.map Prod.fst)

theorem length_enqueue_le (visited : List α) :
    (enqueue edges limit visited a depth).length ≤
      (edges.filter fun e => decide (e.1 = a)).length := by
  unfold enqueue
  split
  · rw [List.length_map]
    exact List.length_filter_le _ _
  · exact Nat.zero_le _

theorem length_unexplored (ha : a ∉ results.map Prod.fst) :
    (unexplored edges (results ++ [(a, depth)])).length +
        (edges.filter fun e => decide (e.1 = a)).length =
      (unexplored edges results).length := by
  unfold unexplored
  induction edges with
  | nil => rfl
  | cons e rest ih =>
    obtain ⟨s, t⟩ := e
    by_cases hs : s = a
    · subst hs
      simp only [List.map_append, List.map_cons, List.map_nil, List.filter_cons, List.mem_append,
        List.mem_singleton, or_true, not_true_eq_false, decide_false, Bool.false_eq_true, if_false,
        decide_true, if_true, ha, not_false_eq_true, List.length_cons] at ih ⊢
      omega
    · by_cases hres : s ∈ results.map Prod.fst
      · simp only [List.map_append, List.map_cons, List.map_nil, List.filter_cons, List.mem_append,
          List.mem_singleton, hres, hs, or_false, not_true_eq_false, decide_false,
          Bool.false_eq_true, if_false] at ih ⊢
        exact ih
      · simp only [List.map_append, List.map_cons, List.map_nil, List.filter_cons, List.mem_append,
          List.mem_singleton, hres, hs, or_false, not_false_eq_true, decide_true, decide_false,
          Bool.false_eq_true, if_true, if_false, List.length_cons] at ih ⊢
        omega

/-- With an element of fuel for what waits and for each edge not explored, the queue
is emptied. -/
theorem search_explores {fuel : Nat} (h : Searching edges starts limit results queue)
    (hfuel : queue.length + (unexplored edges results).length ≤ fuel) :
    Explores edges starts limit (search edges limit fuel results queue) := by
  induction fuel generalizing results queue with
  | zero =>
    have hqueue : queue = [] := List.length_eq_zero_iff.mp (by omega)
    subst hqueue
    exact h.explores
  | succ fuel ih =>
    cases queue with
    | nil => exact h.explores
    | cons e queue =>
      obtain ⟨a, depth⟩ := e
      rw [List.length_cons] at hfuel
      rw [search]
      split
      · next hvisited => exact ih (h.skip hvisited) (by omega)
      · next hvisited =>
        have hlength := @length_unexplored _ _ edges _ _ depth hvisited
        have hqueue := @length_enqueue_le _ _ edges limit a depth
          ((results ++ [(a, depth)]).map Prod.fst)
        refine ih h.visit ?_
        rw [List.length_append]
        omega

/-- Breadth-first search finds every node within the limit at its distance. -/
theorem bfs_explores (edges : List (α × α)) (starts : List α) (limit : Nat) :
    Explores edges starts limit (bfs edges starts limit) := by
  refine search_explores searching_start ?_
  rw [List.length_map]
  exact Nat.add_le_add_left (List.length_filter_le _ _) _

/-! ### What a search reaches -/

theorem nodup_search {fuel : Nat} (h : (results.map Prod.fst).Nodup) :
    ((search edges limit fuel results queue).map Prod.fst).Nodup := by
  induction fuel generalizing results queue with
  | zero => exact h
  | succ fuel ih =>
    cases queue with
    | nil => exact h
    | cons e queue =>
      rw [search]
      split
      · exact ih h
      · next hvisited =>
        refine ih ?_
        rw [List.map_append, List.nodup_append]
        refine ⟨h, List.pairwise_singleton _ _, fun a ha b hb => ?_⟩
        rintro rfl
        exact hvisited (List.mem_singleton.mp hb ▸ ha)

/-- A node is visited once. -/
theorem nodup_bfs (edges : List (α × α)) (starts : List α) (limit : Nat) :
    ((bfs edges starts limit).map Prod.fst).Nodup :=
  nodup_search List.nodup_nil

theorem simplePath_targets {path : List α} (h : path ∈ simplePaths edges starts n) :
    path.length = n + 1 ∧ path.Nodup ∧ ∀ a ∈ path.dropLast, a ∈ edges.map Prod.snd := by
  induction n generalizing path with
  | zero =>
    obtain ⟨a, -, rfl⟩ := List.mem_map.mp h
    exact ⟨rfl, List.pairwise_singleton _ a, fun b hb => nomatch hb⟩
  | succ n ih =>
    obtain ⟨shorter, hmem, hext⟩ := List.mem_flatMap.mp h
    obtain ⟨last, rest, b, rfl, rfl, he, hb⟩ := mem_extend.mp hext
    obtain ⟨hlength, hnodup, htargets⟩ := ih hmem
    refine ⟨by rw [List.length_cons, hlength], List.nodup_cons.mpr ⟨hb, hnodup⟩, ?_⟩
    intro a ha
    rcases List.mem_cons.mp ha with rfl | ha
    · exact List.mem_map.mpr ⟨(last, a), he, rfl⟩
    · exact htargets a ha

/-- A shortest walk takes each edge once at most. -/
theorem Distance.le_length (h : Distance edges starts n b) : n ≤ edges.length := by
  obtain ⟨path, hpath, -⟩ := exists_simplePath h
  obtain ⟨hlength, hnodup, htargets⟩ := simplePath_targets hpath
  have hsub := (List.subperm_of_subset (hnodup.sublist (List.dropLast_sublist _)) htargets).length_le
  rwa [List.length_dropLast, hlength, List.length_map] at hsub

omit [DecidableEq α] in
theorem exists_walk_iff {s : α} : (∃ n, Walk edges [s] n b) ↔
    Relation.ReflTransGen (fun a b => (a, b) ∈ edges) s b := by
  constructor
  · rintro ⟨n, h⟩
    induction h with
    | start h => rw [List.mem_singleton.mp h]
    | step _ e ih => exact ih.tail e
  · intro h
    induction h with
    | refl => exact ⟨0, .start (List.mem_singleton.mpr rfl)⟩
    | tail _ e ih =>
      obtain ⟨n, hn⟩ := ih
      exact ⟨n + 1, hn.step e⟩

/-- With a limit that no edge exceeds, the search visits what can be reached. -/
theorem mem_bfs_iff {s : α} : b ∈ (bfs edges [s] edges.length).map Prod.fst ↔
    Relation.ReflTransGen (fun a b => (a, b) ∈ edges) s b := by
  have hexplores := bfs_explores edges [s] edges.length
  rw [← exists_walk_iff]
  constructor
  · intro h
    obtain ⟨⟨c, n⟩, hmem, rfl⟩ := List.mem_map.mp h
    exact ⟨n, (hexplores.sound c n hmem).2⟩
  · rintro ⟨n, h⟩
    obtain ⟨m, -, hdist⟩ := h.exists_distance
    exact List.mem_map.mpr ⟨(b, m), hexplores.complete b m hdist.le_length hdist, rfl⟩

end PipelineIQ.Lib.Bfs
