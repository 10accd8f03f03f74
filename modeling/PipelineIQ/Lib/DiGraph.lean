import Mathlib.Data.List.Perm.Basic
import Mathlib.Order.Bounds.Basic
import PipelineIQ.Lib.Bfs
import PipelineIQ.Lib.Dict
import PipelineIQ.Lib.Kahn

namespace PipelineIQ.Lib

/-- A directed graph with data at its nodes and edges, which remembers the order of insertion. -/
structure DiGraph (ν A B : Type) where
  nodes : Dict ν A
  edges : Dict (ν × ν) B
  closed : ∀ e ∈ edges.keys, e.1 ∈ nodes.keys ∧ e.2 ∈ nodes.keys

namespace DiGraph

variable {ν A B : Type} [DecidableEq ν]

theorem mem_keys_set {K V : Type} [DecidableEq K] {d : Dict K V} {k j : K} {v : V} :
    j ∈ (d.set k v).keys ↔ j = k ∨ j ∈ d.keys := by
  rw [Dict.mem_keys_iff, Dict.mem_keys_iff, Dict.get?_set]
  by_cases h : j = k <;> simp [h]

def empty : DiGraph ν A B := ⟨∅, ∅, fun _ h => nomatch h⟩

/-- Add a node, or change the data of one that is there. -/
def addNode (g : DiGraph ν A B) (u : ν) (data : Option A → A) : DiGraph ν A B where
  nodes := g.nodes.set u (data (g.nodes.get? u))
  edges := g.edges
  closed e he := by
    obtain ⟨hs, ht⟩ := g.closed e he
    exact ⟨mem_keys_set.mpr (Or.inr hs), mem_keys_set.mpr (Or.inr ht)⟩

/-- Add an edge, and its ends where they are missing. -/
def addEdge (g : DiGraph ν A B) (blank : A) (u v : ν) (data : Option B → B) : DiGraph ν A B where
  nodes := ((g.nodes.set u ((g.nodes.get? u).getD blank)).set v
    (((g.nodes.set u ((g.nodes.get? u).getD blank)).get? v).getD blank))
  edges := g.edges.set (u, v) (data (g.edges.get? (u, v)))
  closed e he := by
    simp only [mem_keys_set] at he ⊢
    obtain rfl | he := he
    · exact ⟨Or.inr (Or.inl rfl), Or.inl rfl⟩
    · obtain ⟨hs, ht⟩ := g.closed e he
      exact ⟨Or.inr (Or.inr hs), Or.inr (Or.inr ht)⟩

def Adj (g : DiGraph ν A B) (u v : ν) : Prop := (u, v) ∈ g.edges.keys

def predecessors (g : DiGraph ν A B) (v : ν) : List ν :=
  (g.edges.keys.filter fun e => e.2 = v).map Prod.fst

def Acyclic (g : DiGraph ν A B) : Prop := ∀ u, ¬ Relation.TransGen g.Adj u u

/-- A walk along a number of edges. -/
inductive Walk (g : DiGraph ν A B) : Nat → ν → ν → Prop
  | nil (u : ν) : Walk g 0 u u
  | snoc {n : Nat} {u v w : ν} (h : Walk g n u v) (e : g.Adj v w) : Walk g (n + 1) u w

variable {g : DiGraph ν A B} {u v : ν}

theorem mem_predecessors : u ∈ g.predecessors v ↔ g.Adj u v := by
  simp [predecessors, Adj]

theorem mem_nodes_addNode {data : Option A → A} {w : ν} :
    w ∈ (g.addNode u data).nodes.keys ↔ w = u ∨ w ∈ g.nodes.keys := mem_keys_set

theorem adj_addNode {data : Option A → A} {x y : ν} : (g.addNode u data).Adj x y ↔ g.Adj x y :=
  Iff.rfl

theorem mem_nodes_addEdge {blank : A} {data : Option B → B} {w : ν} :
    w ∈ (g.addEdge blank u v data).nodes.keys ↔ w = u ∨ w = v ∨ w ∈ g.nodes.keys := by
  simp only [addEdge, mem_keys_set]
  tauto

theorem adj_addEdge {blank : A} {data : Option B → B} {x y : ν} :
    (g.addEdge blank u v data).Adj x y ↔ (x = u ∧ y = v) ∨ g.Adj x y := by
  simp only [Adj, addEdge, mem_keys_set, Prod.mk.injEq]

omit [DecidableEq ν] in
/-- Names of the nodes with a rank that grows along the edges exclude cycles. -/
theorem acyclic_of_rank {κ : Type} {named : κ → Prop} (name : κ → ν) (rank : κ → Nat)
    (hinj : ∀ k l, named k → named l → name k = name l → k = l)
    (h : ∀ u v, g.Adj u v → ∃ k l, named k ∧ named l ∧ name k = u ∧ name l = v ∧ rank k < rank l) :
    g.Acyclic := by
  have hgrow : ∀ u v, Relation.TransGen g.Adj u v →
      ∃ k l, named k ∧ named l ∧ name k = u ∧ name l = v ∧ rank k < rank l := by
    intro u v hpath
    induction hpath with
    | single e => exact h _ _ e
    | tail _ e ih =>
      obtain ⟨k, l, hk, hl, rfl, hlv, hlt⟩ := ih
      obtain ⟨l', m, hl', hm, hlv', rfl, hlt'⟩ := h _ _ e
      cases hinj l l' hl hl' (hlv.trans hlv'.symm)
      exact ⟨k, m, hk, hm, rfl, rfl, hlt.trans hlt'⟩
  intro u hcycle
  obtain ⟨k, l, hk, hl, hku, hlu, hlt⟩ := hgrow u u hcycle
  cases hinj k l hk hl (hku.trans hlu.symm)
  exact Nat.lt_irrefl _ hlt

/-! ### Descendants -/

/-- The nodes that can be reached from a node, without the node itself. -/
def descendants (g : DiGraph ν A B) (source : ν) : Option (List ν) :=
  if source ∈ g.nodes.keys then
    some (((Bfs.bfs g.edges.keys [source] g.edges.keys.length).map Prod.fst).filter
      fun v => decide (v ≠ source))
  else none

theorem exists_descendants {source : ν} (h : source ∈ g.nodes.keys) :
    ∃ reached, g.descendants source = some reached ∧ reached.Nodup ∧
      ∀ v, v ∈ reached ↔ v ≠ source ∧ Relation.TransGen g.Adj source v := by
  refine ⟨_, if_pos h, (Bfs.nodup_bfs _ _ _).filter _, fun v => ?_⟩
  rw [List.mem_filter, decide_eq_true_eq, Bfs.mem_bfs_iff, Relation.reflTransGen_iff_eq_or_transGen]
  constructor
  · rintro ⟨rfl | hpath, hne⟩
    · exact absurd rfl hne
    · exact ⟨hne, hpath⟩
  · rintro ⟨hne, hpath⟩
    exact ⟨.inr hpath, hne⟩

/-! ### Layers -/

/-- A list of the nodes with every edge from an earlier to a later one. -/
structure IsTopologicalOrder (g : DiGraph ν A B) (order : List ν) : Prop where
  perm : order.Perm g.nodes.keys
  forward : ∀ before v after, order = before ++ v :: after → ∀ u, g.Adj u v → u ∈ before

/-- The first node of the rest whose predecessors all have their place. -/
def ready (g : DiGraph ν A B) (placed rest : List ν) : Option ν :=
  rest.find? fun v => (g.predecessors v).all fun u => decide (u ∈ placed)

def sortFrom (g : DiGraph ν A B) : Nat → List ν → List ν → Option (List ν)
  | 0, placed, _ => some placed
  | n + 1, placed, rest => (g.ready placed rest).bind fun v =>
    g.sortFrom n (placed ++ [v]) (rest.erase v)

/-- Kahn's algorithm, `none` where every node left has a predecessor that is left. -/
def topologicalSort (g : DiGraph ν A B) : Option (List ν) :=
  g.sortFrom g.nodes.keys.length [] g.nodes.keys

theorem sortFrom_of_acyclic (h : g.Acyclic) {n : Nat} {placed rest : List ν}
    (hlen : rest.length = n) (hperm : (placed ++ rest).Perm g.nodes.keys)
    (hforward : ∀ before v after, placed = before ++ v :: after → ∀ u, g.Adj u v → u ∈ before) :
    ∃ order, g.sortFrom n placed rest = some order ∧ g.IsTopologicalOrder order := by
  induction n generalizing placed rest with
  | zero =>
    rw [List.length_eq_zero_iff] at hlen
    subst hlen
    rw [List.append_nil] at hperm
    exact ⟨placed, rfl, hperm, hforward⟩
  | succ n ih =>
    have hplaced : ∀ v ∈ rest, (∀ u ∈ rest, ¬ g.Adj u v) → ∀ u, g.Adj u v → u ∈ placed := by
      intro v hv hsource u hadj
      have hu := hperm.mem_iff.mpr (g.closed _ hadj).1
      exact (List.mem_append.mp hu).resolve_right fun hu => hsource u hu hadj
    have hne : rest ≠ [] := by
      rintro rfl
      cases hlen
    obtain ⟨v, hv, hsource⟩ := Kahn.exists_source h hne
    obtain ⟨w, hw⟩ : ∃ w, g.ready placed rest = some w := by
      rw [← Option.isSome_iff_exists, ready, List.find?_isSome]
      refine ⟨v, hv, List.all_eq_true.mpr fun u hu => decide_eq_true ?_⟩
      exact hplaced v hv hsource u (mem_predecessors.mp hu)
    have hwrest : w ∈ rest := List.mem_of_find?_eq_some hw
    have hwplaced : ∀ u, g.Adj u w → u ∈ placed := by
      intro u hadj
      rw [ready] at hw
      have hall := List.find?_some hw
      exact of_decide_eq_true (List.all_eq_true.mp hall u (mem_predecessors.mpr hadj))
    have hlen' : (rest.erase w).length = n := by
      rw [List.length_erase_of_mem hwrest, hlen, Nat.add_sub_cancel]
    have hperm' : (placed ++ [w] ++ rest.erase w).Perm g.nodes.keys := by
      rw [List.append_assoc]
      exact ((List.perm_cons_erase hwrest).symm.append_left placed).trans hperm
    obtain ⟨order, horder, htop⟩ := ih hlen' hperm' (Kahn.Forward.concat hforward hwplaced)
    refine ⟨order, ?_, htop⟩
    rw [sortFrom, hw, Option.bind_some]
    exact horder

/-- The order exists for every graph without cycles, and it is a topological one. -/
theorem topologicalSort_of_acyclic (h : g.Acyclic) :
    ∃ order, g.topologicalSort = some order ∧ g.IsTopologicalOrder order :=
  sortFrom_of_acyclic h rfl (List.Perm.refl _) fun before v after heq => by
    cases before <;> cases heq

/-- One past the highest of the layers so far. -/
def nextLayer (g : DiGraph ν A B) (layers : Dict ν Nat) (v : ν) : Nat :=
  match g.predecessors v with
  | [] => 0
  | ps => (ps.map fun p => (layers.get? p).getD 0).foldr max 0 + 1

def layerMap (g : DiGraph ν A B) (order : List ν) : Dict ν Nat :=
  order.foldl (fun layers v => layers.set v (g.nextLayer layers v)) ∅

/-- The layer of a node in the finished map. -/
def layer (g : DiGraph ν A B) (order : List ν) (v : ν) : Nat := ((g.layerMap order).get? v).getD 0

theorem le_foldr_max {x : Nat} {xs : List Nat} (h : x ∈ xs) : x ≤ xs.foldr max 0 := by
  induction xs with
  | nil => cases h
  | cons y ys ih =>
    rw [List.foldr_cons]
    rcases List.mem_cons.mp h with rfl | h
    · exact le_max_left _ _
    · exact (ih h).trans (le_max_right _ _)

theorem foldr_max_mem {xs : List Nat} (h : xs ≠ []) : xs.foldr max 0 ∈ xs := by
  induction xs with
  | nil => exact absurd rfl h
  | cons y ys ih =>
    rw [List.foldr_cons]
    have hchoice : max y (ys.foldr max 0) = y ∨ max y (ys.foldr max 0) = ys.foldr max 0 := by omega
    rcases hchoice with hmax | hmax
    · rw [hmax]
      exact List.mem_cons_self
    · rw [hmax]
      by_cases hys : ys = []
      · subst hys
        rw [List.foldr_nil] at hmax ⊢
        exact List.mem_singleton.mpr (by omega)
      · exact List.mem_cons_of_mem _ (ih hys)

theorem get?_layers_of_notMem {order : List ν} {layers : Dict ν Nat} {v : ν} (h : v ∉ order) :
    (order.foldl (fun layers v => layers.set v (g.nextLayer layers v)) layers).get? v =
      layers.get? v := by
  induction order generalizing layers with
  | nil => rfl
  | cons u order ih =>
    rw [List.mem_cons, not_or] at h
    rw [List.foldl_cons, ih h.2, Dict.get?_set, if_neg h.1]

theorem mem_layers {order : List ν} {layers : Dict ν Nat} :
    v ∈ (order.foldl (fun layers v => layers.set v (g.nextLayer layers v)) layers).keys ↔
      v ∈ order ∨ v ∈ layers.keys := by
  induction order generalizing layers with
  | nil => simp
  | cons u order ih =>
    rw [List.foldl_cons, ih, mem_keys_set, List.mem_cons]
    tauto

section Order

variable {order : List ν} (horder : g.IsTopologicalOrder order)
include horder

/-- The finished map has the layer of every node once. -/
theorem layerMap_perm :
    (g.layerMap order).entries.Perm (g.nodes.keys.map fun v => (v, g.layer order v)) := by
  have hentries : (g.layerMap order).entries =
      (g.layerMap order).keys.map fun v => (v, g.layer order v) := by
    rw [Dict.keys, List.map_map]
    refine (List.map_id _).symm.trans (List.map_congr_left fun e he => ?_)
    have hget := ((g.layerMap order).get?_eq_some_iff e.1 e.2).mpr he
    rw [Function.comp_apply, layer, hget, Option.getD_some]
    rfl
  have hmem : ∀ v, v ∈ (g.layerMap order).keys ↔ v ∈ g.nodes.keys := by
    intro v
    rw [layerMap, mem_layers, horder.perm.mem_iff]
    exact or_iff_left List.not_mem_nil
  rw [hentries]
  exact ((List.perm_ext_iff_of_nodup (g.layerMap order).nodup g.nodes.nodup).mpr hmem).map _

/-- The layer of a node, from the layers of its predecessors. -/
theorem layer_eq (hv : v ∈ g.nodes.keys) :
    g.layer order v = match g.predecessors v with
      | [] => 0
      | ps => (ps.map (g.layer order)).foldr max 0 + 1 := by
  obtain ⟨before, after, hsplit⟩ := List.append_of_mem (horder.perm.mem_iff.mpr hv)
  have hnodup : order.Nodup := horder.perm.nodup_iff.mpr g.nodes.nodup
  rw [hsplit] at hnodup
  have hpreds : ∀ p ∈ g.predecessors v, ((g.layerMap before).get? p).getD 0 = g.layer order p := by
    intro p hp
    have hbefore := horder.forward before v after hsplit p (mem_predecessors.mp hp)
    have hnot : p ∉ v :: after := fun h => List.disjoint_of_nodup_append hnodup hbefore h
    unfold layer layerMap
    rw [hsplit, List.foldl_append, get?_layers_of_notMem hnot]
  have hnot : v ∉ after := (List.nodup_cons.mp (List.nodup_append.mp hnodup).2.1).1
  have hlayer : g.layer order v = g.nextLayer (g.layerMap before) v := by
    rw [layer, layerMap, hsplit, List.foldl_append, List.foldl_cons,
      get?_layers_of_notMem hnot, Dict.get?_set, if_pos rfl, Option.getD_some]
    rfl
  rw [hlayer, nextLayer]
  split
  next h => rfl
  next h => rw [List.map_congr_left hpreds]

theorem layer_of_root (hv : v ∈ g.nodes.keys) (hroot : g.predecessors v = []) :
    g.layer order v = 0 := by
  rw [layer_eq horder hv, hroot]

theorem layer_of_edge (hadj : g.Adj u v) :
    g.layer order v = ((g.predecessors v).map (g.layer order)).foldr max 0 + 1 := by
  rw [layer_eq horder (g.closed _ hadj).2]
  split
  next h => exact absurd (h ▸ mem_predecessors.mpr hadj) List.not_mem_nil
  next h => rfl

/-- Every edge goes to a higher layer. -/
theorem layer_lt (hadj : g.Adj u v) : g.layer order u < g.layer order v := by
  rw [layer_of_edge horder hadj]
  exact Nat.lt_succ_of_le (le_foldr_max (List.mem_map_of_mem (mem_predecessors.mpr hadj)))

theorem walk_le {n : Nat} (h : g.Walk n u v) : g.layer order u + n ≤ g.layer order v := by
  induction h with
  | nil => exact Nat.le_refl _
  | snoc _ e ih =>
    have := layer_lt horder e
    omega

/-- A walk to the node that passes through every layer. -/
theorem exists_walk {n : Nat} (hv : v ∈ g.nodes.keys) (hn : g.layer order v = n) :
    ∃ r ∈ g.nodes.keys, g.predecessors r = [] ∧ g.Walk n r v := by
  induction n generalizing v with
  | zero =>
    refine ⟨v, hv, ?_, .nil v⟩
    by_contra hne
    obtain ⟨u, hu⟩ := List.exists_mem_of_ne_nil _ hne
    have := layer_lt horder (mem_predecessors.mp hu)
    omega
  | succ n ih =>
    have hne : g.predecessors v ≠ [] := by
      intro hroot
      rw [layer_of_root horder hv hroot] at hn
      cases hn
    obtain ⟨u, hu⟩ := List.exists_mem_of_ne_nil _ hne
    rw [layer_of_edge horder (mem_predecessors.mp hu), Nat.succ_inj] at hn
    have hmax : ((g.predecessors v).map (g.layer order)).foldr max 0 ∈
        (g.predecessors v).map (g.layer order) := foldr_max_mem (by simpa using hne)
    rw [hn] at hmax
    obtain ⟨p, hp, hlayer⟩ := List.mem_map.mp hmax
    have hadj := mem_predecessors.mp hp
    obtain ⟨r, hr, hroot, hwalk⟩ := ih (g.closed _ hadj).1 hlayer
    exact ⟨r, hr, hroot, .snoc hwalk hadj⟩

/-- The layer of a node is the length of the longest path to it from a root. -/
theorem layer_isGreatest (hv : v ∈ g.nodes.keys) :
    IsGreatest {n | ∃ r ∈ g.nodes.keys, g.predecessors r = [] ∧ g.Walk n r v} (g.layer order v) := by
  refine ⟨exists_walk horder hv rfl, ?_⟩
  rintro n ⟨r, -, -, hwalk⟩
  have := walk_le horder hwalk
  omega

end Order

end DiGraph

end PipelineIQ.Lib
