import Mathlib.Data.List.Lex
import PipelineIQ.Lib.Kahn

namespace PipelineIQ.Lib.Kahn

variable {α : Type}

/-! ### Orders and cycles -/

theorem Forward.transGen {r : α → α → Prop} {order : List α} (h : Forward r order) :
    Forward (Relation.TransGen r) order := by
  intro before v after heq u hpath
  induction hpath generalizing before after with
  | single hlast => exact h before _ after heq u hlast
  | tail _ hlast ih =>
    obtain ⟨front, back, rfl⟩ := List.append_of_mem (h before _ after heq _ hlast)
    rw [List.append_assoc, List.cons_append] at heq
    exact List.mem_append_left _ (ih front _ heq)

theorem Forward.acyclic {r : α → α → Prop} {order : List α} (h : Forward r order)
    (hnodup : order.Nodup) {v : α} (hv : v ∈ order) : ¬ Relation.TransGen r v v := by
  intro hcycle
  obtain ⟨before, after, rfl⟩ := List.append_of_mem hv
  exact List.disjoint_of_nodup_append hnodup (h.transGen before v after rfl v hcycle)
    List.mem_cons_self

/-- Along an order nothing leads back. -/
theorem forward_iff_pairwise {r : α → α → Prop} {order : List α} (hnodup : order.Nodup)
    (hclosed : ∀ u v, r u v → u ∈ order) :
    Forward r order ↔ order.Pairwise (fun v w => ¬ r w v) ∧ ∀ v, ¬ r v v := by
  constructor
  · intro h
    constructor
    · have hrest : ∀ rest before, order = before ++ rest → rest.Pairwise fun v w => ¬ r w v := by
        intro rest
        induction rest with
        | nil => exact fun _ _ => List.Pairwise.nil
        | cons v rest ih =>
          intro before heq
          rw [List.pairwise_cons]
          constructor
          · intro w hw hback
            rw [heq] at hnodup
            exact List.disjoint_of_nodup_append hnodup (h before v rest heq w hback)
              (List.mem_cons_of_mem v hw)
          · exact ih (before ++ [v]) (by rw [heq, List.append_assoc, List.singleton_append])
      exact hrest order [] rfl
    · intro v hloop
      exact h.acyclic hnodup (hclosed v v hloop) (.single hloop)
  · rintro ⟨hpairwise, hirrefl⟩ before v after rfl u hu
    obtain ⟨-, htail, -⟩ := List.pairwise_append.mp hpairwise
    cases List.mem_append.mp (hclosed u v hu) with
    | inl hbefore => exact hbefore
    | inr hmem =>
      cases List.mem_cons.mp hmem with
      | inl heq => exact absurd (heq ▸ hu) (hirrefl v)
      | inr hafter => exact absurd hu ((List.pairwise_cons.mp htail).1 u hafter)

/-- What has all its predecessors before a place may be moved up to it. -/
theorem Forward.moveUp {r : α → α → Prop} {before middle after : List α} {v w : α}
    (hnodup : (before ++ v :: (middle ++ w :: after)).Nodup)
    (hclosed : ∀ u x, r u x → u ∈ before ++ v :: (middle ++ w :: after))
    (h : Forward r (before ++ v :: (middle ++ w :: after))) (hready : ∀ u, r u w → u ∈ before) :
    Forward r (before ++ w :: v :: (middle ++ after)) := by
  have hperm : (before ++ w :: v :: (middle ++ after)).Perm
      (before ++ v :: (middle ++ w :: after)) :=
    (@List.perm_middle _ w (v :: middle) after).symm.append_left before
  have hnodup' := hperm.nodup_iff.mpr hnodup
  rw [forward_iff_pairwise hnodup hclosed] at h
  rw [forward_iff_pairwise hnodup' fun u x hu => hperm.mem_iff.mpr (hclosed u x hu)]
  refine ⟨?_, h.2⟩
  have hlater : ∀ x ∈ v :: (middle ++ after), ¬ r x w := by
    intro x hx hback
    exact List.disjoint_of_nodup_append hnodup' (hready x hback) (List.mem_cons_of_mem w hx)
  obtain ⟨hbefore, hrest, hacross⟩ := List.pairwise_append.mp h.1
  rw [List.pairwise_append, List.pairwise_cons]
  refine ⟨hbefore, ⟨hlater, ?_⟩, ?_⟩
  · apply List.Pairwise.sublist _ hrest
    exact ((List.sublist_cons_self w after).append_left middle).cons_cons v
  · intro x hx y hy
    apply hacross x hx y
    exact (@List.perm_middle _ w (v :: middle) after).mem_iff.mpr hy

section Insert

variable {r r' : α → α → Prop} {source target u v : α}

/-- A path along one edge more either does without it, or goes to its source and on from its
target. -/
theorem transGen_insert (hr : ∀ a b, r' a b → r a b ∨ a = source ∧ b = target)
    (h : Relation.TransGen r' u v) :
    Relation.TransGen r u v ∨
      Relation.ReflTransGen r u source ∧ Relation.ReflTransGen r target v := by
  induction h with
  | single hlast =>
    rcases hr _ _ hlast with hlast | ⟨rfl, rfl⟩
    · exact .inl (.single hlast)
    · exact .inr ⟨.refl, .refl⟩
  | tail _ hlast ih =>
    rcases hr _ _ hlast with hlast | ⟨rfl, rfl⟩
    · cases ih with
      | inl hpath => exact .inl (hpath.tail hlast)
      | inr hpaths => exact .inr ⟨hpaths.1, hpaths.2.tail hlast⟩
    · cases ih with
      | inl hpath => exact .inr ⟨hpath.to_reflTransGen, .refl⟩
      | inr hpaths => exact .inr ⟨hpaths.1, .refl⟩

/-- One edge more makes a cycle exactly where its target leads to its source. -/
theorem exists_cycle_insert_iff (hacyclic : ∀ u, ¬ Relation.TransGen r u u)
    (hr : ∀ a b, r' a b ↔ r a b ∨ a = source ∧ b = target) :
    (∃ u, Relation.TransGen r' u u) ↔ Relation.ReflTransGen r target source := by
  constructor
  · rintro ⟨u, hcycle⟩
    cases transGen_insert (fun a b => (hr a b).mp) hcycle with
    | inl hpath => exact absurd hpath (hacyclic u)
    | inr hpaths => exact hpaths.2.trans hpaths.1
  · intro hpath
    refine ⟨source, Relation.TransGen.head' ((hr _ _).mpr (.inr ⟨rfl, rfl⟩)) ?_⟩
    exact hpath.lift id fun a b hab => (hr a b).mpr (.inl hab)

end Insert

variable [DecidableEq α] {ids order queue : List α} {edges : List (α × α)}
  {adjacency : α → List α} {inDegree : α → Int} {le : α → α → Bool} {halts : α → Bool}

theorem kahn_eq_none_iff (hids : ids.Nodup) (hhalts : ∀ id ∈ ids, halts id = false) :
    kahn le halts ids edges = none ↔ ∃ u, Relation.TransGen (Edge ids edges) u u := by
  constructor
  · intro h
    by_contra hacyclic
    obtain ⟨order, horder, -⟩ := kahn_of_acyclic le hids hhalts (not_exists.mp hacyclic)
    cases h.symm.trans horder
  · rintro ⟨u, hcycle⟩
    rw [Option.eq_none_iff_forall_ne_some]
    intro order horder
    obtain ⟨hperm, hforward⟩ := kahn_eq_some le hids hhalts horder
    obtain ⟨w, hfirst, -⟩ := Relation.TransGen.head'_iff.mp hcycle
    exact hforward.acyclic (hperm.nodup_iff.mpr hids) (hperm.mem_iff.mpr hfirst.1) hcycle

/-! ### The least order -/

/-- A total order that is decided. -/
structure Total (le : α → α → Bool) : Prop where
  trans : ∀ a b c, le a b = true → le b c = true → le a c = true
  total : ∀ a b, (le a b || le b a) = true
  antisymm : ∀ a b, le a b = true → le b a = true → a = b

def Before (le : α → α → Bool) (a b : α) : Prop := le a b = true ∧ a ≠ b

omit [DecidableEq α] in
theorem Total.asymm (hle : Total le) {a b : α} (h : Before le a b) : ¬ Before le b a :=
  fun h' => h.2 (hle.antisymm a b h.1 h'.1)

omit [DecidableEq α] in
theorem Total.sorted (hle : Total le) (xs : List α) :
    (xs.mergeSort le).Pairwise fun a b => le a b = true :=
  List.pairwise_mergeSort hle.trans hle.total xs

theorem foldl_release_sorted (hle : Total le) {ns : List α} {s : (α → Int) × List α}
    (h : s.2.Pairwise fun a b => le a b = true) :
    (ns.foldl (release le) s).2.Pairwise fun a b => le a b = true := by
  induction ns generalizing s with
  | nil => exact h
  | cons n ns ih =>
    apply ih
    rw [release]
    dsimp only
    split
    · exact hle.sorted _
    · exact h

theorem prefix_run {fuel : Nat} : order <+: run le halts adjacency fuel inDegree queue order := by
  induction fuel generalizing inDegree queue order with
  | zero => exact List.prefix_rfl
  | succ fuel ih =>
    cases queue with
    | nil => exact List.prefix_rfl
    | cons id queue =>
      rw [run]
      split
      · exact List.prefix_rfl
      · exact (List.prefix_append order [id]).trans ih

/-- What comes next in any order waits in the queue. -/
theorem Sorting.mem_queue (h : Sorting adjacency ids inDegree queue order) (hids : ids.Nodup)
    {x : α} {rest : List α} (hperm : (order ++ x :: rest).Perm ids)
    (hforward : Forward (fun u v => u ∈ ids ∧ v ∈ adjacency u) (order ++ x :: rest)) :
    x ∈ queue := by
  have hx : x ∉ order := fun hmem =>
    List.disjoint_of_nodup_append (hperm.nodup_iff.mpr hids) hmem List.mem_cons_self
  have hready : x ∈ ids ∧ pending adjacency ids order x = 0 := by
    refine ⟨hperm.mem_iff.mp (List.mem_append_right _ List.mem_cons_self), ?_⟩
    rw [pending_eq_zero_iff]
    exact fun u hu hadj => hforward order x rest rfl u ⟨hu, hadj⟩
  exact (List.mem_append.mp ((h.ready x).mpr hready)).resolve_left hx

/-- The loop takes the least of the nodes that may come next, so no other order is less. -/
theorem Sorting.least (hle : Total le) (hids : ids.Nodup)
    (hadjacency : ∀ u v, v ∈ adjacency u → v ∈ ids) (hdistinct : ∀ u, (adjacency u).Nodup)
    (hhalts : ∀ id ∈ ids, halts id = false) {fuel : Nat}
    (h : Sorting adjacency ids inDegree queue order)
    (hsorted : queue.Pairwise fun a b => le a b = true) (hfuel : order.length + fuel = ids.length)
    {other : List α} (hperm : other.Perm ids)
    (hforward : Forward (fun u v => u ∈ ids ∧ v ∈ adjacency u) other) (hbegins : order <+: other) :
    Kahn.run le halts adjacency fuel inDegree queue order = other ∨
      List.Lex (Before le) (Kahn.run le halts adjacency fuel inDegree queue order) other := by
  induction fuel generalizing inDegree queue order with
  | zero =>
    left
    exact hbegins.eq_of_length (by rw [hperm.length_eq, ← hfuel, Nat.add_zero])
  | succ fuel ih =>
    obtain ⟨rest, rfl⟩ := hbegins
    have hlength := hperm.length_eq
    rw [List.length_append] at hlength
    cases rest with
    | nil =>
      rw [List.length_nil] at hlength
      omega
    | cons x rest =>
      have hx := h.mem_queue hids hperm hforward
      cases queue with
      | nil => cases hx
      | cons id queue =>
        have hid := ((h.ready id).mp (List.mem_append_right _ List.mem_cons_self)).1
        rw [Kahn.run, if_neg (by rw [hhalts id hid]; exact Bool.false_ne_true)]
        dsimp only
        by_cases heq : x = id
        · subst heq
          apply ih (h.next le hids hadjacency hdistinct)
          · exact foldl_release_sorted hle (List.pairwise_cons.mp hsorted).2
          · rw [List.length_append, List.length_singleton]
            omega
          · exact ⟨rest, by rw [List.append_assoc, List.singleton_append]⟩
        · right
          obtain ⟨more, hmore⟩ := @prefix_run _ _ (order ++ [id])
            ((adjacency id).foldl (release le) (inDegree, queue)).2 adjacency
            ((adjacency id).foldl (release le) (inDegree, queue)).1 le halts fuel
          rw [← hmore, List.append_assoc, List.singleton_append]
          apply List.Lex.append_left
          apply List.Lex.rel
          refine ⟨(List.pairwise_cons.mp hsorted).1 x ?_, fun h => heq h.symm⟩
          exact (List.mem_cons.mp hx).resolve_left heq

/-- The order that the algorithm finds is the least one. -/
theorem kahn_least (hle : Total le) (hids : ids.Nodup) (hhalts : ∀ id ∈ ids, halts id = false)
    (h : kahn le halts ids edges = some order) {other : List α} (hperm : other.Perm ids)
    (hforward : Forward (Edge ids edges) other) :
    order = other ∨ List.Lex (Before le) order other := by
  have hplaced : placedOrder le halts ids edges = order := by
    rw [kahn_eq] at h
    split at h
    · exact Option.some.inj h
    · cases h
  rw [← hplaced]
  apply (sorting_start le hids edges).least hle hids
    (fun u v hv => (((links_linked hids edges).mem u v).mp hv).2.1) (links_linked hids edges).nodup
    hhalts (hle.sorted _) (Nat.zero_add _) hperm
  · intro before v after heq u hu
    exact hforward before v after heq u ((adjacency_iff hids).mp hu)
  · exact List.nil_prefix

omit [DecidableEq α] in
theorem before_of_lex {before rest rest' : List α} {v w : α} (hne : v ≠ w)
    (h : List.Lex (Before le) (before ++ v :: rest) (before ++ w :: rest')) : Before le v w := by
  induction before with
  | nil =>
    cases h with
    | rel h => exact h
    | cons h => exact absurd rfl hne
  | cons a before ih =>
    cases h with
    | rel h => exact absurd rfl h.2
    | cons h => exact ih h

omit [DecidableEq α] in
theorem exists_first_difference {r : α → α → Prop} {xs ys : List α} (h : List.Lex r xs ys)
    (hlength : xs.length = ys.length) :
    ∃ before v rest w rest', xs = before ++ v :: rest ∧ ys = before ++ w :: rest' ∧ r v w := by
  induction h with
  | nil => cases hlength
  | rel h => exact ⟨[], _, _, _, _, rfl, rfl, h⟩
  | @cons a xs ys _ ih =>
    obtain ⟨before, v, rest, w, rest', rfl, rfl, h⟩ := ih (Nat.succ.inj hlength)
    exact ⟨a :: before, v, rest, w, rest', rfl, rfl, h⟩

/-- The nodes come out in the order they are given in exactly where none of them could be taken
before one that is less. -/
theorem kahn_eq_self_iff (hle : Total le) (hids : ids.Nodup) (hhalts : ∀ id ∈ ids, halts id = false)
    (hforward : Forward (Edge ids edges) ids) :
    kahn le halts ids edges = some ids ↔ ∀ before v middle w after,
      ids = before ++ v :: (middle ++ w :: after) → (∀ u, Edge ids edges u w → u ∈ before) →
        le v w = true := by
  constructor
  · intro h before v middle w after heq hready
    have hperm : (before ++ w :: v :: (middle ++ after)).Perm ids := by
      rw [heq]
      apply List.Perm.append_left
      exact (@List.perm_middle _ w (v :: middle) after).symm
    have hne : v ≠ w := by
      rintro rfl
      rw [heq] at hids
      have hnodup := (List.nodup_append.mp hids).2.1
      exact (List.nodup_cons.mp hnodup).1 (List.mem_append_right _ List.mem_cons_self)
    have hmoved : Forward (Edge ids edges) (before ++ w :: v :: (middle ++ after)) := by
      apply Forward.moveUp (heq ▸ hids) _ (heq ▸ hforward) hready
      exact fun u x hu => heq ▸ hu.1
    have hlex := (kahn_least hle hids hhalts h hperm hmoved).resolve_left ?_
    · rw [heq] at hlex
      exact (before_of_lex hne hlex).1
    · intro hsame
      rw [heq] at hsame
      exact hne (List.cons.inj (List.append_cancel_left hsame)).1
  · intro h
    obtain ⟨order, horder, hperm, hafter⟩ := kahn_of_acyclic le hids hhalts
      fun u hcycle => by
        obtain ⟨w, hfirst, -⟩ := Relation.TransGen.head'_iff.mp hcycle
        exact hforward.acyclic hids hfirst.1 hcycle
    cases kahn_least hle hids hhalts horder (List.Perm.refl ids) hforward with
    | inl heq => rw [horder, heq]
    | inr hlex =>
      obtain ⟨before, w, rest, v, rest', rfl, heq, hless⟩ :=
        exists_first_difference hlex hperm.length_eq
      have hw : w ∉ before := fun hmem =>
        List.disjoint_of_nodup_append (hperm.nodup_iff.mpr hids) hmem List.mem_cons_self
      have hmem : w ∈ ids := hperm.mem_iff.mp (List.mem_append_right _ List.mem_cons_self)
      rw [heq, List.mem_append, List.mem_cons] at hmem
      obtain ⟨middle, after, rfl⟩ := List.append_of_mem ((hmem.resolve_left hw).resolve_left hless.2)
      have hle' := h before v middle w after heq fun u hu => hafter before w rest rfl u hu
      exact absurd (hle.antisymm w v hless.1 hle') hless.2

/-- The order depends on the nodes and the edges between them alone. -/
theorem kahn_congr (hle : Total le) (hids : ids.Nodup) (hhalts : ∀ id ∈ ids, halts id = false)
    {ids' : List α} {edges' : List (α × α)} (hperm : ids'.Perm ids)
    (hedges : ∀ u v, Edge ids' edges' u v ↔ Edge ids edges u v) :
    kahn le halts ids' edges' = kahn le halts ids edges := by
  have hids' := hperm.nodup_iff.mpr hids
  have hhalts' : ∀ id ∈ ids', halts id = false := fun id hid => hhalts id (hperm.mem_iff.mp hid)
  have hrel : Edge ids' edges' = Edge ids edges := by
    ext u v
    exact hedges u v
  cases h : kahn le halts ids edges with
  | none =>
    rw [kahn_eq_none_iff hids' hhalts', hrel, ← kahn_eq_none_iff hids hhalts]
    exact h
  | some order =>
    cases h' : kahn le halts ids' edges' with
    | none =>
      rw [kahn_eq_none_iff hids' hhalts', hrel, ← @kahn_eq_none_iff _ _ ids edges le halts hids hhalts] at h'
      cases h.symm.trans h'
    | some order' =>
      obtain ⟨horder, hforward⟩ := kahn_eq_some le hids hhalts h
      obtain ⟨horder', hforward'⟩ := kahn_eq_some le hids' hhalts' h'
      rw [hrel] at hforward'
      congr 1
      cases kahn_least hle hids hhalts h (horder'.trans hperm) hforward' with
      | inl heq => exact heq.symm
      | inr hlex =>
        cases kahn_least hle hids' hhalts' h' (horder.trans hperm.symm) (hrel ▸ hforward) with
        | inl heq => exact heq
        | inr hlex' => exact absurd hlex' (List.lex_asymm (fun h => hle.asymm h) hlex)

end PipelineIQ.Lib.Kahn
