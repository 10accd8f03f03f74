import Mathlib.Logic.Function.Basic
import Mathlib.Data.List.Induction
import Mathlib.Order.Lattice

namespace PipelineIQ.Lib.Lww

/-! Maps that replicas write to on their own and that merge key by key: of two writes to a key the
one with the larger stamp counts. -/

/-- What one transaction writes: for a key nothing, that it is deleted, or its value. -/
structure Update (K V : Type) where
  stamp : Nat
  writes : K → Option (Option V)

section Documents

variable {K V : Type} {us us' : List (Update K V)} {u u' : Update K V} {k : K} {v : Option V}
  {e : Nat × Option V}

def Update.entry (u : Update K V) (k : K) : Option (Nat × Option V) :=
  (u.writes k).map fun v => (u.stamp, v)

def newer : Option (Nat × Option V) → Option (Nat × Option V) → Option (Nat × Option V)
  | none, e => e
  | e, none => e
  | some a, some b => if a.1 < b.1 then some b else some a

/-- The write that counts for a key in a document, which is the list of the updates in it. -/
def top (us : List (Update K V)) (k : K) : Option (Nat × Option V) :=
  us.foldl (fun best u => newer best (u.entry k)) none

def get (us : List (Update K V)) (k : K) : Option V := (top us k).bind Prod.snd

theorem top_concat : top (us ++ [u]) k = newer (top us k) (u.entry k) := by
  rw [top, List.foldl_append]
  rfl

theorem entry_eq_some : u.entry k = some e ↔ u.stamp = e.1 ∧ u.writes k = some e.2 := by
  rw [Update.entry, Option.map_eq_some_iff]
  constructor
  · rintro ⟨v, hv, rfl⟩
    exact ⟨rfl, hv⟩
  · rintro ⟨hstamp, hv⟩
    exact ⟨e.2, hv, Prod.ext hstamp rfl⟩

theorem newer_eq_none {a b : Option (Nat × Option V)} : newer a b = none ↔ a = none ∧ b = none := by
  cases a with
  | none => simp [newer]
  | some a =>
    cases b with
    | none => simp [newer]
    | some b =>
      rw [newer]
      split <;> simp

theorem newer_eq_some {a b : Option (Nat × Option V)} (h : newer a b = some e) :
    (a = some e ∨ b = some e) ∧ (∀ e', a = some e' → e'.1 ≤ e.1) ∧
      ∀ e', b = some e' → e'.1 ≤ e.1 := by
  cases a with
  | none =>
    refine ⟨.inr h, nofun, ?_⟩
    intro e' he
    rw [newer, he] at h
    cases h
    exact le_rfl
  | some a =>
    cases b with
    | none =>
      refine ⟨.inl h, ?_, nofun⟩
      intro e' he
      cases he
      cases h
      exact le_rfl
    | some b =>
      rw [newer] at h
      split at h
      next hlt =>
        cases h
        exact ⟨.inr rfl, fun e' he => Option.some.inj he ▸ hlt.le,
          fun e' he => Option.some.inj he ▸ le_rfl⟩
      next hle =>
        cases h
        exact ⟨.inl rfl, fun e' he => Option.some.inj he ▸ le_rfl,
          fun e' he => Option.some.inj he ▸ Nat.le_of_not_lt hle⟩

theorem top_eq_none_iff : top us k = none ↔ ∀ u ∈ us, u.writes k = none := by
  induction us using List.reverseRecOn with
  | nil => exact iff_of_true rfl nofun
  | append_singleton us u ih =>
    rw [top_concat, newer_eq_none, ih, Update.entry, Option.map_eq_none_iff]
    simp [or_imp, forall_and]

theorem exists_of_top (h : top us k = some e) : ∃ u ∈ us, u.entry k = some e := by
  induction us using List.reverseRecOn with
  | nil => cases h
  | append_singleton us u ih =>
    rw [top_concat] at h
    rcases (newer_eq_some h).1 with h | h
    · obtain ⟨w, hw, he⟩ := ih h
      exact ⟨w, List.mem_append_left _ hw, he⟩
    · exact ⟨u, List.mem_append_right _ (List.mem_singleton_self u), h⟩

theorem stamp_le_top (h : top us k = some e) (hu : u ∈ us) (hw : (u.writes k).isSome) :
    u.stamp ≤ e.1 := by
  induction us using List.reverseRecOn generalizing e with
  | nil => cases hu
  | append_singleton us w ih =>
    rw [top_concat] at h
    obtain ⟨-, hbest, hlast⟩ := newer_eq_some h
    rcases List.mem_append.mp hu with hu | hu
    · cases hbefore : top us k with
      | none => rw [top_eq_none_iff.mp hbefore u hu] at hw; cases hw
      | some e' => exact (ih hbefore hu).trans (hbest e' hbefore)
    · obtain rfl := List.mem_singleton.mp hu
      obtain ⟨v, hv⟩ := Option.isSome_iff_exists.mp hw
      exact hlast (u.stamp, v) (entry_eq_some.mpr ⟨rfl, hv⟩)

/-- Documents of the same updates hold the same, in whatever order they came. -/
theorem top_congr (hunique : ∀ u ∈ us, ∀ u' ∈ us, u.stamp = u'.stamp → u = u')
    (h : ∀ u, u ∈ us ↔ u ∈ us') : top us k = top us' k := by
  cases htop : top us k with
  | none =>
    have hnone := top_eq_none_iff.mp htop
    exact (top_eq_none_iff.mpr fun u hu => hnone u ((h u).mpr hu)).symm
  | some e =>
    obtain ⟨u, hu, he⟩ := exists_of_top htop
    obtain ⟨hstamp, hwrites⟩ := entry_eq_some.mp he
    cases htop' : top us' k with
    | none => exact nomatch (top_eq_none_iff.mp htop' u ((h u).mp hu)).symm.trans hwrites
    | some e' =>
      obtain ⟨u', hu', he'⟩ := exists_of_top htop'
      obtain ⟨hstamp', hwrites'⟩ := entry_eq_some.mp he'
      have hle := stamp_le_top htop' ((h u).mp hu) (hwrites ▸ rfl)
      have hge := stamp_le_top htop ((h u').mpr hu') (hwrites' ▸ rfl)
      have heq : u = u' := hunique u hu u' ((h u').mpr hu') (by omega)
      subst heq
      rw [← he, ← he']

theorem get_concat_of_none (h : u.writes k = none) : get (us ++ [u]) k = get us k := by
  rw [get, top_concat, Update.entry, h, get]
  cases top us k <;> rfl

/-- The last word is with an update that is newer than all others. -/
theorem get_concat_of_newer (hnewer : ∀ w ∈ us, w.stamp < u.stamp) (h : u.writes k = some v) :
    get (us ++ [u]) k = v := by
  rw [get, top_concat, Update.entry, h]
  cases htop : top us k with
  | none => rfl
  | some e =>
    obtain ⟨w, hw, he⟩ := exists_of_top htop
    have hlt : e.1 < u.stamp := (entry_eq_some.mp he).1 ▸ hnewer w hw
    rw [Option.map_some, newer, if_pos hlt]
    rfl

theorem get_concat_cases (us : List (Update K V)) (u : Update K V) (k : K) :
    get (us ++ [u]) k = get us k ∨ u.writes k = some (get (us ++ [u]) k) := by
  cases h : u.writes k with
  | none => exact .inl (get_concat_of_none h)
  | some v =>
    rw [get, top_concat, Update.entry, h, get]
    cases top us k with
    | none => exact .inr rfl
    | some e =>
      rw [Option.map_some, newer]
      split
      · exact .inr rfl
      · exact .inl rfl

/-- Two updates that change nothing each change nothing together. -/
theorem get_concat_concat (h : get (us ++ [u]) k = get us k) (h' : get (us ++ [u']) k = get us k) :
    get (us ++ [u] ++ [u']) k = get us k := by
  rw [get, top_concat, get] at h h'
  rw [get, top_concat, top_concat, get]
  cases ha : top us k with
  | none =>
    rw [ha, newer] at h h'
    rw [newer]
    cases hb : u.entry k with
    | none => exact h'
    | some b =>
      rw [hb] at h
      cases hc : u'.entry k with
      | none => exact h
      | some c =>
        rw [hc] at h'
        rw [newer]
        split
        · exact h'
        · exact h
  | some a =>
    rw [ha] at h h'
    cases hb : u.entry k with
    | none => exact h'
    | some b =>
      rw [hb, newer] at h
      rw [newer]
      by_cases hab : a.1 < b.1
      · rw [if_pos hab] at h ⊢
        cases hc : u'.entry k with
        | none => exact h
        | some c =>
          rw [hc, newer] at h'
          rw [newer]
          by_cases hbc : b.1 < c.1
          · rw [if_pos (hab.trans hbc)] at h'
            rw [if_pos hbc]
            exact h'
          · rw [if_neg hbc]
            exact h
      · rw [if_neg hab]
        exact h'

/-- An older write for a key comes too late. -/
theorem get_concat_of_older (hu : u ∈ us) (hw : (u.writes k).isSome) (hlt : u'.stamp < u.stamp) :
    get (us ++ [u']) k = get us k := by
  cases h' : u'.writes k with
  | none => exact get_concat_of_none h'
  | some v =>
    rw [get, top_concat, Update.entry, h', get]
    cases htop : top us k with
    | none =>
      rw [top_eq_none_iff.mp htop u hu] at hw
      cases hw
    | some e =>
      have hle := stamp_le_top htop hu hw
      rw [Option.map_some, newer, if_neg (by omega)]

/-- What clearing a map and then setting an item writes for its key. -/
def rewritten : Option V → Option V → Option (Option V)
  | some v, _ => some (some v)
  | none, some _ => some none
  | none, none => none

/-- The transaction that clears a map and then sets these items. -/
def rewrite (stamp : Nat) (items : K → Option V) (us : List (Update K V)) : Update K V where
  stamp
  writes k := rewritten (items k) (get us k)

variable {stamp : Nat} {items : K → Option V}

theorem rewritten_eq_some {item held : Option V} (h : rewritten item held = some v) : v = item := by
  cases item <;> cases held <;> cases h <;> rfl

theorem rewritten_eq_none {item held : Option V} (h : rewritten item held = none) : held = item := by
  cases item <;> cases held <;> first | rfl | cases h

theorem get_rewrite (hnewer : ∀ w ∈ us, w.stamp < stamp) :
    get (us ++ [rewrite stamp items us]) k = items k := by
  cases h : (rewrite stamp items us).writes k with
  | some v =>
    rw [get_concat_of_newer hnewer h]
    exact rewritten_eq_some h
  | none =>
    rw [get_concat_of_none h]
    exact rewritten_eq_none h

end Documents

inductive Side where
  | left | right
  deriving DecidableEq, Repr

def Side.other : Side → Side
  | .left => .right
  | .right => .left

theorem Side.other_ne (c : Side) : c.other ≠ c := by cases c <;> decide

theorem Side.eq_or_eq_other (c d : Side) : d = c ∨ d = c.other := by
  cases c <;> cases d <;> decide

/-- Two replicas of one map, and what is on its way to each, oldest first. -/
structure Net (K V : Type) where
  doc : Side → List (Update K V)
  inbox : Side → List (Update K V)

section Nets

variable {K V : Type} {net : Net K V} {c d : Side} {u w : Update K V} {k : K}
  {rest : List (Update K V)}

/-- What one replica has or will have. -/
def Net.sent (net : Net K V) (c : Side) : List (Update K V) := net.doc c ++ net.inbox c

/-- A replica takes a larger stamp than it has seen, and no one else's. -/
def Net.Fresh (net : Net K V) (c : Side) (stamp : Nat) : Prop :=
  (∀ w ∈ net.doc c, w.stamp < stamp) ∧ ∀ w ∈ net.inbox c, w.stamp ≠ stamp

instance (net : Net K V) (c : Side) (stamp : Nat) : Decidable (net.Fresh c stamp) :=
  inferInstanceAs (Decidable (_ ∧ _))

def Net.publish (net : Net K V) (c : Side) (u : Update K V) : Net K V where
  doc := Function.update net.doc c (net.doc c ++ [u])
  inbox := Function.update net.inbox c.other (net.inbox c.other ++ [u])

def Net.receive (net : Net K V) (c : Side) (u : Update K V) (rest : List (Update K V)) :
    Net K V where
  doc := Function.update net.doc c (net.doc c ++ [u])
  inbox := Function.update net.inbox c rest

/-- Both replicas have or will have the same updates, no two of one stamp. -/
structure Net.Wf (net : Net K V) : Prop where
  same : ∀ u, u ∈ net.sent .left ↔ u ∈ net.sent .right
  unique : ∀ u ∈ net.sent .left, ∀ w ∈ net.sent .left, u.stamp = w.stamp → u = w

/-- Nothing on its way to a replica changes what it has for a key. -/
def Net.Steady (net : Net K V) (c : Side) (k : K) : Prop :=
  ∀ u ∈ net.inbox c, get (net.doc c ++ [u]) k = get (net.doc c) k

/-- What is on its way to a replica for a key is older than a write or the same. -/
def Net.Prevails (net : Net K V) (c : Side) (stamp : Nat) (k : K) (v : Option V) : Prop :=
  ∀ w ∈ net.inbox c, ∀ x, w.writes k = some x → x = v ∨ w.stamp < stamp

@[simp] theorem Net.publish_doc_self : (net.publish c u).doc c = net.doc c ++ [u] :=
  Function.update_self ..

@[simp] theorem Net.publish_doc_other : (net.publish c u).doc c.other = net.doc c.other :=
  Function.update_of_ne c.other_ne ..

@[simp] theorem Net.publish_inbox_self : (net.publish c u).inbox c = net.inbox c :=
  Function.update_of_ne c.other_ne.symm ..

@[simp] theorem Net.publish_inbox_other :
    (net.publish c u).inbox c.other = net.inbox c.other ++ [u] :=
  Function.update_self ..

theorem Net.mem_sent_publish : w ∈ (net.publish c u).sent d ↔ w ∈ net.sent d ∨ w = u := by
  rcases c.eq_or_eq_other d with rfl | rfl
  · rw [sent, publish_doc_self, publish_inbox_self, sent]
    simp only [List.mem_append, List.mem_singleton]
    tauto
  · rw [sent, publish_doc_other, publish_inbox_other, sent]
    simp only [List.mem_append, List.mem_singleton]
    tauto

@[simp] theorem Net.receive_doc_self : (net.receive c u rest).doc c = net.doc c ++ [u] :=
  Function.update_self ..

@[simp] theorem Net.receive_inbox_self : (net.receive c u rest).inbox c = rest :=
  Function.update_self ..

@[simp] theorem Net.receive_doc_other : (net.receive c u rest).doc c.other = net.doc c.other :=
  Function.update_of_ne c.other_ne ..

@[simp] theorem Net.receive_inbox_other :
    (net.receive c u rest).inbox c.other = net.inbox c.other :=
  Function.update_of_ne c.other_ne ..

theorem Net.sent_receive (h : net.inbox c = u :: rest) (d : Side) :
    (net.receive c u rest).sent d = net.sent d := by
  rcases c.eq_or_eq_other d with rfl | rfl
  · rw [sent, receive_doc_self, receive_inbox_self, sent, h, List.append_assoc,
      List.singleton_append]
  · rw [sent, receive_doc_other, receive_inbox_other, sent]

theorem Net.Wf.mem_iff (hwf : net.Wf) (c d : Side) : u ∈ net.sent c ↔ u ∈ net.sent d := by
  cases c <;> cases d
  · exact Iff.rfl
  · exact hwf.same u
  · exact (hwf.same u).symm
  · exact Iff.rfl

theorem Net.Wf.publish (hwf : net.Wf) (hfresh : net.Fresh c u.stamp) : (net.publish c u).Wf := by
  have hne : ∀ w ∈ net.sent .left, w.stamp ≠ u.stamp := by
    intro w hw
    rcases List.mem_append.mp ((hwf.mem_iff .left c).mp hw) with hw | hw
    · exact (hfresh.1 w hw).ne
    · exact hfresh.2 w hw
  constructor
  · intro w
    rw [mem_sent_publish, mem_sent_publish, hwf.same]
  · intro w hw w' hw' hstamp
    rcases mem_sent_publish.mp hw with hw | hw <;> rcases mem_sent_publish.mp hw' with hw' | hw'
    · exact hwf.unique w hw w' hw' hstamp
    · exact absurd (hw' ▸ hstamp) (hne w hw)
    · exact absurd (hw ▸ hstamp.symm) (hne w' hw')
    · exact hw.trans hw'.symm

theorem Net.Wf.receive (hwf : net.Wf) (h : net.inbox c = u :: rest) :
    (net.receive c u rest).Wf := by
  constructor
  · intro w
    rw [sent_receive h, sent_receive h]
    exact hwf.same w
  · rw [sent_receive h]
    exact hwf.unique

/-- With nothing on its way, both replicas hold the same. -/
theorem Net.Wf.converged (hwf : net.Wf) (h : ∀ c, net.inbox c = []) (k : K) :
    get (net.doc .left) k = get (net.doc .right) k := by
  have hsent : ∀ c, net.sent c = net.doc c := by
    intro c
    rw [sent, h, List.append_nil]
  have hsame := hwf.same
  have hunique := hwf.unique
  rw [hsent] at hunique
  simp only [hsent] at hsame
  rw [get, get, top_congr hunique hsame]

theorem Net.Steady.publish_other (hsteady : net.Steady c.other k)
    (h : ∀ v, u.writes k = some v → v = get (net.doc c.other) k) :
    (net.publish c u).Steady c.other k := by
  intro w hw
  rw [publish_inbox_other] at hw
  rw [publish_doc_other]
  rcases List.mem_append.mp hw with hw | hw
  · exact hsteady w hw
  · obtain rfl := List.mem_singleton.mp hw
    rcases get_concat_cases (net.doc c.other) w k with hget | hget
    · exact hget
    · exact h _ hget

theorem Net.steady_publish_self {v : Option V} (h : u.writes k = some v)
    (hnewer : ∀ w ∈ net.doc c, w.stamp < u.stamp) (hprevails : net.Prevails c u.stamp k v) :
    (net.publish c u).Steady c k := by
  intro w hw
  rw [publish_inbox_self] at hw
  rw [publish_doc_self]
  rcases get_concat_cases (net.doc c ++ [u]) w k with hget | hget
  · exact hget
  · rcases hprevails w hw _ hget with heq | hlt
    · rw [heq, get_concat_of_newer hnewer h]
    · have hlast : u ∈ net.doc c ++ [u] := List.mem_append_right _ (List.mem_singleton_self u)
      exact get_concat_of_older hlast (h ▸ rfl) hlt

theorem Net.Steady.publish_of_none (hsteady : net.Steady d k) (h : u.writes k = none) :
    (net.publish c u).Steady d k := by
  rcases c.eq_or_eq_other d with rfl | rfl
  · intro w hw
    rw [publish_inbox_self] at hw
    rw [publish_doc_self]
    have hget : get (net.doc d ++ [u]) k = get (net.doc d) k := get_concat_of_none h
    exact (get_concat_concat hget (hsteady w hw)).trans hget.symm
  · apply hsteady.publish_other
    intro v hv
    rw [h] at hv
    cases hv

theorem Net.Steady.get_receive (hsteady : net.Steady c k) (h : net.inbox c = u :: rest) :
    get ((net.receive c u rest).doc c) k = get (net.doc c) k := by
  rw [receive_doc_self]
  exact hsteady u (h ▸ List.mem_cons_self ..)

theorem Net.Steady.receive (hsteady : net.Steady d k) (h : net.inbox c = u :: rest) :
    (net.receive c u rest).Steady d k := by
  intro w hw
  rcases c.eq_or_eq_other d with rfl | rfl
  · rw [receive_inbox_self] at hw
    rw [receive_doc_self]
    have hu := hsteady u (h ▸ List.mem_cons_self ..)
    have hw := hsteady w (h ▸ List.mem_cons_of_mem u hw)
    exact (get_concat_concat hu hw).trans hu.symm
  · rw [receive_inbox_other] at hw
    rw [receive_doc_other]
    exact hsteady w hw

end Nets

end PipelineIQ.Lib.Lww
