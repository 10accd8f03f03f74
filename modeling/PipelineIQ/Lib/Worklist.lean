import Mathlib.Data.List.Nodup
import Mathlib.Data.List.Perm.Subperm
import Mathlib.Logic.Relation

namespace PipelineIQ.Lib.Worklist

variable {α σ : Type} [DecidableEq α]

/-- What was met, and what of it is still waiting. -/
structure Search (α : Type) where
  met : List α
  queue : List α

def meet (s : Search α) (a : α) : Search α :=
  if a ∈ s.met then s else ⟨s.met ++ [a], s.queue ++ [a]⟩

/-- A search that visits what waits, in the order in which it was met, and meets the next ones of
each. -/
def loop (next : α → List α) (visit : σ → α → σ) : Nat → σ → Search α → σ
  | 0, acc, _ => acc
  | n + 1, acc, s =>
    match s.queue with
    | [] => acc
    | a :: queue => loop next visit n (visit acc a) ((next a).foldl meet ⟨s.met, queue⟩)

/-- What was met are the visited ones and then the waiting ones, all to be reached from the start. -/
structure Searching (next : α → List α) (start : α) (visited : List α) (s : Search α) : Prop where
  met_eq : s.met = visited ++ s.queue
  nodup : s.met.Nodup
  start_mem : start ∈ s.met
  reached : ∀ a ∈ s.met, Relation.ReflTransGen (fun a b => b ∈ next a) start a

variable {next : α → List α} {visit : σ → α → σ} {start : α} {visited : List α} {s : Search α}

omit [DecidableEq α] in
theorem searching_start : Searching next start [] ⟨[start], [start]⟩ where
  met_eq := rfl
  nodup := List.nodup_singleton start
  start_mem := List.mem_singleton_self start
  reached _ ha := List.mem_singleton.mp ha ▸ .refl

/-- The next ones of a visited one are met, one after the other. -/
theorem Searching.meet_all {a : α} {bs : List α} (h : Searching next start visited s)
    (ha : a ∈ s.met) (hbs : ∀ b ∈ bs, b ∈ next a) :
    Searching next start visited (bs.foldl meet s) ∧ (∀ b ∈ bs, b ∈ (bs.foldl meet s).met) ∧
      ∀ b ∈ s.met, b ∈ (bs.foldl meet s).met := by
  induction bs generalizing s with
  | nil => exact ⟨h, nofun, fun _ hb => hb⟩
  | cons b bs ih =>
    have hmeet : Searching next start visited (meet s b) ∧ b ∈ (meet s b).met ∧
        ∀ c ∈ s.met, c ∈ (meet s b).met := by
      rw [meet]
      split
      · next hb => exact ⟨h, hb, fun _ hc => hc⟩
      · next hb =>
        refine ⟨⟨?_, ?_, ?_, ?_⟩, List.mem_append_right _ List.mem_cons_self,
          fun _ hc => List.mem_append_left _ hc⟩
        · rw [h.met_eq, List.append_assoc]
        · rw [List.nodup_append]
          refine ⟨h.nodup, List.nodup_singleton b, fun c hc d hd => ?_⟩
          rintro rfl
          exact hb (List.mem_singleton.mp hd ▸ hc)
        · exact List.mem_append_left _ h.start_mem
        · intro c hc
          cases List.mem_append.mp hc with
          | inl hc => exact h.reached c hc
          | inr hc =>
            rw [List.mem_singleton.mp hc]
            exact (h.reached a ha).tail (hbs b List.mem_cons_self)
    obtain ⟨hsearching, hmet, hkept⟩ := hmeet
    obtain ⟨hrest, hall, hkept'⟩ :=
      ih hsearching (hkept a ha) fun c hc => hbs c (List.mem_cons_of_mem b hc)
    refine ⟨hrest, fun c hc => ?_, fun c hc => hkept' c (hkept c hc)⟩
    cases List.mem_cons.mp hc with
    | inl heq =>
      rw [heq]
      exact hkept' b hmet
    | inr hc => exact hall c hc

omit [DecidableEq α] in
theorem Searching.advance {a : α} {queue : List α} (h : Searching next start visited s)
    (hqueue : s.queue = a :: queue) : Searching next start (visited ++ [a]) ⟨s.met, queue⟩ := by
  refine ⟨?_, h.nodup, h.start_mem, h.reached⟩
  rw [h.met_eq, hqueue, List.append_assoc]
  rfl

omit [DecidableEq α] in
/-- Where nothing waits, what was visited is what can be reached. -/
theorem Searching.finish (h : Searching next start visited s)
    (hclosed : ∀ a ∈ visited, ∀ b ∈ next a, b ∈ s.met) (hqueue : s.queue = []) :
    visited.Nodup ∧ ∀ a, a ∈ visited ↔ Relation.ReflTransGen (fun a b => b ∈ next a) start a := by
  have hmet : s.met = visited := by
    rw [h.met_eq, hqueue, List.append_nil]
  rw [← hmet]
  refine ⟨h.nodup, fun a => ⟨h.reached a, fun hpath => ?_⟩⟩
  induction hpath with
  | refl => exact h.start_mem
  | tail _ hnext ih =>
    rw [hmet] at ih
    exact hclosed _ ih _ hnext

/-- The visits that are still to come, and what is visited in the end. -/
theorem Searching.loop_eq {all : List α} (h : Searching next start visited s)
    (hclosed : ∀ a ∈ visited, ∀ b ∈ next a, b ∈ s.met)
    (hall : ∀ a, Relation.ReflTransGen (fun a b => b ∈ next a) start a → a ∈ all)
    {fuel : Nat} (hfuel : all.length ≤ visited.length + fuel) (acc : σ) :
    ∃ order, loop next visit fuel acc s = order.foldl visit acc ∧ (visited ++ order).Nodup ∧
      ∀ a, a ∈ visited ++ order ↔ Relation.ReflTransGen (fun a b => b ∈ next a) start a := by
  induction fuel generalizing visited s acc with
  | zero =>
    have hle : s.met.length ≤ all.length :=
      (h.nodup.subperm fun a ha => hall a (h.reached a ha)).length_le
    rw [h.met_eq, List.length_append] at hle
    have hqueue : s.queue = [] := List.length_eq_zero_iff.mp (by omega)
    refine ⟨[], rfl, ?_⟩
    rw [List.append_nil]
    exact h.finish hclosed hqueue
  | succ fuel ih =>
    rw [loop]
    cases hqueue : s.queue with
    | nil =>
      refine ⟨[], rfl, ?_⟩
      rw [List.append_nil]
      exact h.finish hclosed hqueue
    | cons a queue =>
      have ha : a ∈ s.met := by
        rw [h.met_eq, hqueue]
        exact List.mem_append_right _ List.mem_cons_self
      obtain ⟨hnext, hmet, hkept⟩ := (h.advance hqueue).meet_all ha fun _ hb => hb
      have hclosed' : ∀ c ∈ visited ++ [a], ∀ b ∈ next c,
          b ∈ ((next a).foldl meet ⟨s.met, queue⟩).met := by
        intro c hc b hb
        cases List.mem_append.mp hc with
        | inl hc => exact hkept b (hclosed c hc b hb)
        | inr hc =>
          rw [List.mem_singleton.mp hc] at hb
          exact hmet b hb
      have hfuel' : all.length ≤ (visited ++ [a]).length + fuel := by
        rw [List.length_append, List.length_singleton]
        omega
      obtain ⟨order, horder, hnodup, hmem⟩ := ih hnext hclosed' hfuel' (visit acc a)
      rw [List.append_assoc] at hnodup hmem
      exact ⟨a :: order, horder, hnodup, hmem⟩

/-- A search visits what can be reached from its start, each once, where it has fuel for all that
it may meet. -/
theorem exists_loop_eq {all : List α}
    (hall : ∀ a, Relation.ReflTransGen (fun a b => b ∈ next a) start a → a ∈ all)
    {fuel : Nat} (hfuel : all.length ≤ fuel) (acc : σ) :
    ∃ order : List α, loop next visit fuel acc ⟨[start], [start]⟩ = order.foldl visit acc ∧
      order.Nodup ∧
      ∀ a, a ∈ order ↔ Relation.ReflTransGen (fun a b => b ∈ next a) start a := by
  apply Searching.loop_eq searching_start nofun hall
  rw [List.length_nil, Nat.zero_add]
  exact hfuel

end PipelineIQ.Lib.Worklist
