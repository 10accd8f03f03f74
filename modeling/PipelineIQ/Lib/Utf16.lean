import PipelineIQ.Lib.KahnOrder
import PipelineIQ.Lib.Strings

namespace PipelineIQ.Lib.Utf16

open PipelineIQ.Lib.Strings

/-- One code unit, or the two surrogates of a character above the first 65536. -/
def units (c : Char) : List Nat :=
  if c.toNat < 0x10000 then [c.toNat]
  else [0xD800 + (c.toNat - 0x10000) / 0x400, 0xDC00 + (c.toNat - 0x10000) % 0x400]

def encode (t : Text) : List Nat := t.flatMap units

/-- The order of texts by their code units. -/
def le (a b : Text) : Bool := decide (encode a ≤ encode b)

theorem toNat_injective {c d : Char} (h : c.toNat = d.toNat) : c = d :=
  Char.ext (UInt32.toNat_inj.mp h)

/-- No character is a surrogate. -/
theorem not_surrogate (c : Char) : c.toNat < 0xD800 ∨ 0xDFFF < c.toNat ∧ c.toNat < 0x110000 :=
  c.valid

theorem units_append_inj {c d : Char} {a b : List Nat} (h : units c ++ a = units d ++ b) :
    c = d ∧ a = b := by
  have hc := not_surrogate c
  have hd := not_surrogate d
  rw [units, units] at h
  split at h
  · split at h
    · rw [List.singleton_append, List.singleton_append, List.cons.injEq] at h
      exact ⟨toNat_injective h.1, h.2⟩
    · simp only [List.cons_append, List.nil_append, List.cons.injEq] at h
      omega
  · split at h
    · simp only [List.cons_append, List.nil_append, List.cons.injEq] at h
      omega
    · simp only [List.cons_append, List.nil_append, List.cons.injEq] at h
      refine ⟨toNat_injective ?_, h.2.2⟩
      omega

theorem encode_injective : Function.Injective encode := by
  intro a
  induction a with
  | nil =>
    intro b h
    cases b with
    | nil => rfl
    | cons d b =>
      rw [encode, encode, List.flatMap_nil, List.flatMap_cons, units] at h
      split at h <;> cases h
  | cons c a ih =>
    intro b h
    cases b with
    | nil =>
      rw [encode, encode, List.flatMap_nil, List.flatMap_cons, units] at h
      split at h <;> cases h
    | cons d b =>
      rw [encode, encode, List.flatMap_cons, List.flatMap_cons] at h
      obtain ⟨rfl, hrest⟩ := units_append_inj h
      rw [ih hrest]

theorem le_iff {a b : Text} : le a b = true ↔ encode a ≤ encode b := decide_eq_true_iff

theorem total_le : Kahn.Total le := by
  constructor
  · intro a b c hab hbc
    exact le_iff.mpr (le_trans (le_iff.mp hab) (le_iff.mp hbc))
  · intro a b
    rw [Bool.or_eq_true, le_iff, le_iff]
    exact le_total (encode a) (encode b)
  · intro a b hab hba
    exact encode_injective (le_antisymm (le_iff.mp hab) (le_iff.mp hba))

end PipelineIQ.Lib.Utf16
