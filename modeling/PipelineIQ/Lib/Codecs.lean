import PipelineIQ.Lib.Strings
import Mathlib.Data.List.Basic

namespace PipelineIQ.Lib.Codecs

open PipelineIQ.Lib.Strings

/-! Texts as bytes. A codec gives `none` for bytes that it does not read. -/

abbrev Bytes := List UInt8

/-! ### UTF-8 -/

def utf8From : Nat → ByteArray → Option Text
  | 0, _ => some []
  | fuel + 1, b => match b.utf8DecodeChar? 0 with
    | some c => (utf8From fuel (b.extract c.utf8Size b.size)).map (c :: ·)
    | none => if b.size = 0 then some [] else none

/-- Every character takes a byte or more. -/
def utf8Decode (raw : Bytes) : Option Text := utf8From raw.length ⟨raw.toArray⟩

/-- The byte order mark that a text may begin with. -/
def byteOrderMark : Char := '\uFEFF'

def dropMark : Text → Text
  | c :: text => if c = byteOrderMark then text else c :: text
  | [] => []

def utf8SigDecode (raw : Bytes) : Option Text := (utf8Decode raw).map dropMark

/-! ### UTF-16 -/

def units (littleEndian : Bool) : Bytes → Option (List Nat)
  | [] => some []
  | [_] => none
  | a :: b :: raw =>
    let unit := if littleEndian then a.toNat + 256 * b.toNat else 256 * a.toNat + b.toNat
    (units littleEndian raw).map (unit :: ·)

/-- The second half of a surrogate pair is never read on its own. -/
def utf16Chars : List Nat → Option Text
  | [] => some []
  | [u] => if u < 0xD800 ∨ 0xE000 ≤ u then some [Char.ofNat u] else none
  | u :: v :: us =>
    if u < 0xD800 ∨ 0xE000 ≤ u then (utf16Chars (v :: us)).map (Char.ofNat u :: ·)
    else if u < 0xDC00 ∧ 0xDC00 ≤ v ∧ v < 0xE000 then
      (utf16Chars us).map (Char.ofNat (0x10000 + 0x400 * (u - 0xD800) + (v - 0xDC00)) :: ·)
    else none

def utf16LittleMark : Bytes := [0xFF, 0xFE]

def utf16BigMark : Bytes := [0xFE, 0xFF]

/-- Without a mark the bytes are in the machine's order, the little end first. -/
def utf16Decode (raw : Bytes) : Option Text :=
  if utf16LittleMark.isPrefixOf raw then (units true (raw.drop 2)).bind utf16Chars
  else if utf16BigMark.isPrefixOf raw then (units false (raw.drop 2)).bind utf16Chars
  else (units true raw).bind utf16Chars

/-! ### Windows-1252 -/

/-- The characters of the bytes from 0x80 to 0x9F, of which five have none. -/
def windows1252High : List (Option Nat) :=
  [some 0x20AC, none, some 0x201A, some 0x0192, some 0x201E, some 0x2026, some 0x2020, some 0x2021,
    some 0x02C6, some 0x2030, some 0x0160, some 0x2039, some 0x0152, none, some 0x017D, none,
    none, some 0x2018, some 0x2019, some 0x201C, some 0x201D, some 0x2022, some 0x2013, some 0x2014,
    some 0x02DC, some 0x2122, some 0x0161, some 0x203A, some 0x0153, none, some 0x017E, some 0x0178]

def windows1252Char (b : UInt8) : Option Char :=
  if 0x80 ≤ b ∧ b ≤ 0x9F then ((windows1252High[b.toNat - 0x80]?).getD none).map Char.ofNat
  else some (Char.ofNat b.toNat)

def windows1252Decode (raw : Bytes) : Option Text := raw.mapM windows1252Char

/-! ### What UTF-8 is not -/

/-- No character begins with a byte of a UTF-16 mark. -/
theorem utf8Decode_of_first {a : UInt8} {raw : Bytes} (h : a = 0xFF ∨ a = 0xFE) :
    utf8Decode (a :: raw) = none := by
  have hsize : 0 < (ByteArray.mk (a :: raw).toArray).size := Nat.succ_pos _
  have hfirst : ByteArray.utf8DecodeChar?.parseFirstByte
      (ByteArray.mk (a :: raw).toArray)[0] = .invalid := by
    change ByteArray.utf8DecodeChar?.parseFirstByte a = .invalid
    rcases h with rfl | rfl <;> rfl
  have hchar : (ByteArray.mk (a :: raw).toArray).utf8DecodeChar? 0 = none := by
    unfold ByteArray.utf8DecodeChar?
    rw [dif_pos hsize]
    split
    · rfl
    all_goals next hother => rw [hfirst] at hother; cases hother
  unfold utf8Decode
  rw [List.length_cons, utf8From, hchar]
  exact if_neg (Nat.ne_of_gt hsize)

theorem utf8Decode_of_mark {raw : Bytes}
    (h : utf16LittleMark.isPrefixOf raw ∨ utf16BigMark.isPrefixOf raw) : utf8Decode raw = none := by
  rcases h with h | h <;> obtain ⟨rest, rfl⟩ := List.isPrefixOf_iff_prefix.mp h
  · exact utf8Decode_of_first (.inl rfl)
  · exact utf8Decode_of_first (.inr rfl)

theorem utf8Decode_ne_nil {raw : Bytes} {text : Text} (hraw : raw ≠ []) (h : utf8Decode raw = some text) :
    text ≠ [] := by
  rintro rfl
  cases raw with
  | nil => exact hraw rfl
  | cons a raw =>
    unfold utf8Decode at h
    rw [List.length_cons, utf8From] at h
    split at h
    · simp at h
    · have hsize : (ByteArray.mk (a :: raw).toArray).size ≠ 0 := Nat.succ_ne_zero _
      rw [if_neg hsize] at h
      cases h

end PipelineIQ.Lib.Codecs
