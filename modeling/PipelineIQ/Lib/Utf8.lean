import PipelineIQ.Lib.Strings

namespace PipelineIQ.Lib.Utf8

open PipelineIQ.Lib.Strings

/-! Decoding of bytes that may not be UTF-8. Each byte sequence that begins no character, or breaks
off inside one, is read as one replacement character. -/

/-- The byte at an index lies in a range. -/
def within (b : ByteArray) (i : Nat) (low high : UInt8) : Bool :=
  if h : i < b.size then low ≤ b[i] && b[i] ≤ high else false

/-- The bytes that may follow a first byte of a character of three or of four bytes. -/
def secondByte (first : UInt8) : Option (UInt8 × UInt8) :=
  if first = 0xE0 then some (0xA0, 0xBF)
  else if first = 0xED then some (0x80, 0x9F)
  else if first = 0xF0 then some (0x90, 0xBF)
  else if first = 0xF4 then some (0x80, 0x8F)
  else if 0xE1 ≤ first ∧ first ≤ 0xEF ∨ 0xF1 ≤ first ∧ first ≤ 0xF3 then some (0x80, 0xBF)
  else none

/-- How many bytes one replacement character stands for. -/
def maximalSubpart (b : ByteArray) : Nat :=
  if h : 0 < b.size then
    match secondByte b[0] with
    | none => 1
    | some (low, high) =>
      if !within b 1 low high then 1
      else if (0xF0 : UInt8) ≤ b[0] && within b 2 0x80 0xBF then 3 else 2
  else 1

def decodeFrom : Nat → ByteArray → Text
  | 0, _ => []
  | fuel + 1, b => match b.utf8DecodeChar? 0 with
    | some c => c :: decodeFrom fuel (b.extract c.utf8Size b.size)
    | none =>
      if b.size = 0 then []
      else Char.ofNat 0xFFFD :: decodeFrom fuel (b.extract (maximalSubpart b) b.size)

/-- `b.decode("utf-8", errors="replace")`. -/
def decodeReplace (b : ByteArray) : String := String.ofList (decodeFrom b.size b)

theorem size_utf8Encode_singleton (c : Char) : [c].utf8Encode.size = c.utf8Size := by
  rw [List.utf8Encode_singleton, List.size_toByteArray, String.length_utf8EncodeChar]

theorem size_utf8Encode_cons (c : Char) (cs : Text) :
    (c :: cs).utf8Encode.size = c.utf8Size + cs.utf8Encode.size := by
  rw [List.utf8Encode_cons, ByteArray.size_append, size_utf8Encode_singleton]

theorem extract_utf8Encode_cons (c : Char) (cs : Text) :
    (c :: cs).utf8Encode.extract c.utf8Size (c :: cs).utf8Encode.size = cs.utf8Encode := by
  have hsize := size_utf8Encode_singleton c
  rw [size_utf8Encode_cons, List.utf8Encode_cons]
  exact ByteArray.extract_append_eq_right hsize.symm (by rw [hsize])

theorem decodeFrom_utf8Encode {cs : Text} {fuel : Nat} (h : cs.length ≤ fuel) :
    decodeFrom fuel cs.utf8Encode = cs := by
  induction cs generalizing fuel with
  | nil => cases fuel <;> rfl
  | cons c cs ih =>
    cases fuel with
    | zero => cases h
    | succ fuel =>
      rw [decodeFrom, List.utf8DecodeChar?_utf8Encode_cons]
      dsimp only
      rw [extract_utf8Encode_cons, ih (Nat.le_of_succ_le_succ h)]

theorem length_le_size (cs : Text) : cs.length ≤ cs.utf8Encode.size := by
  induction cs with
  | nil => exact Nat.zero_le _
  | cons c cs ih =>
    rw [size_utf8Encode_cons, List.length_cons]
    have := c.utf8Size_pos
    omega

/-- What a text encodes to is decoded as that text. -/
theorem decodeReplace_toUTF8 (s : String) : decodeReplace s.toUTF8 = s := by
  obtain ⟨cs, rfl⟩ : ∃ cs, s = String.ofList cs := ⟨s.toList, (String.ofList_toList).symm⟩
  exact congrArg String.ofList (decodeFrom_utf8Encode (length_le_size cs))

end PipelineIQ.Lib.Utf8
