import Mathlib.Data.List.DropRight
import Mathlib.Data.List.Perm.Subperm
import PipelineIQ.Lib.Strings
import PipelineIQ.Pipeline.Validation

namespace PipelineIQ.Frontend.StepNames

open PipelineIQ.Lib.Strings PipelineIQ.Pipeline.Validation

/-! ### Names of steps -/

/-- The white space and the line ends of the browser. -/
def jsSpace (c : Char) : Bool :=
  decide (c.toNat ∈ [0x9, 0xA, 0xB, 0xC, 0xD, 0x20, 0xA0, 0x1680, 0x2028, 0x2029, 0x202F, 0x205F,
    0x3000, 0xFEFF]) || decide (0x2000 ≤ c.toNat ∧ c.toNat ≤ 0x200A)

def trim (t : Text) : Text := (t.dropWhile jsSpace).rdropWhile jsSpace

/-- `[a-zA-Z0-9_]`. -/
def isWord (c : Char) : Bool := c.isAlphanum || decide (c = '_')

/-- `replace(/[^a-zA-Z0-9_]+/g, "_")`; `inRun` is whether the character before was replaced. -/
def underscored : Bool → Text → Text
  | _, [] => []
  | inRun, c :: t =>
    if isWord c then c :: underscored false t
    else if inRun then underscored true t
    else '_' :: underscored true t

/-- `replace(/^_+|_+$/g, "")`. -/
def stripUnderscores (t : Text) : Text :=
  (t.dropWhile fun c => decide (c = '_')).rdropWhile fun c => decide (c = '_')

def normalized (rawName : Text) : Text := stripUnderscores (underscored false (trim rawName))

def decimal (n : Nat) : Text := Nat.toDigits 10 n

def startsWithDigit : Text → Bool
  | c :: _ => c.isDigit
  | [] => false

def baseName (rawName : Text) (index : Nat) : Text :=
  let base := if normalized rawName = [] then "step_".toList ++ decimal (index + 1)
    else normalized rawName
  if startsWithDigit base then "step_".toList ++ base else base

def candidate (base : Text) : Nat → Text
  | 0 => base
  | suffix + 1 => base ++ '_' :: decimal (suffix + 1)

/-- The first candidate that is not used, from a suffix on. -/
def firstUnused (base : Text) (usedNames : List Text) : Nat → Nat → Text
  | 0, suffix => candidate base suffix
  | fuel + 1, suffix =>
    if candidate base suffix ∈ usedNames then firstUnused base usedNames fuel (suffix + 1)
    else candidate base suffix

/-- Of one candidate more than there are used names, one is not used. -/
def sanitizeStepName (rawName : Text) (index : Nat) (usedNames : List Text) : Text :=
  firstUnused (baseName rawName index) usedNames usedNames.length 0

/-! ### The names are new -/

theorem decimal_injective {m n : Nat} (h : decimal m = decimal n) : m = n := by
  have hdigits := congrArg (fun t => Nat.ofDigitChars 10 t 0) h
  simpa only [decimal, Nat.ofDigitChars_ten_toDigits] using hdigits

theorem candidate_injective (base : Text) : Function.Injective (candidate base) := by
  intro m n h
  cases m with
  | zero =>
    cases n with
    | zero => rfl
    | succ n =>
      have hlength := congrArg List.length h
      rw [candidate, candidate, List.length_append, List.length_cons] at hlength
      omega
  | succ m =>
    cases n with
    | zero =>
      have hlength := congrArg List.length h
      rw [candidate, candidate, List.length_append, List.length_cons] at hlength
      omega
    | succ n =>
      rw [candidate, candidate, List.append_cancel_left_eq, List.cons.injEq] at h
      rw [decimal_injective h.2]

theorem candidates_of_firstUnused {base : Text} {usedNames : List Text} {fuel suffix : Nat}
    (h : firstUnused base usedNames fuel suffix ∈ usedNames) :
    ∀ n, suffix ≤ n → n ≤ suffix + fuel → candidate base n ∈ usedNames := by
  induction fuel generalizing suffix with
  | zero =>
    intro n hn hle
    cases le_antisymm hn hle
    exact h
  | succ fuel ih =>
    rw [firstUnused] at h
    split at h
    · next hused =>
      intro n hn hle
      rcases Nat.eq_or_lt_of_le hn with rfl | hlt
      · exact hused
      · exact ih h n hlt (by omega)
    · next hfree => exact absurd h hfree

theorem firstUnused_eq (base : Text) (usedNames : List Text) (fuel suffix : Nat) :
    ∃ n, firstUnused base usedNames fuel suffix = candidate base n := by
  induction fuel generalizing suffix with
  | zero => exact ⟨suffix, rfl⟩
  | succ fuel ih =>
    rw [firstUnused]
    split
    · exact ih (suffix + 1)
    · exact ⟨suffix, rfl⟩

theorem firstUnused_not_mem (base : Text) (usedNames : List Text) :
    firstUnused base usedNames usedNames.length 0 ∉ usedNames := by
  intro h
  have hall := candidates_of_firstUnused h
  have hnodup : ((List.range (usedNames.length + 1)).map (candidate base)).Nodup :=
    (List.nodup_map_iff (candidate_injective _)).mpr List.nodup_range
  have hsub : (List.range (usedNames.length + 1)).map (candidate base) ⊆ usedNames := by
    intro name hname
    obtain ⟨n, hn, rfl⟩ := List.mem_map.mp hname
    exact hall n (Nat.zero_le n) (by rw [List.mem_range] at hn; omega)
  have hlength := (hnodup.subperm hsub).length_le
  rw [List.length_map, List.length_range] at hlength
  omega

/-- A name is none of those that are used. -/
theorem sanitizeStepName_not_mem (rawName : Text) (index : Nat) (usedNames : List Text) :
    sanitizeStepName rawName index usedNames ∉ usedNames :=
  firstUnused_not_mem (baseName rawName index) usedNames

/-- A base that is not used is the name itself. -/
theorem sanitizeStepName_of_not_mem {rawName : Text} {index : Nat} {usedNames : List Text}
    (h : baseName rawName index ∉ usedNames) :
    sanitizeStepName rawName index usedNames = baseName rawName index := by
  unfold sanitizeStepName
  cases usedNames.length with
  | zero => rfl
  | succ n => exact if_neg h

/-! ### The names are identifiers -/

/-- A letter, and then letters, digits and underscores. -/
def IsName (t : Text) : Prop := ∃ c rest, t = c :: rest ∧ c.isAlpha = true ∧ ∀ d ∈ rest, isWord d = true

theorem isWord_of_isAlpha {c : Char} (h : c.isAlpha = true) : isWord c = true := by
  simp [isWord, Char.isAlphanum, h]

theorem isWord_of_isDigit {c : Char} (h : c.isDigit = true) : isWord c = true := by
  simp [isWord, Char.isAlphanum, h]

theorem isWord_decimal (n : Nat) : ∀ d ∈ decimal n, isWord d = true := fun _ hd =>
  isWord_of_isDigit (Nat.isDigit_of_mem_toDigits (by decide) (by decide) hd)

theorem isWord_underscored (inRun : Bool) (t : Text) : ∀ c ∈ underscored inRun t, isWord c = true := by
  induction t generalizing inRun with
  | nil => exact fun c hc => nomatch hc
  | cons c t ih =>
    intro d hd
    rw [underscored] at hd
    split at hd
    · next hc =>
      rcases List.mem_cons.mp hd with rfl | hd
      · exact hc
      · exact ih false d hd
    · split at hd
      · exact ih true d hd
      · rcases List.mem_cons.mp hd with rfl | hd
        · rfl
        · exact ih true d hd

theorem isWord_normalized (rawName : Text) : ∀ c ∈ normalized rawName, isWord c = true := by
  intro c hc
  have hdrop := (List.rdropWhile_prefix _ _).subset hc
  exact isWord_underscored false _ c ((List.dropWhile_suffix _).subset hdrop)

theorem head_normalized {rawName : Text} {c : Char} {rest : Text}
    (h : normalized rawName = c :: rest) : c ≠ '_' := by
  rintro rfl
  unfold normalized stripUnderscores at h
  have hprefix := List.rdropWhile_prefix (fun c => decide (c = '_'))
    ((underscored false (trim rawName)).dropWhile fun c => decide (c = '_'))
  rw [h] at hprefix
  obtain ⟨tail, htail⟩ := hprefix
  have hhead := List.head?_dropWhile_not (fun c => decide (c = '_')) (underscored false (trim rawName))
  rw [← htail] at hhead
  simp at hhead

theorem isName_step {t : Text} (h : ∀ c ∈ t, isWord c = true) : IsName ("step_".toList ++ t) := by
  refine ⟨'s', "tep_".toList ++ t, rfl, rfl, ?_⟩
  intro d hd
  rcases List.mem_append.mp hd with hd | hd
  · have hall : ("tep_".toList.all isWord) = true := by decide
    exact List.all_eq_true.mp hall d hd
  · exact h d hd

theorem baseName_isName (rawName : Text) (index : Nat) : IsName (baseName rawName index) := by
  unfold baseName
  by_cases hempty : normalized rawName = []
  · rw [if_pos hempty]
    exact isName_step (isWord_decimal (index + 1))
  · rw [if_neg hempty]
    dsimp only
    split
    · exact isName_step (isWord_normalized rawName)
    · next hdigit =>
      obtain ⟨c, rest, hname⟩ := List.exists_cons_of_ne_nil hempty
      have hword := isWord_normalized rawName
      rw [hname] at hdigit hword ⊢
      refine ⟨c, rest, rfl, ?_, fun d hd => hword d (List.mem_cons_of_mem c hd)⟩
      have hc := hword c List.mem_cons_self
      have hne := head_normalized hname
      rw [isWord, Char.isAlphanum, Bool.or_eq_true, Bool.or_eq_true, decide_eq_true_eq] at hc
      rcases hc with (hc | hc) | hc
      · exact hc
      · exact absurd hc hdigit
      · exact absurd hc hne

theorem IsName.candidate {base : Text} (h : IsName base) (suffix : Nat) :
    IsName (candidate base suffix) := by
  cases suffix with
  | zero => exact h
  | succ suffix =>
    obtain ⟨c, rest, rfl, hc, hrest⟩ := h
    refine ⟨c, rest ++ '_' :: decimal (suffix + 1), rfl, hc, ?_⟩
    intro d hd
    rcases List.mem_append.mp hd with hd | hd
    · exact hrest d hd
    · rcases List.mem_cons.mp hd with rfl | hd
      · rfl
      · exact isWord_decimal _ d hd

theorem sanitizeStepName_isName (rawName : Text) (index : Nat) (usedNames : List Text) :
    IsName (sanitizeStepName rawName index usedNames) := by
  obtain ⟨n, hn⟩ := firstUnused_eq (baseName rawName index) usedNames usedNames.length 0
  rw [sanitizeStepName, hn]
  exact (baseName_isName rawName index).candidate n

theorem IsName.ne_nil {t : Text} (h : IsName t) : t ≠ [] := by
  obtain ⟨c, rest, rfl, -⟩ := h
  exact List.cons_ne_nil c rest

/-- The parser takes a name for an identifier. -/
theorem IsName.isIdentifier {t : Text} (h : IsName t) : isIdentifier t = true := by
  obtain ⟨c, rest, rfl, hc, hrest⟩ := h
  have hlast : rest.getLast? ≠ some '\n' := by
    intro hlast
    exact absurd (hrest _ (List.mem_of_getLast? hlast)) (by decide)
  rw [Pipeline.Validation.isIdentifier]
  rw [if_neg hlast, hc, Bool.true_or, Bool.true_and, List.all_eq_true]
  intro d hd
  have hword := hrest d hd
  rw [isWord] at hword
  rw [← hword]
  congr 1

/-! ### Names that stay as they are -/

theorem toNat_of_isWord {c : Char} (h : isWord c = true) : 48 ≤ c.toNat ∧ c.toNat ≤ 122 := by
  rw [isWord, Char.isAlphanum, Bool.or_eq_true, Bool.or_eq_true, isAlpha_iff, isDigit_iff,
    decide_eq_true_eq] at h
  rcases h with (h | h) | rfl
  · omega
  · omega
  · decide

theorem isWord_not_jsSpace {c : Char} (h : isWord c = true) : jsSpace c = false := by
  obtain ⟨hlow, hhigh⟩ := toNat_of_isWord h
  simp only [jsSpace, Bool.or_eq_false_iff, decide_eq_false_iff_not, List.mem_cons, List.not_mem_nil,
    or_false, not_or, not_and]
  refine ⟨?_, fun _ => ?_⟩ <;> omega

/-- Nothing is dropped from a text whose ends are kept. -/
theorem drop_both_eq_self {p : Char → Bool} {t : Text} (hhead : ∀ c, t.head? = some c → p c = false)
    (hlast : ∀ c, t.getLast? = some c → p c = false) : (t.dropWhile p).rdropWhile p = t := by
  cases t with
  | nil => rfl
  | cons c rest =>
    rw [List.dropWhile_cons_of_neg (by rw [hhead c rfl]; exact Bool.false_ne_true),
      List.rdropWhile_eq_self_iff]
    intro hne
    rw [hlast _ (List.getLast?_eq_some_getLast hne)]
    exact Bool.false_ne_true

theorem underscored_of_words {t : Text} (h : ∀ c ∈ t, isWord c = true) : underscored false t = t := by
  induction t with
  | nil => rfl
  | cons c t ih =>
    rw [underscored, if_pos (h c List.mem_cons_self), ih fun d hd => h d (List.mem_cons_of_mem c hd)]

/-- A name that does not end in an underscore is its own base. -/
theorem IsName.baseName_eq {t : Text} (h : IsName t) (hlast : t.getLast? ≠ some '_') (index : Nat) :
    baseName t index = t := by
  have hne := h.ne_nil
  obtain ⟨c, rest, rfl, hc, hrest⟩ := h
  have hword : ∀ d ∈ c :: rest, isWord d = true := by
    intro d hd
    rcases List.mem_cons.mp hd with rfl | hd
    · exact isWord_of_isAlpha hc
    · exact hrest d hd
  have hc' := isAlpha_iff.mp hc
  have htrim : trim (c :: rest) = c :: rest := by
    refine drop_both_eq_self ?_ ?_
    · intro d hd
      exact isWord_not_jsSpace (hword d (List.mem_of_head? hd))
    · intro d hd
      exact isWord_not_jsSpace (hword d (List.mem_of_getLast? hd))
  have hstrip : stripUnderscores (c :: rest) = c :: rest := by
    refine drop_both_eq_self ?_ ?_
    · rintro d hd
      cases hd
      rw [decide_eq_false_iff_not]
      rintro rfl
      revert hc
      decide
    · intro d hd
      rw [decide_eq_false_iff_not]
      rintro rfl
      exact hlast hd
  have hnormalized : normalized (c :: rest) = c :: rest := by
    rw [normalized, htrim, underscored_of_words hword, hstrip]
  have hdigit : startsWithDigit (c :: rest) = false := by
    rw [startsWithDigit, ← Bool.not_eq_true, isDigit_iff]
    omega
  rw [baseName, hnormalized, if_neg hne, hdigit]
  rfl

end PipelineIQ.Frontend.StepNames
