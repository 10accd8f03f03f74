import PipelineIQ.Security.ColumnSecurity

namespace PipelineIQ.Security.Masking

open PipelineIQ.Lib.Strings PipelineIQ.Security.ColumnSecurity

/-! ### Values that a mask does not tell apart -/

/-- Another value has the same masked output. -/
def Hidden (mask : Text → Text) (value : Text) : Prop :=
  ∃ other, other ≠ value ∧ mask other = mask value

/-- The same with a value that is not empty: an empty value is not masked. -/
def HiddenByText (mask : Text → Text) (value : Text) : Prop :=
  ∃ other, other ≠ [] ∧ other ≠ value ∧ mask other = mask value

variable {decimal : Char → Option Nat} {value pattern : Text}

theorem append_ne_self (value : Text) (c : Char) : value ++ [c] ≠ value := by
  intro h
  have := congrArg List.length h
  simp at this

/-- A mask that shows no more than a part of the beginning hides what follows. -/
theorem hidden_of_take {mask : Text → Text} (n : Nat) (hn : n ≤ value.length)
    (h : ∀ other, other.take n = value.take n → value.length ≤ other.length →
      mask other = mask value) : HiddenByText mask value := by
  refine ⟨value ++ ['x'], by simp, append_ne_self value 'x', h _ ?_ ?_⟩
  · exact List.take_append_of_le_length hn
  · simp

/-- A mask that is the same for all values of one character hides each value it gives that. -/
theorem hidden_of_single {mask : Text → Text} (h : ∀ c, mask [c] = mask value) :
    HiddenByText mask value := by
  by_cases hx : value = ['x']
  · exact ⟨['y'], by simp, by rw [hx]; decide, h 'y'⟩
  · exact ⟨['x'], by simp, fun heq => hx heq.symm, h 'x'⟩

/-! ### The digits of a number -/

theorem lastFour_hidden (decimal : Char → Option Nat) (mask short : String) :
    HiddenByText (lastFour decimal mask short) value := by
  by_cases h : 4 ≤ (digits decimal value).length
  · refine ⟨'x' :: value, by simp, by simp, ?_⟩
    by_cases hx : (decimal 'x').isSome = true
    · have hdigits : digits decimal ('x' :: value) = 'x' :: digits decimal value := by
        simp [digits, hx]
      have hdrop : (digits decimal value).length + 1 - 4 = (digits decimal value).length - 4 + 1 := by
        omega
      simp only [lastFour, hdigits, List.length_cons, if_pos h, hdrop, List.drop_succ_cons]
      rw [if_pos (by omega)]
    · have hdigits : digits decimal ('x' :: value) = digits decimal value := by
        simp [digits, hx]
      simp only [lastFour, hdigits]
  · apply hidden_of_single
    intro c
    have hlen : (digits decimal [c]).length ≤ 1 := List.length_filter_le _ _
    simp only [lastFour, if_neg h]
    rw [if_neg (by omega)]

/-! ### Addresses -/

/-- An address without a name before its only `@`. -/
def NamelessAddress (value : Text) : Prop := ∃ domain, '@' ∉ domain ∧ value = '@' :: domain

theorem emailMask_of_not_mem (h : '@' ∉ value) : emailMask value = value.take 1 ++ "***".toList := by
  rw [emailMask, List.splitOn_eq_singleton h]

theorem emailMask_address {name domain : Text} (hname : '@' ∉ name) (hdomain : '@' ∉ domain) :
    emailMask (name ++ '@' :: domain) = name.take 1 ++ "***@".toList ++ domain := by
  rw [emailMask, List.splitOn_append_cons_self_of_not_mem hname, List.splitOn_eq_singleton hdomain]

theorem emailMask_of_two {a b c : Text} (ha : '@' ∉ a) (hb : '@' ∉ b) :
    emailMask (a ++ '@' :: (b ++ '@' :: c)) =
      (a ++ '@' :: (b ++ '@' :: c)).take 1 ++ "***".toList := by
  rw [emailMask, List.splitOn_append_cons_self_of_not_mem ha,
    List.splitOn_append_cons_self_of_not_mem hb]
  obtain ⟨d, rest, hc⟩ := List.exists_cons_of_ne_nil (List.splitOn_ne_nil '@' c)
  rw [hc]

/-- The three shapes of a value: no `@`, one, or more of them. -/
theorem address_cases (value : Text) :
    '@' ∉ value ∨ (∃ name domain, '@' ∉ name ∧ '@' ∉ domain ∧ value = name ++ '@' :: domain) ∨
      ∃ a b c, '@' ∉ a ∧ '@' ∉ b ∧ value = a ++ '@' :: (b ++ '@' :: c) := by
  by_cases hvalue : '@' ∈ value
  · obtain ⟨a, rest, rfl, ha⟩ := List.eq_append_cons_of_mem hvalue
    by_cases hrest : '@' ∈ rest
    · obtain ⟨b, c, rfl, hb⟩ := List.eq_append_cons_of_mem hrest
      exact .inr (.inr ⟨a, b, c, ha, hb, rfl⟩)
    · exact .inr (.inl ⟨a, rest, ha, hrest, rfl⟩)
  · exact .inl hvalue

theorem emailMask_hidden (hne : value ≠ []) (h : ¬ NamelessAddress value) :
    HiddenByText emailMask value := by
  obtain ⟨d, t, rfl⟩ := List.exists_cons_of_ne_nil hne
  rcases address_cases (d :: t) with hnone | ⟨name, domain, hname, hdomain, heq⟩ |
    ⟨a, b, c, ha, hb, heq⟩
  · refine ⟨d :: t ++ ['x'], by simp, append_ne_self _ 'x', ?_⟩
    rw [emailMask_of_not_mem hnone, emailMask_of_not_mem]
    · rfl
    · simpa using hnone
  · obtain ⟨e, name', rfl⟩ : ∃ e name', name = e :: name' := by
      cases name with
      | nil => exact absurd ⟨domain, hdomain, heq⟩ h
      | cons e name' => exact ⟨e, name', rfl⟩
    rw [heq]
    refine ⟨(e :: name' ++ ['x']) ++ '@' :: domain, by simp, ?_, ?_⟩
    · exact fun heq' => append_ne_self _ 'x' (List.append_cancel_right heq')
    · rw [emailMask_address hname hdomain, emailMask_address _ hdomain]
      · rfl
      · simpa using hname
  · rw [heq]
    refine ⟨a ++ '@' :: (b ++ '@' :: (c ++ ['x'])), by simp, ?_, ?_⟩
    · intro heq'
      have := congrArg List.length heq'
      simp at this
    · rw [emailMask_of_two ha hb, emailMask_of_two ha hb]
      cases a <;> rfl

/-- Nothing else looks like an address without a name. -/
theorem not_emailMask_hidden (h : NamelessAddress value) : ¬ HiddenByText emailMask value := by
  obtain ⟨domain, hdomain, rfl⟩ := h
  rintro ⟨other, -, hne, heq⟩
  have hmask := emailMask_address (List.not_mem_nil (a := '@')) hdomain
  rw [List.nil_append] at hmask
  rw [hmask] at heq
  rcases address_cases other with hnone | ⟨name, domain', hname, hdomain', rfl⟩ |
    ⟨a, b, c, ha, hb, rfl⟩
  · rw [emailMask_of_not_mem hnone] at heq
    cases other with
    | nil => simp at heq
    | cons d t => simp at heq
  · rw [emailMask_address hname hdomain'] at heq
    cases name with
    | nil => exact hne (by simpa using heq)
    | cons d t => simp at heq
  · rw [emailMask_of_two ha hb] at heq
    cases a with
    | nil => simp at heq
    | cons d t => simp at heq

/-! ### Slices -/

theorem slice_hidden (n : Int) (hne : value ≠ []) (h : n ≤ value.length) :
    HiddenByText (fun value => slice value n ++ "***".toList) value := by
  by_cases hn : 0 ≤ n
  · apply hidden_of_take n.toNat (by omega)
    intro other hother _
    simp only [slice, if_pos hn, hother]
  · -- a slice from the end leaves the last character out
    by_cases hshort : value.length ≤ n.natAbs
    · apply hidden_of_single
      intro c
      have hc : [c].length - n.natAbs = 0 := by
        rw [List.length_singleton]
        omega
      have hvalue : value.length - n.natAbs = 0 := by omega
      simp only [slice, if_neg hn, hc, hvalue, List.take_zero]
    · obtain ⟨start, c, rfl⟩ : ∃ start c, value = start ++ [c] :=
        ⟨value.dropLast, value.getLast hne, (List.dropLast_append_getLast hne).symm⟩
      obtain ⟨d, hd⟩ : ∃ d, d ≠ c := by
        by_cases hc : 'x' = c
        · exact ⟨'y', by rw [← hc]; decide⟩
        · exact ⟨'x', hc⟩
      refine ⟨start ++ [d], by simp, by simpa using hd, ?_⟩
      have hlen : start.length + 1 - n.natAbs ≤ start.length := by omega
      simp only [slice, if_neg hn, List.length_append, List.length_singleton,
        List.take_append_of_le_length hlen]

/-- A slice beyond the end of a value is the value. -/
theorem not_slice_hidden {n : Int} (h : value.length < n) :
    ¬ HiddenByText (fun value => slice value n ++ "***".toList) value := by
  rintro ⟨other, -, hne, heq⟩
  have hn : 0 ≤ n := by omega
  have hvalue : value.take n.toNat = value := List.take_of_length_le (by omega)
  have hother : other.take n.toNat = value := by
    simpa only [slice, if_pos hn, hvalue, List.append_cancel_right_eq] using heq
  have hlen := congrArg List.length hother
  rw [List.length_take] at hlen
  rw [List.take_of_length_le (by omega)] at hother
  exact hne hother

theorem defaultMask_hidden : HiddenByText defaultMask value := by
  by_cases h : value.length ≤ 3
  · apply hidden_of_single
    intro c
    simp only [defaultMask, if_pos h]
    rfl
  · -- a character more behind the two that are shown
    refine ⟨value.take 2 ++ 'x' :: value.drop 2, by simp, ?_, ?_⟩
    · intro heq
      have := congrArg List.length heq
      simp at this
      omega
    · obtain ⟨a, b, c, d, t, rfl⟩ : ∃ a b c d t, value = a :: b :: c :: d :: t := by
        match value, h with
        | a :: b :: c :: d :: t, _ => exact ⟨a, b, c, d, t, rfl⟩
        | [], h | [_], h | [_, _], h | [_, _, _], h => simp at h
      have hlong : ¬ ((a :: b :: c :: d :: t).take 2 ++
          'x' :: (a :: b :: c :: d :: t).drop 2).length ≤ 3 := by
        simp
      rw [defaultMask, defaultMask, if_neg h, if_neg hlong]
      simp

/-! ### All patterns -/

section Patterns

variable {pattern : Text}

/-- A value that can be told from its masked output. -/
def Exposed (decimal : Char → Option Nat) (pattern value : Text) : Prop :=
  (pattern = "email".toList ∧ NamelessAddress value) ∨
    ("custom:".toList.isPrefixOf pattern = true ∧
      ∃ n, customLength decimal pattern = some n ∧ value.length < n)

theorem hidden_of_text {mask : Text → Text} (hne : value ≠ []) (h : HiddenByText mask value)
    (heq : ∀ value, value ≠ [] → applyMask decimal value pattern = mask value) :
    Hidden (applyMask decimal · pattern) value := by
  obtain ⟨other, hother, hdiff, hmask⟩ := h
  refine ⟨other, hdiff, ?_⟩
  change applyMask decimal other pattern = applyMask decimal value pattern
  rw [heq other hother, heq value hne, hmask]

theorem text_of_hidden {mask : Text → Text} (hne : value ≠ [])
    (h : Hidden (applyMask decimal · pattern) value) (hmask : mask value ≠ [])
    (heq : ∀ value, value ≠ [] → applyMask decimal value pattern = mask value) :
    HiddenByText mask value := by
  obtain ⟨other, hdiff, hsame⟩ := h
  change applyMask decimal other pattern = applyMask decimal value pattern at hsame
  rw [heq value hne] at hsame
  by_cases hother : other = []
  · subst hother
    exact absurd hsame.symm hmask
  · rw [heq other hother] at hsame
    exact ⟨other, hother, hdiff, hsame⟩

theorem applyMask_email (hne : value ≠ []) :
    applyMask decimal value "email".toList = emailMask value := by
  rw [applyMask, if_neg (by simpa using hne), if_pos rfl]

/-- No other pattern starts as a custom one does. -/
theorem applyMask_custom (hcustom : "custom:".toList.isPrefixOf pattern = true) (hne : value ≠ []) :
    applyMask decimal value pattern = customMask decimal pattern value := by
  have hother : ∀ t : Text, "custom:".toList.isPrefixOf t = false → pattern ≠ t := by
    rintro t ht rfl
    rw [hcustom] at ht
    cases ht
  rw [applyMask, if_neg (by simpa using hne), if_neg (hother _ (by decide)),
    if_neg (hother _ (by decide)), if_neg (hother _ (by decide)), if_neg (hother _ (by decide)),
    if_neg (hother _ (by decide)), if_pos hcustom]

theorem customMask_hidden (hne : value ≠ [])
    (h : ∀ n, customLength decimal pattern = some n → n ≤ value.length) :
    HiddenByText (customMask decimal pattern) value := by
  cases hn : customLength decimal pattern with
  | none =>
    have heq : customMask decimal pattern = defaultMask := by
      funext value
      rw [customMask, hn]
    rw [heq]
    exact defaultMask_hidden
  | some n =>
    have heq : customMask decimal pattern = fun value => slice value n ++ "***".toList := by
      funext value
      rw [customMask, hn]
    rw [heq]
    exact slice_hidden n hne (h n hn)

/-- The patterns without a condition on the value. -/
theorem fixedMask_hidden (hemail : pattern ≠ "email".toList)
    (hcustom : ¬ "custom:".toList.isPrefixOf pattern = true) (hne : value ≠ []) :
    Hidden (applyMask decimal · pattern) value := by
  by_cases hphone : pattern = "phone".toList
  · refine hidden_of_text hne (lastFour_hidden decimal "***-***-" "***") fun v hv => ?_
    rw [applyMask, if_neg (by simpa using hv), if_neg hemail, if_pos hphone]
  by_cases hcard : pattern = "credit_card".toList
  · refine hidden_of_text hne (lastFour_hidden decimal "****-****-****-" "****") fun v hv => ?_
    rw [applyMask, if_neg (by simpa using hv), if_neg hemail, if_neg hphone, if_pos hcard]
  by_cases hssn : pattern = "ssn".toList
  · refine hidden_of_text hne (lastFour_hidden decimal "***-**-" "***-**-****") fun v hv => ?_
    rw [applyMask, if_neg (by simpa using hv), if_neg hemail, if_neg hphone, if_neg hcard,
      if_pos hssn]
  by_cases hname : pattern = "name".toList
  · have hlen : 1 ≤ value.length := List.length_pos_of_ne_nil hne
    have htake : HiddenByText (fun value => value.take 1 ++ "***".toList) value :=
      hidden_of_take 1 hlen fun other hother _ => by rw [hother]
    refine hidden_of_text hne htake fun v hv => ?_
    rw [applyMask, if_neg (by simpa using hv), if_neg hemail, if_neg hphone, if_neg hcard,
      if_neg hssn, if_pos hname]
  · refine hidden_of_text hne defaultMask_hidden fun v hv => ?_
    rw [applyMask, if_neg (by simpa using hv), if_neg hemail, if_neg hphone, if_neg hcard,
      if_neg hssn, if_neg hname, if_neg hcustom]

/-- A masked value can be told from what is shown exactly where it is an address without a name, or
where a custom pattern shows more characters than it has. -/
theorem masked_hides_iff (decimal : Char → Option Nat) (pol : ColumnPolicyRecord) (value : Text)
    (hne : value ≠ []) :
    Hidden (applyMask decimal · pol.pattern) value ↔ ¬ Exposed decimal pol.pattern value := by
  generalize pol.pattern = pattern
  constructor
  · rintro h (⟨rfl, haddress⟩ | ⟨hcustom, n, hn, hlong⟩)
    · refine not_emailMask_hidden haddress (text_of_hidden hne h ?_ fun _ => applyMask_email)
      obtain ⟨domain, hdomain, rfl⟩ := haddress
      have hmask := emailMask_address (List.not_mem_nil (a := '@')) hdomain
      rw [List.nil_append] at hmask
      rw [hmask]
      simp
    · have heq : ∀ value, value ≠ [] →
          applyMask decimal value pattern = slice value n ++ "***".toList := by
        intro value hne
        rw [applyMask_custom hcustom hne, customMask, hn]
      exact not_slice_hidden hlong (text_of_hidden hne h (by simp) heq)
  · intro h
    by_cases hemail : pattern = "email".toList
    · subst hemail
      have haddress : ¬ NamelessAddress value := fun haddress => h (.inl ⟨rfl, haddress⟩)
      exact hidden_of_text hne (emailMask_hidden hne haddress) fun _ => applyMask_email
    · by_cases hcustom : "custom:".toList.isPrefixOf pattern = true
      · have hshort : ∀ n, customLength decimal pattern = some n → n ≤ value.length := by
          intro n hn
          by_contra hlong
          exact h (.inr ⟨hcustom, n, hn, by omega⟩)
        exact hidden_of_text hne (customMask_hidden hne hshort) fun _ => applyMask_custom hcustom
      · exact fixedMask_hidden hemail hcustom hne

end Patterns

/-! ### A name of two characters -/

def asciiDecimal (c : Char) : Option Nat := if c.isDigit then some (c.toNat - 48) else none

def firstTen : ColumnPolicyRecord :=
  { columnName := "name".toList, policy := .masked, maskPattern := some "custom:10".toList }

theorem masked_hides_short :
    "Al".toList ≠ [] ∧ (Hidden (applyMask asciiDecimal · firstTen.pattern) "Al".toList ↔
      ¬ Exposed asciiDecimal firstTen.pattern "Al".toList) :=
  ⟨by decide, masked_hides_iff asciiDecimal firstTen "Al".toList (by decide)⟩

/-- The first ten characters of a shorter name are the name. -/
theorem short_name_shown : ¬ Hidden (applyMask asciiDecimal · firstTen.pattern) "Al".toList := by
  have hne : "Al".toList ≠ [] := by decide
  have hlength : customLength asciiDecimal firstTen.pattern = some 10 := by decide
  intro h
  refine not_slice_hidden (n := 10) (by decide)
    (text_of_hidden hne h (by decide) ?_)
  intro value hvalue
  rw [applyMask_custom (by decide) hvalue, customMask, hlength]

end PipelineIQ.Security.Masking
