import Mathlib.Data.List.Infix
import PipelineIQ.Lib.Strings

namespace PipelineIQ.Lib.Sql

open Strings

/-- A truth value of SQL; the unknown one is `none`. -/
abbrev Truth := Option Bool

def Truth.not (t : Truth) : Truth := t.map (!·)

/-- A `WHERE` keeps the rows of which its predicate is true. -/
def Truth.selects : Truth → Bool
  | some true => true
  | _ => false

@[simp] theorem Truth.selects_some (b : Bool) : Truth.selects (some b) = b := by
  cases b <;> rfl

@[simp] theorem Truth.selects_none : Truth.selects none = false := rfl

@[simp] theorem Truth.not_some (b : Bool) : Truth.not (some b) = some (!b) := rfl

@[simp] theorem Truth.not_none : Truth.not none = none := rfl

/-! ### LIKE -/

/-- `text LIKE pattern` without an escape character. -/
@[grind =] def like : Text → Text → Bool
  | [], text => text.isEmpty
  | p :: pattern, text =>
    if p = '%' then text.tails.any (like pattern)
    else match text with
      | [] => false
      | c :: text => (p == '_' || p == c) && like pattern text

theorem like_percent {pattern text : Text} :
    like ('%' :: pattern) text = true ↔ ∃ before after, text = before ++ after ∧
      like pattern after = true := by
  simp only [like, if_true, List.any_eq_true, List.mem_tails]
  constructor
  · rintro ⟨after, ⟨before, h⟩, hlike⟩
    exact ⟨before, after, h.symm, hlike⟩
  · rintro ⟨before, after, h, hlike⟩
    exact ⟨after, ⟨before, h.symm⟩, hlike⟩

@[simp] theorem like_nil {text : Text} : like [] text = true ↔ text = [] := by
  simp [like]

theorem like_any (text : Text) : like ['%'] text = true :=
  like_percent.mpr ⟨text, [], by simp, by simp⟩

/-- Every character of a pattern matches itself, a wildcard too. -/
theorem like_append (value : Text) {pattern text : Text} (h : like pattern text = true) :
    like (value ++ pattern) (value ++ text) = true := by
  induction value with
  | nil => exact h
  | cons c value ih =>
    by_cases hc : c = '%'
    · subst hc
      exact like_percent.mpr ⟨['%'], value ++ text, rfl, ih⟩
    · simp [like, hc, ih]

def wildcard (c : Char) : Bool := c == '%' || c == '_'

/-- Without wildcards a pattern begins with the very text. -/
theorem like_plain {value pattern text : Text} (h : ∀ c ∈ value, wildcard c = false) :
    like (value ++ pattern) text = true ↔
      ∃ rest, text = value ++ rest ∧ like pattern rest = true := by
  induction value generalizing text with
  | nil => simp
  | cons c value ih =>
    have hc : c ≠ '%' ∧ c ≠ '_' := by
      have := h c (by simp)
      simpa [wildcard] using this
    have ih' := fun text => @ih text fun d hd => h d (List.mem_cons_of_mem _ hd)
    cases text with
    | nil => simp [like, hc.1]
    | cons d text =>
      simp only [List.cons_append, like, hc.1, if_false, beq_eq_false_iff_ne.mpr hc.2,
        Bool.false_or, Bool.and_eq_true, beq_iff_eq, ih', List.cons.injEq]
      constructor
      · rintro ⟨rfl, rest, rfl, hrest⟩
        exact ⟨rest, ⟨rfl, rfl⟩, hrest⟩
      · rintro ⟨rest, ⟨rfl, rfl⟩, hrest⟩
        exact ⟨rfl, rest, rfl, hrest⟩

theorem like_of_isPrefix {value text : Text} (h : value <+: text) :
    like (value ++ ['%']) text = true := by
  obtain ⟨rest, rfl⟩ := h
  exact like_append value (like_any rest)

theorem like_of_isSuffix {value text : Text} (h : value <:+ text) :
    like ('%' :: value) text = true := by
  obtain ⟨before, rfl⟩ := h
  have hv : like value value = true := by
    simpa using like_append value (like_nil.mpr rfl)
  exact like_percent.mpr ⟨before, value, rfl, hv⟩

theorem like_of_isInfix {value text : Text} (h : value <:+: text) :
    like ('%' :: value ++ ['%']) text = true := by
  obtain ⟨before, after, rfl⟩ := h
  exact like_percent.mpr ⟨before, value ++ after, by simp, like_append value (like_any after)⟩

section Plain

variable {value text : Text} (h : ∀ c ∈ value, wildcard c = false)
include h

theorem like_plain_isPrefix : like (value ++ ['%']) text = true ↔ value <+: text := by
  refine ⟨?_, like_of_isPrefix⟩
  intro hlike
  obtain ⟨rest, rfl, -⟩ := (like_plain h).mp hlike
  exact List.prefix_append value rest

theorem like_plain_isSuffix : like ('%' :: value) text = true ↔ value <:+ text := by
  refine ⟨?_, like_of_isSuffix⟩
  intro hlike
  obtain ⟨before, after, rfl, hafter⟩ := like_percent.mp hlike
  rw [← List.append_nil value, like_plain h] at hafter
  obtain ⟨rest, rfl, hrest⟩ := hafter
  rw [like_nil.mp hrest, List.append_nil]
  exact List.suffix_append before value

theorem like_plain_isInfix : like ('%' :: value ++ ['%']) text = true ↔ value <:+: text := by
  refine ⟨?_, like_of_isInfix⟩
  intro hlike
  obtain ⟨before, after, rfl, hafter⟩ := like_percent.mp hlike
  obtain ⟨rest, rfl, -⟩ := (like_plain h).mp hafter
  exact ⟨before, rest, by simp⟩

end Plain

/-! ### Quoted text -/

/-- A text in quotes, each quote in it doubled. -/
def quote (q : Char) (text : Text) : Text := q :: replace [q] [q, q] text ++ [q]

/-- The text up to the closing quote, and what follows that quote. -/
@[grind =] def readBody (q : Char) : Text → Option (Text × Text)
  | [] => none
  | [c] => if c = q then some ([], []) else none
  | c :: d :: text =>
    if c = q then
      if d = q then (readBody q text).map fun r => (q :: r.1, r.2) else some ([], d :: text)
    else (readBody q (d :: text)).map fun r => (c :: r.1, r.2)

def readQuoted (q : Char) : Text → Option (Text × Text)
  | [] => none
  | c :: text => if c = q then readBody q text else none

theorem replace_singleton (q : Char) (new : Text) (text : Text) :
    replace [q] new text = text.flatMap fun c => if c = q then new else [c] := by
  unfold replace
  induction text with
  | nil => rfl
  | cons c text ih =>
    by_cases hc : c = q
    · subst hc
      simp [replaceFrom, ih]
    · simp [replaceFrom, ih, hc, Ne.symm hc]

theorem readBody_cons {q c : Char} (h : c ≠ q) {text : Text} (ht : text ≠ []) :
    readBody q (c :: text) = (readBody q text).map fun r => (c :: r.1, r.2) := by
  cases text with
  | nil => exact absurd rfl ht
  | cons d text => simp [readBody, h]

/-- A quoted text is read back as itself. -/
theorem readQuoted_quote (q : Char) (text rest : Text) (h : rest.head? ≠ some q) :
    readQuoted q (quote q text ++ rest) = some (text, rest) := by
  have hbody : readBody q (replace [q] [q, q] text ++ q :: rest) = some (text, rest) := by
    rw [replace_singleton]
    induction text with
    | nil =>
      cases rest with
      | nil => simp [readBody]
      | cons d rest =>
        have hd : d ≠ q := by simpa using h
        simp [readBody, hd]
    | cons c text ih =>
      by_cases hc : c = q
      · subst hc
        simp [readBody, ih]
      · have hcons : ((c :: text).flatMap fun c => if c = q then [q, q] else [c]) ++ q :: rest =
            c :: ((text.flatMap fun c => if c = q then [q, q] else [c]) ++ q :: rest) := by
          simp [hc]
        rw [hcons, readBody_cons hc (by simp), ih]
        rfl
  simpa [readQuoted, quote] using hbody

theorem isPrefixOf_cons_of_ne {p c : Char} (h : p ≠ c) (part text : Text) :
    (p :: part).isPrefixOf (c :: text) = false := by
  simp [List.isPrefixOf, h]

/-- A text without the quote begins a quoted one where it begins the text. -/
theorem isPrefixOf_quoted {q : Char} {part : Text} (h : q ∉ part) (text rest : Text) :
    part.isPrefixOf (replace [q] [q, q] text ++ q :: rest) = part.isPrefixOf text := by
  rw [replace_singleton]
  induction part generalizing text with
  | nil => rw [List.isPrefixOf_nil_left, List.isPrefixOf_nil_left]
  | cons p part ih =>
    rw [List.mem_cons, not_or] at h
    cases text with
    | nil =>
      rw [List.flatMap_nil, List.nil_append, isPrefixOf_cons_of_ne (Ne.symm h.1)]
      rfl
    | cons c text =>
      rw [List.flatMap_cons]
      by_cases hc : c = q
      · subst hc
        rw [if_pos rfl, List.append_assoc, List.cons_append,
          isPrefixOf_cons_of_ne (Ne.symm h.1), isPrefixOf_cons_of_ne (Ne.symm h.1)]
      · rw [if_neg hc, List.append_assoc, List.singleton_append, List.isPrefixOf, List.isPrefixOf,
          ih h.2]

/-- A text without the quote occurs in a quoted one where it occurs in the text. -/
theorem occurs_quoted {q p : Char} {part : Text} (h : q ∉ p :: part) (text rest : Text) :
    occurs (p :: part) (replace [q] [q, q] text ++ q :: rest) =
      (occurs (p :: part) text || occurs (p :: part) rest) := by
  have hp : p ≠ q := fun he => h (he ▸ List.mem_cons_self)
  have hquote : ∀ t : Text, occurs (p :: part) (q :: t) = occurs (p :: part) t := by
    intro t
    rw [occurs, isPrefixOf_cons_of_ne hp]
    rfl
  induction text with
  | nil =>
    rw [replace_singleton, List.flatMap_nil, List.nil_append, hquote]
    rfl
  | cons c text ih =>
    have hprefix := isPrefixOf_quoted h (c :: text) rest
    rw [replace_singleton] at ih hprefix ⊢
    rw [List.flatMap_cons] at hprefix ⊢
    by_cases hc : c = q
    · subst hc
      rw [if_pos rfl, List.append_assoc, List.cons_append, List.cons_append, List.nil_append,
        hquote, hquote, ih, occurs, isPrefixOf_cons_of_ne hp]
      rfl
    · rw [if_neg hc, List.append_assoc, List.singleton_append] at hprefix ⊢
      rw [occurs, hprefix, ih, occurs, Bool.or_assoc]

theorem count_quote {q c : Char} (h : c ≠ q) (text : Text) :
    (quote q text).count c = text.count c := by
  have hbody : (replace [q] [q, q] text).count c = text.count c := by
    rw [replace_singleton]
    induction text with
    | nil => rfl
    | cons d text ih =>
      rw [List.flatMap_cons, List.count_append, ih, List.count_cons]
      by_cases hd : d = q
      · subst hd
        rw [if_pos rfl, List.count_eq_zero.mpr (by simp [h]), if_neg (by simp [Ne.symm h])]
        omega
      · rw [if_neg hd, List.count_singleton]
        omega
  rw [quote, List.count_append, List.count_cons, hbody, List.count_singleton,
    if_neg (by simp [Ne.symm h])]
  omega

/-! ### Keeping rows by a fallible test -/

section Select

variable {α : Type}

/-- The rows a test keeps; one row on which the test fails is enough to fail. -/
@[grind =] def select (keep : α → Option Bool) (rows : List α) : Option (List α) :=
  if rows.all (fun r => (keep r).isSome) then some (rows.filter fun r => keep r == some true)
  else none

/-- The same rows, each as often, or a failure on both sides. -/
def SameRows : Option (List α) → Option (List α) → Prop
  | some a, some b => a.Perm b
  | none, none => True
  | _, _ => False

theorem SameRows.refl (rows : Option (List α)) : SameRows rows rows := by
  cases rows with
  | none => trivial
  | some rows => exact List.Perm.refl rows

theorem SameRows.symm {a b : Option (List α)} (h : SameRows a b) : SameRows b a := by
  cases a <;> cases b
  · trivial
  · exact h
  · exact h
  · exact List.Perm.symm h

theorem select_eq_none {keep : α → Option Bool} {rows : List α} :
    select keep rows = none ↔ ∃ r ∈ rows, keep r = none := by
  simp [select]

theorem select_eq_some {keep : α → Option Bool} {rows : List α}
    (h : ∀ r ∈ rows, keep r ≠ none) :
    select keep rows = some (rows.filter fun r => keep r == some true) := by
  have hall : rows.all (fun r => (keep r).isSome) = true :=
    List.all_eq_true.mpr fun r hr => Option.isSome_iff_ne_none.mpr (h r hr)
  simp only [select, hall, if_true]

theorem select_cons (keep : α → Option Bool) (r : α) (rows : List α) :
    select keep (r :: rows) = (keep r).bind fun b =>
      (select keep rows).map fun kept => if b then r :: kept else kept := by
  by_cases h : rows.all (fun r => (keep r).isSome) = true
  · cases hr : keep r with
    | none => simp [select, hr]
    | some b => cases b <;> simp [select, hr, h]
  · simp only [select, List.all_cons, h, Bool.and_false, if_false, Bool.false_eq_true]
    cases keep r <;> rfl

theorem select_some (keep : α → Bool) (rows : List α) :
    select (fun r => some (keep r)) rows = some (rows.filter keep) := by
  simp [select]

theorem filter_perm_filter_iff {p q : α → Bool} {rows : List α} :
    (rows.filter p).Perm (rows.filter q) ↔ ∀ r ∈ rows, p r = q r := by
  constructor
  · intro h r hr
    have hiff := h.mem_iff (a := r)
    simp only [List.mem_filter, hr, true_and] at hiff
    exact Bool.eq_iff_iff.mpr hiff
  · intro h
    rw [List.filter_congr h]

theorem eq_iff_keeps {a b : Option Bool} (ha : a ≠ none) (hb : b ≠ none) :
    (a == some true) = (b == some true) ↔ a = b := by
  cases a with
  | none => exact absurd rfl ha
  | some a =>
    cases b with
    | none => exact absurd rfl hb
    | some b => cases a <;> cases b <;> decide

/-- Two tests keep the same rows when they fail together or never differ on a row. -/
theorem sameRows_select_iff {p q : α → Option Bool} {rows : List α} :
    SameRows (select p rows) (select q rows) ↔
      ((∃ r ∈ rows, p r = none) ∧ ∃ r ∈ rows, q r = none) ∨
      ((∀ r ∈ rows, p r ≠ none) ∧ (∀ r ∈ rows, q r ≠ none) ∧ ∀ r ∈ rows, p r = q r) := by
  by_cases hp : ∃ r ∈ rows, p r = none
  · have hp' : ¬ ∀ r ∈ rows, p r ≠ none := by
      intro h
      obtain ⟨r, hr, hn⟩ := hp
      exact h r hr hn
    rw [select_eq_none.mpr hp]
    by_cases hq : ∃ r ∈ rows, q r = none
    · rw [select_eq_none.mpr hq]
      exact ⟨fun _ => .inl ⟨hp, hq⟩, fun _ => trivial⟩
    · rw [select_eq_some (by simpa using hq)]
      constructor
      · exact fun h => h.elim
      · rintro (⟨-, h⟩ | ⟨h, -⟩)
        · exact absurd h hq
        · exact absurd h hp'
  · have hp' : ∀ r ∈ rows, p r ≠ none := by simpa using hp
    rw [select_eq_some hp']
    by_cases hq : ∃ r ∈ rows, q r = none
    · rw [select_eq_none.mpr hq]
      constructor
      · exact fun h => h.elim
      · rintro (⟨h, -⟩ | ⟨-, h, -⟩)
        · exact absurd h hp
        · obtain ⟨r, hr, hn⟩ := hq
          exact absurd hn (h r hr)
    · have hq' : ∀ r ∈ rows, q r ≠ none := by simpa using hq
      rw [select_eq_some hq']
      have hiff : (∀ r ∈ rows, (p r == some true) = (q r == some true)) ↔
          ∀ r ∈ rows, p r = q r :=
        forall₂_congr fun r hr => eq_iff_keeps (hp' r hr) (hq' r hr)
      rw [SameRows, filter_perm_filter_iff, hiff]
      constructor
      · exact fun h => .inr ⟨hp', hq', h⟩
      · rintro (⟨h, -⟩ | ⟨-, -, h⟩)
        · exact absurd h hp
        · exact h

/-- A test that cannot be made, or that fails on an element. -/
def Refuses (test : Option (α → Option Bool)) (cells : List α) : Prop :=
  ∀ keep ∈ test, ∃ c ∈ cells, keep c = none

variable {β : Type} (f : β → α) (rows : List β)

theorem refuses_map_iff {test : Option (α → Option Bool)} :
    Refuses test (rows.map f) ↔
      (test.bind fun keep => select (fun r => keep (f r)) rows) = none := by
  cases test with
  | none => simp [Refuses]
  | some keep => simp [Refuses, select_eq_none]

/-- Two tests of a column keep the same rows when both refuse it, or neither does and they
never differ on a cell. -/
theorem sameRows_map_iff {p q : Option (α → Option Bool)} :
    SameRows (p.bind fun keep => select (fun r => keep (f r)) rows)
        (q.bind fun keep => select (fun r => keep (f r)) rows) ↔
      (Refuses p (rows.map f) ∧ Refuses q (rows.map f)) ∨
      (¬ Refuses p (rows.map f) ∧ ¬ Refuses q (rows.map f) ∧
        ∀ keep ∈ p, ∀ keep' ∈ q, ∀ c ∈ rows.map f, keep c = keep' c) := by
  cases p with
  | none =>
    simp only [true_and, not_true_eq_false, false_and, or_false, refuses_map_iff,
      Option.bind_none]
    cases q.bind fun keep => select (fun r => keep (f r)) rows <;> simp [SameRows]
  | some keep =>
    cases q with
    | none =>
      simp only [and_true, not_true_eq_false, false_and, and_false, or_false,
        refuses_map_iff, Option.bind_none]
      cases (some keep).bind fun keep => select (fun r => keep (f r)) rows <;> simp [SameRows]
    | some keep' =>
      simp [sameRows_select_iff, Refuses]

end Select

end PipelineIQ.Lib.Sql
