import Mathlib.Data.List.Basic
import PipelineIQ.Lib.Sql

namespace PipelineIQ.Lib.SqlReader

open Strings Sql

/-! Readers of the fixed parts of a query and of lists of quoted names. -/

variable {τ : Type} [DecidableEq τ]

def expect : List τ → List τ → Option (List τ)
  | [], ts => some ts
  | t :: expected, u :: ts => if t = u then expect expected ts else none
  | _ :: _, [] => none

variable {expected ts rest : List τ}

theorem expect_eq_some : expect expected ts = some rest ↔ ts = expected ++ rest := by
  induction expected generalizing ts with
  | nil => simp [expect]
  | cons t expected ih =>
    cases ts with
    | nil => simp [expect]
    | cons u ts =>
      rw [expect, List.cons_append, List.cons.injEq]
      split
      next h => rw [ih, h, eq_self, true_and]
      next h => simp [Ne.symm h]

@[simp] theorem expect_append : expect expected (expected ++ rest) = some rest :=
  expect_eq_some.mpr rfl

/-- Two beginnings that differ early are not taken for each other. -/
theorem expect_ne {other : List τ} (n : Nat) (h : expected.take n ≠ other.take n)
    (hn : n ≤ expected.length ∧ n ≤ other.length) (rest : List τ) :
    expect expected (other ++ rest) = none := by
  cases hread : expect expected (other ++ rest) with
  | none => rfl
  | some after =>
    have htake := congrArg (List.take n) (expect_eq_some.mp hread)
    rw [List.take_append_of_le_length hn.2, List.take_append_of_le_length hn.1] at htake
    exact absurd htake.symm h

section Literals

variable {s s' : String} {cs cs' : Text}

theorem toList_ne (h : s = String.ofList cs) (h' : s' = String.ofList cs') (hne : cs ≠ cs') :
    s.toList ≠ s'.toList := by
  rwa [h, h', String.toList_ofList, String.toList_ofList]

theorem head_toList (h : s = String.ofList cs) : s.toList.head? = cs.head? := by
  rw [h, String.toList_ofList]

theorem expect_literal_ne (h : s = String.ofList cs) (h' : s' = String.ofList cs') (n : Nat)
    (hne : cs.take n ≠ cs'.take n) (hn : n ≤ cs.length ∧ n ≤ cs'.length) (rest : Text) :
    expect s.toList (s'.toList ++ rest) = none := by
  rw [h, h', String.toList_ofList, String.toList_ofList]
  exact expect_ne n hne hn rest

end Literals

/-! ### Lists of names -/

/-- Quoted names with commas between them. -/
def nameList (columns : List Text) : Text :=
  List.intercalate ", ".toList (columns.map (quote '"'))

/-- At most so many quoted names and what follows them. -/
def readNames : Nat → Text → Option (List Text × Text)
  | 0, _ => none
  | n + 1, text => (readQuoted '"' text).bind fun r =>
    match r.2 with
    | ',' :: ' ' :: text => (readNames n text).map fun r' => (r.1 :: r'.1, r'.2)
    | text => some ([r.1], text)

/-- A list of names is read back up to what follows it. -/
theorem readNames_nameList {columns : List Text} (hne : columns ≠ []) {rest : Text}
    (hquote : rest.head? ≠ some '"') (hcomma : rest.head? ≠ some ',') {n : Nat}
    (hn : columns.length ≤ n) : readNames n (nameList columns ++ rest) = some (columns, rest) := by
  induction columns generalizing n with
  | nil => exact absurd rfl hne
  | cons c columns ih =>
    obtain ⟨n, rfl⟩ := Nat.exists_eq_succ_of_ne_zero (Nat.ne_zero_of_lt hn)
    cases columns with
    | nil =>
      have hread := readQuoted_quote '"' c rest hquote
      simp only [nameList, List.map_cons, List.map_nil, List.intercalate_singleton, readNames, hread,
        Option.bind_some]
      split
      next => exact absurd rfl hcomma
      next => rfl
    | cons c' columns =>
      have hread := readQuoted_quote '"' c (", ".toList ++ (nameList (c' :: columns) ++ rest))
        (by simp)
      have hlist : nameList (c :: c' :: columns) ++ rest =
          quote '"' c ++ (", ".toList ++ (nameList (c' :: columns) ++ rest)) := by
        simp [nameList, List.intercalate_cons_cons]
      rw [hlist, readNames, hread, Option.bind_some]
      have hrest := ih (List.cons_ne_nil _ _) (Nat.le_of_succ_le_succ hn)
      simp only [show ", ".toList = [',', ' '] from rfl, List.cons_append, List.nil_append, hrest,
        Option.map_some]

theorem length_le_nameList (columns : List Text) : columns.length ≤ (nameList columns).length := by
  induction columns with
  | nil => exact Nat.zero_le _
  | cons c columns ih =>
    cases columns with
    | nil => simp [nameList, quote]
    | cons c' columns =>
      have hlist : nameList (c :: c' :: columns) =
          quote '"' c ++ (", ".toList ++ nameList (c' :: columns)) := by
        simp [nameList, List.intercalate_cons_cons]
      rw [hlist, List.length_append, List.length_append, List.length_cons,
        show ", ".toList.length = 2 from rfl]
      omega

def readList (text : Text) : Option (List Text × Text) := readNames text.length text

theorem readList_nameList {columns : List Text} (hne : columns ≠ []) {rest : Text}
    (hquote : rest.head? ≠ some '"') (hcomma : rest.head? ≠ some ',') :
    readList (nameList columns ++ rest) = some (columns, rest) := by
  refine readNames_nameList hne hquote hcomma ?_
  rw [List.length_append]
  exact (length_le_nameList columns).trans (Nat.le_add_right _ _)

end PipelineIQ.Lib.SqlReader
