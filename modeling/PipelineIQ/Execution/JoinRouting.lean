import Mathlib.Data.Fin.VecNotation
import PipelineIQ.Execution.JoinSql

namespace PipelineIQ.Execution.JoinRouting

open PipelineIQ.Lib.Strings PipelineIQ.Lib.Joins PipelineIQ.Pipeline.Steps
open PipelineIQ.Execution.JoinSql

variable {α : Type} (isna : α → Bool)

/-! ### When the two agree -/

def Blank {n : Nat} (row : Fin n → Option α) : Prop := ∀ i, toPandas isna row i = none

/-- The rows whose key pandas reads as null. -/
def unkeyed (t : Table α) (key : Fin t.width) : List t.Row :=
  t.rows.filter fun r => !(toPandas isna r key).isSome

/-- Whether a null key may equal every null key: pandas then pairs all of them, SQL none. -/
def NullKeysAgree (how : JoinHow) {n m : Nat} (left : List (Fin n → Option α))
    (right : List (Fin m → Option α)) : Prop :=
  left = [] ∨ right = [] ∨ match how with
    | .inner => False
    | .left => right.length = 1 ∧ ∀ r ∈ right, Blank isna r
    | .right => left.length = 1 ∧ ∀ l ∈ left, Blank isna l
    | .outer => (left.length = 2 ∧ ∀ l ∈ left, Blank isna l) ∧
        right.length = 2 ∧ ∀ r ∈ right, Blank isna r

section Keys

variable (left right : Table α) (leftKey : Fin left.width) (rightKey : Fin right.width)

/-- The two tables have no column in common but the key. -/
def ColumnsApart : Prop := ∀ i, ∀ j, j ≠ rightKey → left.columns i ≠ right.columns j

/-- A shared column gets the name that one of the two tables already has for another one. -/
def SuffixesClash : Prop :=
  let others := (right.others rightKey).map right.columns
  ∃ column ∈ left.names, column ∈ others ∧
    ∃ name ∈ [column ++ "_left".toList, column ++ "_right".toList],
      (name ∈ left.names ∧ name ∉ others) ∨ (name ∈ others ∧ name ∉ left.names)

variable [DecidableEq α] (how : JoinHow)

/-- The left rows that are in the result. -/
def LeftTakesPart (l : left.Row) : Prop :=
  l ∈ left.rows ∧
    (how.keepsLeft = true ∨ ∃ r ∈ right.rows, usingKey left right leftKey rightKey l r = true)

def RightTakesPart (r : right.Row) : Prop :=
  r ∈ right.rows ∧
    (how.keepsRight = true ∨ ∃ l ∈ left.rows, usingKey left right leftKey rightKey l r = true)

/-- No NaN is in a row of the result. -/
def NoNan : Prop :=
  (∀ l, LeftTakesPart left right leftKey rightKey how l → ∀ i, ∀ v ∈ l i, isna v = false) ∧
    ∀ r, RightTakesPart left right leftKey rightKey how r → ∀ j, ∀ v ∈ r j, isna v = false

end Keys

def JoinAgrees [DecidableEq α] (D : Duckdb) (left right : Table α) (config : JoinStepConfig) :
    Prop :=
  match left.find config.on, right.find config.on with
  | some leftKey, some rightKey =>
    if config.on = [] ∨ (config.how = .outer ∧ D.outerJoin = false) then
      SuffixesClash left right rightKey
    else ColumnsApart left right rightKey ∧ NoNan isna left right leftKey rightKey config.how ∧
      NullKeysAgree isna config.how (unkeyed isna left leftKey) (unkeyed isna right rightKey)
  | _, _ => True

/-! ### Nulls and NaN -/

section Rows

variable {n : Nat} {row : Fin n → Option α} {i : Fin n} {isna}

theorem isna_of_toPandas {v : α} (h : toPandas isna row i = some v) : isna v = false := by
  obtain ⟨-, hv⟩ := Option.filter_eq_some_iff.mp h
  simpa using hv

theorem toPandas_eq_some {v : α} (h : toPandas isna row i = some v) : row i = some v :=
  (Option.filter_eq_some_iff.mp h).1

theorem toPandas_eq_none {v : α} (h : toPandas isna row i = none) (hv : row i = some v) :
    isna v = true := by
  simpa [toPandas, hv, Option.filter] using h

/-- pandas reads a row without NaN as it is. -/
theorem toPandas_eq (h : ∀ i, ∀ v ∈ row i, isna v = false) : toPandas isna row = row := by
  funext i
  cases hv : row i with
  | none => simp [toPandas, hv]
  | some v => simp [toPandas, hv, Option.filter, h i v hv]

end Rows

/-! ### The columns -/

section Columns

variable {left right : Table α} {rightKey : Fin right.width}

theorem mem_names {t : Table α} {name : Text} : name ∈ t.names ↔ ∃ i, t.columns i = name := by
  simp [Table.names]

theorem columnsApart_iff : ColumnsApart left right rightKey ↔
    ∀ column ∈ left.names, column ∉ (right.others rightKey).map right.columns := by
  simp only [ColumnsApart, mem_names, List.mem_map, Table.mem_others, forall_exists_index,
    forall_apply_eq_imp_iff, not_exists, not_and, ne_comm]

theorem others_nodup : ((right.others rightKey).map right.columns).Nodup :=
  ((List.nodup_finRange right.width).filter _).map right.distinct

theorem suffixed_of_notMem {overlap : List Text} {suffix : String} {column : Text}
    (h : column ∉ overlap) : suffixed overlap suffix column = column := if_neg h

theorem map_suffixed {columns overlap : List Text} (suffix : String)
    (h : ∀ column ∈ columns, column ∉ overlap) :
    columns.map (suffixed overlap suffix) = columns :=
  (List.map_congr_left fun column hc => suffixed_of_notMem (h column hc)).trans (List.map_id _)

theorem mergedColumns_eq (h : ColumnsApart left right rightKey) :
    mergedColumns left right rightKey =
      left.names ++ (right.others rightKey).map right.columns := by
  have h' := columnsApart_iff.mp h
  simp only [mergedColumns]
  rw [map_suffixed _ h', map_suffixed _ fun column hc hl => h' column hl hc]

theorem columns_nodup (h : ColumnsApart left right rightKey) :
    (left.names ++ (right.others rightKey).map right.columns).Nodup := by
  refine List.nodup_append.mpr ⟨left.names_nodup, others_nodup, ?_⟩
  rintro column hl _ hr rfl
  exact columnsApart_iff.mp h column hl hr

/-- The suffix of pandas is none that DuckDB makes. -/
theorem suffixed_ne {column name : Text}
    (h : name = column ∨ ∃ digits : Text, name = column ++ '_' :: digits ∧
      ∀ d ∈ digits, d.isDigit) : column ++ "_left".toList ≠ name := by
  rintro rfl
  obtain h | ⟨digits, h, hdigits⟩ := h
  · simpa using congrArg List.length h
  · have htail := List.append_cancel_left h
    have : digits = "left".toList := (List.cons.inj htail).2.symm
    subst this
    exact absurd (hdigits 'l' (by simp)) (by decide)

theorem columnsApart_of_names (D : Duckdb)
    (h : mergedColumns left right rightKey =
      D.names (left.names ++ (right.others rightKey).map right.columns)) :
    ColumnsApart left right rightKey := by
  rw [columnsApart_iff]
  intro column hl hr
  obtain ⟨k, hk, rfl⟩ := List.mem_iff_getElem.mp hl
  have hnames := D.names_repeated (left.names ++ (right.others rightKey).map right.columns)
  rw [← h, List.forall₂_iff_get] at hnames
  have hk' : k < (left.names ++ (right.others rightKey).map right.columns).length := by
    rw [List.length_append]
    omega
  have hk'' : k < (mergedColumns left right rightKey).length := hnames.1 ▸ hk'
  have hcolumn := hnames.2 k hk' hk''
  have hget : (mergedColumns left right rightKey)[k] = left.names[k] ++ "_left".toList := by
    simp only [mergedColumns]
    rw [List.getElem_append_left (by simpa using hk), List.getElem_map, suffixed, if_pos hr]
  simp only [List.get_eq_getElem, hget, List.getElem_append_left hk] at hcolumn
  exact suffixed_ne hcolumn rfl

theorem suffixed_of_mem {overlap : List Text} {suffix : String} {column : Text}
    (h : column ∈ overlap) : suffixed overlap suffix column = column ++ suffix.toList := if_pos h

theorem append_left_ne_append_right (column column' : Text) :
    column ++ "_left".toList ≠ column' ++ "_right".toList := by
  intro h
  have := congrArg (fun t : Text => t.reverse.take 2) h
  simp at this

section Suffixes

variable {A B : List Text}

/-- A suffixed name is the name of another column of the same table. -/
theorem suffixed_inj (suffix : String)
    (h : ∀ column ∈ A, column ∈ B → column ++ suffix.toList ∈ A → column ++ suffix.toList ∈ B) :
    ∀ x ∈ A, ∀ y ∈ A, suffixed B suffix x = suffixed B suffix y → x = y := by
  intro x hx y hy hxy
  by_cases hxB : x ∈ B <;> by_cases hyB : y ∈ B
  · rw [suffixed_of_mem hxB, suffixed_of_mem hyB] at hxy
    exact List.append_cancel_right hxy
  · rw [suffixed_of_mem hxB, suffixed_of_notMem hyB] at hxy
    exact absurd (hxy ▸ h x hx hxB (hxy ▸ hy)) hyB
  · rw [suffixed_of_notMem hxB, suffixed_of_mem hyB] at hxy
    exact absurd (hxy ▸ h y hy hyB (hxy ▸ hx)) hxB
  · rwa [suffixed_of_notMem hxB, suffixed_of_notMem hyB] at hxy

theorem suffixes_nodup (hA : A.Nodup) (hB : B.Nodup) :
    (A.map (suffixed B "_left") ++ B.map (suffixed A "_right")).Nodup ↔
      ∀ column ∈ A, column ∈ B →
        ∀ name ∈ [column ++ "_left".toList, column ++ "_right".toList], name ∈ A ↔ name ∈ B := by
  rw [List.nodup_append, List.nodup_map_iff_inj_on hA, List.nodup_map_iff_inj_on hB]
  constructor
  · rintro ⟨hl, hr, hapart⟩ column hcA hcB name hname
    have hleft : suffixed B "_left" column = column ++ "_left".toList := suffixed_of_mem hcB
    have hright : suffixed A "_right" column = column ++ "_right".toList := suffixed_of_mem hcA
    have hmemLeft := List.mem_map_of_mem (f := suffixed B "_left") hcA
    have hmemRight := List.mem_map_of_mem (f := suffixed A "_right") hcB
    simp only [List.mem_cons, List.not_mem_nil, or_false] at hname
    constructor
    · intro hnA
      by_contra hnB
      have hkeep : suffixed B "_left" name = name := suffixed_of_notMem hnB
      rcases hname with hname | hname
      · have := hl column hcA name hnA (by rw [hkeep, hleft, hname])
        exact hnB (this ▸ hcB)
      · refine hapart _ (List.mem_map_of_mem hnA) _ hmemRight ?_
        rw [hkeep, hright, hname]
    · intro hnB
      by_contra hnA
      have hkeep : suffixed A "_right" name = name := suffixed_of_notMem hnA
      rcases hname with hname | hname
      · refine hapart _ hmemLeft _ (List.mem_map_of_mem hnB) ?_
        rw [hkeep, hleft, hname]
      · have := hr column hcB name hnB (by rw [hkeep, hright, hname])
        exact hnA (this ▸ hcA)
  · intro h
    refine ⟨suffixed_inj _ fun column hcA hcB => (h column hcA hcB _ (by simp)).mp,
      suffixed_inj _ fun column hcB hcA => (h column hcA hcB _ (by simp)).mpr, ?_⟩
    intro name hl name' hr hname
    obtain ⟨x, hx, rfl⟩ := List.mem_map.mp hl
    obtain ⟨y, hy, rfl⟩ := List.mem_map.mp hr
    by_cases hxB : x ∈ B <;> by_cases hyA : y ∈ A
    · rw [suffixed_of_mem hxB, suffixed_of_mem hyA] at hname
      exact append_left_ne_append_right x y hname
    · rw [suffixed_of_mem hxB, suffixed_of_notMem hyA] at hname
      exact hyA (hname ▸ (h x hx hxB _ (by simp)).mpr (hname ▸ hy))
    · rw [suffixed_of_notMem hxB, suffixed_of_mem hyA] at hname
      exact hxB (hname ▸ (h y hyA hy _ (by simp)).mp (hname ▸ hx))
    · rw [suffixed_of_notMem hxB, suffixed_of_notMem hyA] at hname
      exact hxB (hname ▸ hy)

end Suffixes

theorem mergedColumns_nodup :
    (mergedColumns left right rightKey).Nodup ↔ ¬ SuffixesClash left right rightKey := by
  rw [mergedColumns, suffixes_nodup left.names_nodup others_nodup, SuffixesClash]
  push Not
  refine forall₂_congr fun column hc => forall₂_congr fun hc' name => forall_congr' fun hname => ?_
  tauto

end Columns

/-! ### The rows -/

section Rows

variable (left right : Table α) (leftKey : Fin left.width) (rightKey : Fin right.width)

/-- The row that pandas makes of a pair. -/
def pandasRow (pair : Option left.Row × Option right.Row) : List (Option α) :=
  mergedRow left right leftKey rightKey
    (pair.map (Option.map (toPandas isna)) (Option.map (toPandas isna)))

theorem pandasRow_clean {pair : Option left.Row × Option right.Row} :
    ∀ cell ∈ pandasRow isna left right leftKey rightKey pair, ∀ v ∈ cell, isna v = false := by
  obtain ⟨l, r⟩ := pair
  have hleft : ∀ i, ∀ v ∈ (l.map (toPandas isna)).bind (· i), isna v = false := by
    rintro i v hv
    obtain ⟨l', hl', hv⟩ := Option.bind_eq_some_iff.mp hv
    obtain ⟨l, -, rfl⟩ := Option.map_eq_some_iff.mp hl'
    exact isna_of_toPandas hv
  have hright : ∀ j, ∀ v ∈ (r.map (toPandas isna)).bind (· j), isna v = false := by
    rintro j v hv
    obtain ⟨r', hr', hv⟩ := Option.bind_eq_some_iff.mp hv
    obtain ⟨r, -, rfl⟩ := Option.map_eq_some_iff.mp hr'
    exact isna_of_toPandas hv
  intro cell hcell v hv
  simp only [pandasRow, mergedRow, Prod.map, List.mem_append, List.mem_map] at hcell
  obtain ⟨i, -, rfl⟩ | ⟨j, -, rfl⟩ := hcell
  · split at hv
    · rcases Option.or_eq_some_iff.mp hv with hv | ⟨-, hv⟩
      · exact hleft _ v hv
      · exact hright _ v hv
    · exact hleft i v hv
  · exact hright j v hv

/-- Every value of a left row is in the row of its pair. -/
theorem left_mem_mergedRow {l : left.Row} {o : Option right.Row} {i : Fin left.width} {v : α}
    (hv : l i = some v) : some v ∈ mergedRow left right leftKey rightKey (some l, o) := by
  refine List.mem_append_left _ (List.mem_map.mpr ⟨i, List.mem_finRange i, ?_⟩)
  split
  next hi => rw [← hi, Option.bind_some, hv, Option.some_or]
  next => exact hv

variable [DecidableEq α]

theorem right_mem_mergedRow {r : right.Row} {o : Option left.Row}
    (ho : ∀ l ∈ o, usingKey left right leftKey rightKey l r = true) {j : Fin right.width} {v : α}
    (hv : r j = some v) : some v ∈ mergedRow left right leftKey rightKey (o, some r) := by
  by_cases hj : j = rightKey
  · subst hj
    refine List.mem_append_left _ (List.mem_map.mpr ⟨leftKey, List.mem_finRange leftKey, ?_⟩)
    rw [if_pos rfl]
    cases o with
    | none => exact hv
    | some l =>
      have hkey : l leftKey = r j := by
        have := ho l rfl
        simp only [usingKey, Bool.and_eq_true, beq_iff_eq] at this
        exact this.2
      rw [Option.bind_some, hkey, hv, Option.some_or]
  · exact List.mem_append_right _ (List.mem_map.mpr ⟨j, Table.mem_others.mpr hj, hv⟩)

theorem merge_eq (how : JoinHow) :
    merge isna left right leftKey rightKey how =
      (join (fun (l : left.Row) (r : right.Row) =>
        toPandas isna l leftKey == toPandas isna r rightKey) how left.rows right.rows).map
          (pandasRow isna left right leftKey rightKey) := by
  rw [merge, join_map, List.map_map]
  rfl

variable {isna left right leftKey rightKey} {how : JoinHow}

/-- The rows of pandas hold no NaN. -/
theorem noNan_of_rows
    (h : merge isna left right leftKey rightKey how =
      joinUsing left right leftKey rightKey how) :
    NoNan isna left right leftKey rightKey how := by
  have hclean : ∀ row ∈ joinUsing left right leftKey rightKey how,
      ∀ cell ∈ row, ∀ v ∈ cell, isna v = false := by
    intro row hrow
    rw [← h, merge_eq, Multiset.mem_coe, List.mem_map] at hrow
    obtain ⟨pair, -, rfl⟩ := hrow
    exact pandasRow_clean isna left right leftKey rightKey
  refine ⟨?_, ?_⟩
  · rintro l ⟨hl, hpart⟩ i v hv
    obtain ⟨o, hmem, -⟩ := left_mem_join hl hpart
    exact hclean _ (List.mem_map_of_mem hmem) _ (left_mem_mergedRow _ _ _ _ hv) v rfl
  · rintro r ⟨hr, hpart⟩ j v hv
    obtain ⟨o, hmem, ho⟩ := right_mem_join hr hpart
    exact hclean _ (List.mem_map_of_mem hmem) _ (right_mem_mergedRow _ _ _ _ ho hv) v rfl

section NoNan

variable (hnan : NoNan isna left right leftKey rightKey how)
include hnan

theorem joinUsing_eq :
    joinUsing left right leftKey rightKey how =
      (join (usingKey left right leftKey rightKey) how left.rows right.rows).map
        (pandasRow isna left right leftKey rightKey) := by
  refine congrArg Multiset.ofList (List.map_congr_left ?_)
  rintro ⟨l, r⟩ hmem
  have hl : l.map (toPandas isna) = l := by
    cases l with
    | none => rfl
    | some l => exact congrArg some (toPandas_eq (hnan.1 l (left_of_mem_join hmem)))
  have hr : r.map (toPandas isna) = r := by
    cases r with
    | none => rfl
    | some r => exact congrArg some (toPandas_eq (hnan.2 r (right_of_mem_join hmem)))
  rw [pandasRow, Prod.map, hl, hr]

/-- A row whose key is NaN has no partner. -/
theorem usingKey_unkeyed {l : left.Row} {r : right.Row} (hl : l ∈ unkeyed isna left leftKey)
    (hr : r ∈ right.rows) : usingKey left right leftKey rightKey l r = false := by
  obtain ⟨hl, hnone⟩ := List.mem_filter.mp hl
  by_contra hkey
  rw [Bool.not_eq_false] at hkey
  have hclean := toPandas_eq (hnan.1 l ⟨hl, Or.inr ⟨r, hr, hkey⟩⟩)
  rw [hclean] at hnone
  simp only [usingKey, Bool.and_eq_true] at hkey
  rw [hkey.1] at hnone
  exact Bool.false_ne_true hnone

/-- Both joins have the rows with a key in common; they differ in what they make of the rows
without one. -/
theorem rows_eq_iff :
    merge isna left right leftKey rightKey how = joinUsing left right leftKey rightKey how ↔
      ((join (fun _ _ => true) how (unkeyed isna left leftKey)
        (unkeyed isna right rightKey)).map (pandasRow isna left right leftKey rightKey)).Perm
          ((join (fun _ _ => false) how (unkeyed isna left leftKey)
            (unkeyed isna right rightKey)).map (pandasRow isna left right leftKey rightKey)) := by
  rw [merge_eq, joinUsing_eq hnan, Multiset.coe_eq_coe]
  have hpandas := join_split (fun l r => toPandas isna l leftKey == toPandas isna r rightKey) how
    left.rows right.rows (fun l => (toPandas isna l leftKey).isSome)
    (fun r => (toPandas isna r rightKey).isSome)
    fun l _ r _ hon => by rw [beq_iff_eq.mp hon]
  have husing := join_split (usingKey left right leftKey rightKey) how
    left.rows right.rows (fun l => (toPandas isna l leftKey).isSome)
    (fun r => (toPandas isna r rightKey).isSome)
    fun l _ r _ hon => by
      simp only [usingKey, Bool.and_eq_true, beq_iff_eq] at hon
      simp only [toPandas, hon.2]
  have hkeyed : join (usingKey left right leftKey rightKey) how
      (left.rows.filter fun l => (toPandas isna l leftKey).isSome)
      (right.rows.filter fun r => (toPandas isna r rightKey).isSome) =
      join (fun l r => toPandas isna l leftKey == toPandas isna r rightKey) how
        (left.rows.filter fun l => (toPandas isna l leftKey).isSome)
        (right.rows.filter fun r => (toPandas isna r rightKey).isSome) := by
    refine join_congr how fun l hl r hr => ?_
    obtain ⟨v, hv⟩ := Option.isSome_iff_exists.mp (List.mem_filter.mp hl).2
    obtain ⟨w, hw⟩ := Option.isSome_iff_exists.mp (List.mem_filter.mp hr).2
    rw [usingKey, hv, hw, toPandas_eq_some hv, toPandas_eq_some hw, Option.isSome_some,
      Bool.true_and]
  have halways : join (fun l r => toPandas isna l leftKey == toPandas isna r rightKey) how
      (unkeyed isna left leftKey) (unkeyed isna right rightKey) =
      join (fun _ _ => true) how (unkeyed isna left leftKey) (unkeyed isna right rightKey) := by
    refine join_congr how fun l hl r hr => ?_
    have hl : toPandas isna l leftKey = none := by simpa using (List.mem_filter.mp hl).2
    have hr : toPandas isna r rightKey = none := by simpa using (List.mem_filter.mp hr).2
    rw [hl, hr]
    rfl
  have hnever : join (usingKey left right leftKey rightKey) how
      (unkeyed isna left leftKey) (unkeyed isna right rightKey) =
      join (fun _ _ => false) how (unkeyed isna left leftKey) (unkeyed isna right rightKey) :=
    join_congr how fun l hl r hr => usingKey_unkeyed hnan hl (List.mem_filter.mp hr).1
  have hp := (hpandas.map (pandasRow isna left right leftKey rightKey))
  have hu := (husing.map (pandasRow isna left right leftKey rightKey))
  rw [List.map_append] at hp hu
  change List.Perm _ (_ ++ List.map _ (join _ how (unkeyed isna left leftKey)
    (unkeyed isna right rightKey))) at hp
  change List.Perm _ (_ ++ List.map _ (join _ how (unkeyed isna left leftKey)
    (unkeyed isna right rightKey))) at hu
  rw [halways] at hp
  rw [hkeyed, hnever] at hu
  rw [hp.congr_left, hu.congr_right, List.perm_append_left_iff]

end NoNan

end Rows

/-! ### The rows without a key -/

section Unkeyed

variable (left right : Table α) (rightKey : Fin right.width)

def leftCells (l : Option left.Row) : List (Option α) :=
  (List.finRange left.width).map fun i => (l.map (toPandas isna)).bind (· i)

def rightCells (r : Option right.Row) : List (Option α) :=
  (right.others rightKey).map fun j => (r.map (toPandas isna)).bind (· j)

variable {isna left right rightKey} {leftKey : Fin left.width} {how : JoinHow}

theorem pandasRow_unkeyed {pair : Option left.Row × Option right.Row}
    (hl : ∀ l ∈ pair.1, l ∈ unkeyed isna left leftKey)
    (hr : ∀ r ∈ pair.2, r ∈ unkeyed isna right rightKey) :
    pandasRow isna left right leftKey rightKey pair =
      leftCells isna left pair.1 ++ rightCells isna right rightKey pair.2 := by
  obtain ⟨l, r⟩ := pair
  have hleft : (l.map (toPandas isna)).bind (· leftKey) = none := by
    cases l with
    | none => rfl
    | some l => simpa using (List.mem_filter.mp (hl l rfl)).2
  have hright : (r.map (toPandas isna)).bind (· rightKey) = none := by
    cases r with
    | none => rfl
    | some r => simpa using (List.mem_filter.mp (hr r rfl)).2
  rw [pandasRow, mergedRow, leftCells, rightCells]
  congr 1
  refine List.map_congr_left fun i _ => ?_
  split
  next hi =>
    subst hi
    exact (congrArg₂ Option.or hleft hright).trans hleft.symm
  next => rfl

theorem leftCells_blank {l : left.Row} :
    leftCells isna left (some l) = leftCells isna left none ↔ Blank isna l := by
  simp only [leftCells, List.map_inj_left, List.mem_finRange, true_imp_iff]
  exact Iff.rfl

theorem rightCells_blank {r : right.Row} (hr : r ∈ unkeyed isna right rightKey) :
    rightCells isna right rightKey (some r) = rightCells isna right rightKey none ↔
      Blank isna r := by
  have hkey : toPandas isna r rightKey = none := by simpa using (List.mem_filter.mp hr).2
  simp only [rightCells, List.map_inj_left, Table.mem_others, Blank]
  constructor
  · intro h j
    by_cases hj : j = rightKey
    · rwa [hj]
    · exact h j hj
  · exact fun h j _ => h j

theorem map_eq_replicate {β γ : Type} {f : β → γ} {xs : List β} {n : Nat} {c : γ} :
    xs.map f = List.replicate n c ↔ xs.length = n ∧ ∀ x ∈ xs, f x = c := by
  rw [List.eq_replicate_iff, List.length_map, List.forall_mem_map]

theorem indifferent_iff :
    Indifferent how ((unkeyed isna left leftKey).map fun l => leftCells isna left (some l))
        ((unkeyed isna right rightKey).map fun r => rightCells isna right rightKey (some r))
        (leftCells isna left none) (rightCells isna right rightKey none) ↔
      NullKeysAgree isna how (unkeyed isna left leftKey) (unkeyed isna right rightKey) := by
  have hleft : ∀ n, (unkeyed isna left leftKey).map (fun l => leftCells isna left (some l)) =
      List.replicate n (leftCells isna left none) ↔ (unkeyed isna left leftKey).length = n ∧
        ∀ l ∈ unkeyed isna left leftKey, Blank isna l := by
    intro n
    simp only [map_eq_replicate, leftCells_blank]
  have hright : ∀ n, (unkeyed isna right rightKey).map
        (fun r => rightCells isna right rightKey (some r)) =
      List.replicate n (rightCells isna right rightKey none) ↔
        (unkeyed isna right rightKey).length = n ∧
          ∀ r ∈ unkeyed isna right rightKey, Blank isna r := by
    intro n
    rw [map_eq_replicate]
    exact and_congr_right fun _ => forall₂_congr fun r hr => rightCells_blank hr
  simp only [Indifferent, NullKeysAgree, List.map_eq_nil_iff]
  refine or_congr_right (or_congr_right ?_)
  cases how with
  | inner => exact Iff.rfl
  | left => exact hright 1
  | right => exact hleft 1
  | outer => exact and_congr (hleft 2) (hright 2)

theorem rows_agree_iff [DecidableEq α] (hnan : NoNan isna left right leftKey rightKey how) :
    merge isna left right leftKey rightKey how = joinUsing left right leftKey rightKey how ↔
      NullKeysAgree isna how (unkeyed isna left leftKey) (unkeyed isna right rightKey) := by
  have hcells : ∀ on : left.Row → right.Row → Bool,
      (join on how (unkeyed isna left leftKey) (unkeyed isna right rightKey)).map
        (pandasRow isna left right leftKey rightKey) =
      ((join on how (unkeyed isna left leftKey) (unkeyed isna right rightKey)).map
        (Prod.map (leftCells isna left) (rightCells isna right rightKey))).map
          fun p => p.1 ++ p.2 := by
    intro on
    rw [List.map_map]
    refine List.map_congr_left ?_
    rintro ⟨l, r⟩ hmem
    refine pandasRow_unkeyed ?_ ?_
    · rintro l' rfl
      exact (left_of_mem_join hmem).1
    · rintro r' rfl
      exact (right_of_mem_join hmem).1
  have hlength : ∀ xs : List (Option left.Row × Option right.Row),
      ∀ p ∈ xs.map (Prod.map (leftCells isna left) (rightCells isna right rightKey)),
        p.1.length = left.width := by
    intro xs p hp
    obtain ⟨pair, -, rfl⟩ := List.mem_map.mp hp
    simp [leftCells]
  rw [rows_eq_iff hnan, hcells, hcells, append_perm_iff (hlength _) (hlength _),
    join_always_perm_never, indifferent_iff]

end Unkeyed

/-! ### The step -/

section Step

variable [DecidableEq α] {D : Duckdb} {left right : Table α} {config : JoinStepConfig}

theorem executeJoin_toOption {leftKey : Fin left.width} {rightKey : Fin right.width}
    (hl : left.find config.on = some leftKey) (hr : right.find config.on = some rightKey) :
    (executeJoin isna left right config).toOption =
      if (mergedColumns left right rightKey).Nodup then
        some ⟨mergedColumns left right rightKey,
          merge isna left right leftKey rightKey config.how⟩
      else none := by
  have hleft : validateJoinKey config.on left .left = .ok leftKey := by
    simp only [validateJoinKey, hl]
  have hright : validateJoinKey config.on right .right = .ok rightKey := by
    simp only [validateJoinKey, hr]
  simp only [executeJoin, hleft, hright, bind, Except.bind]
  split <;> rfl

theorem executeQuery_eq {leftKey : Fin left.width} {rightKey : Fin right.width}
    (hl : left.find config.on = some leftKey) (hr : right.find config.on = some rightKey) :
    executeQuery D left right config.how config.on =
      if config.how = .outer ∧ D.outerJoin = false then none
      else some ⟨D.names (left.names ++ (right.others rightKey).map right.columns),
        joinUsing left right leftKey rightKey config.how⟩ := by
  simp [executeQuery, hl, hr]

/-- A step whose key one of the tables lacks fails in both engines. -/
theorem join_missing (h : left.find config.on = none ∨ right.find config.on = none) :
    (executeJoin isna left right config).toOption = duckdbJoin D left right config := by
  have hduckdb : duckdbJoin D left right config = none := by
    rw [duckdbJoin_eq, ite_eq_left_iff]
    intro
    rcases h with h | h
    · simp [executeQuery, h]
    · cases hl : left.find config.on <;> simp [executeQuery, hl, h]
  rw [hduckdb]
  rcases h with h | h
  · simp [executeJoin, validateJoinKey, h, bind, Except.bind, Except.toOption]
  · cases hl : left.find config.on <;>
      simp [executeJoin, validateJoinKey, hl, h, bind, Except.bind, Except.toOption]

theorem executeJoin_eq_duckdbJoin_iff :
    (executeJoin isna left right config).toOption = duckdbJoin D left right config ↔
      JoinAgrees isna D left right config := by
  cases hl : left.find config.on with
  | none => simp only [JoinAgrees, hl, iff_true]; exact join_missing isna (Or.inl hl)
  | some leftKey =>
    cases hr : right.find config.on with
    | none => simp only [JoinAgrees, hl, hr, iff_true]; exact join_missing isna (Or.inr hr)
    | some rightKey =>
      rw [executeJoin_toOption isna hl hr, duckdbJoin_eq, executeQuery_eq hl hr]
      simp only [JoinAgrees, hl, hr]
      by_cases hfails : config.on = [] ∨ (config.how = .outer ∧ D.outerJoin = false)
      · have hnone : (if config.on = [] then none else
            if config.how = .outer ∧ D.outerJoin = false then none
            else some (Result.mk (D.names (left.names ++ (right.others rightKey).map right.columns))
              (joinUsing left right leftKey rightKey config.how))) = none := by
          rcases hfails with h | h
          · rw [if_pos h]
          · rw [if_pos h, ite_self]
        rw [hnone, if_pos hfails, ite_eq_right_iff]
        simp only [reduceCtorEq, imp_false, mergedColumns_nodup, not_not]
      · rw [not_or] at hfails
        rw [if_neg hfails.1, if_neg hfails.2, if_neg (not_or.mpr hfails)]
        constructor
        · intro h
          split at h
          next =>
            obtain ⟨hcolumns, hrows⟩ := Result.mk.inj (Option.some.inj h)
            have hnan := noNan_of_rows hrows
            exact ⟨columnsApart_of_names D hcolumns, hnan, (rows_agree_iff hnan).mp hrows⟩
          next => cases h
        · rintro ⟨hcolumns, hnan, hkeys⟩
          rw [mergedColumns_eq hcolumns, if_pos (columns_nodup hcolumns),
            D.names_distinct _ (columns_nodup hcolumns), (rows_agree_iff hnan).mpr hkeys]

end Step

/-- An engine that takes every join and leaves the names alone. -/
def keepNames : Duckdb where
  outerJoin := true
  names := id
  names_distinct _ _ := rfl
  names_repeated _ := List.forall₂_same.mpr fun _ _ => Or.inl rfl

/-- A table with a key column and one row, whose key is null. -/
def keyless (column : Text) (h : "k".toList ≠ column) (value : Nat) : Table Nat where
  width := 2
  columns := ![("k".toList), column]
  distinct := by
    have h' : ['k'] ≠ column := h
    simp [Function.Injective, Fin.forall_fin_two, h', h'.symm]
  rows := [![none, some value]]

end PipelineIQ.Execution.JoinRouting
