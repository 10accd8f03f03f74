import PipelineIQ.Contracts.Validator
import PipelineIQ.Lifecycle.Actors

namespace PipelineIQ.Contracts.FailClosed

open PipelineIQ.Lib PipelineIQ.Lib.Strings PipelineIQ.Lib.Traverse PipelineIQ.Lib.Yaml
open PipelineIQ.Models PipelineIQ.Pipeline.Parser PipelineIQ.Contracts.Validator

variable {Cell Double : Type} [DecidableEq Cell]

section Rules

variable (k : Kernels Cell Double)

/-- A field of a rule that is there. -/
def ruleValue (spec : Entries) (field : String) : Node := spec.getD (key field) .null

/-- A column that breaks a rule of error severity. -/
inductive ColumnBreaks (column : Column Cell) (spec : Entries) : Prop where
  | type (t : Text) (given : spec.getD (key "type") (str "") = .text t) (some : t ≠ [])
      (differs : arrowTypeCategory column.type ≠ category (lowerCase t))
  | notNull (given : ruleValue spec "nullable" = .bool false) (null : none ∈ column.cells)
  | minValue (wrong : Cell → Bool) (given : ruleValue spec "min_value" ≠ .null)
      (compares : k.less column.type (ruleValue spec "min_value") = some wrong) (v : Cell)
      (cell : some v ∈ column.cells) (below : wrong v = true)
  | maxValue (wrong : Cell → Bool) (given : ruleValue spec "max_value" ≠ .null)
      (compares : k.greater column.type (ruleValue spec "max_value") = some wrong) (v : Cell)
      (cell : some v ∈ column.cells) (above : wrong v = true)
  | allowedValues (allowed : List Node) (given : ruleValue spec "allowed_values" ≠ .null)
      (items : (ruleValue spec "allowed_values").iterate = some allowed) (v : Option Cell)
      (cell : v ∈ column.cells) (other : k.strCell v ∉ allowed.map k.str)
  | unique (given : ruleValue spec "unique" = .bool true) (repeated : ¬ column.valid.Nodup)

/-- A table that breaks a rule of error severity of a contract. -/
inductive Breaks (table : Table Cell) (contract : Entries) : Prop where
  | removed (promised : Entries) (columns : mapping contract "columns" = some promised) (name : Key)
      (spec : Entries) (rule : (name, Node.map spec) ∈ promised) (missing : table.find name = none)
  | column (promised : Entries) (columns : mapping contract "columns" = some promised) (name : Key)
      (spec : Entries) (rule : (name, Node.map spec) ∈ promised) (c : Column Cell)
      (present : table.find name = some c) (breaks : ColumnBreaks k c spec)
  | minRows (n : Int) (given : contract.getD (key "min_rows") .null ≠ .null)
      (limit : toInt (contract.getD (key "min_rows") .null) = some n) (below : table.numRows < n)
  | maxRows (n : Int) (given : contract.getD (key "max_rows") .null ≠ .null)
      (limit : toInt (contract.getD (key "max_rows") .null) = some n) (above : n < table.numRows)

/-- No rule about a column raises. -/
structure ColumnEvaluable (column : Column Cell) (spec : Entries) : Prop where
  type : (spec.getD (key "type") (str "")).truthy → (spec.getD (key "type") (str "")).isText
  minValue : ruleValue spec "min_value" ≠ .null →
    (k.less column.type (ruleValue spec "min_value")).isSome
  maxValue : ruleValue spec "max_value" ≠ .null →
    (k.greater column.type (ruleValue spec "max_value")).isSome
  allowedValues : ruleValue spec "allowed_values" ≠ .null →
    k.hasUnique column.type ∧ (ruleValue spec "allowed_values").iterate.isSome
  unique : ruleValue spec "unique" = .bool true → k.hasCountDistinct column.type

/-- No rule of a contract raises: its mappings are mappings, its limits are numbers, and the
columns have the kernels that their rules need. -/
structure Evaluable (table : Table Cell) (contract : Entries) : Prop where
  columns : ∃ promised, mapping contract "columns" = some promised ∧
    ∀ name spec column, (name, Node.map spec) ∈ promised → table.find name = some column →
      ColumnEvaluable k column spec
  nullThresholds : ∃ thresholds, mapping contract "null_thresholds" = some thresholds ∧
    ∀ e ∈ thresholds, ∀ column, table.find e.1 = some column → column.cells ≠ [] →
      (k.float e.2).isSome
  minRows : contract.getD (key "min_rows") .null ≠ .null →
    (toInt (contract.getD (key "min_rows") .null)).isSome
  maxRows : contract.getD (key "max_rows") .null ≠ .null →
    (toInt (contract.getD (key "max_rows") .null)).isSome

end Rules

variable {k : Kernels Cell Double} {table : Table Cell} {column : Column Cell} {name : Key}
  {spec contract : Entries}

/-! ### Which checks raise -/

omit [DecidableEq Cell] in
theorem checkType_isSome : (checkType k name column spec).isSome ↔
    ((spec.getD (key "type") (str "")).truthy → (spec.getD (key "type") (str "")).isText) := by
  unfold checkType
  dsimp only
  generalize spec.getD (key "type") (str "") = v
  split
  · next h =>
    rw [Option.isSome_map]
    cases v <;> simp [h, Node.asText, Node.isText]
  · next h => simp [h]

omit [DecidableEq Cell] in
theorem checkBound_isSome {compare : DataType → Node → Option (Cell → Bool)}
    {field word sign : String} :
    (checkBound k compare field word sign name column spec).isSome ↔
      (ruleValue spec field ≠ .null → (compare column.type (ruleValue spec field)).isSome) := by
  unfold checkBound ruleValue
  split
  · next h => simp [h]
  · next bound h =>
    rw [Option.isSome_map]
    exact ⟨fun hs _ => hs, fun hs => hs h⟩

theorem checkAllowedValues_isSome : (checkAllowedValues k name column spec).isSome ↔
    (ruleValue spec "allowed_values" ≠ .null →
      k.hasUnique column.type ∧ (ruleValue spec "allowed_values").iterate.isSome) := by
  unfold checkAllowedValues ruleValue
  split
  · next h => simp [h]
  · next allowed h =>
    split
    · next hu =>
      rw [Option.isSome_map]
      exact ⟨fun hs _ => ⟨hu, hs⟩, fun hs => (hs h).2⟩
    · next hu => exact ⟨fun hs => (by cases hs), fun hs => absurd (hs h).1 hu⟩

theorem checkUnique_isSome : (checkUnique k name column spec).isSome ↔
    (ruleValue spec "unique" = .bool true → k.hasCountDistinct column.type) := by
  unfold checkUnique ruleValue
  split
  · next h =>
    split
    · next hc => exact ⟨fun _ _ => hc, fun _ => rfl⟩
    · next hc => exact ⟨fun hs => (by cases hs), fun hs => absurd (hs h) hc⟩
  · next h => exact ⟨fun _ he => absurd he h, fun _ => rfl⟩

omit [DecidableEq Cell] in
theorem checkRows_isSome {rule bound : String} {breaks : Int → Int → Bool} {numRows : Nat}
    {limit : Node} : (checkRows k rule bound breaks numRows limit).isSome ↔
      (limit ≠ .null → (toInt limit).isSome) := by
  unfold checkRows
  split
  · simp
  · next h =>
    rw [Option.isSome_map]
    exact ⟨fun hs _ => hs, fun hs => hs h⟩

omit [DecidableEq Cell] in
theorem checkNullThreshold_isSome {limit : Node} :
    (checkNullThreshold k table name limit).isSome ↔
      ∀ column, table.find name = some column → column.cells ≠ [] → (k.float limit).isSome := by
  unfold checkNullThreshold
  split
  · next h => simp [h]
  · next column h =>
    rw [h]
    split
    · next hempty =>
      refine ⟨fun _ c hc hne => ?_, fun _ => rfl⟩
      cases hc
      exact absurd (List.length_eq_zero_iff.mp hempty) hne
    · next hempty =>
      rw [Option.isSome_map]
      refine ⟨fun hs _ _ _ => hs, fun hs => hs column rfl fun he => hempty ?_⟩
      rw [he]
      rfl

theorem checkColumn_isSome {node : Node} : (checkColumn k table name node).isSome ↔
    ∀ spec column, node = .map spec → table.find name = some column →
      ColumnEvaluable k column spec := by
  cases node with
  | map spec =>
    simp only [checkColumn]
    split
    · next h => simp [h]
    · next column h =>
      rw [collect_isSome_iff]
      simp only [List.forall_mem_cons, List.not_mem_nil, false_implies, implies_true, and_true]
      rw [checkType_isSome, checkMinValue, checkMaxValue, checkBound_isSome, checkBound_isSome,
        checkAllowedValues_isSome, checkUnique_isSome]
      have hnull : (checkNullable k name column spec).isSome := by
        unfold checkNullable
        split <;> rfl
      constructor
      · rintro ⟨h₁, -, h₂, h₃, h₄, h₅⟩ _ c hspec hc
        cases hspec
        rw [h, Option.some.injEq] at hc
        subst hc
        exact ⟨h₁, h₂, h₃, h₄, h₅⟩
      · intro hs
        obtain ⟨h₁, h₂, h₃, h₄, h₅⟩ := hs spec column rfl h
        exact ⟨h₁, hnull, h₂, h₃, h₄, h₅⟩
  | _ => exact ⟨fun _ _ _ he => (by cases he), fun _ => rfl⟩

/-- The checks answer exactly where no rule raises. -/
theorem checks_isSome : (checks k table contract).isSome ↔ Evaluable k table contract := by
  unfold checks
  cases hp : mapping contract "columns" with
  | none =>
    refine ⟨fun hs => (by cases hs), fun h => ?_⟩
    obtain ⟨promised, hcolumns, -⟩ := h.columns
    rw [hp] at hcolumns
    cases hcolumns
  | some promised =>
    cases ht : mapping contract "null_thresholds" with
    | none =>
      refine ⟨fun hs => (by cases hs), fun h => ?_⟩
      obtain ⟨thresholds, hthresholds, -⟩ := h.nullThresholds
      rw [ht] at hthresholds
      cases hthresholds
    | some thresholds =>
      simp only [Option.bind_some, collect_isSome_iff, List.forall_mem_cons, List.not_mem_nil,
        false_implies, implies_true, and_true, List.forall_mem_map, checkColumn_isSome,
        checkNullThreshold_isSome, checkMinRows, checkMaxRows, checkRows_isSome, Option.isSome_some]
      constructor
      · rintro ⟨h₁, h₂, h₃, h₄⟩
        exact ⟨⟨promised, hp, fun name spec column hm => h₁ _ hm spec column rfl⟩,
          ⟨thresholds, ht, h₂⟩, h₃, h₄⟩
      · intro h
        obtain ⟨promised', hp', h₁⟩ := h.columns
        obtain ⟨thresholds', ht', h₂⟩ := h.nullThresholds
        rw [hp, Option.some.injEq] at hp'
        rw [ht, Option.some.injEq] at ht'
        subst hp' ht'
        refine ⟨fun e he spec column hspec => h₁ e.1 spec column (hspec ▸ he), h₂, h.minRows,
          h.maxRows⟩

/-! ### Which checks find an error -/

def HasError (violations : List ContractViolation) : Prop :=
  ∃ v ∈ violations, v.severity = "error"

theorem hasError_ite {p : Prop} [Decidable p] {v : ContractViolation} (h : v.severity = "error") :
    HasError (if p then [v] else []) ↔ p := by
  unfold HasError
  split
  · next hp => exact ⟨fun _ => hp, fun _ => ⟨v, List.mem_cons_self, h⟩⟩
  · next hp => exact ⟨fun ⟨_, hm, _⟩ => (by cases hm), fun h => absurd h hp⟩

theorem not_hasError_nil : ¬ HasError [] := fun ⟨_, hm, _⟩ => by cases hm

theorem hasError_collect {cs : List (Option (List ContractViolation))}
    {vs : List ContractViolation} (h : collect cs = some vs) :
    HasError vs ↔ ∃ xs, some xs ∈ cs ∧ HasError xs := by
  unfold HasError
  constructor
  · rintro ⟨v, hv, hs⟩
    obtain ⟨xs, hxs, hm⟩ := (mem_collect h v).mp hv
    exact ⟨xs, hxs, v, hm, hs⟩
  · rintro ⟨xs, hxs, v, hm, hs⟩
    exact ⟨v, (mem_collect h v).mpr ⟨xs, hxs, hm⟩, hs⟩

variable {vs : List ContractViolation}

omit [DecidableEq Cell] in
theorem checkType_hasError (h : checkType k name column spec = some vs) :
    HasError vs ↔ ∃ t, spec.getD (key "type") (str "") = .text t ∧ t ≠ [] ∧
      arrowTypeCategory column.type ≠ category (lowerCase t) := by
  unfold checkType at h
  dsimp only at h
  generalize spec.getD (key "type") (str "") = v at h
  split at h
  · next ht =>
    obtain ⟨t, hv, rfl⟩ := Option.map_eq_some_iff.mp h
    cases v <;> cases hv
    rw [hasError_ite rfl]
    have hne : t ≠ [] := by
      rintro rfl
      cases ht
    exact ⟨fun hd => ⟨t, rfl, hne, hd⟩, fun ⟨t', he, _, hd⟩ => by cases he; exact hd⟩
  · next ht =>
    cases h
    refine iff_of_false not_hasError_nil ?_
    rintro ⟨t, rfl, hne, -⟩
    cases t with
    | nil => exact hne rfl
    | cons c t => exact ht rfl

omit [DecidableEq Cell] in
theorem checkNullable_hasError (h : checkNullable k name column spec = some vs) :
    HasError vs ↔ ruleValue spec "nullable" = .bool false ∧ none ∈ column.cells := by
  unfold checkNullable at h
  split at h
  · next hv =>
    cases h
    rw [hasError_ite rfl, ruleValue, hv, Column.nullCount, gt_iff_lt, List.countP_pos_iff]
    simp
  · next hv =>
    cases h
    exact iff_of_false not_hasError_nil fun hs => hv hs.1

omit [DecidableEq Cell] in
theorem checkBound_hasError {compare : DataType → Node → Option (Cell → Bool)}
    {field word sign : String} (h : checkBound k compare field word sign name column spec = some vs) :
    HasError vs ↔ ruleValue spec field ≠ .null ∧ ∃ wrong,
      compare column.type (ruleValue spec field) = some wrong ∧
        ∃ v, some v ∈ column.cells ∧ wrong v = true := by
  unfold checkBound at h
  split at h
  · next hv =>
    cases h
    exact iff_of_false not_hasError_nil fun hs => hs.1 hv
  · next hv =>
    obtain ⟨wrong, hc, rfl⟩ := Option.map_eq_some_iff.mp h
    dsimp only
    rw [hasError_ite rfl, gt_iff_lt, List.countP_pos_iff]
    have hmem : ∀ v, v ∈ column.valid ↔ some v ∈ column.cells := by
      intro v
      simp [Column.valid]
    constructor
    · rintro ⟨v, hm, hw⟩
      exact ⟨hv, wrong, hc, v, (hmem v).mp hm, hw⟩
    · rintro ⟨-, wrong', hc', v, hm, hw⟩
      rw [ruleValue, hc, Option.some.injEq] at hc'
      subst hc'
      exact ⟨v, (hmem v).mpr hm, hw⟩

theorem checkAllowedValues_hasError (h : checkAllowedValues k name column spec = some vs) :
    HasError vs ↔ ruleValue spec "allowed_values" ≠ .null ∧ ∃ allowed,
      (ruleValue spec "allowed_values").iterate = some allowed ∧
        ∃ v ∈ column.cells, k.strCell v ∉ allowed.map k.str := by
  unfold checkAllowedValues at h
  split at h
  · next hv =>
    cases h
    exact iff_of_false not_hasError_nil fun hs => hs.1 hv
  · next hv =>
    split at h
    · obtain ⟨items, hi, rfl⟩ := Option.map_eq_some_iff.mp h
      dsimp only
      rw [hasError_ite rfl]
      have hne : disallowed k column items ≠ [] ↔
          ∃ v ∈ column.cells, k.strCell v ∉ items.map k.str := by
        rw [disallowed, ne_eq, List.filter_eq_nil_iff]
        simp
      rw [hne]
      constructor
      · exact fun hm => ⟨hv, items, hi, hm⟩
      · rintro ⟨-, items', hi', hm⟩
        rw [ruleValue, hi, Option.some.injEq] at hi'
        subst hi'
        exact hm
    · cases h

omit [DecidableEq Cell] in
theorem valid_length (column : Column Cell) :
    column.cells.length - column.nullCount = column.valid.length := by
  unfold Column.nullCount Column.valid
  have hsum : ∀ cells : List (Option Cell),
      cells.length = (cells.filterMap id).length + cells.countP Option.isNone := by
    intro cells
    induction cells with
    | nil => rfl
    | cons c cells ih =>
      cases c with
      | none =>
        rw [List.filterMap_cons_none rfl, List.countP_cons_of_pos rfl, List.length_cons]
        omega
      | some v =>
        rw [List.filterMap_cons_some (f := id) rfl, List.countP_cons_of_neg (by simp), List.length_cons,
          List.length_cons]
        omega
  have := hsum column.cells
  omega

theorem checkUnique_hasError (h : checkUnique k name column spec = some vs) :
    HasError vs ↔ ruleValue spec "unique" = .bool true ∧ ¬ column.valid.Nodup := by
  unfold checkUnique at h
  split at h
  · next hv =>
    split at h
    · cases h
      rw [hasError_ite rfl, valid_length, ← List.dedup_eq_self]
      have hsub := List.dedup_sublist column.valid
      constructor
      · intro hlt
        refine ⟨hv, fun he => ?_⟩
        rw [he] at hlt
        exact lt_irrefl _ hlt
      · rintro ⟨-, hne⟩
        exact lt_of_le_of_ne hsub.length_le fun he => hne (hsub.eq_of_length he)
    · cases h
  · next hv =>
    cases h
    exact iff_of_false not_hasError_nil fun hs => hv hs.1

omit [DecidableEq Cell] in
theorem checkRows_hasError {rule bound : String} {breaks : Int → Int → Bool} {numRows : Nat}
    {limit : Node} (h : checkRows k rule bound breaks numRows limit = some vs) :
    HasError vs ↔ limit ≠ .null ∧ ∃ n, toInt limit = some n ∧ breaks numRows n = true := by
  unfold checkRows at h
  split at h
  · cases h
    exact iff_of_false not_hasError_nil fun hs => hs.1 rfl
  · next hv =>
    obtain ⟨n, hn, rfl⟩ := Option.map_eq_some_iff.mp h
    rw [hasError_ite rfl]
    constructor
    · exact fun hb => ⟨hv, n, hn, hb⟩
    · rintro ⟨-, n', hn', hb⟩
      rw [hn, Option.some.injEq] at hn'
      subst hn'
      exact hb

theorem warning_ne_error : "warning" ≠ "error" := by decide

omit [DecidableEq Cell] in
/-- Null thresholds only warn. -/
theorem checkNullThreshold_hasError {limit : Node}
    (h : checkNullThreshold k table name limit = some vs) : ¬ HasError vs := by
  have hwarn : ∀ (p : Prop) [Decidable p] (message : List Text) (expected : Node) (actual : Text),
      ¬ HasError (if p then [violation k name "null_threshold_exceeded" "warning" message expected
        actual] else []) := by
    rintro p _ message expected actual ⟨v, hm, hs⟩
    split at hm
    · rw [List.mem_singleton.mp hm, violation] at hs
      exact warning_ne_error hs
    · cases hm
  unfold checkNullThreshold at h
  split at h
  · cases h
    exact not_hasError_nil
  · split at h
    · cases h
      exact not_hasError_nil
    · obtain ⟨limit, -, rfl⟩ := Option.map_eq_some_iff.mp h
      dsimp only
      exact hwarn _ _ _ _

omit [DecidableEq Cell] in
/-- Unexpected columns only warn. -/
theorem unexpectedColumns_hasError {promised : Entries} :
    ¬ HasError (unexpectedColumns table promised) := by
  rintro ⟨v, hm, hs⟩
  obtain ⟨c, -, rfl⟩ := List.mem_map.mp hm
  exact warning_ne_error hs

theorem checkColumn_hasError (h : checkColumn k table name (.map spec) = some vs) :
    HasError vs ↔
      table.find name = none ∨ ∃ c, table.find name = some c ∧ ColumnBreaks k c spec := by
  simp only [checkColumn] at h
  split at h
  · next hfind =>
    cases h
    exact iff_of_true ⟨_, List.mem_cons_self, rfl⟩ (.inl hfind)
  · next c hfind =>
    have hbreaks : HasError vs ↔ ColumnBreaks k c spec := by
      rw [hasError_collect h]
      simp only [List.mem_cons, List.not_mem_nil, or_false]
      constructor
      · rintro ⟨xs, hxs | hxs | hxs | hxs | hxs | hxs, herr⟩
        · obtain ⟨t, hv, hne, hd⟩ := (checkType_hasError hxs.symm).mp herr
          exact .type t hv hne hd
        · obtain ⟨hv, hn⟩ := (checkNullable_hasError hxs.symm).mp herr
          exact .notNull hv hn
        · obtain ⟨hv, wrong, hc, v, hm, hw⟩ := (checkBound_hasError hxs.symm).mp herr
          exact .minValue wrong hv hc v hm hw
        · obtain ⟨hv, wrong, hc, v, hm, hw⟩ := (checkBound_hasError hxs.symm).mp herr
          exact .maxValue wrong hv hc v hm hw
        · obtain ⟨hv, allowed, hi, v, hm, ho⟩ := (checkAllowedValues_hasError hxs.symm).mp herr
          exact .allowedValues allowed hv hi v hm ho
        · obtain ⟨hv, hd⟩ := (checkUnique_hasError hxs.symm).mp herr
          exact .unique hv hd
      · intro hb
        -- no check raises, so the one that the rule belongs to has an answer
        have hsome : (collect [checkType k name c spec, checkNullable k name c spec,
            checkMinValue k name c spec, checkMaxValue k name c spec,
            checkAllowedValues k name c spec, checkUnique k name c spec]).isSome := by
          rw [h]
          rfl
        have hall := collect_isSome_iff.mp hsome
        simp only [List.forall_mem_cons, List.not_mem_nil, false_implies, implies_true, and_true,
          Option.isSome_iff_exists] at hall
        obtain ⟨⟨x₁, h₁⟩, ⟨x₂, h₂⟩, ⟨x₃, h₃⟩, ⟨x₄, h₄⟩, ⟨x₅, h₅⟩, ⟨x₆, h₆⟩⟩ := hall
        cases hb with
        | type t hv hne hd => exact ⟨x₁, .inl h₁.symm, (checkType_hasError h₁).mpr ⟨t, hv, hne, hd⟩⟩
        | notNull hv hn =>
          exact ⟨x₂, .inr (.inl h₂.symm), (checkNullable_hasError h₂).mpr ⟨hv, hn⟩⟩
        | minValue wrong hv hc v hm hw =>
          exact ⟨x₃, .inr (.inr (.inl h₃.symm)),
            (checkBound_hasError h₃).mpr ⟨hv, wrong, hc, v, hm, hw⟩⟩
        | maxValue wrong hv hc v hm hw =>
          exact ⟨x₄, .inr (.inr (.inr (.inl h₄.symm))),
            (checkBound_hasError h₄).mpr ⟨hv, wrong, hc, v, hm, hw⟩⟩
        | allowedValues allowed hv hi v hm ho =>
          exact ⟨x₅, .inr (.inr (.inr (.inr (.inl h₅.symm)))),
            (checkAllowedValues_hasError h₅).mpr ⟨hv, allowed, hi, v, hm, ho⟩⟩
        | unique hv hd =>
          exact ⟨x₆, .inr (.inr (.inr (.inr (.inr h₆.symm)))), (checkUnique_hasError h₆).mpr ⟨hv, hd⟩⟩
    rw [hbreaks]
    constructor
    · exact fun hb => .inr ⟨c, hfind, hb⟩
    · rintro (hnone | ⟨c', hc', hb⟩)
      · rw [hfind] at hnone
        cases hnone
      · rw [hfind, Option.some.injEq] at hc'
        subst hc'
        exact hb

/-- An error is found exactly where the table breaks a rule of error severity. -/
theorem checks_hasError (h : checks k table contract = some vs) :
    HasError vs ↔ Breaks k table contract := by
  obtain ⟨promised, hp, h⟩ := Option.bind_eq_some_iff.mp h
  obtain ⟨thresholds, ht, h⟩ := Option.bind_eq_some_iff.mp h
  rw [hasError_collect h]
  have hsome := collect_isSome_iff.mp (Option.isSome_iff_exists.mpr ⟨vs, h⟩)
  simp only [List.forall_mem_cons, List.not_mem_nil, false_implies, implies_true, and_true,
    Option.isSome_iff_exists] at hsome
  obtain ⟨⟨x₁, h₁⟩, ⟨x₂, h₂⟩, ⟨x₃, h₃⟩, ⟨x₄, h₄⟩, -⟩ := hsome
  have hcolumns : HasError x₁ ↔ ∃ name spec, (name, Node.map spec) ∈ promised ∧
      (table.find name = none ∨ ∃ c, table.find name = some c ∧ ColumnBreaks k c spec) := by
    rw [hasError_collect h₁]
    constructor
    · rintro ⟨xs, hxs, herr⟩
      obtain ⟨⟨name, node⟩, hm, hc⟩ := List.mem_map.mp hxs
      cases node with
      | map spec => exact ⟨name, spec, hm, (checkColumn_hasError hc).mp herr⟩
      | _ =>
        cases hc
        exact absurd herr not_hasError_nil
    · rintro ⟨name, spec, hm, hb⟩
      have hc := collect_isSome_iff.mp (Option.isSome_iff_exists.mpr ⟨x₁, h₁⟩) _
        (List.mem_map.mpr ⟨_, hm, rfl⟩)
      obtain ⟨xs, hxs⟩ := Option.isSome_iff_exists.mp hc
      exact ⟨xs, List.mem_map.mpr ⟨_, hm, hxs⟩, (checkColumn_hasError hxs).mpr hb⟩
  have hthresholds : ¬ HasError x₂ := by
    rw [hasError_collect h₂]
    rintro ⟨xs, hxs, herr⟩
    obtain ⟨e, -, hc⟩ := List.mem_map.mp hxs
    exact checkNullThreshold_hasError hc herr
  simp only [List.mem_cons, List.not_mem_nil, or_false]
  constructor
  · rintro ⟨xs, hxs | hxs | hxs | hxs | hxs, herr⟩
    · rw [h₁, Option.some.injEq] at hxs
      subst hxs
      obtain ⟨name, spec, hm, hnone | ⟨c, hc, hb⟩⟩ := hcolumns.mp herr
      · exact .removed promised hp name spec hm hnone
      · exact .column promised hp name spec hm c hc hb
    · rw [h₂, Option.some.injEq] at hxs
      subst hxs
      exact absurd herr hthresholds
    · obtain ⟨hv, n, hn, hb⟩ := (checkRows_hasError hxs.symm).mp herr
      exact .minRows n hv hn (of_decide_eq_true hb)
    · obtain ⟨hv, n, hn, hb⟩ := (checkRows_hasError hxs.symm).mp herr
      exact .maxRows n hv hn (of_decide_eq_true hb)
    · cases hxs
      exact absurd herr unexpectedColumns_hasError
  · intro hb
    cases hb with
    | removed promised' hp' name spec hm hnone =>
      rw [hp, Option.some.injEq] at hp'
      subst hp'
      exact ⟨x₁, .inl h₁.symm, hcolumns.mpr ⟨name, spec, hm, .inl hnone⟩⟩
    | column promised' hp' name spec hm c hc hb =>
      rw [hp, Option.some.injEq] at hp'
      subst hp'
      exact ⟨x₁, .inl h₁.symm, hcolumns.mpr ⟨name, spec, hm, .inr ⟨c, hc, hb⟩⟩⟩
    | minRows n hv hn hlt =>
      exact ⟨x₃, .inr (.inr (.inl h₃.symm)),
        (checkRows_hasError h₃).mpr ⟨hv, n, hn, decide_eq_true hlt⟩⟩
    | maxRows n hv hn hlt =>
      exact ⟨x₄, .inr (.inr (.inr (.inl h₄.symm))),
        (checkRows_hasError h₄).mpr ⟨hv, n, hn, decide_eq_true hlt⟩⟩

/-! ### The status of the run -/

section Enforcement

open PipelineIQ.Lifecycle.Actors (ContractVerdict Summary persistResults hasContractViolations)

variable {Error Violation : Type}

/-- The status that `_persist_results` leaves. -/
def finalStatus (k : Kernels Cell Double) (queried stored : Bool)
    (activeContract : Option PipelineContract) (stepResults : List (Option (Table Cell)))
    (loaded : PipelineStatus) (summary : Summary Error Violation) (appliedAttempts : Nat) :
    PipelineStatus :=
  match persistResults loaded summary appliedAttempts none with
  | none => loaded
  | some assigned =>
    (checkAndEnforceContract k queried stored activeContract stepResults assigned).status

/-- The run has another end than `COMPLETED` before the contract is looked at: it is cancelled
or failed, a check inside of it has found violations, or it is healed. -/
def Settled (loaded : PipelineStatus) (summary : Summary Error Violation) (appliedAttempts : Nat) :
    Prop :=
  loaded = .CANCELLED ∨ summary.status ≠ .COMPLETED ∨ hasContractViolations summary = true ∨
    loaded = .HEALED ∨ appliedAttempts > 0

/-- What the run's lifecycle is told about the contract. -/
def verdict (k : Kernels Cell Double) (queried stored : Bool)
    (activeContract : Option PipelineContract) (stepResults : List (Option (Table Cell))) :
    Option ContractVerdict :=
  if !queried then none
  else activeContract.bind fun contract => stepResults.getLast?.bind fun outputTable =>
    (validateAgainstContract k outputTable contract.yamlContent).bind fun validation =>
      if validation.passed || stored then some
        { passed := validation.passed
          shouldBlockRun :=
            (buildBreachReport validation contract.severity.value).shouldBlockRun }
      else none

/-- The check is the one that the lifecycle of a run is modelled with. -/
theorem checkAndEnforceContract_verdict {queried stored : Bool}
    {activeContract : Option PipelineContract} {stepResults : List (Option (Table Cell))}
    {status : PipelineStatus} {summary : Summary Error Violation}
    (h : summary.contractViolations.isEmpty = stepResults.isEmpty) :
    (checkAndEnforceContract k queried stored activeContract stepResults status).status =
      Lifecycle.Actors.checkAndEnforceContract
        (verdict k queried stored activeContract stepResults) summary status := by
  unfold checkAndEnforceContract Lifecycle.Actors.checkAndEnforceContract verdict
  rw [h]
  cases queried with
  | false => rfl
  | true =>
    cases activeContract with
    | none => rfl
    | some contract =>
      cases hlast : stepResults.getLast? with
      | none => rfl
      | some outputTable =>
        have hne : stepResults.isEmpty = false := by
          cases stepResults with
          | nil => cases hlast
          | cons _ _ => rfl
        rw [hne]
        dsimp only [Bool.not_true, Option.bind_some]
        cases validateAgainstContract k outputTable contract.yamlContent with
        | none => rfl
        | some validation =>
          cases hpassed : validation.passed <;> cases stored <;> simp [hpassed]
          split
          · rfl
          · split <;> rfl

theorem persistResults_completed_iff {loaded : PipelineStatus}
    {summary : Summary Error Violation} {appliedAttempts : Nat} :
    persistResults loaded summary appliedAttempts none = some .COMPLETED ↔
      ¬ Settled loaded summary appliedAttempts := by
  unfold persistResults Settled
  dsimp only [Lifecycle.Actors.checkAndEnforceContract]
  by_cases hc : loaded = .CANCELLED
  · simp [hc]
  · by_cases hs : summary.status = .COMPLETED
    · by_cases hv : hasContractViolations summary = true
      · simp [hc, hs, hv]
      · by_cases hh : loaded = .HEALED ∨ appliedAttempts > 0
        · simp [hc, hs, hv, hh]
        · simp [hc, hs, hv, hh]
    · simp [hc, hs]

theorem checkAndEnforceContract_ne_completed {queried stored : Bool}
    {activeContract : Option PipelineContract} {stepResults : List (Option (Table Cell))}
    {status : PipelineStatus} (h : status ≠ .COMPLETED) :
    (checkAndEnforceContract k queried stored activeContract stepResults status).status ≠
      .COMPLETED := by
  unfold checkAndEnforceContract
  split
  · exact h
  · split
    · split
      · exact h
      · split
        · exact h
        · split
          · exact h
          · split
            · exact h
            · split
              · intro he
                cases he
              · exact h
    · exact h

omit [DecidableEq Cell] in
theorem Breaks.nonempty (h : Breaks k table contract) : contract ≠ [] := by
  rintro rfl
  have hnone : ∀ field, mapping [] field = some [] := fun _ => rfl
  cases h with
  | removed promised hp name spec hm =>
    rw [hnone] at hp
    cases hp
    cases hm
  | column promised hp name spec hm =>
    rw [hnone] at hp
    cases hp
    cases hm
  | minRows n hv => exact hv rfl
  | maxRows n hv => exact hv rfl

/-- A report on an error under a blocking contract blocks the run. -/
theorem buildBreachReport_blocks {vs : List ContractViolation} (h : HasError vs) :
    (buildBreachReport { passed := vs.isEmpty, violations := vs }
      ContractSeverity.BLOCK.value).shouldBlockRun = true := by
  obtain ⟨v, hm, hs⟩ := h
  have hne : vs.isEmpty = false := by
    cases vs with
    | nil => cases hm
    | cons _ _ => rfl
  have hcount : 0 < vs.countP fun v => v.severity == "error" :=
    List.countP_pos_iff.mpr ⟨v, hm, beq_iff_eq.mpr hs⟩
  unfold buildBreachReport
  simp [hne, hcount, ContractSeverity.value]

/-- A completed run of a violated blocking contract is stopped exactly where the check reaches
its end. -/
theorem checkAndEnforceContract_blocks_iff {queried stored : Bool}
    {activeContract : PipelineContract} {stepResults : List (Option (Table Cell))}
    (hlast : stepResults.getLast? = some (some table)) (hblock : activeContract.severity = .BLOCK)
    (hyaml : activeContract.yamlContent = .document (.map contract))
    (hbreaks : Breaks k table contract) :
    (checkAndEnforceContract k queried stored (some activeContract) stepResults .COMPLETED).status ≠
      .COMPLETED ↔ queried = true ∧ stored = true ∧ Evaluable k table contract := by
  have hvalidate : validateAgainstContract k (some table) activeContract.yamlContent =
      (checks k table contract).map fun violations => { passed := violations.isEmpty, violations } := by
    rw [hyaml, validateAgainstContract, parseContract, Option.bind_some,
      if_neg (by simpa using hbreaks.nonempty)]
  rw [← checks_isSome]
  unfold checkAndEnforceContract
  cases queried with
  | false => simp
  | true =>
    rw [hlast]
    dsimp only
    rw [hvalidate, hblock]
    cases hc : checks k table contract with
    | none => simp
    | some vs =>
      have herr := (checks_hasError hc).mpr hbreaks
      have hempty : vs.isEmpty = false := by
        obtain ⟨v, hm, -⟩ := herr
        cases vs with
        | nil => cases hm
        | cons _ _ => rfl
      have hreport := buildBreachReport_blocks herr
      rw [hempty] at hreport
      cases stored with
      | false => simp [hempty]
      | true => simp [hempty, hreport]

end Enforcement

section Examples

/-- Numbers compare with numbers, and texts with nothing. -/
def smallKernels : Kernels String Nat where
  print _ := []
  less dtype bound := match dtype.arrowClass, bound with
    | .integer, .int n => some fun v => decide ((v.toInt?.getD 0) < n)
    | _, _ => none
  greater _ _ := none
  hasUnique _ := true
  hasCountDistinct _ := true
  float _ := none
  percentage nulls rows := 100 * nulls / rows
  exceeds := fun rate limit => decide (rate > limit)
  oneDecimal _ := []
  strCell v := (v.getD "None").toList
  strCells _ := []

/-- An integer column with a null, and a text column. -/
def output : Table String where
  columns := [("a".toList, ⟨⟨.integer, "int64".toList⟩, [none, some "1"]⟩),
    ("b".toList, ⟨⟨.string, "string".toList⟩, [some "x", some "y"]⟩)]
  numRows := 2
  names := by decide
  rows := by decide

def notNullRule : Entries := [(key "nullable", .bool false)]

def oneRule : Entries := [(key "columns", .map [(key "a", .map notNullRule), (key "b", .map [])])]

/-- The same contract with a minimum for the text column. -/
def twoRules : Entries :=
  [(key "columns", .map [(key "a", .map notNullRule),
    (key "b", .map [(key "min_value", .int 0)])])]

def blocking (contract : Entries) : PipelineContract :=
  { yamlContent := .document (.map contract), severity := .BLOCK, consumers := [] }

def success : Lifecycle.Actors.Summary String String :=
  { status := .COMPLETED, contractViolations := [[]] }

theorem breaks_oneRule : Breaks smallKernels output oneRule :=
  .column _ rfl (key "a") notNullRule List.mem_cons_self _ rfl (.notNull rfl (by decide))

theorem breaks_twoRules : Breaks smallKernels output twoRules :=
  .column _ rfl (key "a") notNullRule List.mem_cons_self _ rfl (.notNull rfl (by decide))

end Examples

end PipelineIQ.Contracts.FailClosed
