import PipelineIQ.Frontend.EmittedSteps

namespace PipelineIQ.Frontend.FieldKinds

open PipelineIQ.Lib PipelineIQ.Lib.Strings PipelineIQ.Lib.Yaml PipelineIQ.Pipeline.Parser
open PipelineIQ.Frontend.StepNames PipelineIQ.Frontend.YamlGraph PipelineIQ.Frontend.EmittedSteps

/-! ### Texts -/

/-- What stands between the quotes that a text is all within. -/
def unquote : Text → Option Text
  | [] => none
  | first :: rest =>
    let inner := rest.dropLast
    if (first = '"' ∨ first = '\'') ∧ (first :: rest).getLast? = some first ∧ inner ≠ [] ∧
        first ∉ inner then some inner
    else none

/-- Between the quotes of a text there are no white space at the ends and no further quotes. -/
def SettledText (t : Text) : Prop :=
  ∀ inner, unquote (trim t) = some inner → trim inner = inner ∧ unquote inner = none

variable {t u : Text} {v : Yaml.Node}

theorem sanitizeYamlValue_eq (t : Text) :
    sanitizeYamlValue t = (unquote (trim t)).getD (trim t) := by
  unfold sanitizeYamlValue
  cases htrim : trim t with
  | nil => rfl
  | cons first rest =>
    dsimp only [unquote]
    split <;> rfl

theorem trim_trim (t : Text) : trim (trim t) = trim t := by
  apply drop_both_eq_self
  · intro c hc
    obtain ⟨rest, hrest⟩ := List.rdropWhile_prefix jsSpace (t.dropWhile jsSpace)
    have hhead := List.head?_dropWhile_not jsSpace t
    change trim t ++ rest = _ at hrest
    rw [← hrest, List.head?_append, hc, Option.some_or] at hhead
    exact hhead
  · intro c hc
    have hne : trim t ≠ [] := by
      intro hnil
      rw [hnil] at hc
      cases hc
    rw [List.getLast?_eq_some_getLast hne, Option.some.injEq] at hc
    exact hc ▸ Bool.eq_false_iff.mpr (List.rdropWhile_last_not jsSpace _ hne)

theorem length_trim (t : Text) : (trim t).length ≤ t.length :=
  ((List.rdropWhile_prefix _ _).length_le).trans (List.dropWhile_suffix _).length_le

theorem length_unquote (h : unquote t = some u) : u ≠ [] ∧ u.length < t.length := by
  cases t with
  | nil => cases h
  | cons first rest =>
    dsimp only [unquote] at h
    split at h
    · next hq =>
      cases h
      refine ⟨hq.2.2.1, ?_⟩
      rw [List.length_dropLast, List.length_cons]
      omega
    · cases h

/-- A text is left as it is exactly where it is trimmed and without quotes. -/
theorem sanitizeYamlValue_eq_self : sanitizeYamlValue t = t ↔ trim t = t ∧ unquote t = none := by
  rw [sanitizeYamlValue_eq]
  constructor
  · intro h
    cases hq : unquote (trim t) with
    | none =>
      rw [hq, Option.getD_none] at h
      rw [h] at hq
      exact ⟨h, hq⟩
    | some inner =>
      rw [hq, Option.getD_some] at h
      have hlt := (length_unquote hq).2
      rw [h] at hlt
      exact absurd (length_trim t) (not_le.mpr hlt)
  · rintro ⟨htrim, hq⟩
    rw [htrim, hq, Option.getD_none]

theorem settledText_iff : SettledText t ↔
    sanitizeYamlValue (sanitizeYamlValue t) = sanitizeYamlValue t := by
  rw [sanitizeYamlValue_eq_self, sanitizeYamlValue_eq]
  unfold SettledText
  cases hq : unquote (trim t) with
  | none =>
    rw [Option.getD_none]
    refine iff_of_true ?_ ⟨trim_trim t, hq⟩
    rintro inner ⟨⟩
  | some inner =>
    rw [Option.getD_some]
    constructor
    · exact fun h => h inner rfl
    · rintro h _ ⟨⟩
      exact h

theorem sanitizeYamlValue_eq_nil : sanitizeYamlValue t = [] ↔ trim t = [] := by
  rw [sanitizeYamlValue_eq]
  cases hq : unquote (trim t) with
  | none => rfl
  | some inner =>
    obtain ⟨hne, hlt⟩ := length_unquote hq
    refine iff_of_false hne ?_
    intro hnil
    rw [hnil] at hlt
    exact absurd hlt (Nat.not_lt_zero _)

theorem settledText_of_trim (h : trim t = []) : SettledText t := by
  intro inner hinner
  rw [h] at hinner
  cases hinner

theorem sanitizeYamlValue_trim (t : Text) : sanitizeYamlValue (trim t) = sanitizeYamlValue t := by
  rw [sanitizeYamlValue_eq, trim_trim, ← sanitizeYamlValue_eq]

/-! ### Values -/

def SettledItem : Yaml.Node → Prop
  | .text t => SettledText t
  | _ => True

mutual

/-- The texts of a value, those of its array and those of its objects, but not of objects in an
array. -/
def SettledValue : Yaml.Node → Prop
  | .text t => SettledText t
  | .seq items => ∀ item ∈ items, SettledItem item
  | .map entries => SettledEntries entries
  | .null => True
  | .bool _ => True
  | .int _ => True
  | .float _ => True

def SettledEntries : List (Key × Yaml.Node) → Prop
  | [] => True
  | (_, v) :: rest => SettledValue v ∧ SettledEntries rest

end

theorem settledItem_iff : SettledItem v ↔ sanitizeItem (sanitizeItem v) = sanitizeItem v := by
  cases v with
  | text t =>
    rw [SettledItem, sanitizeItem, sanitizeItem, settledText_iff, Yaml.Node.text.injEq]
  | _ => exact iff_of_true trivial rfl

theorem map_map_eq_iff {α : Type} {f : α → α} {xs : List α} :
    (xs.map f).map f = xs.map f ↔ ∀ x ∈ xs, f (f x) = f x := by
  rw [List.map_map, List.map_inj_left]
  rfl

mutual

theorem settledValue_iff : ∀ v : Yaml.Node,
    SettledValue v ↔ sanitizeValue (sanitizeValue v) = sanitizeValue v
  | .text t => by
    rw [SettledValue, sanitizeValue, sanitizeValue, settledText_iff, Yaml.Node.text.injEq]
  | .seq items => by
    rw [SettledValue, sanitizeValue, sanitizeValue, Yaml.Node.seq.injEq, map_map_eq_iff]
    exact forall₂_congr fun _ _ => settledItem_iff
  | .map entries => by
    rw [SettledValue, sanitizeValue, sanitizeValue, Yaml.Node.map.injEq]
    exact settledEntries_iff entries
  | .null => by simp only [SettledValue, sanitizeValue]
  | .bool b => by simp only [SettledValue, sanitizeValue]
  | .int n => by simp only [SettledValue, sanitizeValue]
  | .float q => by simp only [SettledValue, sanitizeValue]

theorem settledEntries_iff : ∀ entries : List (Key × Yaml.Node),
    SettledEntries entries ↔ sanitizeConfig (sanitizeConfig entries) = sanitizeConfig entries
  | [] => by simp only [SettledEntries, sanitizeConfig]
  | (k, v) :: rest => by
    rw [SettledEntries, sanitizeConfig, sanitizeConfig, List.cons.injEq, Prod.mk.injEq,
      settledValue_iff v, settledEntries_iff rest]
    simp only [true_and]

end

/-! ### Kinds of fields -/

/-- How a field of a configuration is written: a text, one with a fallback, the texts of an array,
any value, a number, an array or nothing, a text or nothing, and the three kinds of objects. -/
inductive FieldKind where
  | text
  | textOr (fallback : String)
  | texts
  | any (fallback : Yaml.Node)
  | number (fallback : Int)
  | optionalTexts
  | optionalText
  | aggregations
  | rules
  | mapping

def writtenAggregation (agg : Yaml.Node) : Option Yaml.Node :=
  let column := trim (asString (field (toRecord (some agg)) "column"))
  let function := trim (asString (field (toRecord (some agg)) "function"))
  if column = [] ∨ function = [] then none
  else some (Yaml.Node.map (record [("column", .text column), ("function", .text function)]))

def writtenRule (entry : Yaml.Node) : Option Yaml.Node :=
  let rule := toRecord (some entry)
  let check := trim (asString (field rule "check"))
  if check = [] then none
  else some (Yaml.Node.map (record ([("check", .text check),
      ("column", .text (trim (asString (field rule "column")))),
      ("severity", orText (trim (asString (field rule "severity"))) "warning")] ++
    match field rule "value" with
    | some value => [("value", value)]
    | none => [])))

def writtenName : Key × Yaml.Node → Option (Key × Yaml.Node)
  | (.text column, .text name) =>
    if trim column = [] ∨ trim name = [] then none else some (.text column, .text (trim name))
  | _ => none

namespace FieldKind

/-- The value that a field gets, before it is sanitised. -/
def write : FieldKind → Option Yaml.Node → Yaml.Node
  | .text, v => .text (asString v)
  | .textOr fallback, v => orText (asString v) fallback
  | .texts, v => asStringArray v
  | .any fallback, v => nullish v fallback
  | .number fallback, v => if isNumber v then v.getD .null else .int fallback
  | .optionalTexts, v => match v with
    | some (.seq items) => asStringArray (some (.seq items))
    | _ => .null
  | .optionalText, v => if jsTruthy v then .text (asString v) else .null
  | .aggregations, v => .seq ((asArray v).filterMap writtenAggregation)
  | .rules, v => .seq ((asArray v).filterMap writtenRule)
  | .mapping, v => .map ((toRecord v).filterMap writtenName)

def Settled : FieldKind → Option Yaml.Node → Prop
  | .text, v => SettledText (asString v)
  | .textOr _, v => asString v ≠ [] → trim (asString v) ≠ [] ∧ SettledText (asString v)
  | .texts, v => ∀ item ∈ asArray v, SettledItem item
  | .any fallback, v => SettledValue (nullish v fallback)
  | .number _, _ => True
  | .optionalTexts, v => ∀ item ∈ asArray v, SettledItem item
  | .optionalText, v => jsTruthy v = true → trim (asString v) ≠ [] ∧ SettledText (asString v)
  | .aggregations, _ => True
  | .rules, _ => True
  | .mapping, v => ∀ column name, (Key.text column, Yaml.Node.text name) ∈ toRecord v →
      trim column ≠ [] → SettledText name

end FieldKind


namespace FieldKind

/-- The value that a field is written with. -/
def emit (k : FieldKind) (v : Option Yaml.Node) : Yaml.Node := sanitizeValue (k.write v)

/-- A fallback is written as it is. -/
def Proper : FieldKind → Prop
  | .textOr fallback => fallback.toList ≠ [] ∧ sanitizeYamlValue fallback.toList = fallback.toList
  | .any fallback => fallback.isText = true ∨ isNumber (some fallback) = true
  | _ => True

instance : DecidablePred Proper
  | .textOr _ => inferInstanceAs (Decidable (_ ∧ _))
  | .any _ => inferInstanceAs (Decidable (_ ∨ _))
  | .text | .texts | .number _ | .optionalTexts | .optionalText | .aggregations | .rules | .mapping =>
    .isTrue trivial

end FieldKind

theorem asString_text (t : Text) : asString (some (.text t)) = t := rfl

theorem settled_text {v : Option Yaml.Node} : SettledText (asString v) ↔
    FieldKind.text.emit (some (FieldKind.text.emit v)) = FieldKind.text.emit v := by
  simp only [FieldKind.emit, FieldKind.write, sanitizeValue, asString_text, Yaml.Node.text.injEq]
  exact settledText_iff

theorem settled_textOr {v : Option Yaml.Node} {fallback : String}
    (hproper : (FieldKind.textOr fallback).Proper) : (FieldKind.textOr fallback).Settled v ↔
      (FieldKind.textOr fallback).emit (some ((FieldKind.textOr fallback).emit v)) =
        (FieldKind.textOr fallback).emit v := by
  obtain ⟨hne, hclean⟩ := hproper
  simp only [FieldKind.emit, FieldKind.write, FieldKind.Settled, orText, sanitizeValue, asString_text,
    Yaml.Node.text.injEq]
  by_cases hempty : asString v = []
  · rw [if_pos hempty, hclean, if_neg hne, hclean]
    exact iff_of_true (absurd hempty) rfl
  · rw [if_neg hempty]
    by_cases htrim : trim (asString v) = []
    · rw [if_pos (sanitizeYamlValue_eq_nil.mpr htrim), hclean, sanitizeYamlValue_eq_nil.mpr htrim]
      exact iff_of_false (fun h => (h hempty).1 htrim) hne
    · rw [if_neg (sanitizeYamlValue_eq_nil.not.mpr htrim), ← settledText_iff]
      exact ⟨fun h => (h hempty).2, fun h _ => ⟨htrim, h⟩⟩

theorem isText_sanitizeItem (v : Yaml.Node) : (sanitizeItem v).isText = v.isText := by
  cases v <;> rfl

theorem asStringArray_eq (v : Option Yaml.Node) :
    asStringArray v = .seq ((asArray v).filter Yaml.Node.isText) := by
  cases v with
  | none => rfl
  | some v => cases v <;> rfl

/-- All texts of an array stay texts. -/
theorem emit_texts (items : List Yaml.Node) :
    sanitizeValue (asStringArray (some (sanitizeValue (.seq (items.filter Yaml.Node.isText))))) =
        sanitizeValue (.seq (items.filter Yaml.Node.isText)) ↔ ∀ item ∈ items, SettledItem item := by
  have hkept : ((items.filter Yaml.Node.isText).map sanitizeItem).filter Yaml.Node.isText =
      (items.filter Yaml.Node.isText).map sanitizeItem := by
    rw [List.filter_eq_self, List.forall_mem_map]
    intro item hitem
    rw [isText_sanitizeItem]
    exact (List.mem_filter.mp hitem).2
  have hinner : sanitizeValue (.seq (items.filter Yaml.Node.isText)) =
      .seq ((items.filter Yaml.Node.isText).map sanitizeItem) := by
    rw [sanitizeValue]
  rw [hinner, asStringArray_eq, asArray, hkept, sanitizeValue, Yaml.Node.seq.injEq, map_map_eq_iff]
  constructor
  · intro h item hitem
    cases item with
    | text t => exact settledItem_iff.mpr (h _ (List.mem_filter.mpr ⟨hitem, rfl⟩))
    | _ => trivial
  · exact fun h item hitem => settledItem_iff.mp (h item (List.mem_filter.mp hitem).1)

theorem settled_texts {v : Option Yaml.Node} : FieldKind.texts.Settled v ↔
    FieldKind.texts.emit (some (FieldKind.texts.emit v)) = FieldKind.texts.emit v := by
  rw [FieldKind.emit, FieldKind.emit, FieldKind.write, FieldKind.write, asStringArray_eq v, emit_texts]
  rfl

theorem nullish_of_ne_null {v : Yaml.Node} (h : v ≠ .null) (fallback : Yaml.Node) :
    nullish (some v) fallback = v := by
  cases v <;> first | exact absurd rfl h | rfl

theorem nullish_ne_null {fallback : Yaml.Node} (h : fallback ≠ .null) (v : Option Yaml.Node) :
    nullish v fallback ≠ .null := by
  cases v with
  | none => exact h
  | some v =>
    cases v with
    | null => exact h
    | _ => rintro ⟨⟩

theorem sanitizeValue_ne_null {v : Yaml.Node} (h : v ≠ .null) : sanitizeValue v ≠ .null := by
  cases v with
  | null => exact absurd rfl h
  | _ =>
    rw [sanitizeValue]
    rintro ⟨⟩

theorem settled_any {v : Option Yaml.Node} {fallback : Yaml.Node}
    (hproper : (FieldKind.any fallback).Proper) : (FieldKind.any fallback).Settled v ↔
      (FieldKind.any fallback).emit (some ((FieldKind.any fallback).emit v)) =
        (FieldKind.any fallback).emit v := by
  have hfallback : fallback ≠ .null := by
    rintro rfl
    cases hproper with
    | inl h => cases h
    | inr h => cases h
  simp only [FieldKind.emit, FieldKind.write, FieldKind.Settled]
  rw [nullish_of_ne_null (sanitizeValue_ne_null (nullish_ne_null hfallback v))]
  exact settledValue_iff _

theorem settled_number {v : Option Yaml.Node} (fallback : Int) :
    (FieldKind.number fallback).emit (some ((FieldKind.number fallback).emit v)) =
      (FieldKind.number fallback).emit v := by
  have hkept : ∀ w : Yaml.Node, isNumber (some w) = true →
      (FieldKind.number fallback).emit (some w) = w := by
    intro w hw
    rw [FieldKind.emit, FieldKind.write, if_pos hw, Option.getD_some, sanitizeValue_number hw]
  by_cases hv : isNumber v = true
  · cases v with
    | none => cases hv
    | some v => rw [hkept v hv, hkept v hv]
  · have hwritten : (FieldKind.number fallback).emit v = .int fallback := by
      rw [FieldKind.emit, FieldKind.write, if_neg hv, sanitizeValue]
    rw [hwritten, hkept _ rfl]

theorem settled_optionalTexts {v : Option Yaml.Node} : FieldKind.optionalTexts.Settled v ↔
    FieldKind.optionalTexts.emit (some (FieldKind.optionalTexts.emit v)) =
      FieldKind.optionalTexts.emit v := by
  by_cases hseq : ∃ items, v = some (.seq items)
  · obtain ⟨items, rfl⟩ := hseq
    have hwritten : FieldKind.optionalTexts.emit (some (.seq items)) =
        sanitizeValue (.seq (items.filter Yaml.Node.isText)) := rfl
    have hagain : ∀ items, FieldKind.optionalTexts.emit (some (sanitizeValue (.seq items))) =
        sanitizeValue (asStringArray (some (sanitizeValue (.seq items)))) := by
      intro items
      rw [sanitizeValue]
      rfl
    rw [hwritten, hagain, emit_texts]
    rfl
  · have hwritten : FieldKind.optionalTexts.emit v = .null := by
      rw [FieldKind.emit, FieldKind.write]
      · rw [sanitizeValue]
      · exact fun items h => hseq ⟨items, h⟩
    have hnone : asArray v = [] := by
      rw [asArray]
      exact fun items h => hseq ⟨items, h⟩
    rw [hwritten, FieldKind.Settled, hnone]
    refine iff_of_true (by rintro item ⟨⟩) ?_
    change sanitizeValue .null = _
    rw [sanitizeValue]

theorem settled_optionalText {v : Option Yaml.Node} : FieldKind.optionalText.Settled v ↔
    FieldKind.optionalText.emit (some (FieldKind.optionalText.emit v)) =
      FieldKind.optionalText.emit v := by
  have hnull : ∀ v, ¬ jsTruthy v = true → FieldKind.optionalText.emit v = .null := by
    intro v hv
    rw [FieldKind.emit, FieldKind.write, if_neg hv, sanitizeValue]
  have htext : ∀ v, jsTruthy v = true →
      FieldKind.optionalText.emit v = .text (sanitizeYamlValue (asString v)) := by
    intro v hv
    rw [FieldKind.emit, FieldKind.write, if_pos hv, sanitizeValue]
  have htruthy : ∀ t : Text, jsTruthy (some (.text t)) = true ↔ t ≠ [] := by
    intro t
    cases t <;> simp [jsTruthy, Yaml.Node.truthy]
  rw [FieldKind.Settled]
  by_cases hv : jsTruthy v = true
  · rw [htext v hv]
    by_cases htrim : trim (asString v) = []
    · rw [hnull _ (by rw [htruthy, not_not, sanitizeYamlValue_eq_nil, htrim])]
      exact iff_of_false (fun h => (h hv).1 htrim) (by rintro ⟨⟩)
    · rw [htext _ (by rwa [htruthy, ne_eq, sanitizeYamlValue_eq_nil]), asString_text,
        Yaml.Node.text.injEq, ← settledText_iff]
      exact ⟨fun h => (h hv).2, fun h _ => ⟨htrim, h⟩⟩
  · rw [hnull v hv, hnull (some .null) (by decide)]
    exact iff_of_true (fun h => absurd h hv) rfl

theorem filterMap_eq_self {α : Type} {f : α → Option α} {xs : List α} :
    xs.filterMap f = xs ↔ ∀ x ∈ xs, f x = some x := by
  have h := List.filterMap_eq_map_iff_forall_eq_some (f := f) (g := id) (l := xs)
  rwa [List.map_id] at h

theorem filterMap_filterMap_eq {α : Type} {f : α → Option α} (h : ∀ x y, f x = some y → f y = some y)
    (xs : List α) : (xs.filterMap f).filterMap f = xs.filterMap f := by
  rw [filterMap_eq_self]
  intro y hy
  obtain ⟨x, -, hx⟩ := List.mem_filterMap.mp hy
  exact h x y hx

theorem field_record (fields : List (String × Yaml.Node)) (name : String) :
    field (record fields) name = Dict.find name fields := find_record fields name

theorem toRecord_map (entries : Entries) : toRecord (some (.map entries)) = entries := rfl

theorem writtenAggregation_record (column function : Text) :
    writtenAggregation (.map (record
        [("column", .text (trim column)), ("function", .text (trim function))])) =
      if trim column = [] ∨ trim function = [] then none
      else some (.map (record [("column", .text (trim column)), ("function", .text (trim function))])) := by
  simp only [writtenAggregation, toRecord_map, field_record, Dict.find, reduceIte, String.reduceEq,
    asString_text, trim_trim]

theorem writtenAggregation_again (v w : Yaml.Node) (h : writtenAggregation v = some w) :
    writtenAggregation w = some w := by
  unfold writtenAggregation at h
  dsimp only at h
  split at h
  · cases h
  · next hne =>
    cases h
    rw [writtenAggregation_record, if_neg hne]

theorem orText_again (t : Text) (fallback : String) (h : trim fallback.toList = fallback.toList) :
    orText (trim (asString (some (orText (trim t) fallback)))) fallback = orText (trim t) fallback := by
  by_cases ht : trim t = []
  · have hwritten : orText (trim t) fallback = .text fallback.toList := by rw [orText, if_pos ht]
    rw [hwritten, asString_text, h, orText]
    split <;> rfl
  · have hwritten : orText (trim t) fallback = .text (trim t) := by rw [orText, if_neg ht]
    rw [hwritten, asString_text, trim_trim, orText, if_neg ht]

theorem writtenRule_record (check column severity : Text) (rest : List (String × Yaml.Node))
    (hrest : rest = [] ∨ ∃ value, rest = [("value", value)]) :
    writtenRule (.map (record ([("check", .text (trim check)), ("column", .text (trim column)),
        ("severity", orText (trim severity) "warning")] ++ rest))) =
      if trim check = [] then none
      else some (.map (record ([("check", .text (trim check)), ("column", .text (trim column)),
        ("severity", orText (trim severity) "warning")] ++ rest))) := by
  obtain rfl | ⟨value, rfl⟩ := hrest <;>
    simp only [writtenRule, toRecord_map, field_record, Dict.find, reduceIte, List.cons_append,
      List.nil_append, List.append_nil, String.reduceEq, asString_text, trim_trim,
      orText_again severity "warning" (by decide)]

theorem writtenRule_again (v w : Yaml.Node) (h : writtenRule v = some w) :
    writtenRule w = some w := by
  unfold writtenRule at h
  dsimp only at h
  split at h
  · cases h
  · next hne =>
    cases h
    rw [writtenRule_record, if_neg hne]
    split
    · exact .inr ⟨_, rfl⟩
    · exact .inl rfl

theorem sanitizeItem_written {v w : Yaml.Node}
    (h : writtenAggregation v = some w ∨ writtenRule v = some w) : sanitizeItem w = w := by
  cases h with
  | inl h =>
    unfold writtenAggregation at h
    dsimp only at h
    split at h <;> cases h
    rfl
  | inr h =>
    unfold writtenRule at h
    dsimp only at h
    split at h <;> cases h
    rfl

theorem sanitizeValue_filterMap {f : Yaml.Node → Option Yaml.Node}
    (h : ∀ v w, f v = some w → sanitizeItem w = w) (items : List Yaml.Node) :
    sanitizeValue (.seq (items.filterMap f)) = .seq (items.filterMap f) := by
  have hkept : ∀ w ∈ items.filterMap f, sanitizeItem w = id w := by
    intro w hw
    obtain ⟨v, -, hv⟩ := List.mem_filterMap.mp hw
    exact h v w hv
  rw [sanitizeValue, List.map_congr_left hkept, List.map_id]

theorem settled_aggregations (v : Option Yaml.Node) :
    FieldKind.aggregations.emit (some (FieldKind.aggregations.emit v)) = FieldKind.aggregations.emit v := by
  have hwritten : ∀ v, FieldKind.aggregations.emit v = .seq ((asArray v).filterMap writtenAggregation) :=
    fun v => sanitizeValue_filterMap (fun _ _ h => sanitizeItem_written (.inl h)) _
  rw [hwritten v, hwritten, asArray, filterMap_filterMap_eq writtenAggregation_again]

theorem settled_rules (v : Option Yaml.Node) :
    FieldKind.rules.emit (some (FieldKind.rules.emit v)) = FieldKind.rules.emit v := by
  have hwritten : ∀ v, FieldKind.rules.emit v = .seq ((asArray v).filterMap writtenRule) :=
    fun v => sanitizeValue_filterMap (fun _ _ h => sanitizeItem_written (.inr h)) _
  rw [hwritten v, hwritten, asArray, filterMap_filterMap_eq writtenRule_again]

theorem sanitizeConfig_eq_map (config : Entries) :
    sanitizeConfig config = config.map fun e => (e.1, sanitizeValue e.2) := by
  induction config with
  | nil => rw [sanitizeConfig, List.map_nil]
  | cons e rest ih =>
    obtain ⟨k, v⟩ := e
    rw [sanitizeConfig, ih, List.map_cons]

/-- A name of a mapping as it is written. -/
def emittedName (e : Key × Yaml.Node) : Option (Key × Yaml.Node) :=
  (writtenName e).map fun e => (e.1, sanitizeValue e.2)

theorem emittedName_text (column name : Text) : emittedName (.text column, .text name) =
    if trim column = [] ∨ trim name = [] then none
    else some (.text column, .text (sanitizeYamlValue name)) := by
  have hwritten : writtenName (.text column, .text name) = if trim column = [] ∨ trim name = [] then none
      else some (.text column, .text (trim name)) := rfl
  rw [emittedName, hwritten]
  split
  · rfl
  · rw [Option.map_some, sanitizeValue, sanitizeYamlValue_trim]

theorem emittedName_eq_some {e e' : Key × Yaml.Node} (h : emittedName e = some e') :
    ∃ column name, e = (.text column, .text name) ∧ trim column ≠ [] ∧ trim name ≠ [] ∧
      e' = (.text column, .text (sanitizeYamlValue name)) := by
  obtain ⟨w, hw, rfl⟩ := Option.map_eq_some_iff.mp h
  unfold writtenName at hw
  split at hw
  · next column name =>
    split at hw
    · cases hw
    · next hne =>
      cases hw
      rw [not_or] at hne
      refine ⟨column, name, rfl, hne.1, hne.2, ?_⟩
      rw [sanitizeValue, sanitizeYamlValue_trim]
  · cases hw

/-- A name is written again exactly where it is settled. -/
theorem emittedName_again {column name : Text} (hcolumn : trim column ≠ []) (hname : trim name ≠ []) :
    emittedName (.text column, .text (sanitizeYamlValue name)) =
        some (.text column, .text (sanitizeYamlValue name)) ↔ SettledText name := by
  rw [emittedName_text, settledText_iff]
  by_cases hblank : trim (sanitizeYamlValue name) = []
  · rw [if_pos (.inr hblank), sanitizeYamlValue_eq_nil.mpr hblank]
    refine iff_of_false (by rintro ⟨⟩) ?_
    intro h
    exact hname (sanitizeYamlValue_eq_nil.mp h.symm)
  · rw [if_neg (not_or.mpr ⟨hcolumn, hblank⟩)]
    simp only [Option.some.injEq, Prod.mk.injEq, true_and, Yaml.Node.text.injEq]

theorem settled_mapping {v : Option Yaml.Node} : FieldKind.mapping.Settled v ↔
    FieldKind.mapping.emit (some (FieldKind.mapping.emit v)) = FieldKind.mapping.emit v := by
  have hwritten : ∀ v, FieldKind.mapping.emit v = .map ((toRecord v).filterMap emittedName) := by
    intro v
    rw [FieldKind.emit, FieldKind.write, sanitizeValue, sanitizeConfig_eq_map, List.map_filterMap]
    rfl
  rw [hwritten v, hwritten, toRecord_map, Yaml.Node.map.injEq, filterMap_eq_self, FieldKind.Settled]
  constructor
  · intro h e' he'
    obtain ⟨e, he, hwrite⟩ := List.mem_filterMap.mp he'
    obtain ⟨column, name, rfl, hcolumn, hname, rfl⟩ := emittedName_eq_some hwrite
    exact (emittedName_again hcolumn hname).mpr (h column name he hcolumn)
  · intro h column name he hcolumn
    by_cases hname : trim name = []
    · exact settledText_of_trim hname
    · refine (emittedName_again hcolumn hname).mp (h _ (List.mem_filterMap.mpr ⟨_, he, ?_⟩))
      rw [emittedName_text, if_neg (not_or.mpr ⟨hcolumn, hname⟩)]

/-- A field is written the same again exactly where what it held was settled. -/
theorem FieldKind.settled_iff {k : FieldKind} (hproper : k.Proper) (v : Option Yaml.Node) :
    k.Settled v ↔ k.emit (some (k.emit v)) = k.emit v := by
  cases k with
  | text => exact settled_text
  | textOr fallback => exact settled_textOr hproper
  | texts => exact settled_texts
  | any fallback => exact settled_any hproper
  | number fallback => exact iff_of_true trivial (settled_number fallback)
  | optionalTexts => exact settled_optionalTexts
  | optionalText => exact settled_optionalText
  | aggregations => exact iff_of_true trivial (settled_aggregations v)
  | rules => exact iff_of_true trivial (settled_rules v)
  | mapping => exact settled_mapping

end PipelineIQ.Frontend.FieldKinds
