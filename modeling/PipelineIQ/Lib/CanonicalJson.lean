import PipelineIQ.Lib.Json
import Mathlib.Data.List.Sort
import Mathlib.Data.String.Basic

namespace PipelineIQ.Lib

namespace Json

/-! ### Reading a document along a path -/

/-- One step into a document. -/
inductive Sel where
  | key (name : String)
  | index (i : Nat)

/-- What a place of a document holds, without the places below it. -/
inductive Shape where
  | null | arr | obj
  | bool (value : Bool)
  | num (literal : String)
  | str (value : String)

def shape : Json → Shape
  | .null => .null
  | .bool value => .bool value
  | .num literal => .num literal
  | .str value => .str value
  | .arr _ => .arr
  | .obj _ => .obj

def sub : Json → Sel → Option Json
  | .arr items, .index i => items[i]?
  | .obj fields, .key name => Dict.find name fields
  | _, _ => none

def reach : Json → List Sel → Option Json
  | document, [] => some document
  | document, sel :: path => (document.sub sel).bind (·.reach path)

/-- Two documents that read the same along every path: the order in which their
objects list their fields is all they can differ in. -/
def Alike (a b : Json) : Prop := ∀ path, (a.reach path).map shape = (b.reach path).map shape

/-- The documents with one value for each field, and with numbers among the given ones. -/
inductive Written (number : String → Prop) : Json → Prop where
  | null : Written number .null
  | bool (value : Bool) : Written number (.bool value)
  | num (literal : String) (h : number literal) : Written number (.num literal)
  | str (value : String) : Written number (.str value)
  | arr (items : List Json) (h : ∀ item ∈ items, Written number item) : Written number (.arr items)
  | obj (fields : List (String × Json)) (hkeys : (fields.map Prod.fst).Nodup)
      (h : ∀ field ∈ fields, Written number field.2) : Written number (.obj fields)

/-! ### Sorting the fields of every object -/

def byKey (a b : String × Json) : Prop := a.1 ≤ b.1

instance : DecidableRel byKey := fun a b => inferInstanceAs (Decidable (a.1 ≤ b.1))

instance : Std.Total byKey := ⟨fun a b => le_total a.1 b.1⟩

instance : IsTrans (String × Json) byKey := ⟨fun _ _ _ => le_trans⟩

mutual

def sortKeys : Json → Json
  | .arr items => .arr (sortItems items)
  | .obj fields => .obj ((sortFields fields).insertionSort byKey)
  | .null => .null
  | .bool value => .bool value
  | .num literal => .num literal
  | .str value => .str value

def sortItems : List Json → List Json
  | [] => []
  | item :: rest => sortKeys item :: sortItems rest

def sortFields : List (String × Json) → List (String × Json)
  | [] => []
  | (name, value) :: rest => (name, sortKeys value) :: sortFields rest

end

theorem sortItems_eq (items : List Json) : sortItems items = items.map sortKeys := by
  induction items with
  | nil => rfl
  | cons item rest ih => rw [sortItems, ih, List.map_cons]

theorem sortFields_eq (fields : List (String × Json)) :
    sortFields fields = fields.map fun field => (field.1, sortKeys field.2) := by
  induction fields with
  | nil => rfl
  | cons field rest ih =>
    obtain ⟨name, value⟩ := field
    rw [sortFields, ih, List.map_cons]

@[simp] theorem shape_sortKeys (a : Json) : (sortKeys a).shape = a.shape := by
  cases a <;> rfl

variable {number : String → Prop}

theorem Written.sub {a b : Json} {sel : Sel} (h : Written number a) (hsub : a.sub sel = some b) :
    Written number b := by
  cases h with
  | arr items h =>
    cases sel with
    | key name => cases hsub
    | index i => exact h b (List.mem_of_getElem? hsub)
  | obj fields hkeys h =>
    cases sel with
    | key name => exact h (name, b) (Dict.mem_of_find hsub)
    | index i => cases hsub
  | _ => cases sel <;> cases hsub

theorem keys_sortFields (fields : List (String × Json)) :
    (sortFields fields).map Prod.fst = fields.map Prod.fst := by
  rw [sortFields_eq, List.map_map]
  rfl

theorem mem_sortFields {fields : List (String × Json)} {name : String} {value : Json} :
    (name, value) ∈ sortFields fields ↔ ∃ v, (name, v) ∈ fields ∧ sortKeys v = value := by
  rw [sortFields_eq, List.mem_map]
  constructor
  · rintro ⟨⟨name', v⟩, hmem, heq⟩
    cases heq
    exact ⟨v, hmem, rfl⟩
  · rintro ⟨v, hmem, rfl⟩
    exact ⟨(name, v), hmem, rfl⟩

theorem find_insertionSort {fields : List (String × Json)} (h : (fields.map Prod.fst).Nodup)
    (name : String) : Dict.find name (fields.insertionSort byKey) = Dict.find name fields := by
  have hperm := List.perm_insertionSort byKey fields
  have hkeys : ((fields.insertionSort byKey).map Prod.fst).Nodup :=
    (hperm.map Prod.fst).nodup_iff.mpr h
  apply Option.ext
  intro v
  rw [Dict.find_eq_some_iff _ hkeys, Dict.find_eq_some_iff _ h, hperm.mem_iff]

theorem find_sortFields (fields : List (String × Json)) (name : String) :
    Dict.find name (sortFields fields) = (Dict.find name fields).map sortKeys := by
  induction fields with
  | nil => rfl
  | cons field rest ih =>
    obtain ⟨a, v⟩ := field
    rw [sortFields, Dict.find, Dict.find]
    split
    · rfl
    · exact ih

theorem sub_sortKeys {a : Json} (h : Written number a) (sel : Sel) :
    (sortKeys a).sub sel = (a.sub sel).map sortKeys := by
  cases h with
  | arr items h =>
    cases sel with
    | key name => rfl
    | index i => rw [sortKeys, sub, sub, sortItems_eq, List.getElem?_map]
  | obj fields hkeys h =>
    cases sel with
    | key name =>
      have hsorted : ((sortFields fields).map Prod.fst).Nodup := (keys_sortFields fields).symm ▸ hkeys
      rw [sortKeys, sub, sub, find_insertionSort hsorted, find_sortFields]
    | index i => rfl
  | _ => cases sel <;> rfl

/-- A document reads the same when its fields are sorted. -/
theorem reach_sortKeys {a : Json} (h : Written number a) (path : List Sel) :
    (sortKeys a).reach path = (a.reach path).map sortKeys := by
  induction path generalizing a with
  | nil => rfl
  | cons sel path ih =>
    rw [Json.reach, Json.reach, sub_sortKeys h]
    cases hsub : a.sub sel with
    | none => rfl
    | some b => exact ih (h.sub hsub)

theorem alike_sortKeys {a : Json} (h : Written number a) : Alike (sortKeys a) a := by
  intro path
  rw [reach_sortKeys h, Option.map_map]
  exact congrFun (congrArg Option.map (funext shape_sortKeys)) (a.reach path)

theorem Alike.symm {a b : Json} (h : Alike a b) : Alike b a := fun path => (h path).symm

theorem Alike.trans {a b c : Json} (hab : Alike a b) (hbc : Alike b c) : Alike a c :=
  fun path => (hab path).trans (hbc path)

theorem Alike.shape {a b : Json} (h : Alike a b) : a.shape = b.shape :=
  Option.some.inj (h [])

theorem Alike.sub {a b a' : Json} (h : Alike a b) {sel : Sel} (ha : a.sub sel = some a') :
    ∃ b', b.sub sel = some b' ∧ Alike a' b' := by
  have hstep : ∀ path, (a'.reach path).map Json.shape = ((b.sub sel).bind (·.reach path)).map Json.shape := by
    intro path
    have hpath := h (sel :: path)
    rwa [Json.reach, Json.reach, ha, Option.bind_some] at hpath
  cases hb : b.sub sel with
  | none =>
    have hroot := hstep []
    rw [hb] at hroot
    cases hroot
  | some b' =>
    refine ⟨b', rfl, fun path => ?_⟩
    have hpath := hstep path
    rwa [hb, Option.bind_some] at hpath

/-- Fields with distinct keys have one sorted order. -/
theorem insertionSort_eq {fields others : List (String × Json)} (hperm : fields.Perm others)
    (hkeys : (others.map Prod.fst).Nodup) :
    fields.insertionSort byKey = others.insertionSort byKey := by
  refine List.Perm.eq_of_pairwise ?_ (List.pairwise_insertionSort byKey fields)
    (List.pairwise_insertionSort byKey others)
    (((List.perm_insertionSort byKey fields).trans hperm).trans
      (List.perm_insertionSort byKey others).symm)
  rintro ⟨a, v⟩ ⟨b, w⟩ ha hb hab hba
  have hname : a = b := le_antisymm hab hba
  subst hname
  have hv : (a, v) ∈ others :=
    hperm.mem_iff.mp ((List.perm_insertionSort byKey fields).mem_iff.mp ha)
  have hw : (a, w) ∈ others := (List.perm_insertionSort byKey others).mem_iff.mp hb
  rw [← Dict.find_eq_some_iff others hkeys] at hv hw
  rw [hv] at hw
  rw [Option.some.inj hw]

theorem sortFields_perm {fields others : List (String × Json)}
    (hfields : (fields.map Prod.fst).Nodup) (hothers : (others.map Prod.fst).Nodup)
    (hto : ∀ name v, (name, v) ∈ fields → ∃ w, (name, w) ∈ others ∧ sortKeys v = sortKeys w)
    (hback : ∀ name w, (name, w) ∈ others → ∃ v, (name, v) ∈ fields ∧ sortKeys v = sortKeys w) :
    (sortFields fields).Perm (sortFields others) := by
  have hnodup : ∀ fs : List (String × Json), (fs.map Prod.fst).Nodup → (sortFields fs).Nodup := by
    intro fs hfs
    exact List.Nodup.of_map Prod.fst ((keys_sortFields fs).symm ▸ hfs)
  rw [List.perm_ext_iff_of_nodup (hnodup fields hfields) (hnodup others hothers)]
  rintro ⟨name, value⟩
  rw [mem_sortFields, mem_sortFields]
  constructor
  · rintro ⟨v, hv, rfl⟩
    obtain ⟨w, hw, heq⟩ := hto name v hv
    exact ⟨w, hw, heq.symm⟩
  · rintro ⟨w, hw, rfl⟩
    obtain ⟨v, hv, heq⟩ := hback name w hw
    exact ⟨v, hv, heq⟩

/-- Documents that read the same are one document once their fields are sorted. -/
theorem Alike.sortKeys_eq {a b : Json} (ha : Written number a) (hb : Written number b)
    (h : Alike a b) : sortKeys a = sortKeys b := by
  induction ha generalizing b with
  | arr items hitems ih =>
    have hshape := h.shape
    cases hb with
    | arr others hothers =>
      rw [sortKeys, sortKeys, sortItems_eq, sortItems_eq]
      refine congrArg Json.arr (List.ext_getElem? fun i => ?_)
      rw [List.getElem?_map, List.getElem?_map]
      cases hi : items[i]? with
      | some item =>
        obtain ⟨other, hother, halike⟩ := h.sub (show (Json.arr items).sub (.index i) = _ from hi)
        have hget : others[i]? = some other := hother
        rw [hget, Option.map_some, Option.map_some,
          ih item (List.mem_of_getElem? hi) (hothers other (List.mem_of_getElem? hget)) halike]
      | none =>
        cases ho : others[i]? with
        | none => rfl
        | some other =>
          obtain ⟨item, hitem, -⟩ := h.symm.sub (show (Json.arr others).sub (.index i) = _ from ho)
          have hget : items[i]? = some item := hitem
          rw [hi] at hget
          cases hget
    | _ => cases hshape
  | obj fields hkeys hfields ih =>
    have hshape := h.shape
    cases hb with
    | obj others hothersKeys hothers =>
      have hfind : ∀ {fs : List (String × Json)}, (fs.map Prod.fst).Nodup → ∀ {name v},
          (name, v) ∈ fs ↔ (Json.obj fs).sub (.key name) = some v :=
        fun hfs _ _ => (Dict.find_eq_some_iff _ hfs _ _).symm
      have hperm : (sortFields fields).Perm (sortFields others) := by
        refine sortFields_perm hkeys hothersKeys ?_ ?_
        · intro name v hv
          obtain ⟨w, hw, halike⟩ := h.sub ((hfind hkeys).mp hv)
          have hmem := (hfind hothersKeys).mpr hw
          exact ⟨w, hmem, ih (name, v) hv (hothers (name, w) hmem) halike⟩
        · intro name w hw
          obtain ⟨v, hv, halike⟩ := h.symm.sub ((hfind hothersKeys).mp hw)
          have hmem := (hfind hkeys).mpr hv
          exact ⟨v, hmem, ih (name, v) hmem (hothers (name, w) hw) halike.symm⟩
      rw [sortKeys, sortKeys, insertionSort_eq hperm ((keys_sortFields others).symm ▸ hothersKeys)]
    | _ => cases hshape
  | _ =>
    have hshape := h.shape
    cases hb <;> cases hshape
    all_goals rfl

/-- Sorting its fields forgets the order of a document's fields and nothing else. -/
theorem sortKeys_eq_iff {a b : Json} (ha : Written number a) (hb : Written number b) :
    sortKeys a = sortKeys b ↔ Alike a b := by
  constructor
  · intro heq
    have hb' := alike_sortKeys hb
    rw [← heq] at hb'
    exact (alike_sortKeys ha).symm.trans hb'
  · exact Alike.sortKeys_eq ha hb

theorem Written.sortKeys {a : Json} (h : Written number a) : Written number a.sortKeys := by
  induction h with
  | arr items h ih =>
    rw [Json.sortKeys, sortItems_eq]
    refine .arr _ fun item hitem => ?_
    obtain ⟨x, hx, rfl⟩ := List.mem_map.mp hitem
    exact ih x hx
  | obj fields hkeys h ih =>
    have hperm := List.perm_insertionSort byKey (sortFields fields)
    have hnodup : ((sortFields fields).map Prod.fst).Nodup := (keys_sortFields fields).symm ▸ hkeys
    refine .obj _ ((hperm.map Prod.fst).nodup_iff.mpr hnodup) ?_
    rintro ⟨name, value⟩ hfield
    obtain ⟨v, hv, rfl⟩ := mem_sortFields.mp (hperm.mem_iff.mp hfield)
    exact ih (name, v) hv
  | null => exact .null
  | bool value => exact .bool value
  | num literal h => exact .num literal h
  | str value => exact .str value

end Json

end PipelineIQ.Lib
