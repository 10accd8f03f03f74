import PipelineIQ.Lib.Dict
import PipelineIQ.Lib.Strings

namespace PipelineIQ.Security.ColumnSecurity

open PipelineIQ.Lib PipelineIQ.Lib.Strings

/-! ### Masks -/

/-! `decimal` is the value of a decimal digit of Unicode: what `\d` matches and what `int` reads. -/

section Masks

variable (decimal : Char → Option Nat)

/-- The digits that `\D` leaves of a text. -/
def digits (value : Text) : Text := value.filter fun c => (decimal c).isSome

/-- The last four digits behind a mask, or another mask where there are fewer. -/
def lastFour (mask short : String) (value : Text) : Text :=
  let digits := digits decimal value
  if 4 ≤ digits.length then mask.toList ++ digits.drop (digits.length - 4) else short.toList

/-- The slice `value[:n]`. -/
def slice (value : Text) (n : Int) : Text :=
  if 0 ≤ n then value.take n.toNat else value.take (value.length - n.natAbs)

def emailMask (value : Text) : Text :=
  match value.splitOn '@' with
  | [name, domain] => name.take 1 ++ "***@".toList ++ domain
  | _ => value.take 1 ++ "***".toList

def defaultMask (value : Text) : Text :=
  if value.length ≤ 3 then "***".toList
  else value.take 2 ++ "***".toList ++ value.drop (value.length - 1)

/-- Digits in groups, one underscore between two groups. -/
def parseDigits (t : Text) : Option Nat :=
  let groups := t.splitOn '_'
  if groups.all (fun g => !g.isEmpty) then
    (groups.flatten.mapM decimal).map fun values => values.foldl (fun n d => 10 * n + d) 0
  else none

/-- Python's `int` of a text, `none` where it raises. -/
def parseInt (t : Text) : Option Int :=
  match strip t with
  | '-' :: t => (parseDigits decimal t).map fun n => -n
  | '+' :: t => (parseDigits decimal t).map fun n => n
  | t => (parseDigits decimal t).map fun n => n

/-- `int(pattern.split(":")[1])`. -/
def customLength (pattern : Text) : Option Int :=
  match pattern.splitOn ':' with
  | _ :: n :: _ => parseInt decimal n
  | _ => none

/-- `custom:n` shows the first characters; the default mask stands in for any other `n`. -/
def customMask (pattern value : Text) : Text :=
  match customLength decimal pattern with
  | some n => slice value n ++ "***".toList
  | none => defaultMask value

def applyMask (value pattern : Text) : Text :=
  if value.isEmpty then value
  else if pattern = "email".toList then emailMask value
  else if pattern = "phone".toList then lastFour decimal "***-***-" "***" value
  else if pattern = "credit_card".toList then lastFour decimal "****-****-****-" "****" value
  else if pattern = "ssn".toList then lastFour decimal "***-**-" "***-**-****" value
  else if pattern = "name".toList then value.take 1 ++ "***".toList
  else if "custom:".toList.isPrefixOf pattern then customMask decimal pattern value
  else defaultMask value

end Masks

/-! ### Frames -/

/-- A label of a column: the name in the file, or what pandas read a name as where all of them
look like numbers or dates. -/
inductive Label where
  | text (name : Text)
  | converted (name : Text)
  deriving DecidableEq, Repr

def Label.name : Label → Text
  | .text name => name
  | .converted name => name

structure Column (Value Dtype : Type) where
  dtype : Dtype
  values : List Value
  deriving DecidableEq

structure Frame (Value Dtype : Type) where
  rows : Nat
  columns : Dict Label (Column Value Dtype)

/-- What the masking of a column uses of pandas and of Python; `notna` is `none` for a list, where
its answer has no truth value, and `inferred` is the type of the column that `apply` builds. -/
structure Pandas (Value Dtype : Type) where
  notna : Value → Option Bool
  str : Value → Text
  ofText : Text → Value
  decimal : Char → Option Nat
  inferred : Dtype → List Value → Dtype

inductive Policy where
  | redacted | masked
  deriving DecidableEq, Repr

structure ColumnPolicyRecord where
  columnName : Text
  policy : Policy
  maskPattern : Option Text := none
  allowedRoles : List Text := []
  deriving DecidableEq, Repr

def ColumnPolicyRecord.pattern (pol : ColumnPolicyRecord) : Text :=
  match pol.maskPattern with
  | none | some [] => "default".toList
  | some pattern => pattern

/-- The policies of one file; the table holds one for each column. -/
structure FilePolicies where
  records : List ColumnPolicyRecord
  unique : (records.map (·.columnName)).Nodup

section Apply

variable {Value Dtype : Type} (p : Pandas Value Dtype)

def maskValue (pattern : Text) (v : Value) : Option Value := do
  let notna ← p.notna v
  return if notna then p.ofText (applyMask p.decimal (p.str v) pattern) else v

def maskColumn (pattern : Text) (c : Column Value Dtype) : Option (Column Value Dtype) := do
  let values ← c.values.mapM (maskValue p pattern)
  return { dtype := p.inferred c.dtype values, values }

/-- One turn of the loop over the policies; `none` where it raises. -/
def applyPolicy (userRole : Text) (result : Frame Value Dtype) (pol : ColumnPolicyRecord) :
    Option (Frame Value Dtype) :=
  let col := Label.text pol.columnName
  match result.columns.get? col with
  | none => some result
  | some column =>
    if userRole ∈ pol.allowedRoles then some result
    else match pol.policy with
      | .redacted => some { result with columns := result.columns.erase col }
      | .masked => (maskColumn p pol.pattern column).map fun column =>
          { result with columns := result.columns.set col column }

def applyColumnPolicies (userRole : Text) (policies : List ColumnPolicyRecord)
    (df : Frame Value Dtype) : Option (Frame Value Dtype) :=
  policies.foldlM (applyPolicy p userRole) df

end Apply

/-! ### What a role sees of a frame -/

inductive Ruling where
  | visible
  | masked (pattern : Text)
  | redacted
  deriving DecidableEq, Repr

def ColumnPolicyRecord.ruling (userRole : Text) (pol : ColumnPolicyRecord) : Ruling :=
  if userRole ∈ pol.allowedRoles then .visible
  else match pol.policy with
    | .redacted => .redacted
    | .masked => .masked pol.pattern

/-- What the policies of a file say of a column for a role. -/
def ruling (userRole : Text) (policies : List ColumnPolicyRecord) (name : Text) : Ruling :=
  ((policies.find? fun pol => pol.columnName = name).map (·.ruling userRole)).getD .visible

section View

variable {Value Dtype : Type} (p : Pandas Value Dtype)

/-- Two columns that are the same to a role: any two where it is redacted, and where it is masked
two with the same mask. -/
def SameColumn : Ruling → Column Value Dtype → Column Value Dtype → Prop
  | .visible, c, c' => c = c'
  | .masked pattern, c, c' => maskColumn p pattern c = maskColumn p pattern c'
  | .redacted, _, _ => True

/-- Two frames that differ only in what the policies hide from a role. -/
structure SameView (userRole : Text) (policies : List ColumnPolicyRecord)
    (f f' : Frame Value Dtype) : Prop where
  rows : f.rows = f'.rows
  keys : f.columns.keys = f'.columns.keys
  columns : ∀ label c c', f.columns.get? label = some c → f'.columns.get? label = some c' →
    SameColumn p (ruling userRole policies label.name) c c'

/-- The columns that the policies restrict kept the names that they have in the file. -/
def NamesKept (userRole : Text) (policies : List ColumnPolicyRecord) (f : Frame Value Dtype) :
    Prop :=
  ∀ name, Label.converted name ∈ f.columns.keys → ruling userRole policies name = .visible

variable {p} {userRole name : Text} {pol : ColumnPolicyRecord} {policies : List ColumnPolicyRecord}
  {f f' g : Frame Value Dtype} {label : Label} {c c' : Column Value Dtype}

theorem ruling_cons : ruling userRole (pol :: policies) name =
    if pol.columnName = name then pol.ruling userRole else ruling userRole policies name := by
  by_cases h : pol.columnName = name
  · simp [ruling, h]
  · simp [ruling, h]

theorem ruling_of_not_mem (h : name ∉ policies.map (·.columnName)) :
    ruling userRole policies name = .visible := by
  have hnone : policies.find? (fun pol => pol.columnName = name) = none := by
    rw [List.find?_eq_none]
    intro pol hpol hname
    exact h (List.mem_map.mpr ⟨pol, hpol, of_decide_eq_true hname⟩)
  rw [ruling, hnone]
  rfl

/-! #### One policy -/

variable (p) in
/-- The column that a role gets, if any. -/
def seen : Ruling → Column Value Dtype → Option (Column Value Dtype)
  | .visible, c => some c
  | .masked pattern, c => maskColumn p pattern c
  | .redacted, _ => none

theorem applyPolicy_of_get?_eq_none (h : f.columns.get? (.text pol.columnName) = none) :
    applyPolicy p userRole f pol = some f := by
  simp [applyPolicy, h]

theorem applyPolicy_of_get?_eq_some (h : f.columns.get? (.text pol.columnName) = some c) :
    applyPolicy p userRole f pol =
      match pol.ruling userRole with
      | .visible => some f
      | .redacted => some { f with columns := f.columns.erase (.text pol.columnName) }
      | .masked pattern => (maskColumn p pattern c).map fun c =>
          { f with columns := f.columns.set (.text pol.columnName) c } := by
  by_cases hrole : userRole ∈ pol.allowedRoles
  · simp [applyPolicy, h, ColumnPolicyRecord.ruling, hrole]
  · cases hpolicy : pol.policy <;>
      simp [applyPolicy, h, ColumnPolicyRecord.ruling, hrole, hpolicy]

theorem get?_applyPolicy (h : applyPolicy p userRole f pol = some g) (label : Label) :
    g.columns.get? label =
      if label = .text pol.columnName then (f.columns.get? label).bind (seen p (pol.ruling userRole))
      else f.columns.get? label := by
  cases hc : f.columns.get? (.text pol.columnName) with
  | none =>
    rw [applyPolicy_of_get?_eq_none hc, Option.some.injEq] at h
    subst h
    by_cases hlabel : label = .text pol.columnName
    · simp [hlabel, hc]
    · simp [hlabel]
  | some c =>
    rw [applyPolicy_of_get?_eq_some hc] at h
    by_cases hlabel : label = .text pol.columnName
    · subst hlabel
      rw [if_pos rfl, hc, Option.bind_some]
      cases hr : pol.ruling userRole with
      | visible => simp_all [seen]
      | redacted =>
        simp only [hr, Option.some.injEq] at h
        simp [← h, seen]
      | masked pattern =>
        simp only [hr, Option.map_eq_some_iff] at h
        obtain ⟨m, hm, rfl⟩ := h
        simp [hm, seen]
    · rw [if_neg hlabel]
      cases hr : pol.ruling userRole with
      | visible => simp_all
      | redacted =>
        simp only [hr, Option.some.injEq] at h
        simp [← h, hlabel]
      | masked pattern =>
        simp only [hr, Option.map_eq_some_iff] at h
        obtain ⟨m, hm, rfl⟩ := h
        simp [hlabel]

/-! #### All of them -/

theorem get?_applyColumnPolicies (hunique : (policies.map (·.columnName)).Nodup)
    (h : applyColumnPolicies p userRole policies f = some g) (name : Text) :
    g.columns.get? (.text name) =
      (f.columns.get? (.text name)).bind (seen p (ruling userRole policies name)) := by
  induction policies generalizing f with
  | nil =>
    simp only [applyColumnPolicies, List.foldlM_nil, Option.pure_def, Option.some.injEq] at h
    subst h
    cases f.columns.get? (.text name) <;> rfl
  | cons pol policies ih =>
    rw [List.map_cons, List.nodup_cons] at hunique
    rw [applyColumnPolicies, List.foldlM_cons, Option.bind_eq_bind, Option.bind_eq_some_iff] at h
    obtain ⟨f₁, hpol, hrest⟩ := h
    rw [ih hunique.2 hrest, get?_applyPolicy hpol, ruling_cons]
    by_cases hname : pol.columnName = name
    · subst hname
      rw [if_pos rfl, if_pos rfl, ruling_of_not_mem hunique.1]
      cases (f.columns.get? (.text pol.columnName)).bind (seen p (pol.ruling userRole)) <;> rfl
    · rw [if_neg hname, if_neg (by simpa [eq_comm] using hname)]

/-- No policy is about a column whose name pandas converted. -/
theorem get?_converted (h : applyColumnPolicies p userRole policies f = some g) (name : Text) :
    g.columns.get? (.converted name) = f.columns.get? (.converted name) := by
  induction policies generalizing f with
  | nil =>
    simp only [applyColumnPolicies, List.foldlM_nil, Option.pure_def, Option.some.injEq] at h
    rw [h]
  | cons pol policies ih =>
    rw [applyColumnPolicies, List.foldlM_cons, Option.bind_eq_bind, Option.bind_eq_some_iff] at h
    obtain ⟨f₁, hpol, hrest⟩ := h
    rw [ih hrest, get?_applyPolicy hpol, if_neg (by simp)]

/-- A policy that is done with keeps two views the same, where it leaves its own column equal. -/
theorem SameView.tail (h : SameView p userRole (pol :: policies) f f')
    (hkept : NamesKept userRole (pol :: policies) f)
    (hunique : pol.columnName ∉ policies.map (·.columnName)) {g g' : Frame Value Dtype}
    (hrows : g.rows = g'.rows) (hkeys : g.columns.keys = g'.columns.keys)
    (hcol : g.columns.get? (.text pol.columnName) = g'.columns.get? (.text pol.columnName))
    (hg : ∀ label, label ≠ .text pol.columnName → g.columns.get? label = f.columns.get? label)
    (hg' : ∀ label, label ≠ .text pol.columnName → g'.columns.get? label = f'.columns.get? label) :
    SameView p userRole policies g g' := by
  refine ⟨hrows, hkeys, ?_⟩
  intro label c c' hc hc'
  by_cases hlabel : label = .text pol.columnName
  · subst hlabel
    rw [show Label.name (.text pol.columnName) = pol.columnName from rfl,
      ruling_of_not_mem hunique]
    rw [hcol, hc', Option.some.injEq] at hc
    exact hc.symm
  · rw [hg label hlabel] at hc
    rw [hg' label hlabel] at hc'
    have hsame := h.columns label c c' hc hc'
    by_cases hname : pol.columnName = label.name
    · cases label with
      | text name => exact absurd (congrArg Label.text hname).symm hlabel
      | converted name =>
        have hvisible := hkept name ((Dict.mem_keys_iff _ _).mpr ⟨c, hc⟩)
        rw [show (Label.converted name).name = name from rfl] at hname hsame ⊢
        rw [hvisible] at hsame
        rwa [← hname, ruling_of_not_mem hunique]
    · rwa [ruling_cons, if_neg hname] at hsame

theorem NamesKept.tail (h : NamesKept userRole (pol :: policies) f)
    (hunique : pol.columnName ∉ policies.map (·.columnName))
    (hkeys : ∀ label ∈ g.columns.keys, label ∈ f.columns.keys) : NamesKept userRole policies g := by
  intro name hname
  have hvisible := h name (hkeys _ hname)
  by_cases hpol : pol.columnName = name
  · exact ruling_of_not_mem (hpol ▸ hunique)
  · rwa [ruling_cons, if_neg hpol] at hvisible

theorem SameView.eq (h : SameView p userRole [] f f') : f = f' := by
  have hcolumns : f.columns = f'.columns := by
    apply Dict.ext_get? h.keys
    intro label
    cases hc : f.columns.get? label with
    | none =>
      rw [Dict.get?_eq_none_iff, h.keys, ← Dict.get?_eq_none_iff] at hc
      exact hc.symm
    | some c =>
      have hmem : label ∈ f'.columns.keys := h.keys ▸ (Dict.mem_keys_iff _ _).mpr ⟨c, hc⟩
      obtain ⟨c', hc'⟩ := (Dict.mem_keys_iff _ _).mp hmem
      rw [hc']
      exact congrArg some (h.columns label c c' hc hc')
  have hrows := h.rows
  cases f
  cases f'
  simp_all

/-- One policy, applied to two frames that a role cannot tell apart. -/
theorem applyPolicy_rel (h : SameView p userRole (pol :: policies) f f')
    (hkept : NamesKept userRole (pol :: policies) f)
    (hunique : pol.columnName ∉ policies.map (·.columnName)) :
    Option.Rel (fun g g' => SameView p userRole policies g g' ∧ NamesKept userRole policies g)
      (applyPolicy p userRole f pol) (applyPolicy p userRole f' pol) := by
  have hpresent : ∀ label, f.columns.get? label = none ↔ f'.columns.get? label = none := by
    intro label
    rw [Dict.get?_eq_none_iff, Dict.get?_eq_none_iff, h.keys]
  cases hc : f.columns.get? (.text pol.columnName) with
  | none =>
    have hc' := (hpresent _).mp hc
    rw [applyPolicy_of_get?_eq_none hc, applyPolicy_of_get?_eq_none hc']
    exact .some ⟨h.tail hkept hunique h.rows h.keys (hc.trans hc'.symm) (fun _ _ => rfl)
      (fun _ _ => rfl), hkept.tail hunique fun _ hl => hl⟩
  | some c =>
    obtain ⟨c', hc'⟩ : ∃ c', f'.columns.get? (.text pol.columnName) = some c' := by
      cases hn : f'.columns.get? (.text pol.columnName) with
      | none =>
        rw [(hpresent _).mpr hn] at hc
        cases hc
      | some c' => exact ⟨c', rfl⟩
    have hsame := h.columns _ c c' hc hc'
    rw [show Label.name (.text pol.columnName) = pol.columnName from rfl, ruling_cons,
      if_pos rfl] at hsame
    rw [applyPolicy_of_get?_eq_some hc, applyPolicy_of_get?_eq_some hc']
    have hmem : Label.text pol.columnName ∈ f.columns.keys := (Dict.mem_keys_iff _ _).mpr ⟨c, hc⟩
    cases hr : pol.ruling userRole with
    | visible =>
      rw [hr] at hsame
      have heq : f.columns.get? (.text pol.columnName) = f'.columns.get? (.text pol.columnName) := by
        rw [hc, hc', show c = c' from hsame]
      exact .some ⟨h.tail hkept hunique h.rows h.keys heq (fun _ _ => rfl) (fun _ _ => rfl),
        hkept.tail hunique fun _ hl => hl⟩
    | redacted =>
      refine .some ⟨h.tail hkept hunique h.rows ?_ (by simp) (fun _ hl => by simp [hl])
        (fun _ hl => by simp [hl]), hkept.tail hunique ?_⟩
      · rw [Dict.keys_erase, Dict.keys_erase, h.keys]
      · intro label hlabel
        rw [Dict.keys_erase] at hlabel
        exact (List.mem_filter.mp hlabel).1
    | masked pattern =>
      rw [hr] at hsame
      have hmask : maskColumn p pattern c = maskColumn p pattern c' := hsame
      simp only [hmask]
      cases maskColumn p pattern c' with
      | none => exact .none
      | some m =>
        refine .some ⟨h.tail hkept hunique h.rows ?_ (by simp) (fun _ hl => by simp [hl])
          (fun _ hl => by simp [hl]), hkept.tail hunique ?_⟩
        · rw [Dict.keys_set _ _ hmem, Dict.keys_set _ _ (h.keys ▸ hmem), h.keys]
        · intro label hlabel
          rwa [Dict.keys_set _ _ hmem] at hlabel

/-- After its policies a role cannot tell two such frames apart at all. -/
theorem applyColumnPolicies_eq (hunique : (policies.map (·.columnName)).Nodup)
    (h : SameView p userRole policies f f') (hkept : NamesKept userRole policies f) :
    applyColumnPolicies p userRole policies f = applyColumnPolicies p userRole policies f' := by
  induction policies generalizing f f' with
  | nil => rw [h.eq]
  | cons pol policies ih =>
    rw [List.map_cons, List.nodup_cons] at hunique
    have hrel := applyPolicy_rel h hkept hunique.1
    rw [applyColumnPolicies, applyColumnPolicies, List.foldlM_cons, List.foldlM_cons]
    generalize applyPolicy p userRole f pol = g at hrel ⊢
    generalize applyPolicy p userRole f' pol = g' at hrel ⊢
    cases hrel with
    | none => rfl
    | some hrel => exact ih hunique.2 hrel.1 hrel.2

/-- Changing the values of a column that is redacted for a role does not change what it sees. -/
theorem sameView_set (h : ruling userRole policies label.name = .redacted)
    (hlabel : label ∈ f.columns.keys) :
    SameView p userRole policies f { f with columns := f.columns.set label c } := by
  refine ⟨rfl, (Dict.keys_set _ _ hlabel).symm, ?_⟩
  intro other a b ha hb
  by_cases ho : other = label
  · rw [ho, h]
    trivial
  · rw [Dict.get?_set, if_neg ho, ha, Option.some.injEq] at hb
    rw [hb]
    cases ruling userRole policies other.name <;> first | rfl | trivial

end View

end PipelineIQ.Security.ColumnSecurity
