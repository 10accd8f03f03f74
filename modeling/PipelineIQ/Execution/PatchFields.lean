import PipelineIQ.Execution.PatchApplier
import PipelineIQ.Lib.Traverse

namespace PipelineIQ.Execution.PatchFields

open PipelineIQ.Lib PipelineIQ.Lib.Strings PipelineIQ.Lib.Yaml PipelineIQ.Lib.Traverse
  PipelineIQ.Pipeline.Parser PipelineIQ.Execution.PatchApplier

/-! ### What a patch item means for a step config -/

section Meaning

variable (py : Python) (item : PatchItem)

def renamedKey (old new : Node) (k : Key) : Key := (replacedKey old new k).getD k

/-- The value a field is to have: in a list or mapping the parts equal to the old value are
replaced and nothing is lost, any other value is the new one. -/
def edited : Node → Node
  | .seq items =>
    if handlerOf item.field = .aggregations then
      .seq (items.map (patchAggregation item.oldValue item.newValue))
    else .seq (items.map (replaced item.oldValue item.newValue))
  | .map entries => .map (entries.map fun e =>
      (renamedKey item.oldValue item.newValue e.1, replaced item.oldValue item.newValue e.2))
  | _ => item.newValue

/-- How a field of a step type is read. -/
def convertOf (t : StepType) (name : String) : Node → Option Node :=
  ((buildTypedStep py t).find? fun f => f.name = name).elim some (·.convert)

def editField (t : StepType) (f : String × Node) : Option (String × Node) :=
  if f.1.toList = item.field then (convertOf py t f.1 (edited item f.2)).map fun v => (f.1, v)
  else some f

def readType (v : Node) : StepType ⊕ Node :=
  match StepType.ofNode v with
  | some t => .inl t
  | none => .inr v

/-- The step config with the named field edited and everything else as it is. -/
def editStep (c : StepConfig) : Option StepConfig :=
  if item.field = "name".toList then some { c with name := item.newValue }
  else if item.field = "type".toList then some { c with stepType := readType item.newValue }
  else match c.stepType with
    | .inr _ => some c
    | .inl t =>
      if item.field = "contract".toList then some { c with contract := edited item c.contract }
      else (c.fields.mapM (editField py item t)).map fun fields => { c with fields }

end Meaning

/-! ### Conditions on an item and the step it names -/

section Conditions

variable (py : Python) (item : PatchItem) (d : Entries)

/-- The field has the shape its handler needs. -/
def Fits : Prop :=
  match handlerOf item.field with
  | .scalar => ∃ v, d.get? (.text item.field) = some v
  | .list | .aggregations => ∃ items, d.get? (.text item.field) = some (.seq items)
  | .sort => True
  | .mapping => ∃ entries, d.get? (.text item.field) = some (.map entries) ∧
      ∀ e ∈ entries, replacedKey item.oldValue item.newValue e.1 ≠ none

/-- The parser reads the field from a step. -/
def Reads : Prop :=
  item.field = "name".toList ∨ item.field = "type".toList ∨
    ∃ t, StepType.ofNode (d.getD (key "type") (str "")) = some t ∧
      (item.field = "contract".toList ∨ ∃ f ∈ buildTypedStep py t, f.name.toList = item.field)

/-- A field without a handler of its own holds no list or mapping, or one that the new value
reads as with its parts replaced; a new `on` leaves no other `on` to be read. -/
def ScalarExact (f : Field) : Prop :=
  (f.convert item.newValue).isSome = true ∧
    (f.name = "on" → item.newValue.truthy = true ∨ d.get? (.number 1) = none) ∧
    ∀ v, f.convert (f.value d) = some v → v.isSeq = true ∨ v.isMap = true →
      f.convert (edited item v) = f.convert item.newValue

/-- The edit of a field loses nothing. -/
def FieldExact (f : Field) : Prop :=
  match handlerOf item.field with
  | .scalar => ScalarExact item d f
  | .list | .aggregations => True
  | .sort => (f.value d).isMap = false
  | .mapping => ∀ entries, d.get? (.text item.field) = some (.map entries) →
      (entries.map fun e => renamedKey item.oldValue item.newValue e.1).Nodup

/-- The step keeps its type, a contract is no list or mapping, and a field of the step's type is
edited without loss. -/
def StepExact : Prop :=
  if item.field = "name".toList then True
  else if item.field = "type".toList then
    let now := StepType.ofNode (d.getD (key "type") (str ""))
    now = StepType.ofNode item.newValue
  else match StepType.ofNode (d.getD (key "type") (str "")) with
    | none => True
    | some t =>
      if item.field = "contract".toList then
        edited item (d.getD (key "contract") .null) = item.newValue
      else ∀ f ∈ buildTypedStep py t, f.name.toList = item.field → FieldExact item d f

end Conditions

/-! ### The handlers -/

/-- One entry of the new mapping. -/
def mappingStep (old new : Node) (updated : Entries) (e : Key × Node) :
    Except PatchError Entries :=
  match replacedKey old new e.1 with
  | none => .error (.unhashable new)
  | some k => .ok (updated.set k (replaced old new e.2))

theorem patchMapping_eq (old new : Node) (entries : Entries) :
    patchMapping old new entries = entries.foldlM (mappingStep old new) [] := rfl

theorem mappingStep_ok {old new : Node} {updated : Entries} {e : Key × Node}
    (h : replacedKey old new e.1 ≠ none) :
    mappingStep old new updated e =
      .ok (updated.set (renamedKey old new e.1) (replaced old new e.2)) := by
  unfold mappingStep renamedKey
  cases hk : replacedKey old new e.1 with
  | none => exact absurd hk h
  | some k => rfl

theorem foldlM_mappingStep_ok_iff {old new : Node} (entries acc : Entries) :
    (∃ updated, entries.foldlM (mappingStep old new) acc = .ok updated) ↔
      ∀ e ∈ entries, replacedKey old new e.1 ≠ none := by
  induction entries generalizing acc with
  | nil => simp [pure, Except.pure]
  | cons e entries ih =>
    simp only [foldlM_cons_ok_iff, List.forall_mem_cons]
    constructor
    · rintro ⟨updated, u, hu, hupdated⟩
      have he : replacedKey old new e.1 ≠ none := by
        intro hk
        simp [mappingStep, hk] at hu
      exact ⟨he, (ih u).mp ⟨updated, hupdated⟩⟩
    · rintro ⟨he, hes⟩
      obtain ⟨updated, hupdated⟩ :=
        (ih (acc.set (renamedKey old new e.1) (replaced old new e.2))).mpr hes
      exact ⟨updated, _, mappingStep_ok he, hupdated⟩

/-- No entry is lost as long as no two keys become one. -/
theorem foldlM_mappingStep {old new : Node} (entries acc : Entries) {updated : Entries}
    (hnodup : (acc.map Prod.fst ++ entries.map fun e => renamedKey old new e.1).Nodup)
    (h : entries.foldlM (mappingStep old new) acc = .ok updated) :
    updated = acc ++ entries.map fun e => (renamedKey old new e.1, replaced old new e.2) := by
  induction entries generalizing acc with
  | nil =>
    cases h
    simp
  | cons e entries ih =>
    have hes := (foldlM_mappingStep_ok_iff (e :: entries) acc).mp ⟨updated, h⟩
    rw [foldlM_cons_ok_iff] at h
    obtain ⟨u, hu, hupdated⟩ := h
    rw [mappingStep_ok (hes e (List.mem_cons_self ..))] at hu
    cases hu
    have hfresh : renamedKey old new e.1 ∉ acc.map Prod.fst := by
      intro hmem
      rw [List.map_cons, List.nodup_append] at hnodup
      exact hnodup.2.2 _ hmem _ (List.mem_cons_self ..) rfl
    have hset : acc.set (renamedKey old new e.1) (replaced old new e.2) =
        acc ++ [(renamedKey old new e.1, replaced old new e.2)] :=
      Dict.assign_of_not_mem _ _ _ hfresh
    rw [hset] at hupdated
    rw [ih (acc ++ [(renamedKey old new e.1, replaced old new e.2)]) (by simpa using hnodup)
      hupdated]
    simp

/-- What a patch item writes to its field. -/
def Written (item : PatchItem) (d : Entries) (w : Node) : Prop :=
  match handlerOf item.field with
  | .scalar => w = item.newValue
  | .list => ∃ items, d.get? (.text item.field) = some (.seq items) ∧
      w = .seq (items.map (replaced item.oldValue item.newValue))
  | .sort => (∃ items, d.get? (.text item.field) = some (.seq items) ∧
        w = .seq (items.map (replaced item.oldValue item.newValue))) ∨
      (w = item.newValue ∧ ∀ items, d.get? (.text item.field) ≠ some (.seq items))
  | .mapping => ∃ entries updated, d.get? (.text item.field) = some (.map entries) ∧
      entries.foldlM (mappingStep item.oldValue item.newValue) [] = .ok updated ∧
      w = .map updated
  | .aggregations => ∃ items, d.get? (.text item.field) = some (.seq items) ∧
      w = .seq (items.map (patchAggregation item.oldValue item.newValue))

/-- A patch item writes its own field and nothing else. -/
theorem patchStep_ok {item : PatchItem} {d d' : Entries} (h : patchStep item d = .ok d') :
    ∃ w, d' = d.set (.text item.field) w ∧ Written item d w := by
  unfold patchStep at h
  unfold Written
  cases hh : handlerOf item.field <;> simp only [hh] at h ⊢
  · unfold patchScalarField at h
    split at h <;> cases h
    exact ⟨_, rfl, rfl⟩
  · unfold patchListField at h
    split at h
    · next items hi =>
      cases h
      exact ⟨_, rfl, items, hi, rfl⟩
    · cases h
  · unfold patchSortField at h
    split at h
    · next items hi =>
      cases h
      exact ⟨_, rfl, .inl ⟨items, hi, rfl⟩⟩
    · next hi =>
      cases h
      exact ⟨_, rfl, .inr ⟨rfl, hi⟩⟩
  · unfold patchMappingField at h
    split at h
    · next entries he =>
      rw [patchMapping_eq] at h
      cases hu : entries.foldlM (mappingStep item.oldValue item.newValue) [] with
      | error e =>
        rw [hu] at h
        cases h
      | ok updated =>
        rw [hu] at h
        cases h
        exact ⟨_, rfl, entries, updated, he, hu, rfl⟩
    · cases h
  · unfold patchAggregationsField at h
    split at h
    · next items hi =>
      cases h
      exact ⟨_, rfl, items, hi, rfl⟩
    · cases h

/-- A patch item succeeds exactly on a field of the shape its handler needs. -/
theorem patchStep_isOk_iff (item : PatchItem) (d : Entries) :
    (∃ d', patchStep item d = .ok d') ↔ Fits item d := by
  unfold patchStep Fits
  cases handlerOf item.field with
  | scalar =>
    unfold patchScalarField
    cases d.get? (.text item.field) <;> simp
  | list =>
    unfold patchListField
    cases d.get? (.text item.field) with
    | none => simp
    | some v => cases v <;> simp
  | sort =>
    unfold patchSortField
    cases d.get? (.text item.field) with
    | none => simp
    | some v => cases v <;> simp
  | mapping =>
    unfold patchMappingField
    cases d.get? (.text item.field) with
    | none => simp
    | some v =>
      cases v with
      | map entries =>
        simp only [Option.some.injEq, Node.map.injEq, exists_eq_left',
          ← foldlM_mappingStep_ok_iff entries [], patchMapping_eq]
        cases entries.foldlM (mappingStep item.oldValue item.newValue) [] <;>
          simp [bind, Except.bind, pure, Except.pure]
      | _ => simp
  | aggregations =>
    unfold patchAggregationsField
    cases d.get? (.text item.field) with
    | none => simp
    | some v => cases v <;> simp

/-! ### The fields of a step type -/

/-- Every field of a step type is one of these. -/
theorem forall_fields (py : Python) {p : Field → Prop}
    (hget : ∀ name default, name ∉ ["name", "type", "contract", "on", "aggregations"] →
      p (rawGet name default))
    (hon : p (onField py))
    (haggregations : p (rawGetWith "aggregations" (.seq []) fun v => some (aggregationList v)))
    (horder : p (rawGetWith "order" (str "asc") fun v => some (sortOrder py v)))
    (hindex : p (rawGetWith "index" (str "") fun v => some (indexList v)))
    (hint : ∀ name default, name ∈ ["batch_size", "batch_timeout_ms"] →
      p (rawGetWith name default int)) (t : StepType) :
    ∀ f ∈ buildTypedStep py t, p f := by
  cases t <;> simp only [buildTypedStep, input, List.forall_mem_cons, List.not_mem_nil,
    false_imp_iff, implies_true, and_true] <;> (repeat' apply And.intro) <;>
    first
    | exact hget _ _ (by decide)
    | exact hon
    | exact haggregations
    | exact horder
    | exact hindex
    | exact hint _ _ (by decide)

variable {py : Python} {t : StepType} {f : Field}

theorem field_cases (h : f ∈ buildTypedStep py t) :
    (∃ default, f.value = fun raw => raw.getD (key f.name) default) ∨ f = onField py := by
  revert f
  apply forall_fields
  · exact fun name default _ => .inl ⟨default, rfl⟩
  · exact .inr rfl
  · exact .inl ⟨_, rfl⟩
  · exact .inl ⟨_, rfl⟩
  · exact .inl ⟨_, rfl⟩
  · exact fun name default _ => .inl ⟨default, rfl⟩

theorem field_name (h : f ∈ buildTypedStep py t) :
    f.name.toList ≠ "name".toList ∧ f.name.toList ≠ "type".toList ∧
      f.name.toList ≠ "contract".toList := by
  have hne : f.name ∉ ["name", "type", "contract"] := by
    revert f
    apply forall_fields
    · intro name default h
      simp only [List.mem_cons, List.not_mem_nil, or_false, not_or] at h ⊢
      exact ⟨h.1, h.2.1, h.2.2.1⟩
    · change "on" ∉ _
      decide
    · decide
    · change "order" ∉ _
      decide
    · decide
    · intro name default h
      change name ∉ _
      simp only [List.mem_cons, List.not_mem_nil, or_false] at h
      rcases h with rfl | rfl <;> decide
  simp only [List.mem_cons, List.not_mem_nil, or_false, not_or] at hne
  simpa only [ne_eq, String.toList_inj] using hne

/-- A field whose handler looks into its value holds that value as it is. -/
theorem convert_of_handler (h : f ∈ buildTypedStep py t)
    (hh : handlerOf f.name.toList ≠ .scalar) (v : Node)
    (hv : v.isMap = false ∨ handlerOf f.name.toList ≠ .aggregations) : f.convert v = some v := by
  have hon : handlerOf "on".toList = .scalar := by decide
  have horder : handlerOf "order".toList = .scalar := by decide
  have hindex : handlerOf "index".toList = .scalar := by decide
  have haggs : handlerOf "aggregations".toList = .aggregations := by decide
  revert f
  apply forall_fields
  · exact fun name default _ _ _ => rfl
  · exact fun h => absurd hon h
  · intro _ hv
    rcases hv with hv | hv
    · cases v <;> first | rfl | cases hv
    · exact absurd haggs hv
  · exact fun h => absurd horder h
  · exact fun h => absurd hindex h
  · intro name default h hh
    have hname : handlerOf name.toList = .scalar := by
      simp only [List.mem_cons, List.not_mem_nil, or_false] at h
      rcases h with rfl | rfl <;> decide
    exact absurd hname hh

theorem names_nodup (py : Python) (t : StepType) :
    ((buildTypedStep py t).map (·.name)).Nodup := by
  cases t <;> simp [buildTypedStep, input, rawGet, rawGetWith, onField]

theorem by_field (h : f ∈ buildTypedStep py t) (hname : f.name = "by") :
    f = rawGet "by" (str "") := by
  have hall : ∀ f ∈ buildTypedStep py t, f.name = "by" → f = rawGet "by" (str "") := by
    cases t <;> simp [buildTypedStep, input, rawGet, rawGetWith, onField]
  exact hall f h hname

theorem handlerOf_sort {field : Text} (h : handlerOf field = .sort) : field = "by".toList := by
  unfold handlerOf at h
  cases hf : handlers.find? fun e => decide (e.1.toList = field) with
  | none => simp [hf] at h
  | some e =>
    have hname : e.1.toList = field := by simpa using List.find?_some hf
    have hmem := List.mem_of_find?_eq_some hf
    rw [hf] at h
    simp only [handlers, List.mem_cons, List.not_mem_nil, or_false] at hmem
    rcases hmem with rfl | rfl | rfl | rfl | rfl | rfl | rfl | rfl | rfl | rfl | rfl | rfl <;>
      first | exact hname.symm | cases h

theorem convertOf_eq (h : f ∈ buildTypedStep py t) : convertOf py t f.name = f.convert := by
  have hnodup := names_nodup py t
  unfold convertOf
  generalize buildTypedStep py t = fs at h hnodup
  induction fs with
  | nil => cases h
  | cons g fs ih =>
    rw [List.map_cons, List.nodup_cons] at hnodup
    rcases List.mem_cons.mp h with rfl | hf
    · simp
    · have hne : g.name ≠ f.name := fun he =>
        hnodup.1 (he ▸ List.mem_map.mpr ⟨f, hf, rfl⟩)
      rw [List.find?_cons_of_neg (by simpa using hne)]
      exact ih hf hnodup.2

/-! ### One step -/

theorem value_set_other {field : Text} (h : f ∈ buildTypedStep py t) (hname : f.name.toList ≠ field)
    (d : Entries) (w : Node) : f.value (d.set (.text field) w) = f.value d := by
  have hkey : key f.name ≠ .text field := fun he => hname (Key.text.inj he)
  rcases field_cases h with ⟨default, hv⟩ | rfl
  · simp only [hv, Entries.getD_set, if_neg hkey]
  · change onValue _ = onValue d
    have hkey' : key "on" ≠ .text field := hkey
    have hnumber : Key.number 1 ≠ .text field := nofun
    simp only [onValue, Entries.getD_set, if_neg hkey', if_neg hnumber]

/-- What is read of a field that has been written, where no other `on` can be read. -/
theorem convert_set_self (h : f ∈ buildTypedStep py t) (d : Entries) {w : Node}
    (hon : f.name = "on" → w.truthy = true ∨ d.get? (.number 1) = none) :
    f.convert (f.value (d.set (.text f.name.toList) w)) = f.convert w := by
  rcases field_cases h with ⟨default, hv⟩ | rfl
  · simp only [hv, key, Entries.getD_set, if_true]
  · have hself : (d.set (key "on") w).getD (key "on") (str "") = w := by
      rw [Entries.getD_set, if_pos rfl]
    have hone : (d.set (key "on") w).getD (.number 1) (str "") = d.getD (.number 1) (str "") := by
      rw [Entries.getD_set, if_neg nofun]
    change (onField py).convert (onValue (d.set (key "on") w)) = (onField py).convert w
    unfold onValue
    rw [hself, hone]
    dsimp only
    cases hw : w.truthy with
    | true => rw [if_pos rfl]
    | false =>
      have hnone : d.get? (.number 1) = none := by
        rcases hon rfl with ht | hn
        · simp [hw] at ht
        · exact hn
      have hdefault : d.getD (.number 1) (str "") = str "" := by
        unfold Entries.getD
        rw [show Dict.find (Key.number 1) d = none from hnone]
        rfl
      have hempty : (str "").truthy = false := rfl
      simp [onField, hw, hdefault, hempty]

theorem value_of_get? {v : Node} (h : f ∈ buildTypedStep py t) (hname : f.name ≠ "on")
    {d : Entries} (hv : d.get? (.text f.name.toList) = some v) : f.value d = v := by
  rcases field_cases h with ⟨default, hvalue⟩ | rfl
  · have hfind : Dict.find (key f.name) d = some v := hv
    simp only [hvalue, Entries.getD, hfind, Option.getD_some]
  · exact absurd rfl hname

/-- Editing a field of the mapping edits the field of the config. -/
theorem field_edit {item : PatchItem} {d : Entries} {v w : Node} (h : f ∈ buildTypedStep py t)
    (hname : f.name.toList = item.field) (hexact : FieldExact item d f) (hw : Written item d w)
    (hv : f.convert (f.value d) = some v) :
    ∃ v', f.convert (f.value (d.set (.text item.field) w)) = some v' ∧
      f.convert (edited item v) = some v' := by
  have hon : handlerOf item.field ≠ .scalar → f.name ≠ "on" := by
    intro hh he
    rw [← hname, he] at hh
    exact hh (by decide)
  have hself := fun hon => convert_set_self h d (w := w) hon
  rw [hname] at hself
  have hconvert := convert_of_handler h
  rw [hname] at hconvert
  have hvalue := fun v hne hv => value_of_get? (v := v) h hne (d := d) hv
  rw [hname] at hvalue
  unfold FieldExact at hexact
  unfold Written at hw
  cases hh : handlerOf item.field <;> simp only [hh] at hexact hw hon hconvert
  · obtain ⟨hsome, hkey, hshape⟩ := hexact
    subst hw
    obtain ⟨v', hv'⟩ := Option.isSome_iff_exists.mp hsome
    refine ⟨v', (hself hkey).trans hv', ?_⟩
    cases v with
    | seq items => exact (hshape _ hv (.inl rfl)).trans hv'
    | map entries => exact (hshape _ hv (.inr rfl)).trans hv'
    | _ => exact hv'
  · obtain ⟨items, hget, rfl⟩ := hw
    rw [hvalue _ (hon nofun) hget, hconvert nofun _ (.inl rfl)] at hv
    cases hv
    refine ⟨_, (hself fun he => absurd he (hon nofun)).trans (hconvert nofun _ (.inl rfl)), ?_⟩
    rw [hconvert nofun _ (.inr nofun)]
    simp [edited, hh]
  · rw [hconvert nofun _ (.inr nofun)] at hv
    cases hv
    have hconverted := fun v => hconvert nofun v (.inr nofun)
    refine ⟨w, (hself fun he => absurd he (hon nofun)).trans (hconverted w), ?_⟩
    rw [hconverted]
    rcases hw with ⟨items, hget, rfl⟩ | ⟨rfl, hget⟩
    · rw [hvalue _ (hon nofun) hget]
      simp [edited, hh]
    · have hby : f = rawGet "by" (str "") :=
        by_field h (String.toList_inj.mp (hname.trans (handlerOf_sort hh)))
      have hseq : ∀ items, f.value d ≠ .seq items := by
        intro items hitems
        cases hg : d.get? (.text item.field) with
        | none =>
          subst hby
          rw [← hname] at hg
          have hnone : Dict.find (key "by") d = none := hg
          simp [rawGet, Entries.getD, hnone, str] at hitems
        | some v =>
          rw [hvalue v (hon nofun) hg] at hitems
          exact hget items (hitems ▸ hg)
      cases hvd : f.value d with
      | seq items => exact absurd hvd (hseq items)
      | map entries => simp [hvd, Node.isMap] at hexact
      | _ => rfl
  · obtain ⟨entries, updated, hget, hfold, rfl⟩ := hw
    have hconverted := fun v => hconvert nofun v (.inr nofun)
    rw [hvalue _ (hon nofun) hget, hconverted] at hv
    cases hv
    have hupdated := foldlM_mappingStep entries [] (by simpa using hexact entries hget) hfold
    refine ⟨_, (hself fun he => absurd he (hon nofun)).trans (hconverted _), ?_⟩
    rw [hconverted, hupdated]
    rfl
  · obtain ⟨items, hget, rfl⟩ := hw
    rw [hvalue _ (hon nofun) hget, hconvert nofun _ (.inl rfl)] at hv
    cases hv
    refine ⟨_, (hself fun he => absurd he (hon nofun)).trans (hconvert nofun _ (.inl rfl)), ?_⟩
    rw [hconvert nofun _ (.inl (by simp [edited, hh, Node.isMap]))]
    simp [edited, hh]

theorem readField_ok {d : Entries} {e : String × Node} (h : readField d f = .ok e) :
    e.1 = f.name ∧ f.convert (f.value d) = some e.2 := by
  unfold readField at h
  cases hv : f.convert (f.value d) with
  | none => simp [hv] at h
  | some v =>
    rw [hv] at h
    cases h
    exact ⟨rfl, rfl⟩

theorem readField_of_convert {d : Entries} {v : Node} (h : f.convert (f.value d) = some v) :
    readField d f = .ok (f.name, v) := by
  simp only [readField, h]

/-- What is written besides the fields leaves them as they are read. -/
theorem readFields_congr {d d' : Entries} (fs : List Field) (h : ∀ f ∈ fs, f.value d' = f.value d) :
    fs.mapM (readField d') = fs.mapM (readField d) := by
  induction fs with
  | nil => rfl
  | cons f fs ih =>
    have hf : readField d' f = readField d f := by
      unfold readField
      rw [h f (List.mem_cons_self ..)]
    rw [List.mapM_cons, List.mapM_cons, hf, ih fun f hf => h f (List.mem_cons_of_mem _ hf)]

/-- All fields of a step, the named one edited and the others as they were. -/
theorem readFields_edit {item : PatchItem} {d : Entries} {w : Node} {es : List (String × Node)}
    (hexact : ∀ f ∈ buildTypedStep py t, f.name.toList = item.field → FieldExact item d f)
    (hw : Written item d w) (hes : (buildTypedStep py t).mapM (readField d) = .ok es) :
    ∃ es', (buildTypedStep py t).mapM (readField (d.set (.text item.field) w)) = .ok es' ∧
      es.mapM (editField py item t) = some es' := by
  have hall : ∀ fs : List Field, (∀ f ∈ fs, f ∈ buildTypedStep py t) → ∀ es,
      List.Forall₂ (fun f e => readField d f = .ok e) fs es →
      ∃ es', List.Forall₂ (fun f e => readField (d.set (.text item.field) w) f = .ok e) fs es' ∧
        List.Forall₂ (fun e e' => editField py item t e = some e') es es' := by
    intro fs hfs es h
    induction h with
    | nil => exact ⟨[], .nil, .nil⟩
    | @cons f e fs es hf hes ih =>
      obtain ⟨es', hread, hedit⟩ := ih fun f hf => hfs f (List.mem_cons_of_mem _ hf)
      have hmem := hfs f (List.mem_cons_self ..)
      obtain ⟨hname, hv⟩ := readField_ok hf
      obtain ⟨name, v⟩ := e
      dsimp only at hname hv
      subst hname
      by_cases hfield : f.name.toList = item.field
      · obtain ⟨v', hv', hedited⟩ := field_edit hmem hfield (hexact f hmem hfield) hw hv
        refine ⟨(f.name, v') :: es', .cons (readField_of_convert hv') hread, .cons ?_ hedit⟩
        simp only [editField, hfield, if_true, convertOf_eq hmem, hedited, Option.map_some]
      · have hv' : f.convert (f.value (d.set (.text item.field) w)) = some v := by
          rw [value_set_other hmem hfield]
          exact hv
        refine ⟨(f.name, v) :: es', .cons (readField_of_convert hv') hread, .cons ?_ hedit⟩
        simp only [editField, hfield, if_false]
  obtain ⟨es', hread, hedit⟩ := hall _ (fun f hf => hf) es (mapM_ok_iff.mp hes)
  exact ⟨es', mapM_ok_iff.mpr hread, mapM_some_iff.mpr hedit⟩

theorem handlerOf_reserved {field : Text}
    (h : field = "name".toList ∨ field = "type".toList ∨ field = "contract".toList) :
    handlerOf field = .scalar := by
  rcases h with rfl | rfl | rfl <;> decide

theorem parseMapping_ok_iff {d : Entries} {c : StepConfig} :
    parseMapping py d = .ok c ↔
      (StepType.ofNode (d.getD (key "type") (str "")) = none ∧
        c = ⟨d.getD (key "name") (str ""), .inr (d.getD (key "type") (str "")), .null, []⟩) ∨
      ∃ t es, StepType.ofNode (d.getD (key "type") (str "")) = some t ∧
        (buildTypedStep py t).mapM (readField d) = .ok es ∧
        c = ⟨d.getD (key "name") (str ""), .inl t, d.getD (key "contract") .null, es⟩ := by
  unfold parseMapping
  cases htype : StepType.ofNode (d.getD (key "type") (str "")) with
  | none => simp [htype, eq_comm]
  | some t =>
    dsimp only
    cases hes : (buildTypedStep py t).mapM (readField d) with
    | error e => simp [bind, Except.bind, htype, hes]
    | ok es => simp [bind, Except.bind, pure, Except.pure, htype, hes, eq_comm]

theorem getD_set_name (d : Entries) (field : Text) (w : Node) (name : String) (default : Node) :
    (d.set (.text field) w).getD (key name) default =
      if name.toList = field then w else d.getD (key name) default := by
  rw [Entries.getD_set]
  simp only [key, Key.text.injEq]

/-- Name, type and contract are no fields of a step type. -/
theorem readFields_reserved {field : Text} (h : field = "name".toList ∨ field = "type".toList ∨
    field = "contract".toList) (d : Entries) (w : Node) (t : StepType) :
    (buildTypedStep py t).mapM (readField (d.set (.text field) w)) =
      (buildTypedStep py t).mapM (readField d) := by
  refine readFields_congr _ fun f hf => value_set_other hf ?_ d w
  have hname := field_name hf
  rcases h with h | h | h <;> rw [h]
  · exact hname.1
  · exact hname.2.1
  · exact hname.2.2

theorem written_reserved {item : PatchItem} {d : Entries} {w : Node} (h : item.field = "name".toList ∨
    item.field = "type".toList ∨ item.field = "contract".toList) (hw : Written item d w) :
    w = item.newValue := by
  have hh := handlerOf_reserved h
  simpa only [Written, hh] using hw

/-- The config of a patched step is the config of the step, edited. -/
theorem parseMapping_edit {item : PatchItem} {d d' : Entries} {c : StepConfig}
    (hc : parseMapping py d = .ok c) (hp : patchStep item d = .ok d')
    (hexact : StepExact py item d) :
    ∃ c', parseMapping py d' = .ok c' ∧ editStep py item c = some c' := by
  obtain ⟨w, rfl, hw⟩ := patchStep_ok hp
  have hnt : "name".toList ≠ "type".toList := by decide
  have hnc : "name".toList ≠ "contract".toList := by decide
  have htc : "type".toList ≠ "contract".toList := by decide
  simp only [parseMapping_ok_iff, getD_set_name] at hc ⊢
  unfold StepExact at hexact
  unfold editStep
  by_cases hname : item.field = "name".toList
  · obtain rfl := written_reserved (.inl hname) hw
    simp only [readFields_reserved (.inl hname)]
    simp only [hname, if_true, if_neg hnt.symm, if_neg hnc.symm]
    rcases hc with ⟨htype, rfl⟩ | ⟨t, es, htype, hes, rfl⟩
    · exact ⟨_, .inl ⟨htype, rfl⟩, rfl⟩
    · exact ⟨_, .inr ⟨t, es, htype, hes, rfl⟩, rfl⟩
  · by_cases htypeField : item.field = "type".toList
    · obtain rfl := written_reserved (.inr (.inl htypeField)) hw
      simp only [readFields_reserved (.inr (.inl htypeField))]
      simp only [htypeField, if_true, if_neg hnt, if_neg hnt.symm, if_neg htc.symm] at hexact ⊢
      rcases hc with ⟨htype, rfl⟩ | ⟨t, es, htype, hes, rfl⟩
      · have hnew := hexact.symm.trans htype
        exact ⟨_, .inl ⟨hnew, rfl⟩, by simp [readType, hnew]⟩
      · have hnew := hexact.symm.trans htype
        exact ⟨_, .inr ⟨t, es, hnew, hes, rfl⟩, by simp [readType, hnew]⟩
    · simp only [if_neg hname, if_neg htypeField, if_neg (Ne.symm hname),
        if_neg (Ne.symm htypeField)] at hexact ⊢
      rcases hc with ⟨htype, rfl⟩ | ⟨t, es, htype, hes, rfl⟩
      · exact ⟨_, .inl ⟨htype, rfl⟩, rfl⟩
      · simp only [htype] at hexact
        by_cases hcontract : item.field = "contract".toList
        · obtain rfl := written_reserved (.inr (.inr hcontract)) hw
          simp only [if_pos hcontract] at hexact
          simp only [readFields_reserved (.inr (.inr hcontract))]
          simp only [if_pos hcontract, if_pos hcontract.symm, hexact]
          exact ⟨_, .inr ⟨t, es, htype, hes, rfl⟩, rfl⟩
        · simp only [if_neg hcontract, if_neg (Ne.symm hcontract)] at hexact ⊢
          obtain ⟨es', hread, hedit⟩ := readFields_edit hexact hw hes
          exact ⟨_, .inr ⟨t, es', htype, hread, rfl⟩, by simp [hedit]⟩

end PipelineIQ.Execution.PatchFields
