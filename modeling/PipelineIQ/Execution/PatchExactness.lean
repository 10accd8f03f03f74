import PipelineIQ.Execution.PatchFields

namespace PipelineIQ.Execution.PatchExactness

open PipelineIQ.Lib PipelineIQ.Lib.Strings PipelineIQ.Lib.Yaml PipelineIQ.Lib.Traverse
  PipelineIQ.Pipeline.Parser PipelineIQ.Execution.PatchApplier PipelineIQ.Execution.PatchFields

/-! ### The meaning of a patch for a config -/

def isNamed (name : Text) : Node → Bool
  | .text t => t = name
  | _ => false

section Meaning

variable (py : Python)

/-- Every step whose first name is the item's is edited. -/
def editSteps (names : List Node) (steps : List StepConfig) (item : PatchItem) :
    Option (List StepConfig) :=
  (names.zip steps).mapM fun e =>
    if isNamed item.stepName e.1 then editStep py item e.2 else some e.2

def editConfig (config : PipelineConfig) (patch : List PatchItem) : Option PipelineConfig :=
  (patch.foldlM (editSteps py (config.steps.map (·.name))) config.steps).map fun steps =>
    { config with steps }

end Meaning

/-! ### Conditions along a patch -/

section Conditions

variable (py : Python) (named : List Node)

/-- One patch item after the other. -/
def patchRun (steps : List Node) (item : PatchItem) : Option (List Node) :=
  (applyPatchItem named steps item).toOption

/-- `p` holds of the step an item names. -/
def AtStep (p : Nat → Entries → Prop) (steps : List Node) (item : PatchItem) : Prop :=
  ∀ i d, stepMap item.stepName named = some i → steps[i]? = some (.map d) → p i d

def Succeeds (steps : List Node) (item : PatchItem) : Prop :=
  AtStep named (fun _ d => Reads py item d →
    ∃ steps', applyPatchItem named steps item = .ok steps') steps item

def FitsThere (steps : List Node) (item : PatchItem) : Prop :=
  AtStep named (fun _ d => Reads py item d → Fits item d) steps item

/-- No other step has the item's step name, and the edit loses nothing. -/
def ExactThere (steps : List Node) (item : PatchItem) : Prop :=
  AtStep named (fun i d =>
    (∀ (j : Nat) e, named[j]? = some (.map e) →
      isNamed item.stepName (Entries.getD e (key "name") (str "")) = true → j = i) ∧
    StepExact py item d) steps item

end Conditions

/-- A key that does not begin like a diff marker. -/
def plainKey : Key → Bool
  | .text t => !marked t
  | .number q => 0 ≤ q
  | .null => true

/-- The root of the document holds no list, and no key like a diff marker. -/
def plainRoot (document : Entries) : Prop :=
  ∀ e ∈ document, plainKey e.1 = true ∧ ∀ items, e.2 = .seq items → items = []

/-- The steps of a document. -/
def stepsOf (document : Entries) : List Node :=
  match pipelineOf document with
  | none => []
  | some pipeline => (pipeline.getD (key "steps") (.seq [])).asSeq.getD []

/-! ### One item -/

variable {py : Python} {named steps steps' : List Node} {item : PatchItem}

theorem applyPatchItem_ok_iff :
    applyPatchItem named steps item = .ok steps' ↔
      ∃ i d d', stepMap item.stepName named = some i ∧ steps[i]? = some (.map d) ∧
        patchStep item d = .ok d' ∧ steps' = steps.set i (.map d') := by
  unfold applyPatchItem
  cases hi : stepMap item.stepName named with
  | none => simp
  | some i =>
    cases hd : steps[i]? with
    | none => simp [hd]
    | some v =>
      cases v with
      | map d =>
        cases hp : patchStep item d with
        | error e => simp [hd, hp, bind, Except.bind]
        | ok d' => simp [hd, hp, bind, Except.bind, pure, Except.pure, eq_comm]
      | _ => simp [hd]

theorem length_applyPatchItem (h : applyPatchItem named steps item = .ok steps') :
    steps'.length = steps.length := by
  obtain ⟨i, d, d', -, -, -, rfl⟩ := applyPatchItem_ok_iff.mp h
  exact List.length_set

theorem length_foldlM {patch : List PatchItem}
    (h : patch.foldlM (applyPatchItem named) steps = .ok steps') :
    steps'.length = steps.length := by
  induction patch generalizing steps with
  | nil =>
    cases h
    rfl
  | cons item patch ih =>
    obtain ⟨u, hu, hrest⟩ := foldlM_cons_ok_iff.mp h
    exact (ih hrest).trans (length_applyPatchItem hu)

theorem succeeds_iff_fitsThere : Succeeds py named steps item ↔ FitsThere py named steps item := by
  unfold Succeeds FitsThere AtStep
  constructor
  · intro h i d hi hd hreads
    obtain ⟨steps', hs⟩ := h i d hi hd hreads
    obtain ⟨j, e, d', hj, he, hp, -⟩ := applyPatchItem_ok_iff.mp hs
    obtain rfl : i = j := Option.some.inj (hi.symm.trans hj)
    obtain rfl : d = e := by simpa using hd.symm.trans he
    exact (patchStep_isOk_iff item d).mp ⟨d', hp⟩
  · intro h i d hi hd hreads
    obtain ⟨d', hp⟩ := (patchStep_isOk_iff item d).mpr (h i d hi hd hreads)
    exact ⟨_, applyPatchItem_ok_iff.mpr ⟨i, d, d', hi, hd, hp, rfl⟩⟩

theorem stepMap_some {name : Text} {i : Nat} (h : stepMap name named = some i) :
    ∃ d, named[i]? = some (.map d) ∧ Entries.get? d (key "name") = some (.text name) := by
  induction named generalizing i with
  | nil => cases h
  | cons step named ih =>
    unfold stepMap at h
    cases hrest : stepMap name named with
    | some j =>
      simp only [hrest, Option.some.injEq] at h
      subst h
      exact ih hrest
    | none =>
      simp only [hrest] at h
      cases step with
      | map d =>
        cases hf : Dict.find (key "name") d with
        | none => simp [hf] at h
        | some v =>
          cases v with
          | text t =>
            by_cases ht : t = name
            · subst ht
              simp only [hf, if_true, Option.some.injEq] at h
              subst h
              exact ⟨d, rfl, hf⟩
            · simp [hf, ht] at h
          | _ => simp [hf] at h
      | _ => simp at h

/-- Editing one step by its name edits one place of the list. -/
theorem editSteps_of_unnamed {names : List Node} {configs : List StepConfig}
    (hlen : names.length = configs.length)
    (h : ∀ (j : Nat) n, names[j]? = some n → isNamed item.stepName n = false) :
    editSteps py names configs item = some configs := by
  unfold editSteps
  induction names generalizing configs with
  | nil =>
    cases configs with
    | nil => rfl
    | cons c configs => simp at hlen
  | cons n names ih =>
    cases configs with
    | nil => simp at hlen
    | cons c configs =>
      rw [List.zip_cons_cons, List.mapM_cons, ih (by simpa using hlen) fun j => h (j + 1)]
      simp [h 0 n rfl]

theorem editSteps_eq {names : List Node} {configs : List StepConfig} {i : Nat} {n : Node}
    {c c' : StepConfig} (hlen : names.length = configs.length) (hn : names[i]? = some n)
    (hnamed : isNamed item.stepName n = true)
    (hother : ∀ (j : Nat) n, names[j]? = some n → isNamed item.stepName n = true → j = i)
    (hc : configs[i]? = some c) (hedit : editStep py item c = some c') :
    editSteps py names configs item = some (configs.set i c') := by
  induction names generalizing configs i with
  | nil => simp at hn
  | cons m names ih =>
    cases configs with
    | nil => simp at hc
    | cons b configs =>
      have hlen' : names.length = configs.length := by simpa using hlen
      cases i with
      | zero =>
        cases hn
        cases hc
        have hrest : editSteps py names configs item = some configs := by
          apply editSteps_of_unnamed hlen'
          intro j k hk
          by_contra hne
          have := hother (j + 1) k hk (by simpa using hne)
          omega
        unfold editSteps at hrest ⊢
        rw [List.zip_cons_cons, List.mapM_cons, hrest]
        simp [hnamed, hedit]
      | succ i =>
        have hm : isNamed item.stepName m = false := by
          by_contra hne
          have := hother 0 m rfl (by simpa using hne)
          omega
        have hrest : editSteps py names configs item = some (configs.set i c') := by
          apply ih hlen' hn
          · intro j k hk hknamed
            have := hother (j + 1) k hk hknamed
            omega
          · exact hc
        unfold editSteps at hrest ⊢
        rw [List.zip_cons_cons, List.mapM_cons, hrest]
        simp [hm]

/-! ### A whole patch -/

def Parses (py : Python) (steps : List Node) (configs : List StepConfig) : Prop :=
  List.Forall₂ (fun step config => parseStep py step = .ok config) steps configs

theorem parseStep_map_name {d : Entries} {c : StepConfig} (h : parseStep py (.map d) = .ok c) :
    c.name = d.getD (key "name") (str "") := by
  rcases parseMapping_ok_iff.mp h with ⟨-, rfl⟩ | ⟨t, es, -, -, rfl⟩ <;> rfl

/-- One item edits the configs as it edits the document. -/
theorem patch_item_exact {configs₀ configs : List StepConfig} (hnamed : Parses py named configs₀)
    (hconfigs : Parses py steps configs) (hlen : steps.length = named.length)
    (hexact : ExactThere py named steps item)
    (hs : applyPatchItem named steps item = .ok steps') :
    ∃ configs', Parses py steps' configs' ∧ steps'.length = named.length ∧
      editSteps py (configs₀.map (·.name)) configs item = some configs' := by
  obtain ⟨i, d, d', hi, hd, hp, rfl⟩ := applyPatchItem_ok_iff.mp hs
  obtain ⟨honly, hstep⟩ := hexact i d hi hd
  obtain ⟨c, hc, hparse⟩ := forall₂_getElem? hconfigs hd
  obtain ⟨c', hparse', hedit⟩ := parseMapping_edit hparse hp hstep
  obtain ⟨e, he, hename⟩ := stepMap_some hi
  obtain ⟨c₀, hc₀, hparse₀⟩ := forall₂_getElem? hnamed he
  have hgetD : Entries.getD e (key "name") (str "") = .text item.stepName := by
    unfold Entries.getD
    rw [show Dict.find (key "name") e = _ from hename]
    rfl
  refine ⟨configs.set i c', forall₂_set hconfigs i hparse', by simpa using hlen, ?_⟩
  have hlengths : named.length = configs₀.length := hnamed.length_eq
  apply editSteps_eq (n := c₀.name) (c := c)
  · rw [List.length_map, ← hlengths, ← hlen]
    exact hconfigs.length_eq
  · rw [List.getElem?_map, hc₀]
    rfl
  · rw [parseStep_map_name hparse₀, hgetD]
    simp [isNamed]
  · intro j n hn hjnamed
    rw [List.getElem?_map] at hn
    obtain ⟨b, hb, rfl⟩ := Option.map_eq_some_iff.mp hn
    have hlt : j < named.length := by
      rw [hlengths]
      exact (List.getElem?_eq_some_iff.mp hb).1
    obtain ⟨b', hb', hparseb⟩ := forall₂_getElem? hnamed (List.getElem?_eq_getElem hlt)
    obtain rfl : b = b' := by simpa using hb.symm.trans hb'
    cases hv : named[j] with
    | map f =>
      rw [hv] at hparseb
      refine honly j f ?_ ?_
      · rw [List.getElem?_eq_getElem hlt, hv]
      · rw [← parseStep_map_name hparseb]
        exact hjnamed
    | _ =>
      rw [hv] at hparseb
      cases hparseb
  · exact hc
  · exact hedit

theorem patch_items_exact {configs₀ configs : List StepConfig} (hnamed : Parses py named configs₀)
    {patch : List PatchItem} (hconfigs : Parses py steps configs)
    (hlen : steps.length = named.length)
    (hexact : Machine.Along (patchRun named) (ExactThere py named) steps patch)
    (hs : patch.foldlM (applyPatchItem named) steps = .ok steps') :
    ∃ configs', Parses py steps' configs' ∧ steps'.length = named.length ∧
      patch.foldlM (editSteps py (configs₀.map (·.name))) configs = some configs' := by
  induction patch generalizing steps configs with
  | nil =>
    cases hs
    exact ⟨configs, hconfigs, hlen, rfl⟩
  | cons item patch ih =>
    obtain ⟨u, hu, hrest⟩ := foldlM_cons_ok_iff.mp hs
    obtain ⟨configs', hconfigs', hlen', hedit⟩ :=
      patch_item_exact hnamed hconfigs hlen hexact.1 hu
    have hrun : patchRun named steps item = some u := by
      unfold patchRun
      rw [hu]
      rfl
    obtain ⟨configs'', hparses, hlen'', hfold⟩ := ih hconfigs' hlen' (hexact.2 u hrun) hrest
    refine ⟨configs'', hparses, hlen'', ?_⟩
    rw [List.foldlM_cons, hedit]
    exact hfold

/-! ### The document and its text -/

theorem get?_eq_getD {d : Entries} {k : Key} {v default : Node} (h : d.get? k = some v) :
    d.getD k default = v := by
  unfold Entries.getD
  rw [show Dict.find k d = some v from h]
  rfl

theorem buildPipelineConfig_ok {document : Entries} {config : PipelineConfig}
    (h : buildPipelineConfig py document = .ok config) :
    ∃ pipeline, pipelineOf document = some pipeline ∧
      config.name = pipeline.getD (key "name") (str "") ∧ config.name.truthy = true ∧
      config.description = pipeline.getD (key "description") .null ∧
      ∃ steps, pipeline.getD (key "steps") (.seq []) = .seq steps ∧
        Parses py steps config.steps := by
  unfold buildPipelineConfig at h
  cases hp : pipelineOf document with
  | none => simp [hp] at h
  | some pipeline =>
    simp only [hp] at h
    cases hname : (pipeline.getD (key "name") (str "")).truthy with
    | false => simp [hname] at h
    | true =>
      cases hsteps : pipeline.getD (key "steps") (.seq []) with
      | seq steps =>
        cases hm : steps.mapM (parseStep py) with
        | error e => simp [hname, hsteps, hm, bind, Except.bind] at h
        | ok configs =>
          simp only [hname, hsteps, hm, bind, Except.bind, pure, Except.pure, Bool.not_true,
            Bool.false_eq_true, if_false, Except.ok.injEq] at h
          subst h
          exact ⟨pipeline, rfl, rfl, hname, rfl, steps, hsteps, mapM_ok_iff.mp hm⟩
      | _ => simp [hname, hsteps] at h

theorem buildPipelineConfig_of {document pipeline : Entries} {steps : List Node}
    {configs : List StepConfig} (hp : pipelineOf document = some pipeline)
    (hname : (pipeline.getD (key "name") (str "")).truthy = true)
    (hsteps : pipeline.getD (key "steps") (.seq []) = .seq steps)
    (hconfigs : Parses py steps configs) :
    buildPipelineConfig py document = .ok ⟨pipeline.getD (key "name") (str ""),
      pipeline.getD (key "description") .null, configs⟩ := by
  unfold buildPipelineConfig
  simp only [hp, hname, hsteps, mapM_ok_iff.mpr hconfigs, Bool.not_true, Bool.false_eq_true,
    if_false]
  rfl

/-- Other steps in a document leave the rest of its pipeline. -/
theorem pipelineOf_setSteps {document pipeline : Entries} (steps : List Node)
    (h : pipelineOf document = some pipeline) :
    pipelineOf (setSteps document steps) = some (pipeline.set (key "steps") (.seq steps)) := by
  have hkeys : key "pipeline" ≠ key "steps" := by decide
  unfold pipelineOf at h
  unfold setSteps pipelineOf
  cases hv : document.get? (key "pipeline") with
  | none =>
    rw [hv] at h
    cases h
    simp only [Entries.get?_set, if_neg hkeys, hv]
  | some v =>
    rw [hv] at h
    cases v with
    | map entries =>
      cases h
      simp only [Entries.get?_set, if_true]
      rfl
    | _ => cases h

theorem mem_set {d : Entries} {k : Key} {v : Node} {e : Key × Node} (h : e ∈ d.set k v) :
    e ∈ d ∨ e = (k, v) := by
  unfold Entries.set at h
  induction d with
  | nil => exact .inr (by simpa [Dict.assign] using h)
  | cons a d ih =>
    obtain ⟨j, w⟩ := a
    by_cases hj : j = k
    · subst hj
      simp only [Dict.assign, if_true, List.mem_cons] at h
      rcases h with rfl | h
      · exact .inr rfl
      · exact .inl (List.mem_cons_of_mem _ h)
    · simp only [Dict.assign, hj, if_false, List.mem_cons] at h
      rcases h with rfl | h
      · exact .inl (List.mem_cons_self ..)
      · rcases ih h with h | h
        · exact .inl (List.mem_cons_of_mem _ h)
        · exact .inr h

theorem mem_of_get? {d : Entries} {k : Key} {v : Node} (h : d.get? k = some v) : (k, v) ∈ d := by
  unfold Entries.get? at h
  induction d with
  | nil => cases h
  | cons a d ih =>
    obtain ⟨j, w⟩ := a
    by_cases hj : j = k
    · subst hj
      simp only [Dict.find, if_true, Option.some.injEq] at h
      subst h
      exact List.mem_cons_self ..
    · simp only [Dict.find, hj, if_false] at h
      exact List.mem_cons_of_mem _ (ih h)

/-- Patched steps of a plain document stay out of its root. -/
theorem plainRoot_setSteps {document pipeline : Entries} {steps steps' : List Node}
    (h : plainRoot document) (hp : pipelineOf document = some pipeline)
    (hsteps : pipeline.get? (key "steps") = some (.seq steps))
    (hlen : steps'.length = steps.length) : plainRoot (setSteps document steps') := by
  unfold pipelineOf at hp
  unfold setSteps
  cases hv : document.get? (key "pipeline") with
  | none =>
    rw [hv] at hp
    cases hp
    dsimp only
    intro e he
    rcases mem_set he with he | rfl
    · exact h e he
    · have hnil : steps = [] := (h _ (mem_of_get? hsteps)).2 steps rfl
      subst hnil
      refine ⟨show plainKey (key "steps") = true by decide, ?_⟩
      intro items hitems
      cases hitems
      exact List.length_eq_zero_iff.mp hlen
  | some v =>
    rw [hv] at hp
    cases v with
    | map entries =>
      cases hp
      dsimp only
      intro e he
      rcases mem_set he with he | rfl
      · exact h e he
      · exact ⟨show plainKey (key "pipeline") = true by decide, nofun⟩
    | _ => cases hp

theorem stripDiffMarkers_of_unmarked {text : Text} (h : (splitLines text).any marked = false) :
    stripDiffMarkers text = text := by
  simp [stripDiffMarkers, h]

theorem patchDocument_ok {document document' : Entries} {patch : List PatchItem}
    (h : patchDocument document patch = .ok document') :
    ∃ pipeline steps steps', pipelineOf document = some pipeline ∧
      pipeline.get? (key "steps") = some (.seq steps) ∧
      patch.foldlM (applyPatchItem steps) steps = .ok steps' ∧
      document' = setSteps document steps' := by
  unfold patchDocument at h
  cases hp : pipelineOf document with
  | none => simp [hp] at h
  | some pipeline =>
    cases hs : pipeline.get? (key "steps") with
    | none => simp [hp, hs] at h
    | some v =>
      cases v with
      | seq steps =>
        cases hf : patch.foldlM (applyPatchItem steps) steps with
        | error e => simp [hp, hs, hf, bind, Except.bind] at h
        | ok steps' =>
          simp only [hp, hs, hf, bind, Except.bind, pure, Except.pure, Except.ok.injEq] at h
          exact ⟨pipeline, steps, steps', rfl, hs, hf, h.symm⟩
      | _ => simp [hp, hs] at h

/-- The patched document builds the edited config. -/
theorem patchDocument_exact {document document' : Entries} {config : PipelineConfig}
    {patch : List PatchItem} (hconfig : buildPipelineConfig py document = .ok config)
    (hexact : Machine.Along (patchRun (stepsOf document)) (ExactThere py (stepsOf document))
      (stepsOf document) patch)
    (h : patchDocument document patch = .ok document') :
    ∃ config', editConfig py config patch = some config' ∧
      buildPipelineConfig py document' = .ok config' := by
  obtain ⟨pipeline, steps, steps', hp, hsteps, hfold, rfl⟩ := patchDocument_ok h
  obtain ⟨pipeline', hp', hname, htruthy, hdescription, steps₀, hsteps₀, hparses⟩ :=
    buildPipelineConfig_ok hconfig
  obtain rfl : pipeline = pipeline' := Option.some.inj (hp.symm.trans hp')
  have hgetD : pipeline.getD (key "steps") (.seq []) = .seq steps := get?_eq_getD hsteps
  obtain rfl : steps = steps₀ := by simpa [hgetD] using hsteps₀
  have hstepsOf : stepsOf document = steps := by
    simp [stepsOf, hp, hgetD, Node.asSeq]
  rw [hstepsOf] at hexact
  obtain ⟨configs', hparses', -, hedit⟩ :=
    patch_items_exact hparses hparses rfl hexact hfold
  have hnk : key "name" ≠ key "steps" := by decide
  have hdk : key "description" ≠ key "steps" := by decide
  have hbuild : buildPipelineConfig py (setSteps document steps') =
      .ok ⟨config.name, config.description, configs'⟩ := by
    have htruthy' : ((pipeline.set (key "steps") (.seq steps')).getD (key "name")
        (str "")).truthy = true := by
      simpa [Entries.getD_set, hnk, ← hname] using htruthy
    have hsteps' : (pipeline.set (key "steps") (.seq steps')).getD (key "steps") (.seq []) =
        .seq steps' := by
      simp [Entries.getD_set]
    have h := buildPipelineConfig_of (pipelineOf_setSteps steps' hp) htruthy' hsteps' hparses'
    simpa only [Entries.getD_set, if_neg hnk, if_neg hdk, ← hname, ← hdescription] using h
  exact ⟨_, by simp [editConfig, hedit], hbuild⟩

/-! ### Patching a pipeline text -/

section Text

variable {yaml : PyYaml} {isWord : Char → Bool} {text : Text} {document : Entries}
  {config : PipelineConfig} {patch : List PatchItem}

/-- Every item that names a step and a field the parser reads succeeds exactly when the field has
the shape its handler needs; and where every item is exact, the patched text parses as the config
with just the named fields of the named steps edited. -/
theorem apply_patch_exact
    (hload : yaml.safeLoad text = some (.map document))
    (hparse : parseYaml yaml isWord text = .ok document)
    (hconfig : parse yaml isWord py text = .ok config)
    (hroot : plainRoot document)
    (hlayout : ∀ d, patchDocument document patch = .ok d → plainRoot d →
      (splitLines (yaml.safeDump (.map d))).any marked = false)
    (hround : ∀ d, patchDocument document patch = .ok d →
      yaml.safeLoad (strip (yaml.safeDump (.map d))) = some (.map d)) :
    (Machine.Along (patchRun (stepsOf document)) (Succeeds py (stepsOf document))
        (stepsOf document) patch ↔
      Machine.Along (patchRun (stepsOf document)) (FitsThere py (stepsOf document))
        (stepsOf document) patch) ∧
    (Machine.Along (patchRun (stepsOf document)) (ExactThere py (stepsOf document))
        (stepsOf document) patch →
      ∀ out, applyPatch yaml text patch = .ok out →
        ∃ config', editConfig py config patch = some config' ∧
          parse yaml isWord py out = .ok config') := by
  refine ⟨Machine.along_congr fun _ _ => succeeds_iff_fitsThere, ?_⟩
  intro hexact out hout
  have hbuilt : buildPipelineConfig py document = .ok config := by
    unfold parse at hconfig
    rw [hparse] at hconfig
    exact hconfig
  unfold applyPatch at hout
  simp only [hload] at hout
  cases hd : patchDocument document patch with
  | error e =>
    rw [hd] at hout
    cases hout
  | ok document' =>
    rw [hd] at hout
    cases hout
    obtain ⟨config', hedit, hbuild⟩ := patchDocument_exact hbuilt hexact hd
    refine ⟨config', hedit, ?_⟩
    have hplain : plainRoot document' := by
      obtain ⟨pipeline, steps, steps', hp, hsteps, hfold, rfl⟩ := patchDocument_ok hd
      exact plainRoot_setSteps hroot hp hsteps (length_foldlM hfold)
    have hstrip := stripDiffMarkers_of_unmarked (hlayout document' hd hplain)
    have hread : parseYaml yaml isWord (yaml.safeDump (.map document')) = .ok document' := by
      simp only [parseYaml, hstrip, hround document' hd]
    unfold parse
    rw [hread]
    exact hbuild

end Text

section Examples

/-- A reader and writer of the listed texts. -/
def listedYaml (texts : List (Text × Node)) : PyYaml where
  safeLoad text := (texts.find? fun e => strip e.1 = strip text).map (·.2)
  safeDump document := ((texts.find? fun e => e.2.same document).map (·.1)).getD []

def plainPython : Python := ⟨fun _ => []⟩

def filterText (column : String) : Text :=
  ("pipeline:\n  name: p\n  steps:\n  - name: clean\n    type: filter\n    input: raw\n" ++
    "    column: " ++ column ++ "\n    value: 3\n").toList

def filterStep (column : String) : Entries :=
  [(key "name", str "clean"), (key "type", str "filter"), (key "input", str "raw"),
    (key "column", str column), (key "value", .int 3)]

def filterDocument (column : String) : Entries :=
  [(key "pipeline", .map [(key "name", str "p"), (key "steps", .seq [.map (filterStep column)])])]

def filterConfig (column : String) : PipelineConfig :=
  ⟨str "p", .null, [⟨str "clean", .inl .filter, .null, [("input", str "raw"),
    ("column", str column), ("operator", str "equals"), ("value", .int 3)]⟩]⟩

def filterYaml : PyYaml :=
  listedYaml [(filterText "amount", .map (filterDocument "amount")),
    (filterText "revenue", .map (filterDocument "revenue"))]

def renameColumn : PatchItem :=
  ⟨"clean".toList, "column".toList, str "amount", str "revenue"⟩

theorem renameColumn_patched :
    patchDocument (filterDocument "amount") [renameColumn] = .ok (filterDocument "revenue") := by
  rfl

-- the kernel reads a list of characters much faster than it decodes a string
theorem filterText_append (column : String) : filterText column =
    "pipeline:\n  name: p\n  steps:\n  - name: clean\n    type: filter\n    input: raw\n".toList ++
      "    column: ".toList ++ column.toList ++ "\n    value: 3\n".toList := by
  simp only [filterText, String.toList_append, List.append_assoc]

theorem unmarked_amount : (splitLines (filterText "amount")).any marked = false := by
  rw [filterText_append]
  iterate 4 rw [String.toList_ofList]
  rfl

theorem unmarked_revenue : (splitLines (filterText "revenue")).any marked = false := by
  rw [filterText_append]
  iterate 4 rw [String.toList_ofList]
  rfl

theorem strip_amount : strip (filterText "amount") = strip (strip (filterText "amount")) := by
  rw [filterText_append]
  iterate 4 rw [String.toList_ofList]
  rfl

theorem strip_revenue : strip (filterText "revenue") = strip (strip (filterText "revenue")) := by
  rw [filterText_append]
  iterate 4 rw [String.toList_ofList]
  rfl

theorem strip_amount_ne : ¬ strip (filterText "amount") = strip (filterText "revenue") := by
  rw [filterText_append, filterText_append]
  iterate 5 rw [String.toList_ofList]
  decide

theorem load_stripped_amount :
    filterYaml.safeLoad (strip (filterText "amount")) = some (.map (filterDocument "amount")) := by
  simp only [filterYaml, listedYaml, List.find?, ← strip_amount, decide_true, Option.map_some]

theorem load_stripped_revenue :
    filterYaml.safeLoad (strip (filterText "revenue")) = some (.map (filterDocument "revenue")) := by
  simp only [filterYaml, listedYaml, List.find?, ← strip_revenue, strip_amount_ne, decide_true,
    decide_false, Option.map_some]

theorem dump_revenue :
    filterYaml.safeDump (.map (filterDocument "revenue")) = filterText "revenue" := by
  have h : (Node.map (filterDocument "amount")).same (.map (filterDocument "revenue")) = false := by
    rfl
  have h' : (Node.map (filterDocument "revenue")).same (.map (filterDocument "revenue")) = true := by
    rfl
  simp only [filterYaml, listedYaml, List.find?, h, h', Option.map_some, Option.getD_some]

/-- A column renamed in a filter step. -/
theorem apply_patch_exact_filter :
    ∃ config', editConfig plainPython (filterConfig "amount") [renameColumn] = some config' ∧
      parse filterYaml Char.isAlphanum plainPython (filterText "revenue") = .ok config' := by
  have hload : filterYaml.safeLoad (filterText "amount") =
      some (.map (filterDocument "amount")) := by
    simp only [filterYaml, listedYaml, List.find?, decide_true, Option.map_some]
  have hparse : parseYaml filterYaml Char.isAlphanum (filterText "amount") =
      .ok (filterDocument "amount") := by
    simp only [parseYaml, stripDiffMarkers_of_unmarked unmarked_amount, load_stripped_amount]
  have hconfig : parse filterYaml Char.isAlphanum plainPython (filterText "amount") =
      .ok (filterConfig "amount") := by
    unfold parse
    rw [hparse]
    rfl
  have hdocument : ∀ d, patchDocument (filterDocument "amount") [renameColumn] = .ok d →
      d = filterDocument "revenue" := by
    intro d hd
    exact (Except.ok.inj (renameColumn_patched.symm.trans hd)).symm
  have hexact : Machine.Along (patchRun (stepsOf (filterDocument "amount")))
      (ExactThere plainPython (stepsOf (filterDocument "amount")))
      (stepsOf (filterDocument "amount")) [renameColumn] := by
    refine ⟨?_, fun _ _ => trivial⟩
    intro i d hi hd
    have hi' : stepMap renameColumn.stepName (stepsOf (filterDocument "amount")) = some 0 := rfl
    obtain rfl : i = 0 := Option.some.inj (hi.symm.trans hi')
    have hd' : (stepsOf (filterDocument "amount"))[0]? = some (.map (filterStep "amount")) := rfl
    obtain rfl : d = filterStep "amount" := by simpa using hd.symm.trans hd'
    constructor
    · intro j e he _
      have hlt := (List.getElem?_eq_some_iff.mp he).1
      have hlen : (stepsOf (filterDocument "amount")).length = 1 := rfl
      omega
    · change ∀ f ∈ buildTypedStep plainPython .filter, f.name.toList = "column".toList → _
      intro f hf hname
      simp only [buildTypedStep, List.mem_cons, List.not_mem_nil, or_false] at hf
      rcases hf with rfl | rfl | rfl | rfl
      · exact absurd hname (by decide)
      · refine ⟨rfl, fun h => absurd h (by decide), ?_⟩
        intro v hv hshape
        cases hv
        simp [rawGet, filterStep, Entries.getD, Dict.find, key, str, Node.isSeq, Node.isMap] at hshape
      · exact absurd hname (by decide)
      · exact absurd hname (by decide)
  have happly : applyPatch filterYaml (filterText "amount") [renameColumn] =
      .ok (filterText "revenue") := by
    unfold applyPatch
    simp only [hload, renameColumn_patched, bind, Except.bind, pure, Except.pure, dump_revenue]
  refine (apply_patch_exact hload hparse hconfig ?_ ?_ ?_).2 hexact _ happly
  · intro e he
    simp only [filterDocument, List.mem_singleton] at he
    subst he
    refine ⟨show plainKey (key "pipeline") = true by decide, ?_⟩
    rintro items ⟨⟩
  · intro d hd _
    rw [hdocument d hd, dump_revenue]
    exact unmarked_revenue
  · intro d hd
    rw [hdocument d hd, dump_revenue]
    exact load_stripped_revenue

def aggregateText : Text :=
  ("pipeline:\n  name: p\n  steps:\n  - name: totals\n    type: aggregate\n    input: raw\n" ++
    "    group_by: [city]\n    aggregations: \x7bamount: sum\x7d\n").toList

theorem aggregateText_append : aggregateText =
    "pipeline:\n  name: p\n  steps:\n  - name: totals\n    type: aggregate\n    input: raw\n".toList ++
      "    group_by: [city]\n    aggregations: \x7bamount: sum\x7d\n".toList :=
  String.toList_append

def aggregateDocument : Entries :=
  [(key "pipeline", .map [(key "name", str "p"), (key "steps", .seq [.map [
    (key "name", str "totals"), (key "type", str "aggregate"), (key "input", str "raw"),
    (key "group_by", .seq [str "city"]),
    (key "aggregations", .map [(key "amount", str "sum")])]])])]

def aggregateYaml : PyYaml := listedYaml [(aggregateText, .map aggregateDocument)]

def renameAggregated : PatchItem :=
  ⟨"totals".toList, "aggregations".toList, str "amount", str "revenue"⟩

/-- Aggregations written as a mapping are accepted by the parser and refused by the patcher. -/
theorem aggregations_mapping_refused :
    parse aggregateYaml Char.isAlphanum plainPython aggregateText =
        .ok ⟨str "p", .null, [⟨str "totals", .inl .aggregate, .null, [("input", str "raw"),
          ("group_by", .seq [str "city"]), ("aggregations", .seq [.map
            [(key "column", str "amount"), (key "function", str "sum")]])]⟩]⟩ ∧
      ¬ Machine.Along (patchRun (stepsOf aggregateDocument))
        (Succeeds plainPython (stepsOf aggregateDocument)) (stepsOf aggregateDocument)
        [renameAggregated] ∧
      applyPatch aggregateYaml aggregateText [renameAggregated] =
        .error (.noListField "aggregations".toList) := by
  have hload : aggregateYaml.safeLoad aggregateText = some (.map aggregateDocument) := by
    simp only [aggregateYaml, listedYaml, List.find?, decide_true, Option.map_some]
  have hstripped : aggregateYaml.safeLoad (strip aggregateText) = some (.map aggregateDocument) := by
    have h : strip aggregateText = strip (strip aggregateText) := by
      rw [aggregateText_append]
      iterate 2 rw [String.toList_ofList]
      rfl
    simp only [aggregateYaml, listedYaml, List.find?, ← h, decide_true, Option.map_some]
  have hunmarked : (splitLines aggregateText).any marked = false := by
    rw [aggregateText_append]
    iterate 2 rw [String.toList_ofList]
    rfl
  refine ⟨?_, ?_, ?_⟩
  · unfold parse
    simp only [parseYaml, stripDiffMarkers_of_unmarked hunmarked, hstripped]
    rfl
  · intro h
    obtain ⟨steps', hs⟩ := h.1 0 _ rfl rfl (.inr (.inr ⟨.aggregate, rfl, .inr
      ⟨_, List.mem_cons_of_mem _ (List.mem_cons_of_mem _ (List.mem_cons_self ..)), rfl⟩⟩))
    cases hs
  · unfold applyPatch
    simp only [hload]
    rfl

end Examples

end PipelineIQ.Execution.PatchExactness
