import PipelineIQ.Lib.Machine
import PipelineIQ.Repositories.Catalog

namespace PipelineIQ.Repositories.CatalogTenancy

open PipelineIQ.Lib PipelineIQ.Lib.Machine PipelineIQ.Lib.Strings PipelineIQ.Pipeline
open PipelineIQ.Repositories.Catalog

/-! ### The property and the condition -/

def OwnRun (w : World) (u : UserId) (runId : Nat) : Prop :=
  ∃ run, w.runs[runId]? = some run ∧ run.userId = some u

/-- A run of the user has registered the asset. -/
def OwnAsset (w : World) (u : UserId) (key : AssetKey) : Prop :=
  ∃ runId, (runId, key) ∈ w.registered ∧ OwnRun w u runId

/-- The user has run a pipeline of the name. -/
def OwnPipeline (w : World) (u : UserId) (name : Text) : Prop :=
  ∃ run ∈ w.runs, run.userId = some u ∧ pipelineName run = name

def OwnRow (w : World) (u : UserId) (row : Row) : Prop :=
  OwnAsset w u row.key ∧ ∀ usage, row.usage = some usage → OwnPipeline w u usage.1

/-- Whatever a user asks for, the results have the user's assets and pipelines only, and every asset
that a run of the user has registered is visible to the user. -/
structure Isolated (pg : Postgres) (w : World) : Prop where
  impact : ∀ u assetName assetType maxDepth faults,
    ∀ row ∈ getBlastRadius pg w (some u) assetName assetType maxDepth faults, OwnRow w u row
  search : ∀ u query assetType limit, ∀ a ∈ searchAssets pg w.tables (some u) query assetType limit,
    OwnAsset w u a.1 ∧ OwnRun w u a.2.metadata.runId
  orphans : ∀ u now inactive, ∀ a ∈ listOrphanAssets w.tables (some u) now inactive,
    OwnAsset w u a.1
  visible : ∀ u key, OwnAsset w u key → ∃ a ∈ visibleTo w.tables (some u), a.1 = key

/-- The condition of an event: a registration that is stored meets no asset of another owner. -/
def Separate (w : World) : Event → Prop
  | .register runId g now => ∀ run, w.runs[runId]? = some run →
    (registerGraphAssets w.tables runId run g now).isSome → ∀ a ∈ assetsOf runId run g,
      ∀ asset, w.tables.assets.get? a.1 = some asset → asset.ownerId = run.userId
  | _ => True

variable {pg : Postgres} {w t : World} {e : Event} {u : UserId} {key : AssetKey}
  {runId now : Nat} {run : PipelineRun} {g : Lineage.Graph} {tables : Tables}

/-! ### Registration -/

theorem get?_upsertDataAsset (assets : Dict AssetKey DataAsset) (k j : AssetKey)
    (owner : Option UserId) (metadata : Metadata) (now : Nat) :
    (upsertDataAsset assets k owner metadata now).get? j = if j = k then
      some ⟨((assets.get? k).map DataAsset.ownerId).getD owner, metadata, now⟩ else assets.get? j := by
  rw [upsertDataAsset, Dict.get?_set]
  split
  · cases assets.get? k <;> rfl
  · rfl

/-- After a list of upserts, an asset has its old owner, if it had one, and the metadata of one of
them. -/
theorem get?_upserts (owner : Option UserId) (now : Nat) (l : List (AssetKey × Metadata))
    (assets : Dict AssetKey DataAsset) (j : AssetKey) :
    (j ∉ l.map Prod.fst ∧ (l.foldl (fun assets a => upsertDataAsset assets a.1 owner a.2 now)
      assets).get? j = assets.get? j) ∨
    ∃ metadata, (j, metadata) ∈ l ∧ (l.foldl (fun assets a => upsertDataAsset assets a.1 owner a.2 now)
      assets).get? j = some ⟨((assets.get? j).map DataAsset.ownerId).getD owner, metadata, now⟩ := by
  induction l generalizing assets with
  | nil => exact .inl ⟨List.not_mem_nil, rfl⟩
  | cons a l ih =>
    rw [List.foldl_cons]
    obtain ⟨hnot, hget⟩ | ⟨metadata, hmem, hget⟩ := ih (upsertDataAsset assets a.1 owner a.2 now)
    · by_cases hj : j = a.1
      · subst hj
        refine .inr ⟨a.2, List.mem_cons_self, ?_⟩
        rw [hget, get?_upsertDataAsset, if_pos rfl]
      · refine .inl ⟨?_, ?_⟩
        · rw [List.map_cons, List.mem_cons, not_or]
          exact ⟨hj, hnot⟩
        · rw [hget, get?_upsertDataAsset, if_neg hj]
    · refine .inr ⟨metadata, List.mem_cons_of_mem a hmem, ?_⟩
      rw [hget, get?_upsertDataAsset]
      split
      next hj =>
        subst hj
        cases assets.get? a.1 <;> rfl
      next => rfl

theorem runId_of_mem_assetsOf {a : AssetKey × Metadata} (h : a ∈ assetsOf runId run g) :
    a.2.runId = runId := by
  unfold assetsOf at h
  split at h
  · cases h
  · rcases List.mem_cons.mp h with rfl | h
    · rfl
    · obtain ⟨node, -, rfl⟩ := List.mem_map.mp h
      rfl

/-- The relationships of a graph are between assets of it. -/
theorem of_mem_relationshipsOf {r : AssetRelationship} (h : r ∈ relationshipsOf runId run g) :
    r.runId = runId ∧ r.pipelineName = pipelineName run ∧
      r.targetId ∈ (assetsOf runId run g).map Prod.fst := by
  obtain ⟨edge, -, hedge⟩ := List.mem_filterMap.mp h
  obtain ⟨source, -, hedge⟩ := Option.bind_eq_some_iff.mp hedge
  obtain ⟨target, htarget, hedge⟩ := Option.bind_eq_some_iff.mp hedge
  cases hedge
  have hmem := (Dict.get?_eq_some_iff _ _ _).mp htarget
  refine ⟨rfl, rfl, ?_⟩
  unfold assetsOf
  rw [if_neg (by
    intro hempty
    rw [List.isEmpty_iff.mp hempty] at hmem
    cases hmem)]
  rw [List.map_cons, List.map_map]
  exact List.mem_cons_of_mem _ (List.mem_map.mpr ⟨_, hmem, rfl⟩)

theorem register_cases (w : World) (runId : Nat) (run : PipelineRun) (g : Lineage.Graph) (now : Nat) :
    (registerGraphAssets w.tables runId run g now = none ∧ register w runId run g now = w) ∨
    (registerGraphAssets w.tables runId run g now).isSome ∧ register w runId run g now = { w with
      tables := {
        assets := (assetsOf runId run g).foldl
          (fun assets a => upsertDataAsset assets a.1 run.userId a.2 now) w.tables.assets
        relationships := w.tables.relationships ++ relationshipsOf runId run g }
      registered := w.registered ++ (assetsOf runId run g).map fun a => (runId, a.1) } := by
  unfold register registerGraphAssets
  split
  · exact .inr ⟨rfl, rfl⟩
  · exact .inl ⟨rfl, rfl⟩

/-! ### What the queries return -/

theorem mem_visibleTo {a : AssetKey × DataAsset} :
    a ∈ visibleTo tables (some u) ↔ tables.assets.get? a.1 = some a.2 ∧ a.2.ownerId = some u := by
  rw [visibleTo, List.mem_filter, ← Dict.get?_eq_some_iff, sees, decide_eq_true_eq]

theorem seesKey_iff : seesKey tables (some u) key = true ↔
    ∃ asset, tables.assets.get? key = some asset ∧ asset.ownerId = some u := by
  rw [seesKey, Option.any_eq_true_iff_get]
  cases tables.assets.get? key with
  | none => simp
  | some asset => simp [sees]

/-- The recursive query goes from asset to asset of the user. -/
theorem seesKey_of_walks {assetName : Text} {assetType : Option Text} {n : Nat}
    {path : List AssetKey} (h : path ∈ walks tables (some u) assetName assetType n)
    (hhead : path.head? = some key) : seesKey tables (some u) key = true := by
  cases n with
  | zero =>
    obtain ⟨a, ha, rfl⟩ := List.mem_map.mp h
    cases hhead
    obtain ⟨hget, howner⟩ := mem_visibleTo.mp (List.mem_of_mem_filter ha)
    exact seesKey_iff.mpr ⟨a.2, hget, howner⟩
  | succ n =>
    obtain ⟨path', -, hpath⟩ := List.mem_flatMap.mp h
    cases path' with
    | nil => cases hpath
    | cons last before =>
      obtain ⟨hop, hhop, rfl⟩ := List.mem_map.mp hpath
      cases hhead
      exact (Bool.and_eq_true_iff.mp (List.mem_filter.mp hhop).2).2

theorem mem_rowsOf {depth : Nat} {row : Row} (h : row ∈ rowsOf tables key depth) :
    row.key = key ∧ ∀ usage, row.usage = some usage →
      ∃ r ∈ tables.relationships, r.targetId = key ∧ r.pipelineName = usage.1 := by
  unfold rowsOf at h
  split at h
  · rw [List.mem_singleton.mp h]
    exact ⟨rfl, nofun⟩
  · obtain ⟨stat, hstat, rfl⟩ := List.mem_map.mp h
    refine ⟨rfl, fun usage husage => ?_⟩
    cases husage
    obtain ⟨name, hname, rfl⟩ := List.mem_map.mp hstat
    obtain ⟨r, hr, hpipeline⟩ := List.mem_map.mp (List.mem_dedup.mp hname)
    obtain ⟨hmem, htarget⟩ := List.mem_filter.mp hr
    exact ⟨r, hmem, of_decide_eq_true htarget, hpipeline⟩

/-- A row of a result is about an asset of the user, and names the pipeline of a relationship into
it. -/
theorem mem_blastRadiusPostgres {assetName : Text} {assetType : Option Text} {maxDepth : Nat}
    {row : Row} (h : row ∈ blastRadiusPostgres tables (some u) assetName assetType pg maxDepth) :
    (∃ asset, tables.assets.get? row.key = some asset ∧ asset.ownerId = some u) ∧
      ∀ usage, row.usage = some usage →
        ∃ r ∈ tables.relationships, r.targetId = row.key ∧ r.pipelineName = usage.1 := by
  have hrow := List.mem_mergeSort.mp (List.mem_of_mem_take h)
  obtain ⟨a, -, ha⟩ := List.mem_flatMap.mp hrow
  split at ha
  next depth hdepth =>
    obtain ⟨hkey, husage⟩ := mem_rowsOf ha
    unfold depthOf at hdepth
    have hany := List.find?_some hdepth
    obtain ⟨path, hpath, hhead⟩ := List.any_eq_true.mp hany
    have hsees := seesKey_of_walks hpath (of_decide_eq_true hhead)
    rw [hkey]
    exact ⟨seesKey_iff.mp hsees, husage⟩
  next => cases ha

theorem mem_searchAssets {query : Text} {assetType : Option Text} {limit : Nat}
    {a : AssetKey × DataAsset} (h : a ∈ searchAssets pg tables (some u) query assetType limit) :
    a ∈ visibleTo tables (some u) := by
  unfold searchAssets at h
  split at h
  · cases h
  · exact List.mem_of_mem_filter (List.mem_mergeSort.mp (List.mem_of_mem_take h))

theorem mem_listOrphanAssets {now inactive : Nat} {a : AssetKey × DataAsset}
    (h : a ∈ listOrphanAssets tables (some u) now inactive) : a ∈ visibleTo tables (some u) :=
  List.mem_of_mem_filter (List.mem_mergeSort.mp (List.mem_of_mem_take h))

theorem like_percent (pattern t : Text) (h : like pattern [] = true) :
    like ('%' :: pattern) t = true :=
  List.any_eq_true.mpr ⟨[], (List.mem_tails _ _).mpr (List.nil_suffix), h⟩

/-- A search for two wildcards finds every asset that the user may see. -/
theorem mem_search_wildcards {a : AssetKey × DataAsset} (h : a ∈ visibleTo tables (some u)) :
    a ∈ searchAssets pg tables (some u) ['%', '%'] none (visibleTo tables (some u)).length := by
  have hall : ∀ name, ilike ['%', '%'] name = true := by
    intro name
    exact like_percent _ _ (by decide)
  have hstrip : strip ['%', '%'] = ['%', '%'] := by decide
  have hfilter : (visibleTo tables (some u)).filter (fun a =>
      ilike ['%', '%'] a.1.name && ofType none a.1) = visibleTo tables (some u) := by
    rw [List.filter_eq_self]
    intro b _
    rw [hall]
    rfl
  unfold searchAssets
  rw [hstrip, if_neg (by decide)]
  dsimp only
  rw [hfilter, List.take_of_length_le (List.length_mergeSort _).le]
  exact List.mem_mergeSort.mpr h

/-! ### The cache -/

theorem colon_not_mem_viewerText (viewer : Viewer) : ':' ∉ viewerText viewer := by
  cases viewer with
  | none => decide
  | some v =>
    intro h
    exact absurd (v.hexadecimal ':' h) (by decide)

theorem viewerText_inj {viewer : Viewer} (h : viewerText viewer = viewerText (some u)) :
    viewer = some u := by
  cases viewer with
  | none =>
    have hm : 'm' ∈ u.text := by
      rw [← (show viewerText (some u) = u.text from rfl), ← h]
      decide
    exact absurd (u.hexadecimal 'm' hm) (by decide)
  | some v =>
    obtain ⟨text, _⟩ := v
    obtain ⟨text', _⟩ := u
    cases h
    rfl

theorem cacheKey_eq (viewer : Viewer) (assetName : Text) (assetType : Option Text) (maxDepth : Nat) :
    ∃ start, cacheKey viewer assetName assetType maxDepth = start ++ ':' :: viewerText viewer :=
  ⟨_, rfl⟩

/-- A cached result is for one owner. -/
theorem cacheKey_inj {viewer : Viewer} {n n' : Text} {ty ty' : Option Text} {d d' : Nat}
    (h : cacheKey viewer n ty d = cacheKey (some u) n' ty' d') : viewer = some u := by
  obtain ⟨start, hstart⟩ := cacheKey_eq viewer n ty d
  obtain ⟨start', hstart'⟩ := cacheKey_eq (some u) n' ty' d'
  rw [hstart, hstart'] at h
  exact viewerText_inj
    (append_mark_inj (colon_not_mem_viewerText _) (colon_not_mem_viewerText _) h).2

/-! ### The invariant of separate registrations -/

/-- Assets, relationships and cached results each belong to one owner's runs. -/
structure Sound (w : World) : Prop where
  assets : ∀ key asset, w.tables.assets.get? key = some asset →
    ∃ run, w.runs[asset.metadata.runId]? = some run ∧ run.userId = asset.ownerId ∧
      (asset.metadata.runId, key) ∈ w.registered
  registered : ∀ r ∈ w.registered, ∃ run asset, w.runs[r.1]? = some run ∧
    w.tables.assets.get? r.2 = some asset ∧ asset.ownerId = run.userId
  relationships : ∀ r ∈ w.tables.relationships, ∃ run asset, w.runs[r.runId]? = some run ∧
    r.pipelineName = pipelineName run ∧ w.tables.assets.get? r.targetId = some asset ∧
      asset.ownerId = run.userId
  cached : ∀ u assetName assetType maxDepth rows,
    w.cache.get? (cacheKey (some u) assetName assetType maxDepth) = some rows →
      ∀ row ∈ rows, OwnRow w u row

/-- What is a user's own stays so while runs and registrations are added. -/
theorem OwnAsset.mono (hruns : ∀ (i : Nat) run, w.runs[i]? = some run → t.runs[i]? = some run)
    (hregistered : w.registered ⊆ t.registered) (h : OwnAsset w u key) : OwnAsset t u key := by
  obtain ⟨i, hmem, run, hrun, hown⟩ := h
  exact ⟨i, hregistered hmem, run, hruns i run hrun, hown⟩

theorem OwnRow.mono {row : Row} (hruns : ∀ (i : Nat) run, w.runs[i]? = some run → t.runs[i]? = some run)
    (hregistered : w.registered ⊆ t.registered) (h : OwnRow w u row) : OwnRow t u row := by
  refine ⟨h.1.mono hruns hregistered, fun usage husage => ?_⟩
  obtain ⟨run, hrun, hown⟩ := h.2 usage husage
  obtain ⟨i, hi⟩ := List.mem_iff_getElem?.mp hrun
  exact ⟨run, List.mem_of_getElem? (hruns i run hi), hown⟩

theorem ownAsset_of_get? {asset : DataAsset} (h : Sound w)
    (hget : w.tables.assets.get? key = some asset) (howner : asset.ownerId = some u) :
    OwnAsset w u key ∧ OwnRun w u asset.metadata.runId := by
  obtain ⟨run, hrun, hown, hmem⟩ := h.assets key asset hget
  have hrunOf : OwnRun w u asset.metadata.runId := ⟨run, hrun, hown.trans howner⟩
  exact ⟨⟨_, hmem, hrunOf⟩, hrunOf⟩

theorem ownRow_of_computed {assetName : Text} {assetType : Option Text} {maxDepth : Nat}
    {row : Row} (h : Sound w)
    (hrow : row ∈ blastRadiusPostgres w.tables (some u) assetName assetType pg maxDepth) :
    OwnRow w u row := by
  obtain ⟨⟨asset, hget, howner⟩, husage⟩ := mem_blastRadiusPostgres hrow
  refine ⟨(ownAsset_of_get? h hget howner).1, fun usage hsome => ?_⟩
  obtain ⟨r, hr, htarget, hname⟩ := husage usage hsome
  obtain ⟨run, asset', hrun, hpipeline, hget', howner'⟩ := h.relationships r hr
  rw [htarget, hget] at hget'
  cases hget'
  exact ⟨run, List.mem_of_getElem? hrun, howner'.symm.trans howner, hpipeline.symm.trans hname⟩

theorem ownRow_of_getBlastRadius {assetName : Text} {assetType : Option Text} {maxDepth : Nat}
    {faults : Faults} {row : Row} (h : Sound w)
    (hrow : row ∈ getBlastRadius pg w (some u) assetName assetType maxDepth faults) :
    OwnRow w u row := by
  have hcomputed : ∀ row ∈ (if faults.query then [] else
      blastRadiusPostgres w.tables (some u) assetName assetType pg maxDepth), OwnRow w u row := by
    intro row hrow
    split at hrow
    · cases hrow
    · exact ownRow_of_computed h hrow
  unfold getBlastRadius at hrow
  dsimp only at hrow
  split at hrow
  · exact hcomputed row hrow
  · cases hcached : w.cache.get? (cacheKey (some u) assetName assetType maxDepth) with
    | some rows =>
      rw [hcached] at hrow
      exact h.cached u assetName assetType maxDepth rows hcached row hrow
    | none =>
      rw [hcached] at hrow
      exact hcomputed row hrow

theorem Sound.isolated (h : Sound w) : Isolated pg w where
  impact _ _ _ _ _ _ hrow := ownRow_of_getBlastRadius h hrow
  search u query assetType limit a ha := by
    obtain ⟨hget, howner⟩ := mem_visibleTo.mp (mem_searchAssets ha)
    exact ownAsset_of_get? h hget howner
  orphans u now inactive a ha := by
    obtain ⟨hget, howner⟩ := mem_visibleTo.mp (mem_listOrphanAssets ha)
    exact (ownAsset_of_get? h hget howner).1
  visible u key hown := by
    obtain ⟨runId, hmem, run, hrun, hrunOwner⟩ := hown
    obtain ⟨run', asset, hrun', hget, howner⟩ := h.registered _ hmem
    rw [hrun] at hrun'
    cases hrun'
    exact ⟨(key, asset), mem_visibleTo.mpr ⟨hget, howner.trans hrunOwner⟩, rfl⟩

/-! ### Runs of the catalog -/

/-- The assets after a registration: those of the graph carry its run, and no asset changes its
owner. -/
structure Registered (w t : World) (runId : Nat) (run : PipelineRun) (g : Lineage.Graph) : Prop where
  runs : t.runs = w.runs
  cache : t.cache = w.cache
  registered : t.registered = w.registered ++ (assetsOf runId run g).map fun a => (runId, a.1)
  relationships : t.tables.relationships = w.tables.relationships ++ relationshipsOf runId run g
  others : ∀ key, key ∉ (assetsOf runId run g).map Prod.fst →
    t.tables.assets.get? key = w.tables.assets.get? key
  own : ∀ key ∈ (assetsOf runId run g).map Prod.fst, ∃ asset,
    t.tables.assets.get? key = some asset ∧ asset.metadata.runId = runId ∧
      asset.ownerId = ((w.tables.assets.get? key).map DataAsset.ownerId).getD run.userId

theorem register_spec (hsome : (registerGraphAssets w.tables runId run g now).isSome) :
    Registered w (register w runId run g now) runId run g := by
  obtain ⟨hnone, -⟩ | ⟨-, heq⟩ := register_cases w runId run g now
  · rw [hnone] at hsome
    cases hsome
  · rw [heq]
    refine ⟨rfl, rfl, rfl, rfl, fun key hkey => ?_, fun key hkey => ?_⟩
    · obtain ⟨-, hget⟩ | ⟨metadata, hmem, -⟩ :=
        get?_upserts run.userId now (assetsOf runId run g) w.tables.assets key
      · exact hget
      · exact absurd (List.mem_map_of_mem hmem) hkey
    · obtain ⟨hnot, -⟩ | ⟨metadata, hmem, hget⟩ :=
        get?_upserts run.userId now (assetsOf runId run g) w.tables.assets key
      · exact absurd hkey hnot
      · exact ⟨_, hget, runId_of_mem_assetsOf hmem, rfl⟩

theorem Registered.owner {asset : DataAsset} (h : Registered w t runId run g)
    (hget : w.tables.assets.get? key = some asset) :
    ∃ asset', t.tables.assets.get? key = some asset' ∧ asset'.ownerId = asset.ownerId := by
  by_cases hkey : key ∈ (assetsOf runId run g).map Prod.fst
  · obtain ⟨asset', hget', -, howner⟩ := h.own key hkey
    rw [hget] at howner
    exact ⟨asset', hget', howner⟩
  · exact ⟨asset, (h.others key hkey).trans hget, rfl⟩

/-- Where no asset of the graph has another owner, all of them are the run's. -/
theorem Registered.sound (h : Registered w t runId run g) (hsound : Sound w)
    (hrun : w.runs[runId]? = some run)
    (hseparate : ∀ a ∈ assetsOf runId run g, ∀ asset,
      w.tables.assets.get? a.1 = some asset → asset.ownerId = run.userId) : Sound t := by
  have hown : ∀ key ∈ (assetsOf runId run g).map Prod.fst, ∃ asset,
      t.tables.assets.get? key = some asset ∧ asset.metadata.runId = runId ∧
        asset.ownerId = run.userId := by
    intro key hkey
    obtain ⟨asset, hget, hid, howner⟩ := h.own key hkey
    refine ⟨asset, hget, hid, ?_⟩
    obtain ⟨a, ha, rfl⟩ := List.mem_map.mp hkey
    cases hold : w.tables.assets.get? a.1 with
    | none =>
      rw [hold] at howner
      exact howner
    | some old =>
      rw [hold] at howner
      exact howner.trans (hseparate a ha old hold)
  have hruns : ∀ (i : Nat) run, w.runs[i]? = some run → t.runs[i]? = some run := by
    intro i run hi
    rw [h.runs, hi]
  have hregistered : w.registered ⊆ t.registered := by
    rw [h.registered]
    exact List.subset_append_left _ _
  constructor
  · intro key asset hget
    by_cases hkey : key ∈ (assetsOf runId run g).map Prod.fst
    · obtain ⟨asset', hget', hid, howner⟩ := hown key hkey
      rw [hget] at hget'
      cases hget'
      refine ⟨run, hruns _ run (hid ▸ hrun), howner.symm, ?_⟩
      obtain ⟨a, ha, rfl⟩ := List.mem_map.mp hkey
      rw [hid, h.registered]
      exact List.mem_append_right _ (List.mem_map_of_mem ha)
    · rw [h.others key hkey] at hget
      obtain ⟨run', hrun', howner, hmem⟩ := hsound.assets key asset hget
      exact ⟨run', hruns _ run' hrun', howner, hregistered hmem⟩
  · intro r hr
    rw [h.registered] at hr
    rcases List.mem_append.mp hr with hold | hnew
    · obtain ⟨run', asset, hrun', hget, howner⟩ := hsound.registered r hold
      obtain ⟨asset', hget', hsame⟩ := h.owner hget
      exact ⟨run', asset', hruns _ run' hrun', hget', hsame.trans howner⟩
    · obtain ⟨a, ha, rfl⟩ := List.mem_map.mp hnew
      obtain ⟨asset, hget, -, howner⟩ := hown a.1 (List.mem_map_of_mem ha)
      exact ⟨run, asset, hruns runId run hrun, hget, howner⟩
  · intro r hr
    rw [h.relationships] at hr
    rcases List.mem_append.mp hr with hold | hnew
    · obtain ⟨run', asset, hrun', hname, hget, howner⟩ := hsound.relationships r hold
      obtain ⟨asset', hget', hsame⟩ := h.owner hget
      exact ⟨run', asset', hruns _ run' hrun', hname, hget', hsame.trans howner⟩
    · obtain ⟨hid, hname, htarget⟩ := of_mem_relationshipsOf hnew
      obtain ⟨asset, hget, -, howner⟩ := hown r.targetId htarget
      exact ⟨run, asset, hid ▸ hruns runId run hrun, hname, hget, howner⟩
  · intro u assetName assetType maxDepth rows hcached row hrow
    rw [h.cache] at hcached
    exact (hsound.cached u assetName assetType maxDepth rows hcached row hrow).mono hruns hregistered

theorem sound_step (hsound : Sound w) (hseparate : Separate w e) (hstep : step pg w e = some t) :
    Sound t := by
  cases e with
  | createRun name userId =>
    cases hstep
    have hruns : ∀ (i : Nat) run, w.runs[i]? = some run →
        (w.runs ++ [⟨name, userId⟩])[i]? = some run := by
      intro i run hi
      rw [List.getElem?_append_left (List.getElem?_eq_some_iff.mp hi).1, hi]
    constructor
    · intro key asset hget
      obtain ⟨run, hrun, howner, hmem⟩ := hsound.assets key asset hget
      exact ⟨run, hruns _ run hrun, howner, hmem⟩
    · intro r hr
      obtain ⟨run, asset, hrun, hget, howner⟩ := hsound.registered r hr
      exact ⟨run, asset, hruns _ run hrun, hget, howner⟩
    · intro r hr
      obtain ⟨run, asset, hrun, hname, hget, howner⟩ := hsound.relationships r hr
      exact ⟨run, asset, hruns _ run hrun, hname, hget, howner⟩
    · intro u assetName assetType maxDepth rows hcached row hrow
      have hold := hsound.cached u assetName assetType maxDepth rows hcached row hrow
      exact hold.mono hruns (List.Subset.refl _)
  | register runId g now =>
    obtain ⟨run, hrun, rfl⟩ := Option.map_eq_some_iff.mp hstep
    obtain ⟨-, heq⟩ | ⟨hsome, -⟩ := register_cases w runId run g now
    · rw [heq]
      exact hsound
    · exact (register_spec hsome).sound hsound hrun (hseparate run hrun hsome)
  | impact viewer assetName assetType maxDepth faults =>
    rw [step] at hstep
    split at hstep
    · cases hstep
      exact hsound
    · cases hstep
      refine ⟨hsound.assets, hsound.registered, hsound.relationships, ?_⟩
      intro u name ty depth rows hcached row hrow
      rw [Dict.get?_set] at hcached
      split at hcached
      next hkey =>
        have hviewer := cacheKey_inj hkey.symm
        cases hcached
        subst hviewer
        have hown : OwnRow w u row := ownRow_of_getBlastRadius hsound hrow
        exact hown
      next => exact hsound.cached u name ty depth rows hcached row hrow
  | expire key =>
    cases hstep
    refine ⟨hsound.assets, hsound.registered, hsound.relationships, ?_⟩
    intro u name ty depth rows hcached row hrow
    rw [Dict.get?_erase] at hcached
    split at hcached
    · cases hcached
    · exact hsound.cached u name ty depth rows hcached row hrow

theorem separate_of_eq_none (h : step pg w e = none) : Separate w e := by
  cases e with
  | register runId g now =>
    intro run hrun
    rw [step, hrun] at h
    cases h
  | _ => trivial

/-- A registration that meets another owner's asset shows that owner its run, or leaves the asset
invisible to its own. -/
theorem separate_of_isolated (hstep : step pg w e = some t) (h : Isolated pg t) : Separate w e := by
  cases e with
  | register runId g now =>
    obtain ⟨run, hrun, rfl⟩ := Option.map_eq_some_iff.mp hstep
    intro run' hrun' hsome a ha old hold
    rw [hrun] at hrun'
    cases hrun'
    have hspec := register_spec hsome
    obtain ⟨asset, hget, hid, howner⟩ := hspec.own a.1 (List.mem_map_of_mem ha)
    rw [hold] at howner
    have howner' : asset.ownerId = old.ownerId := howner
    have hown : OwnRun (register w runId run g now) = fun u i =>
        ∃ run, w.runs[i]? = some run ∧ run.userId = some u := by
      unfold OwnRun
      rw [hspec.runs]
    cases huser : run.userId with
    | some u =>
      have hasset : OwnAsset (register w runId run g now) u a.1 := by
        refine ⟨runId, ?_, ?_⟩
        · rw [hspec.registered]
          exact List.mem_append_right _ (List.mem_map_of_mem ha)
        · rw [hown]
          exact ⟨run, hrun, huser⟩
      obtain ⟨b, hb, hkey⟩ := h.visible u a.1 hasset
      obtain ⟨hget', howner''⟩ := mem_visibleTo.mp hb
      rw [hkey, hget] at hget'
      cases hget'
      exact howner'.symm.trans howner''
    | none =>
      cases hnone : old.ownerId with
      | none => rfl
      | some v =>
        have hvisible : (a.1, asset) ∈ visibleTo (register w runId run g now).tables (some v) :=
          mem_visibleTo.mpr ⟨hget, howner'.trans hnone⟩
        have hsearch := (h.search v _ _ _ _ (mem_search_wildcards hvisible)).2
        rw [hown, hid] at hsearch
        obtain ⟨run', hrun', huser'⟩ := hsearch
        rw [hrun] at hrun'
        cases hrun'
        rw [huser] at huser'
        cases huser'
  | _ => trivial

/-- In a run of the catalog, every user sees the user's own assets and pipelines only, and all of
these assets, exactly when every registration keeps to assets of its owner. -/
theorem catalog_isolated_iff (pg : Postgres) (events : List Event) :
    Always (step pg) (Isolated pg) {} events ↔ Along (step pg) Separate {} events := by
  constructor
  · refine along_of_always (fun _ _ hnone => separate_of_eq_none hnone) ?_
    intro s e t _ hstep hisolated
    exact separate_of_isolated hstep hisolated
  · intro halong earlier later hsplit t ht
    refine Sound.isolated (always_of_along (P := Sound) ?_ ?_ halong earlier later hsplit t ht)
    · exact fun _ _ _ hsound hguard hstep => sound_step hsound hguard hstep
    · exact ⟨nofun, nofun, nofun, nofun⟩

section Examples

def alice : UserId := ⟨"a".toList, by simp⟩
def bob : UserId := ⟨"b".toList, by simp⟩

/-- A graph that consists of one file. -/
def sales : Lineage.Graph := Lineage.addNode DiGraph.empty "sales.csv".toList []

def salesKey : AssetKey := ⟨"file".toList, nsMinioUploads, "sales.csv".toList⟩

def unordered : Postgres := ⟨fun _ _ => true, fun _ _ => 0⟩

/-- Two users run pipelines over files of one name. -/
def sameFile : List Event :=
  [.createRun "orders".toList (some alice), .register 0 sales 1,
    .createRun "billing".toList (some bob), .register 1 sales 2]

/-- The asset that the second user registers stays the first user's. -/
theorem same_file_invisible : ¬ Always (step unordered) (Isolated unordered) {} sameFile := by
  intro h
  obtain ⟨w, hw, hasset, halice⟩ : ∃ w, run (step unordered) {} sameFile = some w ∧
      OwnAsset w bob salesKey ∧
        (w.tables.assets.get? salesKey).map DataAsset.ownerId = some (some alice) :=
    ⟨_, rfl, ⟨1, by decide, _, rfl, rfl⟩, by decide⟩
  obtain ⟨a, ha, hkey⟩ := (h sameFile [] rfl w hw).visible bob salesKey hasset
  obtain ⟨hget, howner⟩ := mem_visibleTo.mp ha
  rw [← hkey, hget, Option.map_some, howner] at halice
  exact absurd halice (by decide)

end Examples

end PipelineIQ.Repositories.CatalogTenancy
