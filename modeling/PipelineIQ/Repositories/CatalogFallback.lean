import PipelineIQ.Lib.Bfs
import PipelineIQ.Repositories.Catalog

namespace PipelineIQ.Repositories.CatalogFallback

open PipelineIQ.Lib PipelineIQ.Lib.Bfs PipelineIQ.Lib.Strings PipelineIQ.Repositories.Catalog

/-! The traversals of the catalog on a database without recursive queries over arrays, next to
the recursive queries. No traversal takes a step where the limit of the depth is negative, so
that such a limit is the limit zero. -/

section Queries

variable (tables : Tables) (viewer : Viewer) (assetName : Text)

/-! ### Downstream -/

/-- The assets that a search of the effects starts from. -/
def startAssets (assetType : Option Text) : List AssetKey :=
  ((visibleTo tables viewer).filter fun a =>
    decide (a.1.name = assetName) && ofType assetType a.1).map Prod.fst

/-- The relationships that lead to an asset the viewer sees, one for each row of the table. -/
def downstreamRels : List (AssetKey × AssetKey) :=
  (tables.relationships.map fun r => (r.sourceId, r.targetId)).filter fun e =>
    seesKey tables viewer e.2

/-- A row of the fallback: a pipeline that reads the asset and the number of runs that do. -/
structure SqliteRow where
  key : AssetKey
  depth : Nat
  pipelineName : Option Text
  timesUsed : Nat

def sqliteRow (found : AssetKey × Nat) : SqliteRow :=
  let rels := tables.relationships.filter fun r => decide (r.sourceId = found.1)
  { key := found.1
    depth := found.2
    pipelineName := rels.head?.map AssetRelationship.pipelineName
    timesUsed := (rels.map AssetRelationship.runId).dedup.length }

def blastRadiusSqlite (assetType : Option Text) (maxDepth : Int) : List SqliteRow :=
  let found := bfs (downstreamRels tables viewer) (startAssets tables viewer assetName assetType)
    maxDepth.toNat
  (found.map (sqliteRow tables)).mergeSort fun a b => decide (a.depth < b.depth) ||
    decide (a.depth = b.depth) && decide (String.ofList a.key.name ≤ String.ofList b.key.name)

/-! ### Upstream -/

/-- The assets that the recursive query starts from. -/
def upstreamStarts : List AssetKey := startAssets tables viewer assetName none

/-- The distinct edges, turned round, that lead to an asset the viewer sees. -/
def upstreamHops : List (AssetKey × AssetKey) :=
  ((hops tables).map Prod.swap).filter fun e => seesKey tables viewer e.2

/-- The rows of the recursive query: an asset once for each depth of a path to it. -/
def upstreamRows (maxDepth : Nat) : List (AssetKey × Nat) :=
  ((List.range (maxDepth + 1)).flatMap fun n =>
    (simplePaths (upstreamHops tables viewer) (upstreamStarts tables viewer assetName) n).filterMap
      fun path => path.head?.map fun key => (key, n)).dedup

def upstreamLineagePostgres (pg : Postgres) (maxDepth : Int) : List (AssetKey × Nat) :=
  ((upstreamRows tables viewer assetName maxDepth.toNat).mergeSort fun a b =>
    decide (a.2 < b.2) || decide (a.2 = b.2) && pg.nameLe a.1.name b.1.name).take maxCteResults

def upstreamRels : List (AssetKey × AssetKey) :=
  (tables.relationships.map fun r => (r.targetId, r.sourceId)).filter fun e =>
    seesKey tables viewer e.2

/-- The first asset of a name, whoever owns it. -/
def firstNamed : Option (AssetKey × DataAsset) :=
  tables.assets.entries.find? fun a => decide (a.1.name = assetName)

def upstreamLineageSqlite (maxDepth : Int) : List (AssetKey × Nat) :=
  match firstNamed tables assetName with
  | none => []
  | some start =>
    if sees viewer start.2 then
      (bfs (upstreamRels tables viewer) [start.1] maxDepth.toNat).mergeSort fun a b =>
        decide (a.2 < b.2) ||
          decide (a.2 = b.2) && decide (String.ofList a.1.name ≤ String.ofList b.1.name)
    else []

/-! ### Agreement -/

/-- The recursive query and the fallback report the same assets, first at the same depths. -/
def DownstreamAgree (pg : Postgres) (assetType : Option Text) (maxDepth : Int) : Prop :=
  ∀ key, shallowest ((blastRadiusPostgres tables viewer assetName assetType pg maxDepth.toNat).map
      fun row => (row.key, row.depth)) key =
    shallowest ((blastRadiusSqlite tables viewer assetName assetType maxDepth).map
      fun row => (row.key, row.depth)) key

def UpstreamAgree (pg : Postgres) (maxDepth : Int) : Prop :=
  ∀ key, shallowest (upstreamLineagePostgres tables viewer assetName pg maxDepth) key =
    shallowest (upstreamLineageSqlite tables viewer assetName maxDepth) key

end Queries

variable {tables : Tables} {viewer : Viewer} {assetName : Text} {assetType : Option Text}
  {pg : Postgres} {maxDepth : Int} {limit n : Nat} {key : AssetKey}

/-! ### The recursive queries explore -/

def downstreamHops (tables : Tables) (viewer : Viewer) : List (AssetKey × AssetKey) :=
  (hops tables).filter fun hop => seesKey tables viewer hop.2

/-- The walks of the recursive query are the paths without repetition. -/
theorem walks_eq : walks tables viewer assetName assetType n =
    simplePaths (downstreamHops tables viewer) (startAssets tables viewer assetName assetType) n := by
  induction n with
  | zero =>
    rw [walks, simplePaths, startAssets, List.map_map]
    rfl
  | succ n ih =>
    rw [walks, simplePaths, ih]
    congr 1
    funext path
    cases path with
    | nil => rfl
    | cons last path =>
      rw [extend, downstreamHops, List.filter_filter]

theorem depthOf_eq_some_iff : depthOf tables viewer assetName assetType limit key = some n ↔
    n ≤ limit ∧ (∃ path, key :: path ∈ walks tables viewer assetName assetType n) ∧
      ∀ m < n, ∀ path, key :: path ∉ walks tables viewer assetName assetType m := by
  have hany : ∀ m, ((walks tables viewer assetName assetType m).any fun path =>
      decide (path.head? = some key)) = true ↔
      ∃ path, key :: path ∈ walks tables viewer assetName assetType m := by
    intro m
    rw [List.any_eq_true]
    constructor
    · rintro ⟨path, hpath, hhead⟩
      obtain ⟨rest, rfl⟩ := List.head?_eq_some_iff.mp (of_decide_eq_true hhead)
      exact ⟨rest, hpath⟩
    · rintro ⟨rest, hpath⟩
      exact ⟨key :: rest, hpath, decide_eq_true rfl⟩
  rw [depthOf, List.find?_range_eq_some, hany, List.mem_range, Nat.lt_succ_iff]
  constructor
  · rintro ⟨hpath, hn, hbefore⟩
    refine ⟨hn, hpath, fun m hm path hmem => ?_⟩
    have hnone := hbefore m hm
    rw [Bool.not_eq_true', ← Bool.not_eq_true, hany] at hnone
    exact hnone ⟨path, hmem⟩
  · rintro ⟨hn, hpath, hbefore⟩
    refine ⟨hpath, hn, fun m hm => ?_⟩
    rw [Bool.not_eq_true', ← Bool.not_eq_true, hany]
    rintro ⟨path, hmem⟩
    exact hbefore m hm path hmem

theorem mem_rowsOf_iff {found : AssetKey × Nat} :
    found ∈ (rowsOf tables key n).map (fun row => (row.key, row.depth)) ↔ found = (key, n) := by
  unfold rowsOf
  split
  · exact List.mem_singleton
  · next hne =>
    rw [List.map_map, List.mem_map]
    constructor
    · rintro ⟨usage, -, rfl⟩
      rfl
    · rintro rfl
      obtain ⟨usage, husage⟩ := List.exists_mem_of_ne_nil _ hne
      exact ⟨usage, husage, rfl⟩

/-- A walk ends at an asset of the table. -/
theorem mem_assets_of_walk {starts : List AssetKey} {edges : List (AssetKey × AssetKey)}
    (hstarts : ∀ a ∈ starts, ∃ asset, (a, asset) ∈ tables.assets.entries)
    (hedges : ∀ e ∈ edges, seesKey tables viewer e.2 = true) (h : Walk edges starts n key) :
    ∃ asset, (key, asset) ∈ tables.assets.entries := by
  cases h with
  | start h => exact hstarts key h
  | step _ e =>
    have hsees := hedges _ e
    unfold seesKey at hsees
    cases hget : tables.assets.get? key with
    | none =>
      rw [hget] at hsees
      cases hsees
    | some asset => exact ⟨asset, (tables.assets.get?_eq_some_iff key asset).mp hget⟩

theorem mem_startAssets : key ∈ startAssets tables viewer assetName assetType ↔
    ∃ asset, (key, asset) ∈ tables.assets.entries ∧ sees viewer asset = true ∧
      key.name = assetName ∧ ofType assetType key = true := by
  simp only [startAssets, visibleTo, List.mem_map, List.mem_filter, Bool.and_eq_true,
    decide_eq_true_eq]
  constructor
  · rintro ⟨⟨k, asset⟩, ⟨⟨hmem, hsees⟩, hname, htype⟩, rfl⟩
    exact ⟨asset, hmem, hsees, hname, htype⟩
  · rintro ⟨asset, hmem, hsees, hname, htype⟩
    exact ⟨(key, asset), ⟨⟨hmem, hsees⟩, hname, htype⟩, rfl⟩

/-- Below its limit, a result is all of what the query finds. -/
theorem take_of_length_lt {α : Type} {xs : List α} {k : Nat} (h : (xs.take k).length < k) :
    xs.take k = xs := by
  rw [List.length_take] at h
  exact List.take_of_length_le (by omega)

theorem blastRadiusPostgres_explores
    (hlimit : (blastRadiusPostgres tables viewer assetName assetType pg limit).length < maxCteResults) :
    Explores (downstreamHops tables viewer) (startAssets tables viewer assetName assetType) limit
      ((blastRadiusPostgres tables viewer assetName assetType pg limit).map
        fun row => (row.key, row.depth)) := by
  have hmem : ∀ b n, (b, n) ∈ (blastRadiusPostgres tables viewer assetName assetType pg limit).map
      (fun row => (row.key, row.depth)) ↔
      (∃ asset, (b, asset) ∈ tables.assets.entries) ∧
        depthOf tables viewer assetName assetType limit b = some n := by
    intro b n
    have hall := take_of_length_lt hlimit
    rw [blastRadiusPostgres, hall]
    simp only [List.mem_map, List.mem_mergeSort, List.mem_flatMap]
    constructor
    · rintro ⟨row, ⟨⟨a, asset⟩, ha, hrow⟩, heq⟩
      split at hrow
      · next depth hdepth =>
        have hfound : (b, n) ∈ (rowsOf tables a depth).map fun row => (row.key, row.depth) :=
          List.mem_map.mpr ⟨row, hrow, heq⟩
        cases mem_rowsOf_iff.mp hfound
        exact ⟨⟨asset, ha⟩, hdepth⟩
      · cases hrow
    · rintro ⟨⟨asset, hasset⟩, hdepth⟩
      obtain ⟨row, hrow, heq⟩ := List.mem_map.mp (mem_rowsOf_iff.mpr (Eq.refl (b, n)))
      refine ⟨row, ⟨(b, asset), hasset, ?_⟩, heq⟩
      rw [hdepth]
      exact hrow
  constructor
  · intro b n h
    obtain ⟨-, hdepth⟩ := (hmem b n).mp h
    obtain ⟨hn, ⟨path, hpath⟩, -⟩ := depthOf_eq_some_iff.mp hdepth
    rw [walks_eq] at hpath
    exact ⟨hn, walk_of_simplePath hpath⟩
  · intro b n hn hdist
    refine (hmem b n).mpr ⟨?_, depthOf_eq_some_iff.mpr ⟨hn, ?_, ?_⟩⟩
    · refine mem_assets_of_walk ?_ (fun e he => (List.mem_filter.mp he).2) hdist.walk
      intro a ha
      obtain ⟨asset, hasset, -⟩ := mem_startAssets.mp ha
      exact ⟨asset, hasset⟩
    · obtain ⟨path, hpath, -⟩ := exists_simplePath hdist
      exact ⟨path, walks_eq ▸ hpath⟩
    · intro m hm path hpath
      rw [walks_eq] at hpath
      exact Nat.not_lt.mpr (hdist.least m (walk_of_simplePath hpath)) hm

theorem upstreamLineagePostgres_explores
    (hlimit : (upstreamLineagePostgres tables viewer assetName pg maxDepth).length < maxCteResults) :
    Explores (upstreamHops tables viewer) (upstreamStarts tables viewer assetName) maxDepth.toNat
      (upstreamLineagePostgres tables viewer assetName pg maxDepth) := by
  have hmem : ∀ b n, (b, n) ∈ upstreamLineagePostgres tables viewer assetName pg maxDepth ↔
      n ≤ maxDepth.toNat ∧ ∃ path, b :: path ∈
        simplePaths (upstreamHops tables viewer) (upstreamStarts tables viewer assetName) n := by
    intro b n
    have hall := take_of_length_lt hlimit
    rw [upstreamLineagePostgres, hall]
    simp only [List.mem_mergeSort, upstreamRows, List.mem_dedup, List.mem_flatMap, List.mem_range,
      List.mem_filterMap, Option.map_eq_some_iff, List.head?_eq_some_iff, Nat.lt_succ_iff]
    constructor
    · rintro ⟨m, hm, path, hpath, b', ⟨rest, rfl⟩, heq⟩
      cases heq
      exact ⟨hm, rest, hpath⟩
    · rintro ⟨hn, rest, hpath⟩
      exact ⟨n, hn, b :: rest, hpath, b, ⟨rest, rfl⟩, rfl⟩
  constructor
  · intro b n h
    obtain ⟨hn, path, hpath⟩ := (hmem b n).mp h
    exact ⟨hn, walk_of_simplePath hpath⟩
  · intro b n hn hdist
    obtain ⟨path, hpath, -⟩ := exists_simplePath hdist
    exact (hmem b n).mpr ⟨hn, path, hpath⟩

/-! ### The fallbacks explore -/

theorem blastRadiusSqlite_explores :
    Explores (downstreamRels tables viewer) (startAssets tables viewer assetName assetType)
      maxDepth.toNat ((blastRadiusSqlite tables viewer assetName assetType maxDepth).map
        fun row => (row.key, row.depth)) := by
  refine (bfs_explores _ _ _).of_mem_iff fun e => ?_
  simp only [blastRadiusSqlite, List.mem_map, List.mem_mergeSort]
  constructor
  · rintro ⟨row, ⟨found, hfound, rfl⟩, rfl⟩
    exact hfound
  · intro h
    exact ⟨sqliteRow tables e, ⟨e, h, rfl⟩, rfl⟩

theorem mem_downstreamHops (e : AssetKey × AssetKey) :
    e ∈ downstreamHops tables viewer ↔ e ∈ downstreamRels tables viewer := by
  rw [downstreamHops, downstreamRels, List.mem_filter, List.mem_filter, hops, List.mem_dedup]

theorem mem_upstreamHops (e : AssetKey × AssetKey) :
    e ∈ upstreamHops tables viewer ↔ e ∈ upstreamRels tables viewer := by
  rw [upstreamHops, upstreamRels, List.mem_filter, List.mem_filter]
  refine and_congr_left fun _ => ?_
  simp only [hops, List.mem_map, List.mem_dedup]
  constructor
  · rintro ⟨f, ⟨r, hr, rfl⟩, rfl⟩
    exact ⟨r, hr, rfl⟩
  · rintro ⟨r, hr, rfl⟩
    exact ⟨(r.sourceId, r.targetId), ⟨r, hr, rfl⟩, rfl⟩

/-- Downstream the two traversals agree on every graph. -/
theorem downstream_agree
    (hlimit : (blastRadiusPostgres tables viewer assetName assetType pg maxDepth.toNat).length <
      maxCteResults) : DownstreamAgree tables viewer assetName pg assetType maxDepth :=
  (blastRadiusPostgres_explores hlimit).shallowest_eq blastRadiusSqlite_explores mem_downstreamHops
    fun _ => Iff.rfl

/-- The asset that the fallback starts from, unless the viewer does not see it. -/
def sqliteStarts (tables : Tables) (viewer : Viewer) (assetName : Text) : List AssetKey :=
  match firstNamed tables assetName with
  | none => []
  | some start => if sees viewer start.2 then [start.1] else []

theorem explores_nothing (edges : List (AssetKey × AssetKey)) : Explores edges [] limit [] where
  sound b n h := nomatch h
  complete b n _ hdist := by
    have hnone : ∀ m c, ¬ Walk edges [] m c := by
      intro m c hwalk
      induction hwalk with
      | start h => cases h
      | step _ _ ih => exact ih
    exact absurd hdist.walk (hnone n b)

theorem upstreamLineageSqlite_explores :
    Explores (upstreamRels tables viewer) (sqliteStarts tables viewer assetName) maxDepth.toNat
      (upstreamLineageSqlite tables viewer assetName maxDepth) := by
  rw [upstreamLineageSqlite, sqliteStarts]
  split
  · exact explores_nothing _
  · split
    · refine (bfs_explores _ _ _).of_mem_iff fun e => ?_
      rw [List.mem_mergeSort]
    · exact explores_nothing _

/-- Every asset of the name that the viewer sees is the first one of that name. -/
def OnlyFirstSeen (tables : Tables) (viewer : Viewer) (assetName : Text) : Prop :=
  ∀ key asset, tables.assets.get? key = some asset → key.name = assetName →
    sees viewer asset = true → (firstNamed tables assetName).map Prod.fst = some key

theorem mem_upstreamStarts : key ∈ upstreamStarts tables viewer assetName ↔
    ∃ asset, tables.assets.get? key = some asset ∧ sees viewer asset = true ∧
      key.name = assetName := by
  rw [upstreamStarts, mem_startAssets]
  simp only [ofType, and_true, Dict.get?_eq_some_iff]

theorem mem_sqliteStarts : key ∈ sqliteStarts tables viewer assetName ↔
    ∃ asset, firstNamed tables assetName = some (key, asset) ∧ sees viewer asset = true := by
  unfold sqliteStarts
  cases hfirst : firstNamed tables assetName with
  | none => simp
  | some start =>
    obtain ⟨k, asset⟩ := start
    dsimp only
    split
    · next hsees =>
      rw [List.mem_singleton]
      constructor
      · rintro rfl
        exact ⟨asset, rfl, hsees⟩
      · rintro ⟨asset', heq, -⟩
        cases heq
        rfl
    · next hsees =>
      constructor
      · intro h
        cases h
      · rintro ⟨asset', heq, hsees'⟩
        cases heq
        exact absurd hsees' hsees

theorem of_firstNamed {asset : DataAsset} (h : firstNamed tables assetName = some (key, asset)) :
    tables.assets.get? key = some asset ∧ key.name = assetName := by
  have hname := List.find?_some h
  exact ⟨(tables.assets.get?_eq_some_iff key asset).mpr (List.mem_of_find?_eq_some h),
    of_decide_eq_true hname⟩

theorem sameStarts_iff :
    (∀ key, key ∈ upstreamStarts tables viewer assetName ↔
      key ∈ sqliteStarts tables viewer assetName) ↔ OnlyFirstSeen tables viewer assetName := by
  constructor
  · intro h key asset hget hname hsees
    obtain ⟨asset', hfirst, -⟩ :=
      mem_sqliteStarts.mp ((h key).mp (mem_upstreamStarts.mpr ⟨asset, hget, hsees, hname⟩))
    rw [hfirst]
    rfl
  · intro h key
    rw [mem_upstreamStarts, mem_sqliteStarts]
    constructor
    · rintro ⟨asset, hget, hsees, hname⟩
      obtain ⟨⟨k, asset'⟩, hfirst, rfl⟩ := Option.map_eq_some_iff.mp (h key asset hget hname hsees)
      have hasset := (of_firstNamed hfirst).1
      rw [hget] at hasset
      cases hasset
      exact ⟨asset, hfirst, hsees⟩
    · rintro ⟨asset, hfirst, hsees⟩
      obtain ⟨hget, hname⟩ := of_firstNamed hfirst
      exact ⟨asset, hget, hsees, hname⟩

/-- Upstream they agree just when the fallback starts where the recursive query does. -/
theorem upstream_agree_iff
    (hlimit : (upstreamLineagePostgres tables viewer assetName pg maxDepth).length < maxCteResults) :
    UpstreamAgree tables viewer assetName pg maxDepth ↔ OnlyFirstSeen tables viewer assetName := by
  rw [← sameStarts_iff]
  exact (upstreamLineagePostgres_explores hlimit).shallowest_eq_iff upstreamLineageSqlite_explores
    mem_upstreamHops

/-- The traversals agree in both directions just when the fallback upstream starts from
every asset of the name that the viewer sees. -/
theorem traversals_agree_iff (tables : Tables) (viewer : Viewer) (assetName : Text)
    (assetType : Option Text) (pg : Postgres) (maxDepth : Int)
    (hdown : (blastRadiusPostgres tables viewer assetName assetType pg maxDepth.toNat).length <
      maxCteResults)
    (hup : (upstreamLineagePostgres tables viewer assetName pg maxDepth).length < maxCteResults) :
    DownstreamAgree tables viewer assetName pg assetType maxDepth ∧
        UpstreamAgree tables viewer assetName pg maxDepth ↔
      OnlyFirstSeen tables viewer assetName := by
  rw [← upstream_agree_iff hup]
  exact and_iff_right (downstream_agree hdown)

/-- Two assets that feed each other, the first of them also itself. -/
def loopTables : Tables where
  assets := Dict.ofList [(⟨['t'], ['n'], ['a']⟩, ⟨none, ⟨none, 0⟩, 0⟩),
    (⟨['t'], ['n'], ['b']⟩, ⟨none, ⟨none, 0⟩, 0⟩)]
  relationships :=
    [⟨⟨['t'], ['n'], ['a']⟩, ⟨['t'], ['n'], ['b']⟩, [], ['p'], 0⟩,
     ⟨⟨['t'], ['n'], ['b']⟩, ⟨['t'], ['n'], ['a']⟩, [], ['p'], 1⟩,
     ⟨⟨['t'], ['n'], ['a']⟩, ⟨['t'], ['n'], ['a']⟩, [], ['p'], 1⟩]

def anyOrder : Postgres := ⟨fun _ _ => true, fun _ _ => 0⟩

theorem traversals_agree_loop :
    (blastRadiusPostgres loopTables none ['b'] none anyOrder 5).length < maxCteResults ∧
      (upstreamLineagePostgres loopTables none ['b'] anyOrder 5).length < maxCteResults ∧
      (DownstreamAgree loopTables none ['b'] anyOrder none 5 ∧
          UpstreamAgree loopTables none ['b'] anyOrder 5 ↔ OnlyFirstSeen loopTables none ['b']) := by
  have hdown : (blastRadiusPostgres loopTables none ['b'] none anyOrder 5).length < maxCteResults := by
    rw [blastRadiusPostgres, List.length_take, List.length_mergeSort]
    decide +kernel
  have hup : (upstreamLineagePostgres loopTables none ['b'] anyOrder 5).length < maxCteResults := by
    rw [upstreamLineagePostgres, List.length_take, List.length_mergeSort]
    decide +kernel
  exact ⟨hdown, hup, traversals_agree_iff loopTables none ['b'] none anyOrder 5 hdown hup⟩

/-- A file and a column with one name. -/
def namesakes : Tables where
  assets := Dict.ofList [(⟨"file".toList, ['n'], ['a']⟩, ⟨none, ⟨none, 0⟩, 0⟩),
    (⟨"column".toList, ['n'], ['a']⟩, ⟨none, ⟨none, 0⟩, 0⟩)]

/-- The fallback leaves the column out. -/
theorem namesake_forgotten :
    (blastRadiusPostgres namesakes none ['a'] none anyOrder 5).length < maxCteResults ∧
      (upstreamLineagePostgres namesakes none ['a'] anyOrder 5).length < maxCteResults ∧
      ¬ (DownstreamAgree namesakes none ['a'] anyOrder none 5 ∧
        UpstreamAgree namesakes none ['a'] anyOrder 5) := by
  have hdown : (blastRadiusPostgres namesakes none ['a'] none anyOrder 5).length <
      maxCteResults := by
    rw [blastRadiusPostgres, List.length_take, List.length_mergeSort]
    decide +kernel
  have hup : (upstreamLineagePostgres namesakes none ['a'] anyOrder 5).length < maxCteResults := by
    rw [upstreamLineagePostgres, List.length_take, List.length_mergeSort]
    decide +kernel
  refine ⟨hdown, hup, fun h => ?_⟩
  have honly := (upstream_agree_iff hup).mp h.2
  have hcolumn := honly ⟨"column".toList, ['n'], ['a']⟩ ⟨none, ⟨none, 0⟩, 0⟩ (by decide) rfl rfl
  exact absurd hcolumn (by decide)

end PipelineIQ.Repositories.CatalogFallback
