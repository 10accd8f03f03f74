import Mathlib.Data.List.Dedup
import PipelineIQ.Pipeline.Lineage

namespace PipelineIQ.Repositories.Catalog

open PipelineIQ.Lib PipelineIQ.Lib.Strings PipelineIQ.Pipeline

/-! ### The tables -/

/-- A user's identifier, in hexadecimal. -/
structure UserId where
  text : Text
  hexadecimal : ∀ c ∈ text, c ∈ "0123456789abcdef-".toList
  deriving DecidableEq

structure PipelineRun where
  name : Text
  userId : Option UserId

/-- The natural key of an asset, which no two of them share; here it is also its identifier. -/
structure AssetKey where
  assetType : Text
  «namespace» : Text
  name : Text
  deriving DecidableEq

structure Metadata where
  pipeline : Option Text
  runId : Nat
  deriving DecidableEq

structure DataAsset where
  ownerId : Option UserId
  metadata : Metadata
  lastSeenAt : Nat
  deriving DecidableEq

structure AssetRelationship where
  sourceId : AssetKey
  targetId : AssetKey
  relation : Text
  pipelineName : Text
  runId : Nat
  deriving DecidableEq

structure Tables where
  assets : Dict AssetKey DataAsset := ∅
  relationships : List AssetRelationship := []

/-! ### Registration -/

def nsMinioUploads : Text := "minio://pipelineiq-uploads".toList
def nsMinioOutputs : Text := "minio://pipelineiq-outputs".toList
def nsPipeline : Text := "pipeline://".toList
def nsRedpanda : Text := "redpanda://localhost:9092".toList

/-- The types that the table admits. -/
def assetTypes : List Text := ["file".toList, "column".toList, "pipeline".toList, "topic".toList]

/-- Insert an asset, or update one that is there; its owner stays. -/
def upsertDataAsset (assets : Dict AssetKey DataAsset) (key : AssetKey) (ownerId : Option UserId)
    (metadata : Metadata) (now : Nat) : Dict AssetKey DataAsset :=
  assets.set key (match assets.get? key with
    | some asset => { asset with lastSeenAt := now, metadata }
    | none => { ownerId, metadata, lastSeenAt := now })

def lastSegment (t : Text) : Text := (t.reverse.takeWhile fun c => decide (c ≠ '/')).reverse

def endsWith (suffixes : List String) (t : Text) : Bool :=
  suffixes.any fun s => s.toList.isSuffixOf t

def startsWith (starts : List String) (t : Text) : Bool :=
  starts.any fun s => s.toList.isPrefixOf t

def classifyNode (nodeId : Text) (nodeData : Lineage.Attrs) : AssetKey :=
  match nodeData.get? "asset_type" with
  | some (c :: assetType) => ⟨c :: assetType, (nodeData.get? "namespace").getD nsPipeline, nodeId⟩
  | _ =>
    if endsWith [".csv", ".json", ".parquet", ".xlsx"] nodeId then
      ⟨"file".toList, nsMinioUploads, nodeId⟩
    else if startsWith ["minio://", "s3://"] nodeId then
      ⟨"file".toList, nsMinioOutputs, lastSegment nodeId⟩
    else if startsWith ["redpanda://"] nodeId || endsWith ["-topic", ".topic"] nodeId then
      ⟨"topic".toList, nsRedpanda, nodeId⟩
    else ⟨"column".toList, nsPipeline, nodeId⟩

/-- The edges of a recorded graph have neither a relation nor a type. -/
def classifyEdge (_isJoinKey : Bool) : Text := "transforms".toList

/-- `pipeline_run.name or "unknown"`. -/
def pipelineName (run : PipelineRun) : Text :=
  if run.name = [] then "unknown".toList else run.name

/-- The assets of a graph: the pipeline, and one for each node. -/
def assetsOf (runId : Nat) (run : PipelineRun) (g : Lineage.Graph) : List (AssetKey × Metadata) :=
  if g.nodes.entries.isEmpty then []
  else (⟨"pipeline".toList, nsPipeline, pipelineName run⟩, ⟨none, runId⟩) ::
    g.nodes.entries.map fun node =>
      (classifyNode node.1 node.2, ⟨some (pipelineName run), runId⟩)

def relationshipsOf (runId : Nat) (run : PipelineRun) (g : Lineage.Graph) :
    List AssetRelationship :=
  g.edges.entries.filterMap fun edge => do
    let source ← g.nodes.get? edge.1.1
    let target ← g.nodes.get? edge.1.2
    return { sourceId := classifyNode edge.1.1 source
             targetId := classifyNode edge.1.2 target
             relation := classifyEdge edge.2
             pipelineName := pipelineName run
             runId }

/-- Register the assets and the relationships of a run, also in the course of it. A type that the
table does not admit undoes the transaction. -/
def registerGraphAssets (tables : Tables) (runId : Nat) (run : PipelineRun) (g : Lineage.Graph)
    (now : Nat) : Option Tables :=
  if (assetsOf runId run g).all fun a => decide (a.1.assetType ∈ assetTypes) then
    some {
      assets := (assetsOf runId run g).foldl
        (fun assets a => upsertDataAsset assets a.1 run.userId a.2 now) tables.assets
      relationships := tables.relationships ++ relationshipsOf runId run g }
  else none

/-! ### Queries -/

/-- How the database compares names, and how similar it finds two texts. -/
structure Postgres where
  nameLe : Text → Text → Bool
  similarity : Text → Text → Nat

/-- The owner that a query is for; an administrator sees every asset. -/
abbrev Viewer := Option UserId

def sees (viewer : Viewer) (asset : DataAsset) : Bool :=
  match viewer with
  | none => true
  | some u => decide (asset.ownerId = some u)

def visibleTo (tables : Tables) (viewer : Viewer) : List (AssetKey × DataAsset) :=
  tables.assets.entries.filter fun a => sees viewer a.2

/-- An absent or empty type is no filter. -/
def ofType (assetType : Option Text) (key : AssetKey) : Bool :=
  match assetType with
  | none | some [] => true
  | some t => decide (key.assetType = t)

/-- The distinct edges, without the pipelines that made them. -/
def hops (tables : Tables) : List (AssetKey × AssetKey) :=
  (tables.relationships.map fun r => (r.sourceId, r.targetId)).dedup

def seesKey (tables : Tables) (viewer : Viewer) (key : AssetKey) : Bool :=
  (tables.assets.get? key).any (sees viewer)

def maxCteResults : Nat := 500

section BlastRadius

variable (tables : Tables) (viewer : Viewer) (assetName : Text) (assetType : Option Text)

/-- The walks of the recursive query, each with its last asset first. -/
def walks : Nat → List (List AssetKey)
  | 0 => ((visibleTo tables viewer).filter fun a =>
      decide (a.1.name = assetName) && ofType assetType a.1).map fun a => [a.1]
  | n + 1 => (walks n).flatMap fun path => match path with
    | [] => []
    | last :: _ => ((hops tables).filter fun hop => decide (hop.1 = last) &&
        decide (hop.2 ∉ path) && seesKey tables viewer hop.2).map fun hop => hop.2 :: path

/-- The smallest depth that the query finds an asset at. -/
def depthOf (maxDepth : Nat) (key : AssetKey) : Option Nat :=
  (List.range (maxDepth + 1)).find? fun n =>
    (walks tables viewer assetName assetType n).any fun path => decide (path.head? = some key)

/-- An asset of a result, with a pipeline that writes it and the number of its runs, if any does. -/
structure Row where
  key : AssetKey
  depth : Nat
  usage : Option (Text × Nat)
  deriving DecidableEq

/-- The pipelines with a relationship into an asset, of whatever owner. -/
def pipelineStats (key : AssetKey) : List (Text × Nat) :=
  let into := tables.relationships.filter fun r => decide (r.targetId = key)
  (into.map AssetRelationship.pipelineName).dedup.map fun name =>
    (name, ((into.filter fun r => decide (r.pipelineName = name)).map
      AssetRelationship.runId).dedup.length)

def rowsOf (key : AssetKey) (depth : Nat) : List Row :=
  match pipelineStats tables key with
  | [] => [⟨key, depth, none⟩]
  | stats => stats.map fun usage => ⟨key, depth, some usage⟩

def blastRadiusPostgres (pg : Postgres) (maxDepth : Nat) : List Row :=
  let rows := tables.assets.entries.flatMap fun a =>
    match depthOf tables viewer assetName assetType maxDepth a.1 with
    | some depth => rowsOf tables a.1 depth
    | none => []
  (rows.mergeSort fun a b => decide (a.depth < b.depth) ||
    decide (a.depth = b.depth) && pg.nameLe a.key.name b.key.name).take maxCteResults

end BlastRadius

/-- `LIKE`: `%` stands for any text, `_` for any character, and a backslash quotes. -/
def like : Text → Text → Bool
  | [], t => t.isEmpty
  | '%' :: pattern, t => t.tails.any (like pattern)
  | '_' :: pattern, t => match t with
    | [] => false
    | _ :: t => like pattern t
  | '\\' :: c :: pattern, t => match t with
    | [] => false
    | d :: t => decide (c = d) && like pattern t
  | c :: pattern, t => match t with
    | [] => false
    | d :: t => decide (c = d) && like pattern t

/-- `name ILIKE '%' || :query || '%'`. -/
def ilike (query name : Text) : Bool :=
  like (lowerCase ('%' :: (query ++ ['%']))) (lowerCase name)

def searchAssets (pg : Postgres) (tables : Tables) (viewer : Viewer) (query : Text)
    (assetType : Option Text) (limit : Nat) : List (AssetKey × DataAsset) :=
  if (strip query).length < 2 then []
  else
    let found := (visibleTo tables viewer).filter fun a =>
      ilike (strip query) a.1.name && ofType assetType a.1
    let score := fun a : AssetKey × DataAsset => pg.similarity a.1.name (strip query)
    (found.mergeSort fun a b => decide (score b < score a) ||
      decide (score a = score b) && pg.nameLe a.1.name b.1.name).take limit

/-- The assets of no recent run, the oldest first. -/
def listOrphanAssets (tables : Tables) (viewer : Viewer) (now inactive : Nat) :
    List (AssetKey × DataAsset) :=
  let found := (visibleTo tables viewer).filter fun a => decide (a.2.lastSeenAt + inactive < now) &&
    decide (a.1.assetType ∈ ["file".toList, "column".toList])
  (found.mergeSort fun a b => decide (a.2.lastSeenAt ≤ b.2.lastSeenAt)).take 100

/-! ### Runs of the catalog -/

structure World where
  runs : List PipelineRun := []
  tables : Tables := {}
  cache : Dict Text (List Row) := ∅
  registered : List (Nat × AssetKey) := []

/-- The owner that a cached result is for. -/
def viewerText : Viewer → Text
  | none => "admin".toList
  | some u => u.text

def cacheKey (viewer : Viewer) (assetName : Text) (assetType : Option Text) (maxDepth : Nat) : Text :=
  "blast_radius:".toList ++ assetName ++ ':' :: (match assetType with
    | none | some [] => "all".toList
    | some t => t) ++ ':' :: (toString maxDepth).toList ++ ':' :: viewerText viewer

/-- What fails during a query: reading the cache, the query itself, or writing the cache (also where
the result is too large for it). -/
structure Faults where
  read : Bool := false
  query : Bool := false
  write : Bool := false

/-- The result of an impact analysis: the cached one, or else a computed one. -/
def getBlastRadius (pg : Postgres) (w : World) (viewer : Viewer) (assetName : Text)
    (assetType : Option Text) (maxDepth : Nat) (faults : Faults) : List Row :=
  let computed := if faults.query then []
    else blastRadiusPostgres w.tables viewer assetName assetType pg maxDepth
  if faults.read then computed
  else (w.cache.get? (cacheKey viewer assetName assetType maxDepth)).getD computed

inductive Event where
  | createRun (name : Text) (userId : Option UserId)
  | register (runId : Nat) (g : Lineage.Graph) (now : Nat)
  | impact (viewer : Viewer) (assetName : Text) (assetType : Option Text) (maxDepth : Nat)
      (faults : Faults)
  | expire (key : Text)

/-- The registration of a run; `registered` records its assets. -/
def register (w : World) (runId : Nat) (run : PipelineRun) (g : Lineage.Graph) (now : Nat) : World :=
  match registerGraphAssets w.tables runId run g now with
  | some tables => { w with
      tables
      registered := w.registered ++ (assetsOf runId run g).map fun a => (runId, a.1) }
  | none => w

def step (pg : Postgres) (w : World) : Event → Option World
  | .createRun name userId => some { w with runs := w.runs ++ [⟨name, userId⟩] }
  | .register runId g now => (w.runs[runId]?).map fun run => register w runId run g now
  | .impact viewer assetName assetType maxDepth faults =>
    if faults.write then some w
    else
      let result := getBlastRadius pg w viewer assetName assetType maxDepth faults
      some { w with cache := w.cache.set (cacheKey viewer assetName assetType maxDepth) result }
  | .expire key => some { w with cache := w.cache.erase key }

end PipelineIQ.Repositories.Catalog
