import RustMcp.DepthFirst
import RustMcp.Queries

/-! `crate_graph`: the dependency edges of the index, followed level by level from a version
of a crate, to what it depends on and to what depends on it. -/
namespace RustMcp.CrateGraph
open Str (Text)
open Utils Queries

structure DependencyEdgeRow where
  fromVersionId : Nat
  toCrateId : Nat
  requirement : Text
  dependencyKind : Text
  optional : Bool

/-- The index with its dependency edges, and the primary keys of crates and versions. -/
structure GraphIndex (lower : Text → Text) extends Index lower where
  dependencyEdges : List DependencyEdgeRow
  crateIds : (crates.rows.map (·.id)).Nodup
  versionIds : (versions.map (·.id)).Nodup

/-- The columns that the two traversal queries join and select. -/
structure GraphTraversalRow where
  fromVersionId : Nat
  fromCrateId : Nat
  fromCrateName : Text
  fromVersion : Text
  toCrateId : Nat
  toCrateName : Text
  requirement : Text
  dependencyKind : Text
  optional : Bool

/-- In which order a query without `ORDER BY` lists its rows. -/
structure Arrangement where
  order : Nat → List GraphTraversalRow → List GraphTraversalRow
  perm : ∀ call rows, (order call rows).Perm rows

section
variable {lower : Text → Text} (index : GraphIndex lower)

def joinedRow (d : DependencyEdgeRow) (cvFrom : CrateVersionRow) (cFrom cTo : CrateCoreRow) : GraphTraversalRow :=
  ⟨cvFrom.id,cFrom.id,cFrom.name,cvFrom.version,cTo.id,cTo.name,d.requirement,d.dependencyKind,d.optional⟩

def joined : List GraphTraversalRow :=
  index.dependencyEdges.flatMap fun d =>
    (index.versions.filter fun cvFrom => cvFrom.id = d.fromVersionId).flatMap fun cvFrom =>
      (index.crates.rows.filter fun cFrom => cFrom.id = cvFrom.crateId).flatMap fun cFrom =>
        (index.crates.rows.filter fun cTo => cTo.id = d.toCrateId).map fun cTo => joinedRow d cvFrom cFrom cTo

variable (arrangement : Arrangement)

def listGraphDependencyTraversalRows (call : Nat) (fromVersionIds : List Nat) : List GraphTraversalRow :=
  arrangement.order call ((joined index).filter fun row => row.fromVersionId ∈ fromVersionIds)

def listGraphDependentTraversalRows (call : Nat) (toCrateIds : List Nat) : List GraphTraversalRow :=
  arrangement.order call ((joined index).filter fun row => row.toCrateId ∈ toCrateIds)

def latestVersionsForCrates (crateIds : List Nat) (crateId : Nat) : Option CrateVersionRow :=
  if crateId ∈ crateIds then fetchLatestCrateVersion index.toIndex crateId else none

end

/-! The graph. -/

inductive CrateGraphDirection where
  | dependencies | dependents | both
  deriving DecidableEq

structure CrateGraphEdge where
  fromCrate : Text
  fromVersion : Option Text
  toCrate : Text
  toVersion : Option Text
  requirement : Text
  dependencyKind : Text
  optional : Bool
  depth : Nat

structure CrateGraphNode where
  crateName : Text
  latestVersion : Option Text
  minDistance : Nat
  role : Text

abbrev EdgeKey := Text × Text × Text × Text × Bool × Nat

def CrateGraphEdge.key (edge : CrateGraphEdge) : EdgeKey :=
  (edge.fromCrate,edge.toCrate,edge.requirement,edge.dependencyKind,edge.optional,edge.depth)

/-- What a traversal has collected. -/
structure Graph where
  edges : List CrateGraphEdge
  nodeMinDistance : Keyed.Map Text Nat
  nodeLatestVersion : Keyed.Map Text (Option Text)
  edgeSeen : List EdgeKey
  seen : edgeSeen = edges.map (·.key)
  once : edgeSeen.Nodup

def Graph.near (graph : Graph) (name : Text) (distance : Nat) : Graph :=
  {graph with nodeMinDistance := graph.nodeMinDistance.alter name fun old => some (old.elim distance (min · distance))}

def Graph.latest (graph : Graph) (name : Text) (version : Option Text) : Graph :=
  {graph with nodeLatestVersion := graph.nodeLatestVersion.alter name fun old => some (old.getD version)}

def Graph.link (graph : Graph) (edge : CrateGraphEdge) : Graph :=
  if known : edge.key ∈ graph.edgeSeen then graph
  else
    { graph with
      edges := graph.edges ++ [edge]
      edgeSeen := graph.edgeSeen ++ [edge.key]
      seen := by rw [List.map_append,graph.seen,List.map_singleton]
      once := List.concat_eq_append ▸ graph.once.concat known }

/-- A row of a level: its crate on the near side, its crate on the far side, and its edge. -/
def Graph.add (graph : Graph) (level : Nat) (nearCrate farCrate : Text) (nearLatest farLatest : Option Text)
    (edge : CrateGraphEdge) : Graph :=
  ((((graph.near nearCrate (level - 1)).near farCrate level).latest nearCrate nearLatest).latest farCrate farLatest).link edge

def edgeOf (row : GraphTraversalRow) (toVersion : Option Text) (level : Nat) : CrateGraphEdge :=
  ⟨row.fromCrateName,some row.fromVersion,row.toCrateName,toVersion,row.requirement,row.dependencyKind,row.optional,level⟩

def addDependency (nextLatest : Nat → Option CrateVersionRow) (level : Nat) (graph : Graph) (row : GraphTraversalRow) : Graph :=
  let toLatestVersion := (nextLatest row.toCrateId).map (·.version)
  graph.add level row.fromCrateName row.toCrateName (some row.fromVersion) toLatestVersion (edgeOf row toLatestVersion level)

def addDependent (selectedVersion : CrateVersionRow) (nextLatest : Nat → Option CrateVersionRow) (level : Nat) (graph : Graph)
    (row : GraphTraversalRow) : Graph :=
  let fromLatestVersion := (nextLatest row.fromCrateId).map (·.version)
  graph.add level row.toCrateName row.fromCrateName (some selectedVersion.version) fromLatestVersion
    (edgeOf row (some selectedVersion.version) level)

/-- `sort_unstable`, then `dedup` -/
def sortedIds (ids : List Nat) : List Nat := Ranking.sortBy id ids.dedup

section
variable {lower : Text → Text} (index : GraphIndex lower) (arrangement : Arrangement)

/-- The levels from `level` on, as many as are left. -/
def dependencyLevels : Nat → Nat → List Nat → Graph → Graph
  | 0,_,_,graph => graph
  | left + 1,level,frontierVersions,graph =>
    if frontierVersions = [] then graph
    else
      let rows := listGraphDependencyTraversalRows index arrangement level frontierVersions
      let nextLatest := latestVersionsForCrates index (rows.map (·.toCrateId))
      dependencyLevels left (level + 1) (sortedIds (rows.filterMap fun row => (nextLatest row.toCrateId).map (·.id)))
        (rows.foldl (addDependency nextLatest level) graph)

def dependentLevels (selectedVersion : CrateVersionRow) : Nat → Nat → List Nat → Graph → Graph
  | 0,_,_,graph => graph
  | left + 1,level,frontierCrates,graph =>
    if frontierCrates = [] then graph
    else
      let rows := listGraphDependentTraversalRows index arrangement level frontierCrates
      let nextLatest := latestVersionsForCrates index (rows.map (·.fromCrateId))
      dependentLevels selectedVersion left (level + 1) (sortedIds (rows.map (·.fromCrateId)))
        (rows.foldl (addDependent selectedVersion nextLatest level) graph)

def startGraph (ctx : CrateContext) : Graph :=
  (Graph.near ⟨[],∅,∅,[],rfl,.nil⟩ ctx.crateRow.name 0).latest ctx.crateRow.name (some ctx.latestVersion.version)

/-- The graph that is traversed in a direction, the dependencies before the dependents. -/
def traverse (ctx : CrateContext) (selectedVersion : CrateVersionRow) (direction : CrateGraphDirection) (depth : Nat) : Graph :=
  let forward := if direction = .dependents then startGraph ctx
    else dependencyLevels index arrangement depth 1 [selectedVersion.id] (startGraph ctx)
  if direction = .dependencies then forward
  else dependentLevels index arrangement selectedVersion depth 1 [ctx.crateRow.id] forward

end

/-! Cycles. -/

/-- In which orders the hash maps and sets of the adjacency are iterated. -/
structure Iteration where
  keys : List Text → List Text
  keysPerm : ∀ names, (keys names).Perm names
  neighbors : Text → List Text → List Text
  neighborsPerm : ∀ node names, (neighbors node names).Perm names

def adjacency (edges : List CrateGraphEdge) (node : Text) : List Text :=
  ((edges.filter fun edge => edge.fromCrate = node).map (·.toCrate)).dedup

/-- None where the recursion is deeper than `fuel`. -/
def detectCyclePresence (iteration : Iteration) (fuel : Nat) (edges : List CrateGraphEdge) : Option Bool :=
  DepthFirst.search (fun node => iteration.neighbors node (adjacency edges node)) fuel
    (iteration.keys (edges.map (·.fromCrate)).dedup) fun _ => .white

def cycleSafeTraversalNotes (iteration : Iteration) (edges : List CrateGraphEdge) (depth : Nat) : List Text :=
  ["Traversal is cycle-safe: edges are deduplicated and traversal depth is bounded.".toList,
    "Traversal depth cap applied: ".toList ++ Nat.toDigits 10 depth] ++
  (if edges.any fun edge => edge.fromCrate = edge.toCrate then ["Self-referential edges detected in result set.".toList] else []) ++
  (if detectCyclePresence iteration (edges.length + 1) edges = some true then
    ["Cycle detected in returned graph; traversal remained bounded and avoided infinite loops.".toList]
  else ["No directed cycles detected in returned graph slice.".toList])

/-! The handler. -/

structure CrateGraphRequest where
  crateName : Text
  version : Option Text
  direction : Option CrateGraphDirection
  depth : Option Nat

inductive ConfidenceLevel where
  | low | medium

structure ConfidenceAssessment where
  level : ConfidenceLevel
  reason : Text

/-- The response shows the crate and the version as the rows that are used. -/
structure CrateGraphResponse where
  crateRow : CrateCoreRow
  selectedVersion : CrateVersionRow
  direction : CrateGraphDirection
  depth : Nat
  nodeCount : Nat
  edgeCount : Nat
  nodes : List CrateGraphNode
  edges : List CrateGraphEdge
  cycleSafeTraversalNotes : List Text
  confidenceAssessment : ConfidenceAssessment

def graphDepth (value : Option Nat) : Nat := clamp 1 4 (value.getD 1)

def nodeKey (node : CrateGraphNode) : Nat ×ₗ Text := toLex (node.minDistance,node.crateName)

def nodesOf (root : Text) (graph : Graph) : List CrateGraphNode :=
  Ranking.sortBy nodeKey (graph.nodeMinDistance.toList.map fun entry =>
    ⟨entry.1,(graph.nodeLatestVersion[entry.1]?).join,entry.2,if entry.1 = root then "root".toList else "related".toList⟩)

def assessGraph (edges : List CrateGraphEdge) : ConfidenceAssessment :=
  if edges.isEmpty then ⟨.low,"no dependency/dependent edges found for selected traversal slice".toList⟩
  else ⟨.medium,"graph is depth-bounded and may omit relationships beyond traversal limit".toList⟩

section
variable {lower : Text → Text} (index : GraphIndex lower) (arrangement : Arrangement) (iteration : Iteration) (waited : Waited)

def selectVersion (ctx : CrateContext) (requestedVersion : Option Text) : Reply CrateVersionRow :=
  match requestedVersion with
  | none => .ok ctx.latestVersion
  | some version =>
      match fetchCrateVersionByName index.toIndex ctx.crateRow.id version with
      | some row => .ok row
      | none =>
          .error (.fails ("version '".toList ++ version ++ "' for crate '".toList ++ ctx.crateRow.name ++
            "' is not indexed locally".toList))

def handleCrateGraph (request : CrateGraphRequest) : Reply CrateGraphResponse := do
  let crateName ← failing (normalizeRequired request.crateName "crate_name".toList)
  let requestedVersion := normalizeOptional request.version
  let direction := request.direction.getD .dependencies
  let depth := graphDepth request.depth
  let ctx ← fetchCrateContext index.toIndex waited crateName
  let selectedVersion ← selectVersion index ctx requestedVersion
  let graph := traverse index arrangement ctx selectedVersion direction depth
  let nodes := nodesOf ctx.crateRow.name graph
  .ok
    { crateRow := ctx.crateRow
      selectedVersion := selectedVersion
      direction := direction
      depth := depth
      nodeCount := nodes.length
      edgeCount := graph.edges.length
      nodes := nodes
      edges := graph.edges
      cycleSafeTraversalNotes := cycleSafeTraversalNotes iteration graph.edges depth
      confidenceAssessment := assessGraph graph.edges }

end

end RustMcp.CrateGraph
