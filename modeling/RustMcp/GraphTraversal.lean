import RustMcp.CrateGraph

/-! What `crate_graph` finds: the distances of the crates, the versions that its edges name,
and whether the edges form a cycle. -/
namespace RustMcp.GraphTraversal
open Str (Text)
open Utils Queries CrateGraph

/-! A map that keeps the least value noted at each key. -/

section
variable {κ : Type} [LinearOrder κ]

def KeepsLeast (map : Keyed.Map κ Nat) (noted : κ → Nat → Prop) : Prop :=
  ∀ key value, map[key]? = some value ↔ IsLeast {n | noted key n} value

variable {map : Keyed.Map κ Nat} {noted noted' : κ → Nat → Prop}

theorem keepsCongr (same : ∀ key n, noted key n ↔ noted' key n) (keeps : KeepsLeast map noted) : KeepsLeast map noted' := by
  intro key value
  rw [keeps key value]
  simp only [same]

theorem keepsEmpty : KeepsLeast (∅ : Keyed.Map κ Nat) fun _ _ => False := by
  intro key value
  rw [Std.TreeMap.getElem?_emptyc]
  constructor
  · intro found
    cases found
  · exact fun least => least.1.elim

theorem keepsNone {key : κ} (keeps : KeepsLeast map noted) (missing : map[key]? = none) (n : Nat) : ¬ noted key n := by
  classical
  intro note
  have found : ∃ n, noted key n := ⟨n,note⟩
  have least : IsLeast {n | noted key n} (Nat.find found) := ⟨Nat.find_spec found,fun _ other => Nat.find_min' found other⟩
  rw [(keeps key _).mpr least] at missing
  cases missing

theorem keepsSome {key : κ} {n : Nat} (keeps : KeepsLeast map noted) (note : noted key n) :
    ∃ value, map[key]? = some value ∧ value ≤ n := by
  cases entry : map[key]? with
  | none => exact absurd note (keepsNone keeps entry n)
  | some value => exact ⟨value,rfl,((keeps key value).mp entry).2 note⟩

theorem leastMin {s : Set Nat} {a b value : Nat} (least : IsLeast s a) : min a b = value ↔ IsLeast {n | n ∈ s ∨ n = b} value := by
  have both : IsLeast {n | n ∈ s ∨ n = b} (min a b) := least.union isLeast_singleton
  exact ⟨fun same => same ▸ both,both.unique⟩

theorem keepsNote (keeps : KeepsLeast map noted) (key : κ) (value : Nat) :
    KeepsLeast (map.alter key fun old => some (old.elim value (min · value))) fun k n => noted k n ∨ (k = key ∧ n = value) := by
  intro k v
  rw [Std.TreeMap.getElem?_alter]
  simp only [compare_eq_iff_eq]
  by_cases same : key = k
  · subst same
    rw [if_pos rfl]
    simp only [true_and,Option.some.injEq]
    cases entry : map[key]? with
    | none =>
      have only : {n | noted key n ∨ n = value} = {value} := by
        ext n
        simp [keepsNone keeps entry n]
      rw [only,Option.elim_none]
      exact ⟨fun same => same ▸ isLeast_singleton,isLeast_singleton.unique⟩
    | some old => exact leastMin ((keeps key old).mp entry)
  · rw [if_neg same,keeps k v]
    simp only [Ne.symm same,false_and,or_false]

end

/-! What a traversal adds to a graph: distances that are noted, and edges that are offered. -/

structure Grown (graph grown : Graph) (noted : Text → Nat → Prop) (offered : CrateGraphEdge → Prop) : Prop where
  near : ∀ {before}, KeepsLeast graph.nodeMinDistance before →
    KeepsLeast grown.nodeMinDistance fun name n => before name n ∨ noted name n
  kept : ∀ edge ∈ graph.edges, edge ∈ grown.edges
  only : ∀ edge ∈ grown.edges, edge ∈ graph.edges ∨ (offered edge ∧ edge.key ∉ graph.edges.map (·.key))
  all : ∀ edge, offered edge → edge.key ∈ grown.edges.map (·.key)

theorem grownCongr {graph grown : Graph} {noted noted' : Text → Nat → Prop} {offered offered' : CrateGraphEdge → Prop}
    (grows : Grown graph grown noted offered) (sameNoted : ∀ name n, noted name n ↔ noted' name n)
    (sameOffered : ∀ edge, offered edge ↔ offered' edge) : Grown graph grown noted' offered' where
  near keeps := keepsCongr (fun name n => or_congr_right (sameNoted name n)) (grows.near keeps)
  kept := grows.kept
  only edge mem := (grows.only edge mem).imp_right fun added => ⟨(sameOffered edge).mp added.1,added.2⟩
  all edge offer := grows.all edge ((sameOffered edge).mpr offer)

theorem grownStill (graph : Graph) : Grown graph graph (fun _ _ => False) (fun _ => False) where
  near keeps := keepsCongr (fun _ _ => (or_false _).symm.to_iff) keeps
  kept _ mem := mem
  only _ mem := .inl mem
  all _ offer := offer.elim

theorem keysKept {graph grown : Graph} (kept : ∀ edge ∈ graph.edges, edge ∈ grown.edges) :
    ∀ key ∈ graph.edges.map (·.key), key ∈ grown.edges.map (·.key) :=
  fun _ mem => List.map_subset _ kept mem

theorem grownTrans {graph between grown : Graph} {noted noted' : Text → Nat → Prop} {offered offered' : CrateGraphEdge → Prop}
    (first : Grown graph between noted offered) (second : Grown between grown noted' offered') :
    Grown graph grown (fun name n => noted name n ∨ noted' name n) (fun edge => offered edge ∨ offered' edge) where
  near keeps := keepsCongr (fun _ _ => or_assoc) (second.near (first.near keeps))
  kept edge mem := second.kept edge (first.kept edge mem)
  only edge mem := by
    obtain between | ⟨offer,new⟩ := second.only edge mem
    · exact (first.only edge between).imp_right fun added => ⟨.inl added.1,added.2⟩
    · exact .inr ⟨.inr offer,fun known => new (keysKept first.kept _ known)⟩
  all edge offer := by
    obtain offer | offer := offer
    · exact keysKept second.kept _ (first.all edge offer)
    · exact second.all edge offer

theorem linkEdges (graph : Graph) (edge : CrateGraphEdge) :
    (graph.link edge).edges = if edge.key ∈ graph.edges.map (·.key) then graph.edges else graph.edges ++ [edge] := by
  rw [Graph.link,← graph.seen]
  split <;> rfl

theorem linkNear (graph : Graph) (edge : CrateGraphEdge) : (graph.link edge).nodeMinDistance = graph.nodeMinDistance := by
  rw [Graph.link]
  split <;> rfl

/-- A row notes the crate on its near side one step nearer than the one on its far side, and
offers its edge. -/
theorem grownAdd (graph : Graph) (level : Nat) (nearCrate farCrate : Text) (nearLatest farLatest : Option Text) (edge : CrateGraphEdge) :
    Grown graph (graph.add level nearCrate farCrate nearLatest farLatest edge)
      (fun name n => (name = nearCrate ∧ n = level - 1) ∨ (name = farCrate ∧ n = level)) (· = edge) := by
  have edges : (graph.add level nearCrate farCrate nearLatest farLatest edge).edges =
      if edge.key ∈ graph.edges.map (·.key) then graph.edges else graph.edges ++ [edge] := linkEdges _ edge
  refine ⟨fun keeps => ?_,fun other mem => ?_,fun other mem => ?_,fun other same => ?_⟩
  · rw [Graph.add,linkNear]
    exact keepsCongr (fun _ _ => or_assoc) (keepsNote (keepsNote keeps nearCrate (level - 1)) farCrate level)
  · rw [edges]
    split
    · exact mem
    · exact List.mem_append_left _ mem
  · rw [edges] at mem
    split at mem
    · exact .inl mem
    · obtain mem | mem := List.mem_append.mp mem
      · exact .inl mem
      · rw [List.mem_singleton] at mem
        subst mem
        exact .inr ⟨rfl,‹_›⟩
  · subst same
    rw [edges]
    split
    · assumption
    · simp

theorem grownDependency (nextLatest : Nat → Option CrateVersionRow) (level : Nat) (graph : Graph) (row : GraphTraversalRow) :
    Grown graph (addDependency nextLatest level graph row)
      (fun name n => (name = row.fromCrateName ∧ n = level - 1) ∨ (name = row.toCrateName ∧ n = level))
      (· = edgeOf row ((nextLatest row.toCrateId).map (·.version)) level) :=
  grownAdd graph level _ _ _ _ _

theorem grownDependent (selectedVersion : CrateVersionRow) (nextLatest : Nat → Option CrateVersionRow) (level : Nat) (graph : Graph)
    (row : GraphTraversalRow) :
    Grown graph (addDependent selectedVersion nextLatest level graph row)
      (fun name n => (name = row.toCrateName ∧ n = level - 1) ∨ (name = row.fromCrateName ∧ n = level))
      (· = edgeOf row (some selectedVersion.version) level) :=
  grownAdd graph level _ _ _ _ _

theorem grownRows {add : Graph → GraphTraversalRow → Graph} {noted : GraphTraversalRow → Text → Nat → Prop}
    {offered : GraphTraversalRow → CrateGraphEdge} (row : ∀ graph row, Grown graph (add graph row) (noted row) (· = offered row))
    (rows : List GraphTraversalRow) (graph : Graph) :
    Grown graph (rows.foldl add graph) (fun name n => ∃ row ∈ rows, noted row name n) (fun edge => ∃ row ∈ rows, edge = offered row) := by
  induction rows generalizing graph with
  | nil =>
    rw [List.foldl_nil]
    exact grownCongr (grownStill graph) (by simp) (by simp)
  | cons first rows ih =>
    rw [List.foldl_cons]
    exact grownCongr (grownTrans (row graph first) (ih _)) (by simp) (by simp)

/-- What holds of a level, at the first one of those that are left or at a later one. -/
theorem firstLevel {n left : Nat} (P : Nat → Prop) :
    (P n ∨ ∃ m, (n + 1 ≤ m ∧ m < n + 1 + left) ∧ P m) ↔ ∃ m, (n ≤ m ∧ m < n + (left + 1)) ∧ P m := by
  constructor
  · rintro (here | ⟨m,within,later⟩)
    · exact ⟨n,by omega,here⟩
    · exact ⟨m,by omega,later⟩
  · rintro ⟨m,within,some⟩
    obtain rfl | past := Nat.eq_or_lt_of_le within.1
    · exact .inl some
    · exact .inr ⟨m,by omega,some⟩

/-! Levels that follow frontiers. -/

section
variable (Row : Nat → GraphTraversalRow → Prop) (Front : Nat → Nat → Prop) (rowFront : ∀ n row, Row n row → ∃ id, Front n id)
  (frontRow : ∀ n id, Front (n + 1) id → ∃ row, Row n row)
include rowFront frontRow

theorem levelsEnd {n later : Nat} (empty : ∀ id, ¬ Front n id) (past : n ≤ later) (row : GraphTraversalRow) : ¬ Row later row := by
  induction later, past using Nat.le_induction generalizing row with
  | base =>
    intro here
    obtain ⟨id,followed⟩ := rowFront n row here
    exact empty id followed
  | succ later past ih =>
    intro here
    obtain ⟨id,followed⟩ := rowFront (later + 1) row here
    obtain ⟨before,listed⟩ := frontRow later id followed
    exact ih before listed

/-- The levels that are left add their rows, where each adds its own and leaves the next frontier. -/
theorem levelsGrown (noted : Nat → Text → Nat → Prop) (offered : Nat → CrateGraphEdge → Prop)
    (notedRow : ∀ n name distance, noted n name distance → ∃ row, Row n row) (offeredRow : ∀ n edge, offered n edge → ∃ row, Row n row)
    (levels : Nat → Nat → List Nat → Graph → Graph) {add : Nat → List Nat → Graph → Graph} {next : Nat → List Nat → List Nat}
    (zero : ∀ n frontier graph, levels 0 n frontier graph = graph)
    (succ : ∀ left n frontier graph, levels (left + 1) n frontier graph =
      if frontier = [] then graph else levels left (n + 1) (next n frontier) (add n frontier graph))
    (level : ∀ n frontier, (∀ id, id ∈ frontier ↔ Front n id) → ∀ graph, Grown graph (add n frontier graph) (noted n) (offered n))
    (front : ∀ n frontier, (∀ id, id ∈ frontier ↔ Front n id) → ∀ id, id ∈ next n frontier ↔ Front (n + 1) id)
    (left : Nat) {n : Nat} {frontier : List Nat} (exact : ∀ id, id ∈ frontier ↔ Front n id) (graph : Graph) :
    Grown graph (levels left n frontier graph) (fun name distance => ∃ m, (n ≤ m ∧ m < n + left) ∧ noted m name distance)
      (fun edge => ∃ m, (n ≤ m ∧ m < n + left) ∧ offered m edge) := by
  induction left generalizing n frontier graph with
  | zero =>
    rw [zero]
    exact grownCongr (grownStill graph) (by simp) (by simp)
  | succ left ih =>
    rw [succ]
    split
    · rename_i empty
      have ends : ∀ m, n ≤ m → ¬ ∃ row, Row m row := by
        rintro m past ⟨row,here⟩
        refine levelsEnd Row Front rowFront frontRow (fun id followed => ?_) past row here
        rw [← exact,empty] at followed
        cases followed
      refine grownCongr (grownStill graph) (fun name distance => ⟨False.elim,?_⟩) (fun edge => ⟨False.elim,?_⟩)
      · rintro ⟨m,⟨past,_⟩,note⟩
        exact ends m past (notedRow m name distance note)
      · rintro ⟨m,⟨past,_⟩,offer⟩
        exact ends m past (offeredRow m edge offer)
    · exact grownCongr (grownTrans (level n frontier exact graph) (ih (front n frontier exact) _))
        (fun name distance => firstLevel fun m => noted m name distance) (fun edge => firstLevel fun m => offered m edge)

end

/-! Dependencies. -/

section
variable {lower : Text → Text} (index : GraphIndex lower)

theorem memJoined {row : GraphTraversalRow} : row ∈ joined index ↔ ∃ d ∈ index.dependencyEdges, ∃ cvFrom ∈ index.versions,
    ∃ cFrom ∈ index.crates.rows, ∃ cTo ∈ index.crates.rows, cvFrom.id = d.fromVersionId ∧ cFrom.id = cvFrom.crateId ∧
      cTo.id = d.toCrateId ∧ joinedRow d cvFrom cFrom cTo = row := by
  simp only [joined,List.mem_flatMap,List.mem_map,List.mem_filter,decide_eq_true_eq]
  constructor
  · rintro ⟨d,edge,cvFrom,⟨version,sameVersion⟩,cFrom,⟨crate,sameCrate⟩,cTo,⟨target,sameTarget⟩,same⟩
    exact ⟨d,edge,cvFrom,version,cFrom,crate,cTo,target,sameVersion,sameCrate,sameTarget,same⟩
  · rintro ⟨d,edge,cvFrom,version,cFrom,crate,cTo,target,sameVersion,sameCrate,sameTarget,same⟩
    exact ⟨d,edge,cvFrom,⟨version,sameVersion⟩,cFrom,⟨crate,sameCrate⟩,cTo,⟨target,sameTarget⟩,same⟩

/-- An edge of the version leads to the crate. -/
def Depends (version : CrateVersionRow) (crate : CrateCoreRow) : Prop :=
  ∃ d ∈ index.dependencyEdges, d.fromVersionId = version.id ∧ d.toCrateId = crate.id

/-- A crate, and the version of it whose edges are followed next: the version that the root
is selected at, and of any crate that a step leads to the latest. -/
inductive Reaches (root : CrateCoreRow) (selected : CrateVersionRow) : Nat → CrateCoreRow → Option CrateVersionRow → Prop where
  | root : Reaches root selected 0 root (some selected)
  | step {n crate version next} (before : Reaches root selected n crate (some version)) (listed : next ∈ index.crates.rows)
      (edge : Depends index version next) :
      Reaches root selected (n + 1) next (fetchLatestCrateVersion index.toIndex next.id)

/-- Its least number of steps. -/
def Distance (root : CrateCoreRow) (selected : CrateVersionRow) (crate : CrateCoreRow) (n : Nat) : Prop :=
  IsLeast {n | ∃ version, Reaches index root selected n crate version} n

theorem latestIndexed {crateId : Nat} {version : CrateVersionRow} (latest : fetchLatestCrateVersion index.toIndex crateId = some version) :
    version ∈ index.versions ∧ version.crateId = crateId := by
  have mem := List.mem_of_mem_head? (Option.mem_def.mpr latest)
  rw [Ranking.memSortBy,List.mem_filter,decide_eq_true_eq] at mem
  exact mem

variable {root : CrateCoreRow} {selected : CrateVersionRow}

/-- The root and its version are indexed. -/
structure Rooted (root : CrateCoreRow) (selected : CrateVersionRow) : Prop where
  listed : root ∈ index.crates.rows
  version : selected ∈ index.versions
  own : selected.crateId = root.id

variable {index} (rooted : Rooted index root selected)
include rooted

theorem reachesListed {n : Nat} {crate : CrateCoreRow} {version : Option CrateVersionRow}
    (reaches : Reaches index root selected n crate version) : crate ∈ index.crates.rows := by
  cases reaches with
  | root => exact rooted.listed
  | step before listed edge => exact listed

theorem reachesOwn {n : Nat} {crate : CrateCoreRow} {version : CrateVersionRow}
    (reaches : Reaches index root selected n crate (some version)) : version ∈ index.versions ∧ version.crateId = crate.id := by
  generalize eq : some version = followed at reaches
  cases reaches with
  | root =>
    cases eq
    exact ⟨rooted.version,rooted.own⟩
  | step before listed edge => exact latestIndexed index eq.symm

omit rooted in
/-- The rows of the level after `n` steps. -/
def ForwardRow (index : GraphIndex lower) (root : CrateCoreRow) (selected : CrateVersionRow) (n : Nat) (row : GraphTraversalRow) : Prop :=
  row ∈ joined index ∧ ∃ crate version, Reaches index root selected n crate (some version) ∧ row.fromVersionId = version.id

theorem forwardRow {n : Nat} {row : GraphTraversalRow} (forward : ForwardRow index root selected n row) :
    ∃ d ∈ index.dependencyEdges, ∃ crate version next, Reaches index root selected n crate (some version) ∧
      next ∈ index.crates.rows ∧ Depends index version next ∧ row = joinedRow d version crate next := by
  obtain ⟨mem,crate,version,reaches,same⟩ := forward
  obtain ⟨d,edge,cvFrom,indexed,cFrom,listed,cTo,target,sameVersion,sameCrate,sameTarget,rfl⟩ := (memJoined index).mp mem
  have own := reachesOwn rooted reaches
  obtain rfl : cvFrom = version := List.inj_on_of_nodup_map index.versionIds indexed own.1 same
  obtain rfl : cFrom = crate := List.inj_on_of_nodup_map index.crateIds listed (reachesListed rooted reaches) (sameCrate.trans own.2)
  exact ⟨d,edge,cFrom,cvFrom,cTo,reaches,target,⟨d,edge,sameVersion.symm,sameTarget.symm⟩,rfl⟩

theorem rowForward {n : Nat} {crate next : CrateCoreRow} {version : CrateVersionRow}
    (reaches : Reaches index root selected n crate (some version)) (listed : next ∈ index.crates.rows)
    (edge : Depends index version next) :
    ∃ row, ForwardRow index root selected n row ∧ row.fromCrateName = crate.name ∧ row.toCrateName = next.name ∧
      row.toCrateId = next.id := by
  obtain ⟨d,mem,sameVersion,sameTarget⟩ := edge
  have own := reachesOwn rooted reaches
  have joined := (memJoined index).mpr ⟨d,mem,version,own.1,crate,reachesListed rooted reaches,next,listed,sameVersion.symm,
    own.2.symm,sameTarget.symm,rfl⟩
  exact ⟨joinedRow d version crate next,⟨joined,crate,version,reaches,rfl⟩,rfl,rfl,rfl⟩

omit rooted in
/-- The versions that the level after `n` steps follows. -/
def Frontier (index : GraphIndex lower) (root : CrateCoreRow) (selected : CrateVersionRow) (n : Nat) (id : Nat) : Prop :=
  ∃ crate version, Reaches index root selected n crate (some version) ∧ version.id = id

theorem frontierNext {n : Nat} {id : Nat} : Frontier index root selected (n + 1) id ↔ ∃ row, ForwardRow index root selected n row ∧
    ∃ version, fetchLatestCrateVersion index.toIndex row.toCrateId = some version ∧ version.id = id := by
  constructor
  · rintro ⟨crate,version,reaches,same⟩
    generalize eq : some version = followed at reaches
    cases reaches with
    | step before listed edge =>
      obtain ⟨row,forward,_,_,target⟩ := rowForward rooted before listed edge
      exact ⟨row,forward,version,target ▸ eq.symm,same⟩
  · rintro ⟨row,forward,version,latest,same⟩
    obtain ⟨d,_,crate,followed,next,reaches,listed,edge,rfl⟩ := forwardRow rooted forward
    exact ⟨next,version,(show fetchLatestCrateVersion index.toIndex next.id = some version from latest) ▸ reaches.step listed edge,same⟩

omit rooted in
theorem latestListed {crateIds : List Nat} {crateId : Nat} (mem : crateId ∈ crateIds) :
    latestVersionsForCrates index crateIds crateId = fetchLatestCrateVersion index.toIndex crateId := if_pos mem

omit rooted in
def ForwardNote (index : GraphIndex lower) (root : CrateCoreRow) (selected : CrateVersionRow) (n : Nat) (name : Text)
    (distance : Nat) : Prop :=
  ∃ row, ForwardRow index root selected n row ∧
    ((name = row.fromCrateName ∧ distance = n) ∨ (name = row.toCrateName ∧ distance = n + 1))

omit rooted in
def ForwardEdge (index : GraphIndex lower) (root : CrateCoreRow) (selected : CrateVersionRow) (n : Nat) (edge : CrateGraphEdge) : Prop :=
  ∃ row, ForwardRow index root selected n row ∧
    edge = edgeOf row ((fetchLatestCrateVersion index.toIndex row.toCrateId).map (·.version)) (n + 1)

section
variable (arrangement : Arrangement) {n : Nat} {frontier : List Nat} (exact : ∀ id, id ∈ frontier ↔ Frontier index root selected n id)
include exact

omit rooted in
theorem forwardRows {row : GraphTraversalRow} :
    row ∈ listGraphDependencyTraversalRows index arrangement (n + 1) frontier ↔ ForwardRow index root selected n row := by
  rw [listGraphDependencyTraversalRows,(arrangement.perm _ _).mem_iff,List.mem_filter,decide_eq_true_eq,exact]
  exact and_congr_right fun _ => ⟨fun ⟨crate,version,reaches,same⟩ => ⟨crate,version,reaches,same.symm⟩,
    fun ⟨crate,version,reaches,same⟩ => ⟨crate,version,reaches,same.symm⟩⟩

omit rooted in
theorem forwardLevel (graph : Graph) :
    let rows := listGraphDependencyTraversalRows index arrangement (n + 1) frontier
    Grown graph (rows.foldl (addDependency (latestVersionsForCrates index (rows.map (·.toCrateId))) (n + 1)) graph)
      (ForwardNote index root selected n) (ForwardEdge index root selected n) := by
  intro rows
  refine grownCongr (grownRows (grownDependency (latestVersionsForCrates index (rows.map (·.toCrateId))) (n + 1)) rows graph)
    (fun name distance => ?_) fun edge => ?_
  · exact exists_congr fun row => and_congr_left fun _ => forwardRows arrangement exact
  · refine exists_congr fun row => ?_
    rw [← forwardRows arrangement exact]
    refine and_congr_right fun mem => ?_
    rw [latestListed (List.mem_map_of_mem mem)]

theorem forwardFrontier {id : Nat} :
    let rows := listGraphDependencyTraversalRows index arrangement (n + 1) frontier
    id ∈ sortedIds (rows.filterMap fun row =>
      (latestVersionsForCrates index (rows.map (·.toCrateId)) row.toCrateId).map (·.id)) ↔ Frontier index root selected (n + 1) id := by
  intro rows
  rw [sortedIds,Ranking.memSortBy,List.mem_dedup,List.mem_filterMap,frontierNext rooted]
  refine exists_congr fun row => ?_
  rw [← forwardRows arrangement exact]
  refine and_congr_right fun mem => ?_
  rw [latestListed (List.mem_map_of_mem mem),Option.map_eq_some_iff]

end

theorem forwardLevels (arrangement : Arrangement) (left : Nat) {n : Nat} {frontier : List Nat}
    (exact : ∀ id, id ∈ frontier ↔ Frontier index root selected n id) (graph : Graph) :
    Grown graph (dependencyLevels index arrangement left (n + 1) frontier graph)
      (fun name distance => ∃ m, (n ≤ m ∧ m < n + left) ∧ ForwardNote index root selected m name distance)
      (fun edge => ∃ m, (n ≤ m ∧ m < n + left) ∧ ForwardEdge index root selected m edge) := by
  refine levelsGrown (ForwardRow index root selected) (Frontier index root selected) ?_ ?_ (ForwardNote index root selected)
    (ForwardEdge index root selected) ?_ ?_ (fun left n => dependencyLevels index arrangement left (n + 1)) (fun _ _ _ => rfl)
    (fun _ _ _ _ => rfl) ?_ ?_ left exact graph
  · rintro n row ⟨_,crate,version,reaches,_⟩
    exact ⟨version.id,crate,version,reaches,rfl⟩
  · intro n id followed
    obtain ⟨row,forward,_⟩ := (frontierNext rooted).mp followed
    exact ⟨row,forward⟩
  · exact fun n name distance ⟨row,forward,_⟩ => ⟨row,forward⟩
  · exact fun n edge ⟨row,forward,_⟩ => ⟨row,forward⟩
  · exact fun n frontier exact graph => forwardLevel arrangement exact graph
  · exact fun n frontier exact id => forwardFrontier rooted arrangement exact

/-- The notes of all levels are the numbers of steps to the crates. -/
theorem forwardDistances {depth : Nat} {name : Text} {n : Nat} :
    ((name = root.name ∧ n = 0) ∨ ∃ m, (0 ≤ m ∧ m < 0 + depth) ∧ ForwardNote index root selected m name n) ↔
      n ≤ depth ∧ ∃ crate version, Reaches index root selected n crate version ∧ crate.name = name := by
  constructor
  · rintro (⟨rfl,rfl⟩ | ⟨m,within,row,forward,sides⟩)
    · exact ⟨Nat.zero_le depth,root,_,.root,rfl⟩
    · obtain ⟨d,_,crate,version,next,reaches,listed,edge,rfl⟩ := forwardRow rooted forward
      obtain ⟨rfl,rfl⟩ | ⟨rfl,rfl⟩ := sides
      · exact ⟨by omega,crate,_,reaches,rfl⟩
      · exact ⟨by omega,next,_,reaches.step listed edge,rfl⟩
  · rintro ⟨within,crate,version,reaches,rfl⟩
    cases reaches with
    | root => exact .inl ⟨rfl,rfl⟩
    | step before listed edge =>
      obtain ⟨row,forward,_,target,_⟩ := rowForward rooted before listed edge
      exact .inr ⟨_,by omega,row,forward,.inr ⟨target.symm,rfl⟩⟩

end

/-! Dependents. -/

section
variable {lower : Text → Text} (index : GraphIndex lower)

/-- A crate that depends on the root in a number of steps, each of them an edge of any version. -/
inductive DependsIn (root : CrateCoreRow) : Nat → CrateCoreRow → Prop where
  | root : DependsIn root 0 root
  | step {n crate version next} (before : DependsIn root n crate) (indexed : version ∈ index.versions) (listed : next ∈ index.crates.rows)
      (own : version.crateId = next.id) (edge : Depends index version crate) : DependsIn root (n + 1) next

/-- The rows of the level after `n` steps. -/
def BackwardRow (root : CrateCoreRow) (n : Nat) (row : GraphTraversalRow) : Prop :=
  row ∈ joined index ∧ ∃ crate, DependsIn index root n crate ∧ row.toCrateId = crate.id

/-- The crates whose dependents the level after `n` steps lists. -/
def BackwardFrontier (root : CrateCoreRow) (n : Nat) (id : Nat) : Prop := ∃ crate, DependsIn index root n crate ∧ crate.id = id

def BackwardEdge (root : CrateCoreRow) (selected : CrateVersionRow) (n : Nat) (edge : CrateGraphEdge) : Prop :=
  ∃ row, BackwardRow index root n row ∧ edge = edgeOf row (some selected.version) (n + 1)

def BackwardNote (root : CrateCoreRow) (n : Nat) (name : Text) (distance : Nat) : Prop :=
  ∃ row, BackwardRow index root n row ∧ ((name = row.toCrateName ∧ distance = n) ∨ (name = row.fromCrateName ∧ distance = n + 1))

variable {index} {root : CrateCoreRow} {selected : CrateVersionRow} {n : Nat}

theorem dependsListed (listed : root ∈ index.crates.rows) {crate : CrateCoreRow} (depends : DependsIn index root n crate) :
    crate ∈ index.crates.rows := by
  cases depends with
  | root => exact listed
  | step before indexed next own edge => exact next

theorem backwardRow (listed : root ∈ index.crates.rows) {row : GraphTraversalRow} (backward : BackwardRow index root n row) :
    ∃ d ∈ index.dependencyEdges, ∃ version ∈ index.versions, ∃ next ∈ index.crates.rows, ∃ crate, DependsIn index root n crate ∧
      version.crateId = next.id ∧ Depends index version crate ∧ row = joinedRow d version next crate := by
  obtain ⟨mem,crate,depends,same⟩ := backward
  obtain ⟨d,edge,cvFrom,indexed,cFrom,from_,cTo,target,sameVersion,sameCrate,sameTarget,rfl⟩ := (memJoined index).mp mem
  obtain rfl : cTo = crate := List.inj_on_of_nodup_map index.crateIds target (dependsListed listed depends) same
  exact ⟨d,edge,cvFrom,indexed,cFrom,from_,cTo,depends,sameCrate.symm,⟨d,edge,sameVersion.symm,sameTarget.symm⟩,rfl⟩

theorem backwardNext (listed : root ∈ index.crates.rows) {id : Nat} :
    BackwardFrontier index root (n + 1) id ↔ ∃ row, BackwardRow index root n row ∧ row.fromCrateId = id := by
  constructor
  · rintro ⟨next,depends,rfl⟩
    cases depends with
    | step before indexed next_ own edge =>
      rename_i crate version
      obtain ⟨d,mem,sameVersion,sameTarget⟩ := edge
      have joined := (memJoined index).mpr ⟨d,mem,version,indexed,next,next_,crate,dependsListed listed before,sameVersion.symm,
        own.symm,sameTarget.symm,rfl⟩
      exact ⟨joinedRow d version next crate,⟨joined,crate,before,rfl⟩,rfl⟩
  · rintro ⟨row,backward,rfl⟩
    obtain ⟨d,_,version,indexed,next,next_,crate,depends,own,edge,rfl⟩ := backwardRow listed backward
    exact ⟨next,depends.step indexed next_ own edge,rfl⟩

section
variable (arrangement : Arrangement) {frontier : List Nat} (exact : ∀ id, id ∈ frontier ↔ BackwardFrontier index root n id)
include exact

theorem backwardRows {row : GraphTraversalRow} :
    row ∈ listGraphDependentTraversalRows index arrangement (n + 1) frontier ↔ BackwardRow index root n row := by
  rw [listGraphDependentTraversalRows,(arrangement.perm _ _).mem_iff,List.mem_filter,decide_eq_true_eq,exact]
  exact and_congr_right fun _ => exists_congr fun crate => and_congr_right fun _ => eq_comm

theorem backwardLevel (graph : Graph) :
    let rows := listGraphDependentTraversalRows index arrangement (n + 1) frontier
    Grown graph (rows.foldl (addDependent selected (latestVersionsForCrates index (rows.map (·.fromCrateId))) (n + 1)) graph)
      (BackwardNote index root n) (BackwardEdge index root selected n) := by
  intro rows
  refine grownCongr (grownRows (grownDependent selected (latestVersionsForCrates index (rows.map (·.fromCrateId))) (n + 1)) rows graph)
    (fun name distance => ?_) fun edge => ?_
  · exact exists_congr fun row => and_congr_left fun _ => backwardRows arrangement exact
  · exact exists_congr fun row => and_congr_left fun _ => backwardRows arrangement exact

theorem backwardFrontier (listed : root ∈ index.crates.rows) {id : Nat} :
    id ∈ sortedIds ((listGraphDependentTraversalRows index arrangement (n + 1) frontier).map (·.fromCrateId)) ↔
      BackwardFrontier index root (n + 1) id := by
  rw [sortedIds,Ranking.memSortBy,List.mem_dedup,List.mem_map,backwardNext listed]
  exact exists_congr fun row => and_congr_left fun _ => backwardRows arrangement exact

end

variable (selected) in
theorem backwardLevels (listed : root ∈ index.crates.rows) (arrangement : Arrangement) (left : Nat) {frontier : List Nat}
    (exact : ∀ id, id ∈ frontier ↔ BackwardFrontier index root n id) (graph : Graph) :
    Grown graph (dependentLevels index arrangement selected left (n + 1) frontier graph)
      (fun name distance => ∃ m, (n ≤ m ∧ m < n + left) ∧ BackwardNote index root m name distance)
      (fun edge => ∃ m, (n ≤ m ∧ m < n + left) ∧ BackwardEdge index root selected m edge) := by
  refine levelsGrown (BackwardRow index root) (BackwardFrontier index root) ?_ ?_ (BackwardNote index root)
    (BackwardEdge index root selected) ?_ ?_ (fun left n => dependentLevels index arrangement selected left (n + 1)) (fun _ _ _ => rfl)
    (fun _ _ _ _ => rfl) ?_ ?_ left exact graph
  · rintro n row ⟨_,crate,depends,_⟩
    exact ⟨crate.id,crate,depends,rfl⟩
  · intro n id followed
    obtain ⟨row,backward,_⟩ := (backwardNext listed).mp followed
    exact ⟨row,backward⟩
  · exact fun n name distance ⟨row,backward,_⟩ => ⟨row,backward⟩
  · exact fun n edge ⟨row,backward,_⟩ => ⟨row,backward⟩
  · exact fun n frontier exact graph => backwardLevel arrangement exact graph
  · exact fun n frontier exact id => backwardFrontier arrangement exact listed

end

/-! Versions of the endpoints. -/

section
variable {lower : Text → Text} (index : GraphIndex lower)

def VersionOf (name version : Text) : Prop :=
  ∃ crate ∈ index.crates.rows, crate.name = name ∧ ∃ row ∈ index.versions, row.crateId = crate.id ∧ row.version = version

/-- The versions of an edge are indexed versions of its crates. -/
structure NamesOwn (edge : CrateGraphEdge) : Prop where
  left : ∀ version, edge.fromVersion = some version → VersionOf index edge.fromCrate version
  right : ∀ version, edge.toVersion = some version → VersionOf index edge.toCrate version

/-- The crates whose dependents are listed have a version of the text of the selected one, or the dependencies
have listed the edge. -/
def SelectedOwn (root : CrateCoreRow) (selected : CrateVersionRow) (direction : CrateGraphDirection) (depth : Nat) : Prop :=
  direction = .dependencies ∨ ∀ n < depth, ∀ row, BackwardRow index root n row →
    VersionOf index row.toCrateName selected.version ∨ (direction = .both ∧ ∃ other, ForwardRow index root selected n other ∧
      (edgeOf other none (n + 1)).key = (edgeOf row none (n + 1)).key)

variable {index} {root : CrateCoreRow} {selected : CrateVersionRow} {n : Nat}

theorem forwardOwn (rooted : Rooted index root selected) {edge : CrateGraphEdge} (offered : ForwardEdge index root selected n edge) :
    NamesOwn index edge := by
  obtain ⟨row,forward,rfl⟩ := offered
  obtain ⟨d,_,crate,version,next,reaches,listed,leads,rfl⟩ := forwardRow rooted forward
  have own := reachesOwn rooted reaches
  constructor
  · intro text same
    cases same
    exact ⟨crate,reachesListed rooted reaches,rfl,version,own.1,own.2,rfl⟩
  · intro text same
    obtain ⟨latest,newest,rfl⟩ := Option.map_eq_some_iff.mp same
    obtain ⟨indexed,own⟩ := latestIndexed index newest
    exact ⟨next,listed,rfl,latest,indexed,own,rfl⟩

theorem backwardOwn (listed : root ∈ index.crates.rows) {row : GraphTraversalRow} (backward : BackwardRow index root n row) :
    NamesOwn index (edgeOf row (some selected.version) (n + 1)) ↔ VersionOf index row.toCrateName selected.version := by
  constructor
  · exact fun own => own.right _ rfl
  · intro right
    refine ⟨fun text same => ?_,fun text same => ?_⟩
    · obtain ⟨d,_,version,indexed,next,next_,crate,depends,own,edge,rfl⟩ := backwardRow listed backward
      cases same
      exact ⟨next,next_,rfl,version,indexed,own,rfl⟩
    · cases same
      exact right

/-- Where the edges listed first are right, the rest are as far as they are not listed first. -/
theorem ownGrown {start between grown : Graph} {noted noted' : Text → Nat → Prop} {offered offered' : CrateGraphEdge → Prop}
    (empty : start.edges = []) (first : Grown start between noted offered) (second : Grown between grown noted' offered')
    (own : ∀ edge, offered edge → NamesOwn index edge)
    (alike : ∀ edge other, offered' edge → offered' other → edge.key = other.key → NamesOwn index edge → NamesOwn index other) :
    (∀ edge ∈ grown.edges, NamesOwn index edge) ↔
      ∀ edge, offered' edge → NamesOwn index edge ∨ ∃ other, offered other ∧ other.key = edge.key := by
  have listed : ∀ edge ∈ between.edges, offered edge := by
    intro edge mem
    obtain old | new := first.only edge mem
    · rw [empty] at old
      cases old
    · exact new.1
  constructor
  · intro all edge offer
    obtain ⟨other,mem,same⟩ := List.mem_map.mp (second.all edge offer)
    obtain old | new := second.only other mem
    · exact .inr ⟨other,listed other old,same⟩
    · exact .inl (alike other edge new.1 offer same (all other mem))
  · intro all edge mem
    obtain old | ⟨offer,new⟩ := second.only edge mem
    · exact own edge (listed edge old)
    · obtain own | ⟨other,before,same⟩ := all edge offer
      · exact own
      · exact absurd (same ▸ first.all other before) new

theorem backwardAlike (listed : root ∈ index.crates.rows) {depth : Nat} (edge other : CrateGraphEdge)
    (first : ∃ m, (0 ≤ m ∧ m < 0 + depth) ∧ BackwardEdge index root selected m edge)
    (second : ∃ m, (0 ≤ m ∧ m < 0 + depth) ∧ BackwardEdge index root selected m other) (same : edge.key = other.key)
    (own : NamesOwn index edge) : NamesOwn index other := by
  obtain ⟨m,_,row,backward,rfl⟩ := first
  obtain ⟨m',_,row',backward',rfl⟩ := second
  have to_ : row.toCrateName = row'.toCrateName := congrArg (·.2.1) same
  rw [backwardOwn listed] at own ⊢
  · exact to_ ▸ own
  · exact backward'
  · exact backward

end

/-! The handler. -/

section
variable {lower : Text → Text} {index : GraphIndex lower} {arrangement : Arrangement} {iteration : Iteration} {waited : Waited}

theorem contextRow {crateName : Text} {ctx : CrateContext} (fetched : fetchCrateContext index.toIndex waited crateName = .ok ctx) :
    ctx.crateRow ∈ index.crates.rows ∧ fetchLatestCrateVersion index.toIndex ctx.crateRow.id = some ctx.latestVersion := by
  have row := contextOption index.toIndex waited crateName
  rw [fetched,okOption] at row
  obtain ⟨crateRow,found,latest⟩ := Option.bind_eq_some_iff.mp row.symm
  obtain ⟨latestVersion,newest,rfl⟩ := Option.map_eq_some_iff.mp latest
  exact ⟨(Keyed.Table.lookupIff.mp found).1,newest⟩

theorem selectedRow {ctx : CrateContext} {requestedVersion : Option Text} {selected : CrateVersionRow}
    (latest : fetchLatestCrateVersion index.toIndex ctx.crateRow.id = some ctx.latestVersion)
    (chosen : selectVersion index ctx requestedVersion = .ok selected) :
    selected ∈ index.versions ∧ selected.crateId = ctx.crateRow.id := by
  cases requestedVersion with
  | none =>
    cases chosen
    exact latestIndexed index latest
  | some version =>
    simp only [selectVersion] at chosen
    split at chosen
    · rename_i row found
      cases chosen
      have own := List.find?_some found
      rw [Bool.and_eq_true,decide_eq_true_eq] at own
      exact ⟨List.mem_of_find?_eq_some found,own.1⟩
    · cases chosen

/-- The crate and the version that a request asks for. -/
structure Asked (index : GraphIndex lower) (waited : Waited) (request : CrateGraphRequest) (ctx : CrateContext)
    (selected : CrateVersionRow) : Prop where
  crate : ∃ crateName, normalizeRequired request.crateName "crate_name".toList = .ok crateName ∧
    fetchCrateContext index.toIndex waited crateName = .ok ctx
  version : selectVersion index ctx (normalizeOptional request.version) = .ok selected

theorem askedRooted {request : CrateGraphRequest} {ctx : CrateContext} {selected : CrateVersionRow}
    (asked : Asked index waited request ctx selected) : Rooted index ctx.crateRow selected := by
  obtain ⟨crateName,_,fetched⟩ := asked.crate
  obtain ⟨listed,latest⟩ := contextRow fetched
  obtain ⟨version,own⟩ := selectedRow latest asked.version
  exact ⟨listed,version,own⟩

theorem graphResponse {request : CrateGraphRequest} {response : CrateGraphResponse}
    (answered : handleCrateGraph index arrangement iteration waited request = .ok response) : ∃ ctx,
      Asked index waited request ctx response.selectedVersion ∧ response.crateRow = ctx.crateRow ∧
      response.direction = request.direction.getD .dependencies ∧ response.depth = graphDepth request.depth ∧ ∃ graph,
      traverse index arrangement ctx response.selectedVersion response.direction response.depth = graph ∧
      response.nodes = nodesOf ctx.crateRow.name graph ∧ response.edges = graph.edges := by
  obtain ⟨crateName,named,answered⟩ := bindOk answered
  obtain ⟨ctx,fetched,answered⟩ := bindOk answered
  obtain ⟨selected,chosen,answered⟩ := bindOk answered
  cases answered
  refine ⟨ctx,⟨⟨crateName,?_,fetched⟩,chosen⟩,rfl,rfl,rfl,_,rfl,rfl,rfl⟩
  cases normal : normalizeRequired request.crateName "crate_name".toList with
  | error message =>
    rw [normal] at named
    cases named
  | ok name =>
    rw [normal] at named
    cases named
    rfl

theorem askedUnique {request : CrateGraphRequest} {ctx other : CrateContext} {selected version : CrateVersionRow}
    (asked : Asked index waited request ctx selected) (again : Asked index waited request other version) :
    ctx = other ∧ selected = version := by
  obtain ⟨crateName,named,fetched⟩ := asked.crate
  obtain ⟨_,named',fetched'⟩ := again.crate
  cases named.symm.trans named'
  cases fetched.symm.trans fetched'
  cases asked.version.symm.trans again.version
  exact ⟨rfl,rfl⟩

theorem nodeListed {root : Text} {graph : Graph} {name : Text} {n : Nat} :
    (∃ node ∈ nodesOf root graph, node.crateName = name ∧ node.minDistance = n) ↔ graph.nodeMinDistance[name]? = some n := by
  simp only [nodesOf,Ranking.memSortBy,List.mem_map]
  constructor
  · rintro ⟨_,⟨entry,mem,rfl⟩,rfl,rfl⟩
    exact Keyed.mapMem.mp mem
  · exact fun entry => ⟨_,⟨(name,n),Keyed.mapMem.mpr entry,rfl⟩,rfl,rfl⟩

theorem nodesOnce (root : Text) (graph : Graph) : ((nodesOf root graph).map (·.crateName)).Nodup := by
  rw [nodesOf,((Ranking.sortByPerm _ _).map _).nodup_iff,List.map_map]
  have keys := graph.nodeMinDistance.nodup_keys
  rw [← Std.TreeMap.map_fst_toList_eq_keys] at keys
  exact keys

theorem startKeeps (ctx : CrateContext) : KeepsLeast (startGraph ctx).nodeMinDistance fun name n => name = ctx.crateRow.name ∧ n = 0 :=
  keepsCongr (fun _ _ => (false_or _).to_iff) (keepsNote keepsEmpty ctx.crateRow.name 0)

theorem sameName {a b : CrateCoreRow} (listedA : a ∈ index.crates.rows) (listedB : b ∈ index.crates.rows) (same : a.name = b.name) :
    a = b :=
  List.inj_on_of_nodup_map index.crates.unique listedA listedB (congrArg lower same)

theorem leastWithin {s t : Set Nat} {depth n : Nat} (same : ∀ m, m ∈ s ↔ m ≤ depth ∧ m ∈ t) : IsLeast s n ↔ n ≤ depth ∧ IsLeast t n := by
  constructor
  · rintro ⟨mem,least⟩
    obtain ⟨within,mem⟩ := (same n).mp mem
    refine ⟨within,mem,fun m other => ?_⟩
    obtain past | past := Nat.le_total m depth
    · exact least ((same m).mpr ⟨past,other⟩)
    · exact within.trans past
  · rintro ⟨within,mem,least⟩
    exact ⟨(same n).mpr ⟨within,mem⟩,fun m other => least ((same m).mp other).2⟩

/-- The nodes are the crates within the depth, each once and at its distance; the edges of a
level are listed once, and leave nodes that are nearer. -/
structure ShortestPaths (index : GraphIndex lower) (response : CrateGraphResponse) : Prop where
  nodes : ∀ crate ∈ index.crates.rows, ∀ n, (∃ node ∈ response.nodes, node.crateName = crate.name ∧ node.minDistance = n) ↔
    n ≤ response.depth ∧ Distance index response.crateRow response.selectedVersion crate n
  named : ∀ node ∈ response.nodes, ∃ crate ∈ index.crates.rows, crate.name = node.crateName
  nodesOnce : (response.nodes.map (·.crateName)).Nodup
  edgesOnce : (response.edges.map (·.key)).Nodup
  leaves : ∀ edge ∈ response.edges, ∃ node ∈ response.nodes, node.crateName = edge.fromCrate ∧ node.minDistance + 1 ≤ edge.depth

theorem frontierStart {root : CrateCoreRow} {selected : CrateVersionRow} (id : Nat) :
    id ∈ [selected.id] ↔ Frontier index root selected 0 id := by
  rw [List.mem_singleton]
  constructor
  · rintro rfl
    exact ⟨root,selected,.root,rfl⟩
  · rintro ⟨_,_,reaches,rfl⟩
    cases reaches
    rfl

theorem backwardStart {root : CrateCoreRow} (id : Nat) : id ∈ [root.id] ↔ BackwardFrontier index root 0 id := by
  rw [List.mem_singleton]
  constructor
  · rintro rfl
    exact ⟨root,.root,rfl⟩
  · rintro ⟨_,depends,rfl⟩
    cases depends
    rfl

theorem dependencySlice {request : CrateGraphRequest} {response : CrateGraphResponse}
    (answered : handleCrateGraph index arrangement iteration waited request = .ok response)
    (dependencies : response.direction = .dependencies) : ShortestPaths index response := by
  obtain ⟨ctx,asked,crateRow,_,_,graph,ran,nodes,edges⟩ := graphResponse answered
  have rooted := askedRooted asked
  rw [← crateRow] at rooted nodes
  rw [dependencies] at ran
  simp only [CrateGraph.traverse,reduceCtorEq,if_true,if_false] at ran
  have grown := forwardLevels rooted arrangement response.depth frontierStart (startGraph ctx)
  rw [ran] at grown
  have keeps := keepsCongr (fun name n => forwardDistances rooted) (grown.near (crateRow ▸ startKeeps ctx))
  constructor
  · intro crate listed n
    rw [nodes,nodeListed,keeps crate.name n]
    refine leastWithin fun m => and_congr_right fun _ => ?_
    constructor
    · rintro ⟨other,version,reaches,same⟩
      cases sameName (reachesListed rooted reaches) listed same
      exact ⟨version,reaches⟩
    · exact fun ⟨version,reaches⟩ => ⟨crate,version,reaches,rfl⟩
  · intro node mem
    rw [nodes] at mem
    obtain ⟨_,crate,version,reaches,same⟩ := ((keeps _ _).mp (nodeListed.mp ⟨node,mem,rfl,rfl⟩)).1
    exact ⟨crate,reachesListed rooted reaches,same⟩
  · rw [nodes]
    exact nodesOnce _ graph
  · rw [edges,← graph.seen]
    exact graph.once
  · intro edge mem
    rw [edges] at mem
    obtain none_ | ⟨⟨n,within,row,forward,rfl⟩,_⟩ := grown.only edge mem
    · cases none_
    · obtain ⟨d,_,crate,version,next,reaches,listed,leads,rfl⟩ := forwardRow rooted forward
      obtain ⟨distance,entry,nearer⟩ := keepsSome keeps ⟨by omega,crate,version,reaches,rfl⟩
      obtain ⟨node,mem,name,same⟩ := nodeListed.mpr entry
      rw [← nodes] at mem
      exact ⟨node,mem,name,Nat.succ_le_succ (same ▸ nearer)⟩

/-- What the dependents add, said of their rows. -/
theorem backwardCondition {root : CrateCoreRow} {selected : CrateVersionRow} (listed : root ∈ index.crates.rows) {depth : Nat}
    {before : CrateGraphEdge → Prop} (again : Nat → GraphTraversalRow → Prop)
    (same : ∀ n < depth, ∀ row, (∃ other, before other ∧ other.key = (edgeOf row (some selected.version) (n + 1)).key) ↔ again n row) :
    (∀ edge, (∃ m, (0 ≤ m ∧ m < 0 + depth) ∧ BackwardEdge index root selected m edge) →
      NamesOwn index edge ∨ ∃ other, before other ∧ other.key = edge.key) ↔
    ∀ n < depth, ∀ row, BackwardRow index root n row → VersionOf index row.toCrateName selected.version ∨ again n row := by
  constructor
  · intro all n within row backward
    obtain own | known := all _ ⟨n,by omega,row,backward,rfl⟩
    · exact .inl ((backwardOwn listed backward).mp own)
    · exact .inr ((same n within row).mp known)
  · rintro all edge ⟨n,within,row,backward,rfl⟩
    obtain own | known := all n (by omega) row backward
    · exact .inl ((backwardOwn listed backward).mpr own)
    · exact .inr ((same n (by omega) row).mpr known)

theorem versionsOwn {request : CrateGraphRequest} {ctx : CrateContext} {selected : CrateVersionRow} {response : CrateGraphResponse}
    (asked : Asked index waited request ctx selected)
    (answered : handleCrateGraph index arrangement iteration waited request = .ok response) :
    (∀ edge ∈ response.edges, NamesOwn index edge) ↔
      SelectedOwn index ctx.crateRow selected (request.direction.getD .dependencies) (graphDepth request.depth) := by
  obtain ⟨other,found,_,direction,depth,graph,ran,_,edges⟩ := graphResponse answered
  obtain ⟨rfl,chosen⟩ := askedUnique asked found
  rw [← chosen,direction,depth] at ran
  rw [edges]
  clear direction depth edges
  generalize graphDepth request.depth = depth at *
  have rooted := askedRooted asked
  have forward := forwardLevels rooted arrangement depth frontierStart (startGraph ctx)
  cases asked : request.direction.getD .dependencies with
  | dependencies =>
    rw [asked] at ran
    simp only [CrateGraph.traverse,reduceCtorEq,if_true,if_false] at ran
    rw [← ran]
    refine iff_of_true (fun edge mem => ?_) (.inl rfl)
    obtain old | ⟨⟨n,_,offered⟩,_⟩ := forward.only edge mem
    · cases old
    · exact forwardOwn rooted offered
  | dependents =>
    rw [asked] at ran
    simp only [CrateGraph.traverse,reduceCtorEq,if_true,if_false] at ran
    rw [← ran]
    have backward := backwardLevels selected rooted.listed arrangement depth backwardStart (startGraph ctx)
    rw [ownGrown rfl (grownStill _) backward (fun _ none => none.elim) (backwardAlike rooted.listed),SelectedOwn,
      backwardCondition rooted.listed (fun _ _ => False) (by simp)]
    simp
  | both =>
    rw [asked] at ran
    simp only [CrateGraph.traverse,reduceCtorEq,if_false] at ran
    rw [← ran]
    have backward := backwardLevels selected rooted.listed arrangement depth backwardStart
      (dependencyLevels index arrangement depth 1 [selected.id] (startGraph ctx))
    rw [ownGrown rfl forward backward (fun edge ⟨n,_,offered⟩ => forwardOwn rooted offered) (backwardAlike rooted.listed),SelectedOwn,
      backwardCondition rooted.listed (fun n row => ∃ other, ForwardRow index ctx.crateRow selected n other ∧
        (edgeOf other none (n + 1)).key = (edgeOf row none (n + 1)).key) fun n within row => ?_]
    · simp
    · constructor
      · rintro ⟨_,⟨m,_,other,forward,rfl⟩,same⟩
        have level : m + 1 = n + 1 := congrArg (·.2.2.2.2.2) same
        cases level
        exact ⟨other,forward,same⟩
      · rintro ⟨other,forward,same⟩
        exact ⟨_,⟨n,by omega,other,forward,rfl⟩,same⟩

/-- Three crates that depend on each other in a cycle. -/
def demoGraph : GraphIndex Str.toAsciiLowercase where
  crates := ⟨[⟨1,"app".toList⟩,⟨2,"lib".toList⟩,⟨3,"core".toList⟩],by decide +kernel⟩
  versions := [⟨10,1,"1.0.0".toList,none⟩,⟨20,2,"0.2.0".toList,none⟩,⟨30,3,"3.0.0".toList,none⟩]
  sourceFiles := []
  symbols := []
  types := []
  impls := []
  dependencyEdges := [⟨10,2,"^0.2".toList,"normal".toList,false⟩,⟨20,3,"^3".toList,"normal".toList,false⟩,
    ⟨30,1,"^1".toList,"dev".toList,true⟩]
  crateIds := by decide
  versionIds := by decide

def asListed : Arrangement := ⟨fun _ rows => rows,fun _ rows => List.Perm.refl rows⟩

def inOrder : Iteration := ⟨id,List.Perm.refl,fun _ => id,fun _ => List.Perm.refl⟩

def demoAnswer (request : CrateGraphRequest) : Reply CrateGraphResponse :=
  handleCrateGraph demoGraph asListed inOrder (fun _ => none) request

theorem dependencySliceCyclic : ∃ response, demoAnswer ⟨"app".toList,none,none,some 3⟩ = .ok response ∧
    response.nodes.map (fun node => (node.crateName,node.minDistance)) = [("app".toList,0),("lib".toList,1),("core".toList,2)] ∧
    ShortestPaths demoGraph response := by
  obtain ⟨response,answered,shape⟩ := okAny (p := fun response : CrateGraphResponse => response.direction = .dependencies &&
    response.nodes.map (fun node => (node.crateName,node.minDistance)) = [("app".toList,0),("lib".toList,1),("core".toList,2)])
    (show (demoAnswer ⟨"app".toList,none,none,some 3⟩).toOption.any _ = true by decide +kernel)
  rw [Bool.and_eq_true,decide_eq_true_eq,decide_eq_true_eq] at shape
  exact ⟨response,answered,shape.2,dependencySlice answered shape.1⟩

theorem versionsOwnNear : ∃ response, demoAnswer ⟨"core".toList,none,some .dependents,some 1⟩ = .ok response ∧
    ((∀ edge ∈ response.edges, NamesOwn demoGraph edge) ↔
      SelectedOwn demoGraph ⟨3,"core".toList⟩ ⟨30,3,"3.0.0".toList,none⟩ .dependents 1) := by
  obtain ⟨response,answered,_⟩ := okAny (p := fun _ => true)
    (show (demoAnswer ⟨"core".toList,none,some .dependents,some 1⟩).toOption.any _ = true by decide +kernel)
  have asked : Asked demoGraph (fun _ => none) ⟨"core".toList,none,some .dependents,some 1⟩
      ⟨⟨3,"core".toList⟩,⟨30,3,"3.0.0".toList,none⟩⟩ ⟨30,3,"3.0.0".toList,none⟩ :=
    ⟨⟨"core".toList,by decide +kernel,by decide +kernel⟩,by decide +kernel⟩
  exact ⟨response,answered,versionsOwn asked answered⟩

/-- An edge of the second level shows the selected version of the root as one of the crate between. -/
theorem dependentsForeign : ∃ response, demoAnswer ⟨"core".toList,none,some .dependents,some 2⟩ = .ok response ∧
    ∃ edge ∈ response.edges, edge.toCrate = "lib".toList ∧ edge.toVersion = some "3.0.0".toList ∧ ¬ NamesOwn demoGraph edge := by
  obtain ⟨response,answered,shape⟩ := okAny (p := fun response : CrateGraphResponse =>
    response.edges.any fun edge => edge.toCrate = "lib".toList && edge.toVersion = some "3.0.0".toList)
    (show (demoAnswer ⟨"core".toList,none,some .dependents,some 2⟩).toOption.any _ = true by decide +kernel)
  obtain ⟨edge,mem,both⟩ := List.any_eq_true.mp shape
  rw [Bool.and_eq_true,decide_eq_true_eq,decide_eq_true_eq] at both
  refine ⟨response,answered,edge,mem,both.1,both.2,fun own => ?_⟩
  have foreign : ¬ VersionOf demoGraph "lib".toList "3.0.0".toList := by
    unfold VersionOf
    decide +kernel
  exact foreign (both.1 ▸ own.right _ both.2)

end

/-! Cycles. -/

section
variable (iteration : Iteration) (edges : List CrateGraphEdge)

/-- The names that an edge leads to from a name. -/
def Leads (a b : Text) : Prop := ∃ edge ∈ edges, edge.fromCrate = a ∧ edge.toCrate = b

theorem leadsStep (a b : Text) : DepthFirst.Step (fun node => iteration.neighbors node (adjacency edges node)) a b ↔ Leads edges a b := by
  rw [DepthFirst.Step,(iteration.neighborsPerm _ _).mem_iff]
  simp only [adjacency,List.mem_dedup,List.mem_map,List.mem_filter,decide_eq_true_eq,Leads,and_assoc]

/-- The search ends, and finds whether the edges form a cycle. -/
theorem cycleFound : ∃ found, (∀ fuel, edges.length < fuel → detectCyclePresence iteration fuel edges = some found) ∧
    (found = true ↔ ∃ name, Relation.TransGen (Leads edges) name name) := by
  have steps : DepthFirst.Step (fun node => iteration.neighbors node (adjacency edges node)) = Leads edges := by
    funext a b
    exact propext (leadsStep iteration edges a b)
  have nodes := iteration.keysPerm (edges.map (·.fromCrate)).dedup
  have only : ∀ name, name ∉ iteration.keys (edges.map (·.fromCrate)).dedup →
      iteration.neighbors name (adjacency edges name) = [] := by
    intro name absent
    rw [nodes.mem_iff,List.mem_dedup,List.mem_map] at absent
    refine List.eq_nil_iff_forall_not_mem.mpr fun next leads => absent ?_
    obtain ⟨edge,mem,from_,_⟩ := (leadsStep iteration edges name next).mp leads
    exact ⟨edge,mem,from_⟩
  have few : (iteration.keys (edges.map (·.fromCrate)).dedup).length ≤ edges.length := by
    rw [nodes.length_eq]
    exact (List.dedup_sublist _).length_le.trans_eq (List.length_map _)
  classical
  refine ⟨decide (DepthFirst.Cyclic fun node => iteration.neighbors node (adjacency edges node)),fun fuel enough => ?_,?_⟩
  · obtain ⟨found,ran,exact_⟩ := DepthFirst.searchExact only (few.trans_lt enough)
    rw [detectCyclePresence,ran,Option.some.injEq,Bool.eq_iff_iff,exact_,decide_eq_true_iff]
  · rw [decide_eq_true_iff,DepthFirst.Cyclic,steps]

end
end RustMcp.GraphTraversal
