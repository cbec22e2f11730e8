import RustMcp.Ranking
import RustMcp.Utils

/-! The rustdoc sync: candidate versions of the index, their payloads from docs.rs or
a local directory, and the one ingestion that both go through. A sync reads the index
for its candidates only, so that what it does to the index is a list of writes. -/
namespace RustMcp.RustdocSync
open Str (Text)
open Utils

/-! Payloads. -/

structure Item where
  id : Nat
  name : Option Text
  kind : Text
  deriving DecidableEq

/-- A deserialized payload, with the fields that ingestion and the symbols are read from. -/
structure RustdocCrate where
  root : Nat
  crateVersion : Option Text
  index : List Item
  deriving DecidableEq

def RustdocCrate.item (krate : RustdocCrate) (id : Nat) : Option Item := krate.index.find? fun item => item.id = id

structure Symbol where
  name : Text
  kind : Text
  rustdocItemId : Nat

def symbolOf (item : Item) : Option Symbol :=
  match item.name with
  | none => none
  | some name =>
      if Str.trim name = [] then none
      else if ["module".toList,"use".toList,"extern_crate".toList].contains item.kind then none
      else some ⟨Str.trim name,item.kind,item.id⟩

def extractSymbols (krate : RustdocCrate) : List Symbol := krate.index.filterMap symbolOf

/-! Candidates. -/

/-- A row of `crate_versions`, with the name of its crate. -/
structure CrateVersion where
  id : Nat
  crateName : Text
  version : Text
  publishedAt : Option Nat
  locallyPresent : Bool
  rustdocEnrichedAt : Option Nat
  rustdocLastAttemptAt : Option Nat
  deriving DecidableEq

structure RustdocCandidateFilter where
  crateName : Option Text
  version : Option Text
  locallyPresentOnly : Bool
  skipEnriched : Bool
  retryCooldownSeconds : Option Nat

structure RustdocSyncCandidateRow where
  crateName : Text
  version : Text
  crateVersionId : Nat
  deriving DecidableEq

def CrateVersion.candidate (row : CrateVersion) : RustdocSyncCandidateRow := ⟨row.crateName,row.version,row.id⟩

section
variable (lower : Text → Text)

/-- Never attempted, or longer ago than the cooldown. -/
def retryDue (now : Nat) (cooldown : Option Nat) (lastAttempt : Option Nat) : Bool :=
  match lastAttempt with
  | none => true
  | some attempt => cooldown.any fun seconds => attempt + seconds < now

def eligible (now : Nat) (filter : RustdocCandidateFilter) (row : CrateVersion) : Bool :=
  filter.crateName.all (fun name => lower row.crateName = lower name) &&
  filter.version.all (fun version => row.version = version) &&
  (!filter.locallyPresentOnly || row.locallyPresent) &&
  (!filter.skipEnriched ||
    (row.rustdocEnrichedAt.isNone && retryDue now filter.retryCooldownSeconds row.rustdocLastAttemptAt))

/-- `published_at DESC NULLS LAST, id DESC` -/
def newestPublished (row : CrateVersion) : Bool ×ₗ Natᵒᵈ ×ₗ Natᵒᵈ :=
  toLex (row.publishedAt.isNone,toLex (OrderDual.toDual (row.publishedAt.getD 0),OrderDual.toDual row.id))

def fetchRustdocSyncCandidates (now : Nat) (filter : RustdocCandidateFilter) (limit offset : Nat)
    (rows : List CrateVersion) : List CrateVersion :=
  ((Ranking.sortBy newestPublished (rows.filter (eligible lower now filter))).drop offset).take limit

/-- Newest release first; what does not parse comes before all, by name. -/
def newestFirst {V : Type} [LinearOrder V] (parse : Text → Option V) (name version : Text) :
    Bool ×ₗ Text ×ₗ (WithBot V)ᵒᵈ :=
  toLex ((parse version).isSome,toLex (if (parse version).isSome then [] else name,OrderDual.toDual (parse version)))

end

/-! The local directory. -/

/-- A file under the root, by the components of its relative path. -/
structure LocalFile where
  path : List Text
  /-- `read_local_rustdoc_file` -/
  content : Except Text Text

def LocalFile.name (file : LocalFile) : Text := file.path.getLastD []

inductive LocalDir where
  | unset
  | missing (root : Text)
  | unreadable (error : Text)
  | files (files : List LocalFile)

structure RustdocCandidate where
  file : LocalFile
  crateName : Text
  crateVersion : Option Text

def isRustdocJsonFile (name : Text) : Bool :=
  (Str.stripSuffix ".json".toList (Str.toAsciiLowercase name)).isSome ||
    (Str.stripSuffix ".json.zst".toList (Str.toAsciiLowercase name)).isSome

def rustdocLogicalStem (name : Text) : Option Text :=
  (Str.stripSuffix ".json.zst".toList name).or (Str.stripSuffix ".json".toList name)

section
variable (parses : Text → Bool)

/-- The first cut of the segments after which `version` reads a version, and before which there is a name. -/
def cutAt (sep : Text) (segments : List Text) (version : Nat → Text) : Option (Text × Text) :=
  (List.range' 1 (segments.length - 1)).findSome? fun i =>
    if parses ((version i).dropWhile (· = 'v')) then
      if Str.join sep (segments.take i) = [] then none else some (Str.join sep (segments.take i),version i)
    else none

def crateFromStem (stem : Text) : Text × Option Text :=
  let normalized := Str.trim stem
  if normalized = [] then ([],none)
  else
    let dashed := Str.split "-".toList normalized
    let underscored := Str.split "_".toList normalized
    match cutAt parses "-".toList dashed fun i => Str.join "-".toList (dashed.drop i) with
    | some (name,version) => (name,some version)
    | none =>
        match cutAt parses "_".toList underscored fun i => underscored.getD i [] with
        | some (name,version) => (name,some version)
        | none => (normalized,none)

def localCandidate (crateFilter : Option Text) (file : LocalFile) : Option RustdocCandidate :=
  (rustdocLogicalStem file.name).bind fun stem =>
    let (name,version) := crateFromStem parses stem
    if name = [] then none
    else if crateFilter.any fun filter => name ≠ filter then none
    else some ⟨file,name,version⟩

def localCandidates (crateFilter : Option Text) (files : List LocalFile) : List RustdocCandidate :=
  Ranking.sortBy (fun c : RustdocCandidate => c.file.path)
    ((Ranking.sortBy LocalFile.path (files.filter fun file => isRustdocJsonFile file.name)).filterMap
      (localCandidate parses crateFilter))

/-- The file named for the version, or else one whose name has no version. -/
def chooseLocal (candidate : RustdocSyncCandidateRow) (locals : List RustdocCandidate) : Option RustdocCandidate :=
  (locals.find? fun c => c.crateName = candidate.crateName && c.crateVersion = some candidate.version).or
    (locals.find? fun c => c.crateName = candidate.crateName && c.crateVersion.isNone)

end

/-! Ingestion. -/

/-- What a sync meets outside the index: docs.rs, the local directory, the packages that read
payloads and versions, and the outcome of each statement. -/
structure Env (V B : Type) where
  parseVersion : Text → Option V
  fetchRustdocJson : Text → Text → Except Text B
  decodePayload : B → Except Text Text
  /-- `serde_json`, also on a payload patched from an older format -/
  parseCrate : Text → Except Text RustdocCrate
  localDir : LocalDir
  /-- the source file and the rows of one ingestion, by version id and source path -/
  store : Nat → Text → Except Text Unit
  mark : Nat → Bool

inductive Write where
  | replaceRows (crateVersionId : Nat) (krate : RustdocCrate)
  | markEnriched (crateVersionId : Nat)
  | markAttempted (crateVersionId : Nat)
  deriving DecidableEq

structure RustdocJsonRefreshOutcome where
  scannedFiles : Nat
  syncedVersions : Nat
  symbolsWritten : Nat
  touchedVersions : List Text
  errors : List Text

structure Pass where
  writes : List Write
  outcome : RustdocJsonRefreshOutcome

def atVersion (candidate : RustdocSyncCandidateRow) : Text := candidate.crateName ++ "@".toList ++ candidate.version

def resolvedCrateName (candidate : RustdocSyncCandidateRow) (krate : RustdocCrate) : Text :=
  match (((krate.item krate.root).bind Item.name).map Str.trim).filter (· ≠ []) with
  | some name => name.map fun c => if c = '_' then '-' else c
  | none => candidate.crateName

def rustdocSourcePathPrefix : Text := "rustdoc-json/".toList

def docsRsRustdocSyntheticPath (candidate : RustdocSyncCandidateRow) : Text :=
  rustdocSourcePathPrefix ++ "docs.rs/".toList ++ candidate.crateName ++ "-".toList ++ candidate.version ++ ".json".toList

def syntheticRustdocPath (file : LocalFile) : Text := rustdocSourcePathPrefix ++ Str.join "/".toList file.path

section
variable {V B : Type} (env : Env V B)

def ingestRustdocJsonDocument (candidate : RustdocSyncCandidateRow) (sourcePath content : Text) : Except Text RustdocCrate :=
  match env.parseCrate content with
  | .error message =>
      .error ("failed to parse rustdoc JSON payload for ".toList ++ atVersion candidate ++ " from ".toList ++ sourcePath ++
        ": ".toList ++ message)
  | .ok krate =>
      if resolvedCrateName candidate krate ≠ candidate.crateName then
        .error ("rustdoc JSON crate mismatch for ".toList ++ atVersion candidate ++ " from ".toList ++ sourcePath ++
          ": payload resolved to crate '".toList ++ resolvedCrateName candidate krate ++ "'".toList)
      else
        match env.store candidate.crateVersionId sourcePath with
        | .error message => .error message
        | .ok () => .ok krate

def ingestDocsRs (candidate : RustdocSyncCandidateRow) : Except Text RustdocCrate :=
  match env.fetchRustdocJson candidate.crateName candidate.version with
  | .error error => .error error
  | .ok bytes =>
      match env.decodePayload bytes with
      | .error error =>
          .error ("docs.rs rustdoc JSON payload for ".toList ++ atVersion candidate ++ " could not be decoded: ".toList ++ error)
      | .ok payload => ingestRustdocJsonDocument env candidate (docsRsRustdocSyntheticPath candidate) payload

def ingestLocal (crateFilter : Option Text) (candidate : RustdocSyncCandidateRow) : Except Text RustdocCrate :=
  match env.localDir with
  | .unset => .error "local rustdoc fallback unavailable: RUSTDOC_JSON_DIR is not configured".toList
  | .missing root => .error ("local rustdoc fallback unavailable: rustdoc JSON directory not found: ".toList ++ root)
  | .unreadable error => .error ("local rustdoc fallback unavailable: ".toList ++ error)
  | .files files =>
      match chooseLocal candidate (localCandidates (fun text => (env.parseVersion text).isSome) crateFilter files) with
      | none => .error ("no local rustdoc JSON file found for ".toList ++ atVersion candidate)
      | some found =>
          match found.file.content with
          | .error error => .error error
          | .ok payload => ingestRustdocJsonDocument env candidate (syntheticRustdocPath found.file) payload

end

/-! Errors. -/

def diagnosticHintForSyncError (error : Text) : Option Text :=
  ([("RUSTDOC_JSON_DIR is not configured","set RUSTDOC_JSON_DIR to enable local rustdoc fallback"),
    ("rustdoc JSON directory not found","verify RUSTDOC_JSON_DIR points to an existing directory"),
    ("payload format_version=","re-generate rustdoc JSON with a compatible nightly / rustdoc-types format"),
    ("crate mismatch","ensure rustdoc file name and payload crate match the indexed crate version"),
    ("could not be decoded","confirm docs.rs payload is gzip/zstd-compressed rustdoc JSON"),
    ("invalid UTF-8","ensure local fallback files are UTF-8 JSON documents"),
    ("no local rustdoc JSON file found","add a matching <crate>-<version>.json file in RUSTDOC_JSON_DIR")].find? fun hint =>
      Str.contains hint.1.toList error).map fun hint => hint.2.toList

def formatAttempt (attempt : Nat) (error : Text) : Text :=
  " | attempt #".toList ++ Nat.toDigits 10 attempt ++ ": ".toList ++ error ++
    ((diagnosticHintForSyncError error).elim [] fun hint => " (hint: ".toList ++ hint ++ ")".toList)

def formatCandidateSyncFailure (candidate : RustdocSyncCandidateRow) (sourceErrors : List Text) : Text :=
  "rustdoc JSON sync failed for ".toList ++ atVersion candidate ++
    (sourceErrors.mapIdx fun index error => formatAttempt (index + 1) error).flatten

/-! The sync. -/

section
variable {V B : Type} (env : Env V B)

def Pass.ingested (pass : Pass) (candidate : RustdocSyncCandidateRow) (krate : RustdocCrate) : Pass where
  writes := pass.writes ++ [.replaceRows candidate.crateVersionId krate] ++
    if env.mark candidate.crateVersionId then [.markEnriched candidate.crateVersionId] else []
  outcome := {pass.outcome with
    scannedFiles := pass.outcome.scannedFiles + 1,
    syncedVersions := pass.outcome.syncedVersions + 1,
    symbolsWritten := pass.outcome.symbolsWritten + (extractSymbols krate).length,
    touchedVersions := pass.outcome.touchedVersions ++ [atVersion candidate]}

def Pass.failed (pass : Pass) (candidate : RustdocSyncCandidateRow) (sourceErrors : List Text) : Pass where
  writes := pass.writes ++ if env.mark candidate.crateVersionId then [.markAttempted candidate.crateVersionId] else []
  outcome := {pass.outcome with
    scannedFiles := pass.outcome.scannedFiles + 1,
    errors := pass.outcome.errors ++ [formatCandidateSyncFailure candidate sourceErrors]}

def syncCandidate (crateFilter : Option Text) (pass : Pass) (candidate : RustdocSyncCandidateRow) : Pass :=
  match ingestDocsRs env candidate with
  | .ok krate => pass.ingested env candidate krate
  | .error docsError =>
      match ingestLocal env crateFilter candidate with
      | .ok krate => pass.ingested env candidate krate
      | .error localError => pass.failed env candidate [docsError,localError]

def noPass : Pass := ⟨[],⟨0,0,0,[],[]⟩⟩

def syncCandidates (crateFilter : Option Text) (candidates : List RustdocSyncCandidateRow) : Pass :=
  candidates.foldl (syncCandidate env crateFilter) noPass

def sortTouched (pass : Pass) : Pass :=
  {pass with outcome := {pass.outcome with
    touchedVersions := (Ranking.sortBy id pass.outcome.touchedVersions).destutter (· ≠ ·)}}

variable [LinearOrder V] (lower : Text → Text)

/-- The candidates of one page, newest release first. -/
def pageCandidates (now : Nat) (filter : RustdocCandidateFilter) (page perPage : Option Nat) (rows : List CrateVersion) :
    List RustdocSyncCandidateRow :=
  Ranking.sortBy (fun c => newestFirst env.parseVersion c.crateName c.version)
    ((fetchRustdocSyncCandidates lower now filter (syncPerPage perPage)
      (min ((syncPage page - 1) * syncPerPage perPage) (2 ^ 32 - 1)) rows).map CrateVersion.candidate)

def syncRustdocJsonCache (now : Nat) (filter : RustdocCandidateFilter) (page perPage : Option Nat)
    (rows : List CrateVersion) : Except Text Pass := do
  let crateFilter ← filter.crateName.mapM fun name => normalizeRequired name "crate_name".toList
  let candidates := pageCandidates env lower now {filter with crateName := crateFilter} page perPage rows
  return sortTouched (syncCandidates env crateFilter candidates)

end

/-! The index after a sync. -/

/-- The `rustdoc_json` rows of a version, by the payload that they were extracted from. -/
abbrev RustdocRows := Nat → Option RustdocCrate

def applyWrite (rows : RustdocRows) : Write → RustdocRows
  | .replaceRows id krate => Function.update rows id (some krate)
  | .markEnriched _ | .markAttempted _ => rows

def applyWrites (rows : RustdocRows) (writes : List Write) : RustdocRows := writes.foldl applyWrite rows

def hasRustdocSymbols (rows : RustdocRows) (crateVersionId : Nat) : Bool :=
  (rows crateVersionId).any fun krate => extractSymbols krate ≠ []

/-! What a sync writes, candidate by candidate. -/

section
variable {V B : Type} {env : Env V B} {crateFilter : Option Text}

/-- The payload that is ingested: that of docs.rs, or else the local one. -/
def taken (env : Env V B) (crateFilter : Option Text) (candidate : RustdocSyncCandidateRow) : Option RustdocCrate :=
  (ingestDocsRs env candidate).toOption.or (ingestLocal env crateFilter candidate).toOption

def candidateWrites (env : Env V B) (crateFilter : Option Text) (candidate : RustdocSyncCandidateRow) : List Write :=
  match taken env crateFilter candidate with
  | some krate =>
      .replaceRows candidate.crateVersionId krate ::
        if env.mark candidate.crateVersionId then [.markEnriched candidate.crateVersionId] else []
  | none => if env.mark candidate.crateVersionId then [.markAttempted candidate.crateVersionId] else []

theorem syncCandidateWrites (pass : Pass) (candidate : RustdocSyncCandidateRow) :
    (syncCandidate env crateFilter pass candidate).writes = pass.writes ++ candidateWrites env crateFilter candidate := by
  unfold syncCandidate candidateWrites taken
  cases ingestDocsRs env candidate with
  | ok krate => simp [Pass.ingested,Except.toOption]
  | error docsError =>
    cases ingestLocal env crateFilter candidate with
    | ok krate => simp [Pass.ingested,Except.toOption]
    | error localError => simp [Pass.failed,Except.toOption]

theorem syncWrites (candidates : List RustdocSyncCandidateRow) :
    (syncCandidates env crateFilter candidates).writes = candidates.flatMap (candidateWrites env crateFilter) := by
  induction candidates using List.reverseRecOn with
  | nil => rfl
  | append_singleton candidates candidate ih =>
    simp only [syncCandidates,List.foldl_append,List.foldl_cons,List.foldl_nil] at ih ⊢
    rw [syncCandidateWrites,ih]
    simp

theorem candidateReplaced {candidate : RustdocSyncCandidateRow} {id : Nat} {krate : RustdocCrate} :
    .replaceRows id krate ∈ candidateWrites env crateFilter candidate ↔
      candidate.crateVersionId = id ∧ taken env crateFilter candidate = some krate := by
  unfold candidateWrites
  cases taken env crateFilter candidate with
  | none => cases env.mark candidate.crateVersionId <;> simp
  | some found => cases env.mark candidate.crateVersionId <;> simp [eq_comm]

theorem candidateEnriched {candidate : RustdocSyncCandidateRow} {id : Nat} :
    .markEnriched id ∈ candidateWrites env crateFilter candidate ↔
      candidate.crateVersionId = id ∧ env.mark candidate.crateVersionId = true ∧
        ∃ krate, taken env crateFilter candidate = some krate := by
  unfold candidateWrites
  cases taken env crateFilter candidate with
  | none => cases env.mark candidate.crateVersionId <;> simp
  | some found => cases env.mark candidate.crateVersionId <;> simp [eq_comm]

theorem ingestedName {candidate : RustdocSyncCandidateRow} {sourcePath content : Text} {krate : RustdocCrate}
    (h : ingestRustdocJsonDocument env candidate sourcePath content = .ok krate) :
    resolvedCrateName candidate krate = candidate.crateName := by
  unfold ingestRustdocJsonDocument at h
  split at h <;> try contradiction
  split at h <;> try contradiction
  rename_i same
  split at h <;> try contradiction
  cases Except.ok.inj h
  exact not_not.mp same

/-- Whatever is ingested resolves to the candidate's crate. -/
theorem takenName {crateFilter : Option Text} {candidate : RustdocSyncCandidateRow} {krate : RustdocCrate}
    (took : taken env crateFilter candidate = some krate) : resolvedCrateName candidate krate = candidate.crateName := by
  unfold taken at took
  cases docs : ingestDocsRs env candidate with
  | ok found =>
    rw [docs] at took
    cases Option.some.inj took
    unfold ingestDocsRs at docs
    split at docs <;> try contradiction
    split at docs <;> try contradiction
    exact ingestedName docs
  | error =>
    rw [docs] at took
    cases local_ : ingestLocal env crateFilter candidate with
    | error => rw [local_] at took; contradiction
    | ok found =>
      rw [local_] at took
      cases Option.some.inj took
      unfold ingestLocal at local_
      split at local_ <;> try contradiction
      split at local_ <;> try contradiction
      split at local_ <;> try contradiction
      exact ingestedName local_

/-! The rows after the writes. -/

theorem applyWritesAt (before : RustdocRows) (writes : List Write) (id : Nat) :
    (∀ krate, .replaceRows id krate ∉ writes) ∧ applyWrites before writes id = before id ∨
    ∃ krate, .replaceRows id krate ∈ writes ∧ applyWrites before writes id = some krate := by
  induction writes using List.reverseRecOn with
  | nil => exact Or.inl ⟨by simp,rfl⟩
  | append_singleton writes write ih =>
    have last : applyWrites before (writes ++ [write]) = applyWrite (applyWrites before writes) write := by simp [applyWrites]
    rw [last]
    cases write with
    | replaceRows id' krate =>
      by_cases same : id = id'
      · subst same
        exact Or.inr ⟨krate,by simp,by simp [applyWrite]⟩
      · have kept : applyWrite (applyWrites before writes) (.replaceRows id' krate) id = applyWrites before writes id := by
          simp [applyWrite,same]
        rw [kept]
        refine ih.imp (fun h => ⟨fun k mem => ?_,h.2⟩) fun ⟨k,mem,h⟩ => ⟨k,List.mem_append_left _ mem,h⟩
        rcases List.mem_append.mp mem with old | new
        · exact h.1 k old
        · simp [same] at new
    | markEnriched id' | markAttempted id' =>
      refine ih.imp (fun h => ⟨fun k mem => ?_,h.2⟩) fun ⟨k,mem,h⟩ => ⟨k,List.mem_append_left _ mem,h⟩
      rcases List.mem_append.mp mem with old | new
      · exact h.1 k old
      · simp at new

end

end RustMcp.RustdocSync
