import RustMcp.Keyed
import RustMcp.RustdocSync
import RustMcp.Semver

/-! Which version's documentation a sync stores for a version. Ingestion compares the
name of the payload's crate with the candidate's, and nothing compares its version. -/
namespace RustMcp.Provenance
open Str (Text)
open RustdocSync Utils

section
variable {V B : Type} [LinearOrder V] {env : Env V B} {lower : Text → Text} {now : Nat} {filter : RustdocCandidateFilter}
variable {page perPage : Option Nat}

/-- The payload's own version, when present, is this one. -/
def OfVersion (version : Text) (krate : RustdocCrate) : Prop := ∀ own, krate.crateVersion = some own → own = version

/-- The payload is the crate's, and of this version. -/
def GeneratedFor (row : CrateVersion) (krate : RustdocCrate) : Prop :=
  resolvedCrateName row.candidate krate = row.crateName ∧ OfVersion row.version krate

def trimmed (filter : RustdocCandidateFilter) : RustdocCandidateFilter :=
  {filter with crateName := filter.crateName.map Str.trim}

theorem requiredName {name : Option Text} {normal : Option Text}
    (h : (name.mapM fun name => normalizeRequired name "crate_name".toList) = .ok normal) : normal = name.map Str.trim := by
  cases name with
  | none => exact (Except.ok.inj h).symm
  | some name =>
    simp only [Option.mapM,normalizeRequired] at h
    split at h
    · contradiction
    · exact (Except.ok.inj h).symm

theorem syncOk {rows : List CrateVersion} {pass : Pass}
    (done : syncRustdocJsonCache env lower now filter page perPage rows = .ok pass) :
    pass.writes = (pageCandidates env lower now (trimmed filter) page perPage rows).flatMap
      (candidateWrites env (filter.crateName.map Str.trim)) := by
  unfold syncRustdocJsonCache at done
  cases normal : filter.crateName.mapM fun name => normalizeRequired name "crate_name".toList with
  | error => rw [normal] at done; contradiction
  | ok crateFilter =>
    rw [normal] at done
    cases requiredName normal
    cases Except.ok.inj done
    exact syncWrites _

theorem memFetched {rows : List CrateVersion} {row : CrateVersion} {limit offset : Nat}
    (mem : row ∈ fetchRustdocSyncCandidates lower now filter limit offset rows) : row ∈ rows ∧ eligible lower now filter row = true :=
  List.mem_filter.mp (Ranking.memSortBy.mp (List.mem_of_mem_drop (List.mem_of_mem_take mem)))

theorem memPage {rows : List CrateVersion} {candidate : RustdocSyncCandidateRow} :
    candidate ∈ pageCandidates env lower now filter page perPage rows ↔
      ∃ row ∈ fetchRustdocSyncCandidates lower now filter (syncPerPage perPage)
        (min ((syncPage page - 1) * syncPerPage perPage) (2 ^ 32 - 1)) rows, row.candidate = candidate := by
  unfold pageCandidates
  rw [Ranking.memSortBy,List.mem_map]

theorem candidateAt {versions : Keyed.Table CrateVersion.id} {row : CrateVersion} (mem : row ∈ versions.rows)
    {candidate : RustdocSyncCandidateRow} (there : candidate ∈ pageCandidates env lower now filter page perPage versions.rows)
    (same : candidate.crateVersionId = row.id) : candidate = row.candidate := by
  obtain ⟨other,inside,rfl⟩ := memPage.mp there
  rw [List.inj_on_of_nodup_map versions.unique (memFetched inside).1 mem same]

theorem replacedAt {versions : Keyed.Table CrateVersion.id} {row : CrateVersion} (mem : row ∈ versions.rows)
    {pass : Pass} (done : syncRustdocJsonCache env lower now filter page perPage versions.rows = .ok pass) {krate : RustdocCrate} :
    .replaceRows row.id krate ∈ pass.writes ↔
      row.candidate ∈ pageCandidates env lower now (trimmed filter) page perPage versions.rows ∧
        taken env (filter.crateName.map Str.trim) row.candidate = some krate := by
  rw [syncOk done,List.mem_flatMap]
  constructor
  · rintro ⟨candidate,there,written⟩
    obtain ⟨same,took⟩ := candidateReplaced.mp written
    cases candidateAt mem there same
    exact ⟨there,took⟩
  · rintro ⟨there,took⟩
    exact ⟨row.candidate,there,candidateReplaced.mpr ⟨rfl,took⟩⟩

theorem enrichedAt {versions : Keyed.Table CrateVersion.id} {row : CrateVersion} (mem : row ∈ versions.rows)
    {pass : Pass} (done : syncRustdocJsonCache env lower now filter page perPage versions.rows = .ok pass) :
    .markEnriched row.id ∈ pass.writes ↔ env.mark row.id = true ∧ ∃ krate, .replaceRows row.id krate ∈ pass.writes := by
  simp only [replacedAt mem done]
  rw [syncOk done,List.mem_flatMap]
  constructor
  · rintro ⟨candidate,there,written⟩
    obtain ⟨same,marked,krate,took⟩ := candidateEnriched.mp written
    cases candidateAt mem there same
    exact ⟨marked,krate,there,took⟩
  · rintro ⟨marked,krate,there,took⟩
    exact ⟨row.candidate,there,candidateEnriched.mpr ⟨rfl,marked,krate,took⟩⟩

end

def payload (version : Text) : Text :=
  "\x7b\"root\":0,\"crate_version\":\"".toList ++ version ++ "\",\"index\":\x7b\"0\":\x7b\"name\":\"foo\",\"inner\":\x7b\"module\":\x7b\x7d\x7d\x7d\x7d\x7d".toList

def fooCrate (version : Text) : RustdocCrate := ⟨0,some version,[⟨0,some "foo".toList,"module".toList⟩]⟩

def readPayload (content : Text) : Except Text RustdocCrate :=
  if content = payload "1.0.0".toList then .ok (fooCrate "1.0.0".toList)
  else if content = payload "2.0.0".toList then .ok (fooCrate "2.0.0".toList)
  else .error "expected value at line 1 column 1".toList

def served : Env Semver.Release Text where
  parseVersion := Semver.release
  fetchRustdocJson := fun _ version => .ok (payload version)
  decodePayload := .ok
  parseCrate := readPayload
  localDir := .unset
  store := fun _ _ => .ok ()
  mark := fun _ => true

/-- docs.rs has nothing, and the local directory holds what was generated for another version. -/
def onlyLocal : Env Semver.Release Text where
  parseVersion := Semver.release
  fetchRustdocJson := fun _ _ => .error "docs.rs rustdoc JSON request failed for foo@1.0.0 with status 404".toList
  decodePayload := .ok
  parseCrate := readPayload
  localDir := .files [⟨["foo.json".toList],.ok (payload "2.0.0".toList)⟩]
  store := fun _ _ => .ok ()
  mark := fun _ => true

def foo : Keyed.Table CrateVersion.id := ⟨[⟨7,"foo".toList,"1.0.0".toList,some 5,true,none,none⟩],by decide⟩

def allVersions : RustdocCandidateFilter := ⟨none,none,false,true,none⟩

end RustMcp.Provenance
