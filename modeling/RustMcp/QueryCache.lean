import RustMcp.JsonText
import RustMcp.Keyed
import RustMcp.Like
import RustMcp.Utils

/-! Cached tool results. A key is the serialized request of the tool, with the
crate name as the caller typed it; the entries of a crate are deleted by a pattern
over these keys. -/
namespace RustMcp.QueryCache
open Str (Text)
open JsonText Utils

structure CacheRow (V : Type) where
  key : Text
  value : V
  source : Text
  createdAt : Nat
  expiresAt : Nat

abbrev Cache (V : Type) := Keyed.Table (CacheRow.key (V := V))

section
variable {V : Type}

def fetchQueryCacheValue (now : Nat) (key source : Text) (cache : Cache V) : Option V :=
  (cache.rows.find? fun row => row.key = key && row.source = source && now < row.expiresAt).map CacheRow.value

def cratePattern (crateName : Text) : Text := "%\"crate_name\":\"".toList ++ crateName ++ "\"%".toList

def deleteQueryCacheForCrate (crateName : Text) (cache : Cache V) : Cache V :=
  cache.delete fun row => Like.like (cratePattern crateName) row.key

def upsertQueryCacheValue (now : Nat) (key source : Text) (value : V) (ttlSeconds : Int) (cache : Cache V) : Cache V :=
  cache.upsert ⟨key,value,source,now,now + (max ttlSeconds 1).toNat⟩

end

/-! The requests that are cached, and their keys. -/

inductive SourceSearchMode where
  | text
  | regex
  deriving DecidableEq

def SourceSearchMode.name : SourceSearchMode → Text
  | .text => "text".toList
  | .regex => "regex".toList

inductive CrateSearchSort where
  | relevance
  | downloads
  | recent
  deriving DecidableEq

def CrateSearchSort.name : CrateSearchSort → Text
  | .relevance => "relevance".toList
  | .downloads => "downloads".toList
  | .recent => "recent".toList

structure SourceSearchRequest where
  query : Text
  crateName : Option Text
  version : Option Text
  pathGlob : Option Text
  mode : Option SourceSearchMode
  cursor : Option Text
  page : Option Nat
  limit : Option Nat
  deriving DecidableEq

structure SymbolSearchRequest where
  query : Text
  crateName : Option Text
  version : Option Text
  kind : Option Text
  includeAllVersions : Option Bool
  collapseByCanonical : Option Bool
  cursor : Option Text
  page : Option Nat
  limit : Option Nat
  deriving DecidableEq

structure DocsSearchRequest where
  query : Text
  crateName : Option Text
  version : Option Text
  pathPrefix : Option Text
  cursor : Option Text
  page : Option Nat
  limit : Option Nat
  deriving DecidableEq

structure CrateSearchRequest where
  query : Option Text
  category : Option Text
  keyword : Option Text
  sort : Option CrateSearchSort
  cursor : Option Text
  page : Option Nat
  limit : Option Nat
  deriving DecidableEq

structure DocsCursorToken where
  position : CursorToken
  query : Text
  crateName : Option Text
  version : Option Text
  pathPrefix : Option Text

inductive ToolRequest where
  | sourceSearch (request : SourceSearchRequest)
  | symbolSearch (request : SymbolSearchRequest)
  | docsSearch (request : DocsSearchRequest)
  | crateSearch (request : CrateSearchRequest)
  deriving DecidableEq

def ToolRequest.source : ToolRequest → Text
  | .sourceSearch _ => "source_search".toList
  | .symbolSearch _ => "symbol_search".toList
  | .docsSearch _ => "docs_search".toList
  | .crateSearch _ => "crate_search".toList

/-- The crate that the caller named. -/
def ToolRequest.crateName : ToolRequest → Option Text
  | .sourceSearch request => request.crateName
  | .symbolSearch request => request.crateName
  | .docsSearch request => request.crateName
  | .crateSearch _ => none

def SourceSearchRequest.keyFields (request : SourceSearchRequest) : Except Text (List Field) := do
  let query ← normalizeRequired request.query "query".toList
  return [("query".toList,.text query),
    ("crate_name".toList,.optional (normalizeOptional request.crateName)),
    ("version".toList,.optional (normalizeOptional request.version)),
    ("path_glob".toList,.optional (normalizeOptional request.pathGlob)),
    ("mode".toList,.text (request.mode.getD .text).name),
    ("cursor".toList,.optional (normalizeOptional request.cursor)),
    ("page".toList,.number (syncPage request.page)),
    ("limit".toList,.number (sourceSearchLimit request.limit))]

def SymbolSearchRequest.keyFields (request : SymbolSearchRequest) : Except Text (List Field) := do
  let query ← normalizeRequired request.query "query".toList
  return [("query".toList,.text query),
    ("crate_name".toList,.optional (normalizeOptional request.crateName)),
    ("version".toList,.optional (normalizeOptional request.version)),
    ("kind".toList,.optional (normalizeOptional request.kind)),
    ("include_all_versions".toList,.bool (request.includeAllVersions.getD false)),
    ("collapse_by_canonical".toList,.bool (request.collapseByCanonical.getD false)),
    ("cursor".toList,.optional (normalizeOptional request.cursor)),
    ("page".toList,.number (syncPage request.page)),
    ("limit".toList,.number (symbolSearchLimit request.limit))]

/-- The cursor is decoded before the key is built, whose limit is the cursor's. -/
def DocsSearchRequest.keyFields (decodeCursor : Text → Except Text DocsCursorToken) (request : DocsSearchRequest) :
    Except Text (List Field) := do
  let query ← normalizeRequired request.query "query".toList
  let crateName := normalizeOptional request.crateName
  let version := normalizeOptional request.version
  let pathPrefix := normalizeOptional request.pathPrefix
  let cursor := normalizeOptional request.cursor
  let page := syncPage request.page
  let decoded ← cursor.mapM decodeCursor
  if decoded.any fun token => token.query ≠ query || token.crateName ≠ crateName || token.version ≠ version ||
      token.pathPrefix ≠ pathPrefix then
    .error "cursor does not match current docs_search filters".toList
  else
    let pagination ← resolvePagination (decoded.map DocsCursorToken.position) request.limit.isSome
      (docsSearchLimit request.limit) page
    return [("query".toList,.text query),
      ("crate_name".toList,.optional crateName),
      ("version".toList,.optional version),
      ("path_prefix".toList,.optional pathPrefix),
      ("cursor".toList,.optional cursor),
      ("page".toList,.number page),
      ("limit".toList,.number pagination.limit)]

def CrateSearchRequest.keyFields (request : CrateSearchRequest) : List Field :=
  let query := normalizeOptional request.query
  let sort := request.sort.getD (if query.isSome then .relevance else .downloads)
  [("query".toList,.optional query),
    ("category".toList,.optional (normalizeOptional request.category)),
    ("keyword".toList,.optional (normalizeOptional request.keyword)),
    ("sort".toList,.text sort.name),
    ("cursor".toList,.optional (normalizeOptional request.cursor)),
    ("page".toList,.number (syncPage request.page)),
    ("limit".toList,.number (searchLimit request.limit))]

def ToolRequest.keyFields (decodeCursor : Text → Except Text DocsCursorToken) : ToolRequest → Except Text (List Field)
  | .sourceSearch request => request.keyFields
  | .symbolSearch request => request.keyFields
  | .docsSearch request => request.keyFields decodeCursor
  | .crateSearch request => pure request.keyFields

def ToolRequest.cacheKey (decodeCursor : Text → Except Text DocsCursorToken) (request : ToolRequest) : Except Text Text :=
  object <$> request.keyFields decodeCursor

end RustMcp.QueryCache
