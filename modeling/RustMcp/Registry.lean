import RustMcp.Keyed
import RustMcp.RefreshQueue
import RustMcp.Semver

/-! The cargo registry on disk, and the two tasks that read it for refresh jobs:
the discovery scan of `src` and the watcher of `cache`. Names that are not UTF-8
are parsed by neither and left out, as are directories that cannot be read. -/
namespace RustMcp.Registry
open Str (Text)
open RefreshQueue

structure Entry where
  name : Text
  isDir : Bool

structure SrcDir where
  isDir : Bool
  entries : List Entry

/-- One directory of `cache`; `mtime` is `none` where the metadata cannot be read. -/
structure CacheDir where
  path : Text
  isDir : Bool
  mtime : Option Nat
  files : List Text

structure CargoRegistry where
  /-- `none` where there is no `src` directory -/
  src : Option (List SrcDir)
  cache : List CacheDir

/-- The payload of a job, with the field that crate-scope jobs read. -/
structure RefreshJobPayload where
  localVersions : Option (List Text)
  deriving DecidableEq

def priorityCacheWatch : Int := 20
def priorityPreWarm : Int := 25
def priorityDiscovery : Int := 50
def priorityProactiveEnrich : Int := 75

def crateRequest (crateName : Text) (priority : Int) (localVersions : List Text) : Request RefreshJobPayload :=
  ⟨crateName,"crate".toList,priority,false,⟨some localVersions⟩⟩

section
variable (parses : Text → Bool)

/-- `parses` is `semver::Version::parse(..).is_ok()`; the split points are tried from the right. -/
def parseRegistryDirName (dirName : Text) : Option (Text × Text) :=
  (List.range' 1 (dirName.length - 1)).reverse.findSome? fun i =>
    if dirName[i - 1]? = some '-' then
      let potentialName := dirName.take (i - 1)
      let potentialVersion := dirName.drop i
      -- a split inside build metadata leaves these in the name
      if potentialName.contains '.' || potentialName.contains '+' then none
      else if parses potentialVersion then some (potentialName,potentialVersion)
      else none
    else none

/-- The directories `{registry}/{name}-{version}`, parsed. -/
def crateDirs (src : List SrcDir) : List (Text × Text) :=
  (src.filter SrcDir.isDir).flatMap fun registry =>
    (registry.entries.filter Entry.isDir).filterMap fun entry => parseRegistryDirName parses entry.name

def pushVersion (versions : Option (List Text)) (dir : Text × Text) : Option (List Text) :=
  some (versions.getD [] ++ [dir.2])

def collectCrateVersionsFromRegistry (src : Option (List SrcDir)) : Option (Keyed.Map Text (List Text)) :=
  src.map fun dirs => Keyed.collect Prod.fst pushVersion (crateDirs parses dirs)

def collectLocalVersionsForCrate (src : Option (List SrcDir)) (crateName : Text) : List Text :=
  ((crateDirs parses (src.getD [])).filter fun dir => dir.1 = crateName).map Prod.snd

/-! The discovery scan. -/

structure Config where
  preWarmCrates : Text
  registryScanBatchLimit : Nat

def preWarm (toLowercase : Text → Text) (config : Config) : List Text :=
  (((Str.split ",".toList config.preWarmCrates).map Str.trim).filter fun name => !name.isEmpty).map toLowercase

/-- `keys` are the names found, in the order in which the hash map happens to list them. -/
def scanRequests (toLowercase : Text → Text) (config : Config) (knownNames keys : List Text)
    (discovered : Keyed.Map Text (List Text)) : List (Request RefreshJobPayload) :=
  let unknown := keys.filter fun name => !knownNames.contains name
  let toEnqueue :=
    if config.registryScanBatchLimit > 0 then unknown.take (min unknown.length config.registryScanBatchLimit) else unknown
  (preWarm toLowercase config).map (fun name => crateRequest name priorityPreWarm (discovered[name]?.getD [])) ++
    toEnqueue.map (fun name => crateRequest name priorityDiscovery (discovered[name]?.getD []))

/-! The cache watcher. -/

abbrev CacheIndex := Keyed.Map Text (Nat × List Text)

def snapshotSubdir (subdir : CacheDir) : Nat × List Text :=
  (subdir.mtime.getD 0,subdir.files.filter fun name => (Str.stripSuffix ".crate".toList name).isSome)

def buildInitialIndex (cache : List CacheDir) : CacheIndex :=
  (cache.filter CacheDir.isDir).foldl (fun index subdir => index.insert subdir.path (snapshotSubdir subdir)) ∅

def parseCrateFilename (filename : Text) : Option (Text × Text) :=
  (Str.stripSuffix ".crate".toList filename).bind (parseRegistryDirName parses)

/-- One request a crate, with the versions of its new files alone. -/
def enqueueNewFiles (newFiles : List Text) : List (Request RefreshJobPayload) :=
  (Keyed.collect Prod.fst pushVersion (newFiles.filterMap (parseCrateFilename parses))).toList.map
    fun entry => crateRequest entry.1 priorityCacheWatch entry.2

/-- The index so far, and the batches of new files. -/
abbrev Poll := CacheIndex × List (List Text)

def discoverSubdir (poll : Poll) (subdir : CacheDir) : Poll :=
  if subdir.isDir && !poll.1.contains subdir.path then
    (poll.1.insert subdir.path (snapshotSubdir subdir),poll.2 ++ [(snapshotSubdir subdir).2])
  else poll

def checkSubdir (cache : List CacheDir) (poll : Poll) (path : Text) : Poll :=
  match poll.1[path]?, cache.find? (fun subdir => subdir.path = path) with
  | some (storedMtime,known), some subdir =>
      match subdir.mtime with
      | none => poll
      | some currentMtime =>
          if currentMtime = storedMtime then poll
          else
            let (newMtime,currentFiles) := snapshotSubdir subdir
            let newFiles := currentFiles.filter fun name => !known.contains name
            (poll.1.insert path (newMtime,currentFiles),if newFiles.isEmpty then poll.2 else poll.2 ++ [newFiles])
  | _, _ => poll

def pollCacheChanges (cache : List CacheDir) (index : CacheIndex) : Poll :=
  let found := cache.foldl discoverSubdir (index,[])
  found.1.keys.foldl (checkSubdir cache) found

def pollRequests (cache : List CacheDir) (index : CacheIndex) : List (Request RefreshJobPayload) :=
  (pollCacheChanges cache index).2.flatMap (enqueueNewFiles parses)

end
end RustMcp.Registry
