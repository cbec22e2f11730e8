import RustMcp.Queries

/-! `crate_derive_macros`: the procedural macros that a version's Rust files export. The
parser of Rust is a parameter. -/
namespace RustMcp.DeriveMacros
open Str (Text)
open Utils Queries

structure MacroAttribute where
  /-- the path, where it is one identifier -/
  ident : Option Text
  /-- the derived path and those in `attributes`, by their segments, where the arguments are of that form -/
  deriveArgs : Option (List Text × List (List Text))

structure ItemFn where
  ident : Text
  /-- as its tokens are printed -/
  signature : Text
  attrs : List MacroAttribute

structure CrateDeriveMacroEntry where
  name : Text
  acceptedAttributes : List Text
  usagePattern : Text
  sourcePath : Text
  sourceLine : Int

/-- An attribute macro or a function-like macro. -/
structure CrateMacroEntry where
  name : Text
  usagePattern : Text
  signaturePattern : Option Text
  sourcePath : Text
  sourceLine : Int

def pathTerminal (segments : List Text) : Option Text := segments.getLast?

def parseProcMacroDerive (attr : MacroAttribute) : Option (Text × List Text) := do
  let (derivePath,acceptedPaths) ← attr.deriveArgs
  let deriveName ← pathTerminal derivePath
  some (deriveName,acceptedPaths.filterMap pathTerminal)

def lineForFunction (content fnName : Text) : Int :=
  match (Str.lines content).findIdx? (Str.contains ("fn ".toList ++ fnName)) with
  | some lineIndex => Int.bmod (lineIndex + 1) (2 ^ 32)
  | none => 1

def signaturePattern (rendered : Text) : Option Text := if Str.trim rendered = [] then none else some rendered

structure MacroExports where
  deriveMacros : List CrateDeriveMacroEntry
  attributeMacros : List CrateMacroEntry
  functionLikeMacros : List CrateMacroEntry

section
variable (sourcePath content : Text) (function : ItemFn)

def deriveCandidate (attr : MacroAttribute) : Option CrateDeriveMacroEntry :=
  if attr.ident = some "proc_macro_derive".toList then
    (parseProcMacroDerive attr).map fun (deriveName,accepted) =>
      ⟨deriveName,accepted,"#[derive(".toList ++ deriveName ++ ")]".toList,sourcePath,lineForFunction content function.ident⟩
  else none

/-- A macro of the function's own name. -/
def ownCandidate (attributeName usagePattern : Text) (attr : MacroAttribute) : Option CrateMacroEntry :=
  if attr.ident = some attributeName then
    some ⟨function.ident,usagePattern,signaturePattern function.signature,sourcePath,lineForFunction content function.ident⟩
  else none

def attributeCandidate (attr : MacroAttribute) : Option CrateMacroEntry :=
  ownCandidate sourcePath content function "proc_macro_attribute".toList ("#[".toList ++ function.ident ++ "(...)]".toList) attr

def functionLikeCandidate (attr : MacroAttribute) : Option CrateMacroEntry :=
  ownCandidate sourcePath content function "proc_macro".toList (function.ident ++ "!(...)".toList) attr

end

section
variable (parseFile : Text → Option (List ItemFn))

def collectMacroExports (sourcePath content : Text) : MacroExports :=
  let functions := (parseFile content).getD []
  { deriveMacros := functions.flatMap fun function => function.attrs.filterMap (deriveCandidate sourcePath content function)
    attributeMacros := functions.flatMap fun function => function.attrs.filterMap (attributeCandidate sourcePath content function)
    functionLikeMacros :=
      functions.flatMap fun function => function.attrs.filterMap (functionLikeCandidate sourcePath content function) }

end

/-! The entries, one a name. -/

def mergeDerive (entry : Option CrateDeriveMacroEntry) (candidate : CrateDeriveMacroEntry) : Option CrateDeriveMacroEntry :=
  match entry with
  | none => some {candidate with acceptedAttributes := dedupeStrings candidate.acceptedAttributes}
  | some entry =>
      some {entry with acceptedAttributes := dedupeStrings (entry.acceptedAttributes ++ candidate.acceptedAttributes)}

def keepFirst (entry : Option CrateMacroEntry) (candidate : CrateMacroEntry) : Option CrateMacroEntry :=
  some (entry.getD candidate)

def mergeExports (exports : List MacroExports) : MacroExports where
  deriveMacros :=
    (Keyed.collect CrateDeriveMacroEntry.name mergeDerive (exports.flatMap MacroExports.deriveMacros)).toList.map Prod.snd
  attributeMacros :=
    (Keyed.collect CrateMacroEntry.name keepFirst (exports.flatMap MacroExports.attributeMacros)).toList.map Prod.snd
  functionLikeMacros :=
    (Keyed.collect CrateMacroEntry.name keepFirst (exports.flatMap MacroExports.functionLikeMacros)).toList.map Prod.snd

/-! The handler. -/

structure CrateDeriveMacrosRequest where
  crateName : Text
  version : Option Text

structure CrateDeriveMacrosResponse where
  crateName : Text
  selectedVersion : Text
  macros : MacroExports

section
variable {C D : Type} [LinearOrder C] {lower : Text → Text} (collate : Text → C) (parseFile : Text → Option (List ItemFn))

def listRustSourceFilePathsForVersion (crateVersionId : Nat) (rows : List SourceFileRow) : List Text :=
  (Ranking.sortBy (fun row => collate row.path)
    (rows.filter fun row => row.crateVersionId = crateVersionId && row.language = some "rust".toList)).map SourceFileRow.path

def handleCrateDeriveMacros (index : Index lower) (dirs : SourceDirs D) (contents : Contents D) (waited : Waited)
    (request : CrateDeriveMacrosRequest) : Reply CrateDeriveMacrosResponse := do
  let crateName ← failing (normalizeRequired request.crateName "crate_name".toList)
  let ctx ← fetchCrateContext index waited crateName
  let selected ← resolveVersionOrLatest index ctx (normalizeOptional request.version)
  ensureSourceIndexed index dirs waited crateName selected.version selected.id
  let paths := listRustSourceFilePathsForVersion collate selected.id index.sourceFiles
  let versionDir := resolveSourceDir dirs crateName selected.version
  let exports := paths.filterMap fun path =>
    (versionDir.bind fun dir => contents dir path).map (collectMacroExports parseFile path)
  return ⟨ctx.crateRow.name,selected.version,mergeExports exports⟩

end
end RustMcp.DeriveMacros
