import RustMcp.ReExports
import RustMcp.Splitting

/-! The module of a source file by its path, as two tools derive it, against Rust's default
layout: `src/a/b.rs` and `src/a/b/mod.rs` are `a::b`, `src/lib.rs` and `src/main.rs` the root. -/
namespace RustMcp.ModulePaths
open Str
open Splitting (joinFlat headOpens headTrimmed)
open ReExports (modulePrefixFromPath)

def modulePathFromSourcePath (crateName path : Text) : Text :=
  let normalized := trimStartMatches "./".toList path
  if normalized = "src/lib.rs".toList ∨ normalized = "src/main.rs".toList then crateName
  else
    let parts := split "/".toList (trimStartMatches "src/".toList normalized)
    let parts := match parts.getLast? with
      | none => parts
      | some last =>
          if last = "mod.rs".toList then parts.dropLast
          else parts.dropLast ++ [(stripSuffix ".rs".toList last).getD last]
    let filtered := parts.filter (· ≠ [])
    if filtered = [] then crateName else crateName ++ "::".toList ++ join "::".toList filtered

example : modulePathFromSourcePath "demo".toList "./src/io/mod.rs".toList = "demo::io".toList := by decide

/-! The layout. -/

inductive SourceFile where
  | lib
  | main
  /-- `src/<dirs>/<name>.rs` -/
  | file (dirs : List Text) (name : Text)
  /-- `src/<dirs>/mod.rs` -/
  | modFile (dirs : List Text)

/-- The directories below `src`, and the file in the last one. -/
def SourceFile.place : SourceFile → List Text × Text
  | .lib => ([],"lib.rs".toList)
  | .main => ([],"main.rs".toList)
  | .file dirs name => (dirs,name ++ ".rs".toList)
  | .modFile dirs => (dirs,"mod.rs".toList)

def SourceFile.path (file : SourceFile) : Text := "src/".toList ++ join "/".toList (file.place.1 ++ [file.place.2])

def SourceFile.module : SourceFile → List Text
  | .file dirs name => dirs ++ [name]
  | .modFile dirs => dirs
  | _ => []

def PathSegment (name : Text) : Prop := name ≠ [] ∧ '/' ∉ name

instance (name : Text) : Decidable (PathSegment name) := inferInstanceAs (Decidable (_ ∧ _))

/-- No module has the name of the keyword, and the two roots are no modules. -/
def InLayout : SourceFile → Prop
  | .file dirs name =>
      (∀ s ∈ dirs ++ [name], PathSegment s) ∧ name ≠ "mod".toList ∧
        (dirs = [] → name ≠ "lib".toList ∧ name ≠ "main".toList)
  | .modFile dirs => dirs ≠ [] ∧ ∀ s ∈ dirs, PathSegment s
  | _ => True

def underscored (crateName : Text) : Text := crateName.map fun c => if c = '-' then '_' else c

def rustPath (crateName : Text) (file : SourceFile) : Text := join "::".toList (underscored crateName :: file.module)

def srcDir : Text := "src".toList

theorem srcPlain : '/' ∉ srcDir := by decide

/-! Joined paths. -/

/-- Paths that end alike from crates of equal length are the same in all. -/
theorem joinSuffix {one other : Text} {sep : Text} (some_ : sep ≠ []) {kept module : List Text} (suffix : kept <:+ module)
    (length : one.length = other.length) : join sep (one::kept) = join sep (other::module) ↔ one = other ∧ kept = module := by
  obtain ⟨gone,rfl⟩ := suffix
  rw [joinFlat,joinFlat]
  constructor
  · intro same
    obtain ⟨first,rest⟩ := List.append_inj same length
    have lengths := congrArg List.length rest
    rw [List.flatMap_append,List.length_append] at lengths
    cases gone with
    | nil => exact ⟨first,rfl⟩
    | cons dir gone =>
      have more := List.length_pos_iff.mpr some_
      simp only [List.flatMap_cons,List.length_append] at lengths
      omega
  · rintro ⟨rfl,same⟩
    rw [← same]

theorem underscoredLength (crateName : Text) : crateName.length = (underscored crateName).length := by simp [underscored]

theorem underscoredSame {crateName : Text} : crateName = underscored crateName ↔ '-' ∉ crateName := by
  induction crateName with
  | nil => exact iff_of_true rfl List.not_mem_nil
  | cons c rest ih =>
    have step : underscored (c::rest) = (if c = '-' then '_' else c) :: underscored rest := rfl
    rw [step,List.cons.injEq,ih,List.mem_cons,not_or]
    by_cases hyphen : c = '-'
    · subst hyphen
      simp
    · simp [hyphen,Ne.symm hyphen]

/-! What the two tools make of a path. -/

def fromParts (crateName : Text) (parts : List Text) : Text :=
  let parts := match parts.getLast? with
    | none => parts
    | some last =>
        if last = "mod.rs".toList then parts.dropLast
        else parts.dropLast ++ [(stripSuffix ".rs".toList last).getD last]
  let filtered := parts.filter (· ≠ [])
  if filtered = [] then crateName else crateName ++ "::".toList ++ join "::".toList filtered

/-- The module once `src` directories are taken away. -/
def SourceFile.kept : SourceFile → List Text
  | .file dirs name => dirs.dropWhile (· = srcDir) ++ [name]
  | .modFile dirs => dirs.dropWhile (· = srcDir)
  | _ => []

theorem rootOrJoin (crateName : Text) {segments : List Text} (filled : ∀ s ∈ segments, s ≠ []) :
    (if segments.filter (· ≠ []) = [] then crateName
      else crateName ++ "::".toList ++ join "::".toList (segments.filter (· ≠ []))) = join "::".toList (crateName::segments) := by
  rw [List.filter_eq_self.mpr fun s mem => by simpa using filled s mem]
  cases segments with
  | nil => simp [join,List.intercalate]
  | cons first rest => rw [if_neg (List.cons_ne_nil _ _),joinCons,List.append_assoc]

theorem undotted (file : SourceFile) : trimStartMatches "./".toList file.path = file.path :=
  trimStartBare <| stripPrefixNone.mpr fun ⟨_,same⟩ => by
    have first : some '.' = some 's' := congrArg List.head? same
    exact absurd first (by decide)

section
variable {file : SourceFile} (valid : InLayout file)
include valid

theorem placeClean : ∀ s ∈ file.place.1 ++ [file.place.2], '/' ∉ s := by
  cases file with
  | lib => decide
  | main => decide
  | file dirs name =>
    intro s mem
    rcases List.mem_append.mp mem with dir | last
    · exact (valid.1 s (List.mem_append_left _ dir)).2
    · cases List.mem_singleton.mp last
      have clean := (valid.1 name (by simp)).2
      simpa [SourceFile.place] using clean
  | modFile dirs =>
    intro s mem
    rcases List.mem_append.mp mem with dir | last
    · exact (valid.2 s dir).2
    · cases List.mem_singleton.mp last
      change '/' ∉ "mod.rs".toList
      decide

theorem moduleFilled : ∀ s ∈ file.module, s ≠ [] := by
  cases file with
  | lib => exact fun _ mem => absurd mem List.not_mem_nil
  | main => exact fun _ mem => absurd mem List.not_mem_nil
  | file dirs name => exact fun s mem => (valid.1 s mem).1
  | modFile dirs => exact fun s mem => (valid.2 s mem).1

theorem keptSuffix : file.kept <:+ file.module := by
  cases file with
  | lib => exact List.suffix_rfl
  | main => exact List.suffix_rfl
  | file dirs name =>
    obtain ⟨gone,same⟩ := List.dropWhile_suffix (l := dirs) (fun dir => decide (dir = srcDir))
    exact ⟨gone,by rw [SourceFile.kept,SourceFile.module,← List.append_assoc,same]⟩
  | modFile dirs => exact List.dropWhile_suffix _

theorem pathParts : split "/".toList (trimStartMatches "src/".toList file.path) =
    file.place.1.dropWhile (· = srcDir) ++ [file.place.2] := by
  have clean := placeClean valid
  have trimmed : trimStartMatches "src/".toList file.path =
      join "/".toList (file.place.1.dropWhile (· = srcDir) ++ [file.place.2]) :=
    (trimStartStep (by decide) _).trans (headTrimmed srcPlain clean)
  rw [trimmed]
  refine splitJoin '/' [] (by simp) fun s mem => clean s ?_
  rcases List.mem_append.mp mem with dir | last
  · exact List.mem_append_left _ (List.dropWhile_subset _ dir)
  · exact List.mem_append_right _ last

/-- Below a module's file the path says the module, but for directories `src` at its head. -/
theorem partsJoined (crateName : Text) (below : file ≠ .lib ∧ file ≠ .main) :
    fromParts crateName (file.place.1.dropWhile (· = srcDir) ++ [file.place.2]) = join "::".toList (crateName::file.kept) := by
  have filled : ∀ s ∈ file.kept, s ≠ [] := fun s mem => moduleFilled valid s ((keptSuffix valid).subset mem)
  rw [← rootOrJoin crateName filled]
  simp only [fromParts,List.getLast?_concat,List.dropLast_concat]
  cases file with
  | lib => exact absurd rfl below.1
  | main => exact absurd rfl below.2
  | modFile dirs => rfl
  | file dirs name =>
    have other : name ++ ".rs".toList ≠ "mod.rs".toList := fun same =>
      valid.2.1 (List.append_cancel_right (same.trans (rfl : "mod.rs".toList = "mod".toList ++ ".rs".toList)))
    simp only [SourceFile.place,if_neg other,stripSuffixAppend,Option.getD_some]
    rfl

theorem notRoot (below : file ≠ .lib ∧ file ≠ .main) : file.path ≠ "src/lib.rs".toList ∧ file.path ≠ "src/main.rs".toList := by
  have clean := placeClean valid
  have alone (root : Text) (single : '/' ∉ root) (same : file.path = "src/".toList ++ root) : file.place = ([],root) := by
    have joined : join "/".toList (file.place.1 ++ [file.place.2]) = root := List.append_cancel_left same
    have parts : split "/".toList (join "/".toList (file.place.1 ++ [file.place.2])) = _ := splitJoin '/' [] (by simp) clean
    have one : split "/".toList root = [root] := splitClean [] single
    rw [joined,one] at parts
    obtain ⟨none_,last⟩ := List.append_inj' (parts.symm.trans (List.nil_append [root]).symm) rfl
    exact Prod.ext none_ (List.singleton_inj.mp last)
  cases file with
  | lib => exact absurd rfl below.1
  | main => exact absurd rfl below.2
  | file dirs name =>
    constructor
    · intro same
      have place := alone "lib.rs".toList (by decide) same
      have named : name ++ ".rs".toList = "lib".toList ++ ".rs".toList := congrArg Prod.snd place
      exact (valid.2.2 (congrArg Prod.fst place)).1 (List.append_cancel_right named)
    · intro same
      have place := alone "main.rs".toList (by decide) same
      have named : name ++ ".rs".toList = "main".toList ++ ".rs".toList := congrArg Prod.snd place
      exact (valid.2.2 (congrArg Prod.fst place)).2 (List.append_cancel_right named)
  | modFile dirs =>
    exact ⟨fun same => valid.1 (congrArg Prod.fst (alone "lib.rs".toList (by decide) same)),
      fun same => valid.1 (congrArg Prod.fst (alone "main.rs".toList (by decide) same))⟩

theorem modulePathKept (crateName : Text) : modulePathFromSourcePath crateName file.path = join "::".toList (crateName::file.kept) := by
  have unfolded : modulePathFromSourcePath crateName file.path =
      if file.path = "src/lib.rs".toList ∨ file.path = "src/main.rs".toList then crateName
      else fromParts crateName (split "/".toList (trimStartMatches "src/".toList file.path)) := by
    rw [modulePathFromSourcePath,undotted]
    rfl
  rw [unfolded,pathParts valid]
  by_cases below : file ≠ .lib ∧ file ≠ .main
  · obtain ⟨notLib,notMain⟩ := notRoot valid below
    rw [if_neg (not_or.mpr ⟨notLib,notMain⟩),partsJoined valid crateName below]
  · rcases not_and_or.mp below with lib | main
    · rw [not_not.mp lib,if_pos (.inl rfl)]
      simp [SourceFile.kept,join,List.intercalate]
    · rw [not_not.mp main,if_pos (.inr rfl)]
      simp [SourceFile.kept,join,List.intercalate]

theorem modulePrefixParts (crateName : Text) : modulePrefixFromPath crateName file.path =
    if file.path = "src/lib.rs".toList then crateName
    else fromParts crateName (file.place.1.dropWhile (· = srcDir) ++ [file.place.2]) := by
  rw [modulePrefixFromPath,undotted,pathParts valid]
  rfl

theorem modulePrefixKept (crateName : Text) (notMain : file ≠ .main) :
    modulePrefixFromPath crateName file.path = join "::".toList (crateName::file.kept) := by
  rw [modulePrefixParts valid]
  by_cases lib : file = .lib
  · have root : SourceFile.lib.path = "src/lib.rs".toList := rfl
    rw [lib,if_pos root]
    simp [SourceFile.kept,join,List.intercalate]
  · rw [if_neg (notRoot valid ⟨lib,notMain⟩).1,partsJoined valid crateName ⟨lib,notMain⟩]

theorem keptWhole : file.kept = file.module ↔ ¬"src/src/".toList <+: file.path := by
  have opens : "src/src/".toList <+: file.path ↔ file.place.1.head? = some srcDir := by
    have inside : "src/".toList <+: join "/".toList (file.place.1 ++ [file.place.2]) ↔ file.place.1.head? = some srcDir :=
      headOpens srcPlain (placeClean valid)
    rw [← inside]
    exact List.prefix_append_right_inj "src/".toList
  have whole (dirs : List Text) : dirs.dropWhile (· = srcDir) = dirs ↔ dirs.head? ≠ some srcDir := by
    cases dirs with
    | nil => simp
    | cons dir dirs =>
      by_cases src : dir = srcDir
      · have shorter := (List.dropWhile_suffix (l := dirs) (fun dir => decide (dir = srcDir))).length_le
        rw [List.dropWhile_cons_of_pos (by simpa using src)]
        refine iff_of_false (fun same => ?_) (by simp [src])
        have lengths := congrArg List.length same
        rw [List.length_cons] at lengths
        omega
      · rw [List.dropWhile_cons_of_neg (by simpa using src)]
        exact iff_of_true rfl (by simpa using src)
  rw [opens]
  cases file with
  | lib => exact iff_of_true rfl (by simp [SourceFile.place])
  | main => exact iff_of_true rfl (by simp [SourceFile.place])
  | file dirs name => exact (List.append_left_inj [name]).trans (whole dirs)
  | modFile dirs => exact whole dirs

theorem keptRustPath (crateName : Text) : join "::".toList (crateName::file.kept) = rustPath crateName file ↔
    '-' ∉ crateName ∧ ¬"src/src/".toList <+: file.path := by
  rw [rustPath,joinSuffix (by decide) (keptSuffix valid) (underscoredLength crateName),underscoredSame,keptWhole valid]

end

/-- Both tools find the module of a file exactly where the crate has no hyphen in its name, the first
directory of the file is not `src`, and the file is not `src/main.rs`. -/
theorem modulePathsIff (crateName : Text) (file : SourceFile) (valid : InLayout file) :
    (modulePathFromSourcePath crateName file.path = rustPath crateName file ∧
      modulePrefixFromPath crateName file.path = rustPath crateName file) ↔
    '-' ∉ crateName ∧ ¬"src/src/".toList <+: file.path ∧ file.path ≠ "src/main.rs".toList := by
  rw [modulePathKept valid,keptRustPath valid]
  by_cases main : file = .main
  · subst main
    have wrong : modulePrefixFromPath crateName SourceFile.main.path = crateName ++ "::main".toList := by
      rw [modulePrefixParts valid,if_neg (by decide)]
      exact List.append_assoc ..
    have root : rustPath crateName .main = underscored crateName := by simp [rustPath,SourceFile.module,join,List.intercalate]
    refine iff_of_false (fun both => ?_) fun all => all.2.2 rfl
    have lengths := congrArg List.length both.2
    rw [wrong,root,List.length_append,← underscoredLength] at lengths
    exact absurd lengths (by simp)
  · have other : file.path ≠ "src/main.rs".toList := by
      by_cases lib : file = .lib
      · rw [lib]
        decide
      · exact (notRoot valid ⟨lib,main⟩).2
    rw [modulePrefixKept valid crateName main,keptRustPath valid]
    exact ⟨fun both => ⟨both.1.1,both.1.2,other⟩,fun all => ⟨⟨all.1,all.2.1⟩,all.1,all.2.1⟩⟩

theorem modulePathsIffNested :
    (modulePathFromSourcePath "demo".toList "src/io/file.rs".toList = "demo::io::file".toList ∧
      modulePrefixFromPath "demo".toList "src/io/file.rs".toList = "demo::io::file".toList) ↔
    '-' ∉ "demo".toList ∧ ¬"src/src/".toList <+: "src/io/file.rs".toList ∧ "src/io/file.rs".toList ≠ "src/main.rs".toList :=
  modulePathsIff "demo".toList (.file ["io".toList] "file".toList) ⟨by decide,by decide,fun none_ => by contradiction⟩

/-- The crate keeps its hyphen. -/
theorem hyphenKept : modulePathFromSourcePath "my-crate".toList (SourceFile.file [] "io".toList).path = "my-crate::io".toList ∧
    rustPath "my-crate".toList (.file [] "io".toList) = "my_crate::io".toList := by decide

end RustMcp.ModulePaths
