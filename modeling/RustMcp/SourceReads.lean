import RustMcp.Queries

/-! `source_read`: the lines of an indexed file, from its content on disk. The end line is
capped as a line number, so what a call returns depends on where its window lies. -/
namespace RustMcp.SourceReads
open Str (Text)
open Utils
open Queries

structure SourceReadRequest where
  crateName : Text
  version : Option Text
  path : Text
  startLine : Option Nat
  endLine : Option Nat

structure SourceReadRow where
  crateName : Text
  version : Text
  path : Text
  deriving DecidableEq

structure SourceReadResponse extends SourceReadRow where
  startLine : Nat
  endLine : Nat
  totalLines : Nat
  content : Text

/-! The file. -/

section
variable {lower : Text → Text} (index : Index lower)

def fileOfVersion (crateRow : CrateCoreRow) (path : Text) (version : CrateVersionRow) : Option SourceReadRow :=
  (index.sourceFiles.find? fun row => row.crateVersionId = version.id && row.path = path).map fun row =>
    ⟨crateRow.name,version.version,row.path⟩

def fetchSourceReadForCrateVersionPath (crateName : Text) (crateVersionId : Nat) (path : Text) : Option SourceReadRow :=
  (fetchCrateCoreByName index crateName).bind fun crateRow =>
    (index.versions.find? fun row => row.crateId = crateRow.id && row.id = crateVersionId).bind
      (fileOfVersion index crateRow path)

def fetchSourceReadLatestForCratePath (crateName path : Text) : Option SourceReadRow :=
  (fetchCrateCoreByName index crateName).bind fun crateRow =>
    (Ranking.sortBy latestFirst (index.versions.filter fun row => row.crateId = crateRow.id)).findSome?
      (fileOfVersion index crateRow path)

def orFails {α : Type} (found : Option α) (message : Text) : Reply α :=
  match found with
  | some value => .ok value
  | none => .error (.fails message)

variable {D : Type} (dirs : SourceDirs D) (waited : Waited)

def rowOfVersion (crateName version path : Text) : Reply SourceReadRow := do
  let crateRow ← orFails (fetchCrateCoreByName index crateName)
    ("crate '".toList ++ crateName ++ "' is not indexed locally".toList)
  let crateVersion ← orFails (fetchCrateVersionByName index crateRow.id version)
    ("version '".toList ++ version ++ "' for crate '".toList ++ crateName ++ "' is not indexed locally".toList)
  ensureSourceIndexed index dirs waited crateName version crateVersion.id
  orFails (fetchSourceReadForCrateVersionPath index crateName crateVersion.id path)
    ("source file not found for ".toList ++ crateName ++ "@".toList ++ version ++ ":".toList ++ path ++
      ". Try crate_api or symbol_search to explore this crate's API surface.".toList)

/-- The wait is for the crate's latest version, whatever version the file is then found in. -/
def rowOfLatest (crateName path : Text) : Reply SourceReadRow := do
  match fetchCrateCoreByName index crateName with
  | none => pure ()
  | some crateRow =>
      match fetchLatestCrateVersion index crateRow.id with
      | none => pure ()
      | some latest => ensureSourceIndexed index dirs waited crateName latest.version latest.id
  orFails (fetchSourceReadLatestForCratePath index crateName path)
    ("source file not found for ".toList ++ crateName ++ ":".toList ++ path ++
      ". Try crate_api or symbol_search to explore this crate's API surface.".toList)

def sourceReadRow (request : SourceReadRequest) : Reply SourceReadRow := do
  let crateName ← failing (normalizeRequired request.crateName "crate_name".toList)
  let path ← failing (normalizeRequired request.path "path".toList)
  match normalizeOptional request.version with
  | some version => rowOfVersion index dirs waited crateName version path
  | none => rowOfLatest index dirs waited crateName path

def sourceReadContent (contents : Contents D) (row : SourceReadRow) : Reply Text :=
  orFails (readSourceFileFromDiskOrCache dirs contents row.crateName row.version row.path)
    ("source content not available on disk for ".toList ++ row.crateName ++ "@".toList ++ row.version ++ ":".toList ++
      row.path ++ " (not found in cargo registry). ".toList ++
      "Try crate_type_info, crate_api, or symbol_search for rustdoc-based API data.".toList)

end
/-! The slice. -/

def sliceOf (lines : List Text) (first past : Nat) : Option (List Text) :=
  if first ≤ past ∧ past ≤ lines.length then some ((lines.take past).drop first) else none

/-- None where `clamp` panics: the number of lines is a `u32`, which can be 0. -/
def selectLines (row : SourceReadRow) (lines : List Text) (startLine endLine : Option Nat) : Option SourceReadResponse :=
  let totalLines := u32 (max lines.length 1)
  let start := clamp 1 totalLines (startLine.getD 1)
  let finish := min (max (sourceReadEndLine endLine) start) totalLines
  if totalLines = 0 then none
  else some ⟨row,start,finish,totalLines,((sliceOf lines (start - 1) finish).map (Str.join ['\n'])).getD []⟩

def handleSourceRead {lower : Text → Text} (index : Index lower) {D : Type} (dirs : SourceDirs D) (contents : Contents D)
    (waited : Waited) (request : SourceReadRequest) : Reply (Option SourceReadResponse) := do
  let row ← sourceReadRow index dirs waited request
  let content ← sourceReadContent dirs contents row
  return selectLines row (Str.lines content) request.startLine request.endLine

/-! Windows of lines. -/

/-- Lines are counted from 1, and `last` is one of them. -/
def between (lines : List Text) (first last : Nat) : List Text := (lines.take last).drop (first - 1)

/-- The answer is the window that was asked for, as far as the file goes. -/
def Shows (answer : Reply (Option SourceReadResponse)) (lines : List Text) (first last : Nat) : Prop :=
  ∃ response, answer = .ok (some response) ∧ response.startLine = first ∧ response.endLine = min last lines.length ∧
    response.content = Str.join ['\n'] (between lines first (min last lines.length))

/-- The last line of the window has a number of at most 2000, or is all of the window; and the
file's lines can be counted up to it. -/
def Reached (count first last : Nat) : Prop :=
  min last count ≤ u32 count ∧ (min last count ≤ 2000 ∨ min last count = first)
instance (count first last : Nat) : Decidable (Reached count first last) := by unfold Reached; infer_instance

/-- Windows of at most 2000 lines, one after the other to the end of the file. -/
inductive Windows (count : Nat) : Nat → List (Nat × Nat) → Prop where
  | last {first last} (ordered : first ≤ last) (few : last < first + 2000) (ends : count ≤ last) :
      Windows count first [(first,last)]
  | next {first last rest} (ordered : first ≤ last) (few : last < first + 2000) (short : last < count)
      (later : Windows count (last + 1) rest) : Windows count first ((first,last)::rest)

theorem betweenSlice {lines : List Text} {first last : Nat} (ordered : first ≤ last + 1) (within : last ≤ lines.length) :
    sliceOf lines (first - 1) last = some (between lines first last) := by
  rw [sliceOf,if_pos ⟨by omega,within⟩]
  rfl

theorem wrapLe (count : Nat) : u32 count ≤ count := Nat.mod_le _ _

theorem foundResponse {lower : Text → Text} {index : Index lower} {D : Type} {dirs : SourceDirs D} {contents : Contents D}
    {waited : Waited} {request : SourceReadRequest} {row : SourceReadRow} {content : Text}
    (found : sourceReadRow index dirs waited request = .ok row) (read : sourceReadContent dirs contents row = .ok content)
    (startLine endLine : Option Nat) :
    handleSourceRead index dirs contents waited {request with startLine := startLine, endLine := endLine} =
      .ok (selectLines row (Str.lines content) startLine endLine) := by
  have same : sourceReadRow index dirs waited {request with startLine := startLine, endLine := endLine} = .ok row := found
  rw [handleSourceRead,same]
  change (sourceReadContent dirs contents row >>= _) = _
  rw [read]
  rfl

/-- The three clamps leave a window as it is up to the end of the file exactly if its end is reached. -/
theorem selectedIff (row : SourceReadRow) {lines : List Text} {first last : Nat} (one : 1 ≤ first)
    (inside : first ≤ lines.length) (ordered : first ≤ last) :
    Shows (.ok (selectLines row lines (some first) (some last))) lines first last ↔ Reached lines.length first last := by
  have counted : max lines.length 1 = lines.length := by omega
  have wrapped := wrapLe lines.length
  unfold Shows Reached selectLines
  simp only [counted,clamp,sourceReadEndLine,Option.getD_some,Except.ok.injEq]
  constructor
  · intro ⟨response,same,starts,ends,_⟩
    split at same <;> try contradiction
    cases Option.some.inj same
    simp only at starts ends
    omega
  · intro ⟨counts,reached⟩
    have some_ : u32 lines.length ≠ 0 := by omega
    have starts : max 1 (min (u32 lines.length) first) = first := by omega
    have ends : min (max (max 1 (min 2000 last)) first) (u32 lines.length) = min last lines.length := by omega
    rw [if_neg some_,starts,ends]
    refine ⟨_,rfl,rfl,rfl,?_⟩
    rw [betweenSlice (by omega) (by omega)]
    rfl

theorem joinAppend (sep : Text) {xs ys : List Text} (left : xs ≠ []) (right : ys ≠ []) :
    Str.join sep (xs ++ ys) = Str.join sep [Str.join sep xs,Str.join sep ys] := by
  induction xs with
  | nil => exact absurd rfl left
  | cons x xs ih =>
    cases xs with
    | nil =>
      cases ys with
      | nil => exact absurd rfl right
      | cons y ys => simp [Str.join]
    | cons z zs =>
      have rest := ih (List.cons_ne_nil _ _)
      rw [List.cons_append,List.cons_append,Str.joinCons,← List.cons_append,rest]
      simp [Str.join]

theorem betweenNext {lines : List Text} {first last : Nat} (one : 1 ≤ first) (ordered : first ≤ last) (short : last < lines.length) :
    between lines first lines.length = between lines first last ++ between lines (last + 1) lines.length := by
  unfold between
  rw [List.take_length,Nat.add_sub_cancel]
  calc lines.drop (first - 1)
      = (lines.take last ++ lines.drop last).drop (first - 1) := by rw [List.take_append_drop]
    _ = (lines.take last).drop (first - 1) ++ lines.drop last :=
        List.drop_append_of_le_length (by rw [List.length_take]; omega)

theorem betweenSome {lines : List Text} {first last : Nat} (one : 1 ≤ first) (ordered : first ≤ last) (inside : first ≤ lines.length) :
    between lines first last ≠ [] := by
  intro none_
  have length := congrArg List.length none_
  rw [between,List.length_drop,List.length_take,List.length_nil] at length
  omega

theorem windowsText {lines : List Text} {first : Nat} {ranges : List (Nat × Nat)} (windows : Windows lines.length first ranges)
    (one : 1 ≤ first) (inside : first ≤ lines.length) :
    Str.join ['\n'] (ranges.map fun range => Str.join ['\n'] (between lines range.1 (min range.2 lines.length))) =
      Str.join ['\n'] (between lines first lines.length) := by
  induction windows with
  | last ordered few ends =>
    rw [List.map_singleton,Nat.min_eq_right ends]
    simp [Str.join]
  | @next first last rest ordered few short later ih =>
    have tail := ih (by omega) (by omega)
    have some_ := betweenSome (Nat.succ_pos last) short (Nat.succ_le_of_lt short)
    have whole := joinAppend ['\n'] (betweenSome one ordered inside) some_
    rw [betweenNext one ordered short,whole,← tail,List.map_cons,Nat.min_eq_left (Nat.le_of_lt short)]
    cases rest with
    | nil => cases later
    | cons range rest => rw [List.map_cons,Str.joinCons,Str.joinCons]; simp [Str.join]

theorem windowsInside {count first : Nat} {ranges : List (Nat × Nat)} (windows : Windows count first ranges)
    (one : 1 ≤ first) (inside : first ≤ count) :
    ∀ range ∈ ranges, 1 ≤ range.1 ∧ range.1 ≤ count ∧ range.1 ≤ range.2 := by
  induction windows with
  | last ordered few ends => intro range mem; cases List.mem_singleton.mp mem; exact ⟨one,inside,ordered⟩
  | next ordered few short later ih =>
    intro range mem
    rcases List.mem_cons.mp mem with rfl | rest
    · exact ⟨one,inside,ordered⟩
    · exact ih (by omega) (by omega) range rest

section
variable {lower : Text → Text} (index : Index lower) {D : Type} (dirs : SourceDirs D) (contents : Contents D) (waited : Waited)

def asked (request : SourceReadRequest) (range : Nat × Nat) : SourceReadRequest :=
  {request with startLine := some range.1, endLine := some range.2}

/-- The answers to the windows put the text of the lines together. -/
def ReadsBack (request : SourceReadRequest) (lines : List Text) (ranges : List (Nat × Nat)) : Prop :=
  ∃ responses : List SourceReadResponse,
    ranges.map (fun range => handleSourceRead index dirs contents waited (asked request range)) =
      responses.map (fun response => .ok (some response)) ∧
    Str.join ['\n'] (responses.map SourceReadResponse.content) = Str.join ['\n'] lines

variable {index dirs contents waited}

theorem windowsAnswered {request : SourceReadRequest} {lines : List Text} {ranges : List (Nat × Nat)}
    (shown : ∀ range ∈ ranges, Shows (handleSourceRead index dirs contents waited (asked request range)) lines range.1 range.2) :
    ∃ responses : List SourceReadResponse,
      ranges.map (fun range => handleSourceRead index dirs contents waited (asked request range)) =
        responses.map (fun response => .ok (some response)) ∧
      responses.map SourceReadResponse.content =
        ranges.map fun range => Str.join ['\n'] (between lines range.1 (min range.2 lines.length)) := by
  induction ranges with
  | nil => exact ⟨[],rfl,rfl⟩
  | cons range rest ih =>
    obtain ⟨response,answer,_,_,content⟩ := shown range List.mem_cons_self
    obtain ⟨responses,answers,contents_⟩ := ih fun other mem => shown other (List.mem_cons_of_mem _ mem)
    exact ⟨response::responses,by rw [List.map_cons,List.map_cons,answer,answers],
      by rw [List.map_cons,List.map_cons,content,contents_]⟩

/-- A window of at most 2000 lines is shown exactly if its end is reached, and the whole file is
read back by consecutive windows whose ends are. -/
theorem windowShownIffReached {request : SourceReadRequest} {row : SourceReadRow} {content : Text}
    (found : sourceReadRow index dirs waited request = .ok row) (read : sourceReadContent dirs contents row = .ok content) :
    (∀ first last, 1 ≤ first → first ≤ (Str.lines content).length → first ≤ last → last < first + 2000 →
      (Shows (handleSourceRead index dirs contents waited (asked request (first,last))) (Str.lines content) first last ↔
        Reached (Str.lines content).length first last)) ∧
    ∀ ranges, 1 ≤ (Str.lines content).length → Windows (Str.lines content).length 1 ranges →
      (∀ range ∈ ranges, Reached (Str.lines content).length range.1 range.2) →
      ReadsBack index dirs contents waited request (Str.lines content) ranges := by
  refine ⟨fun first last one inside ordered _ => ?_,fun ranges some_ windows reached => ?_⟩
  · rw [asked,foundResponse found read]
    exact selectedIff row one inside ordered
  · have inside := windowsInside windows (le_refl 1) some_
    have shown : ∀ range ∈ ranges,
        Shows (handleSourceRead index dirs contents waited (asked request range)) (Str.lines content) range.1 range.2 := by
      intro range mem
      obtain ⟨one,inFile,ordered⟩ := inside range mem
      rw [asked,foundResponse found read]
      exact (selectedIff row one inFile ordered).mpr (reached range mem)
    obtain ⟨responses,answers,texts⟩ := windowsAnswered shown
    refine ⟨responses,answers,?_⟩
    rw [texts,windowsText windows (le_refl 1) some_,between,List.take_length]
    rfl

end

theorem demoUnique : (([⟨1,"demo".toList⟩] : List CrateCoreRow).map fun row => Str.toAsciiLowercase row.name).Nodup :=
  List.nodup_singleton _

def demo : Index Str.toAsciiLowercase where
  crates := ⟨[⟨1,"demo".toList⟩],demoUnique⟩
  versions := [⟨7,1,"1.0.0".toList,some 5⟩]
  sourceFiles := [⟨7,"src/lib.rs".toList,some "rust".toList⟩]
  symbols := []
  types := []
  impls := []

def demoCache : SourceDirs Nat := ⟨[],fun name => if name = "demo-1.0.0".toList then some 0 else none⟩

def demoFiles (content : Text) : Contents Nat := fun _ path => if path = "src/lib.rs".toList then some content else none

def demoRequest : SourceReadRequest := ⟨"demo".toList,none,"src/lib.rs".toList,none,none⟩

def demoRow : SourceReadRow := ⟨"demo".toList,"1.0.0".toList,"src/lib.rs".toList⟩

theorem demoFound : sourceReadRow demo demoCache (fun _ => none) demoRequest = .ok demoRow := by decide

theorem demoRead (content : Text) : sourceReadContent demoCache (demoFiles content) demoRow = .ok content := by rfl

def shortText : Text := "a\nb\nc\n".toList

theorem windowShownIffReachedShort :
    ReadsBack demo demoCache (demoFiles shortText) (fun _ => none) demoRequest (Str.lines shortText) [(1,2),(3,4)] := by
  have windows : Windows (Str.lines shortText).length 1 [(1,2),(3,4)] :=
    .next (by decide) (by decide) (by decide) (.last (by decide) (by decide) (by decide))
  exact (windowShownIffReached demoFound (demoRead shortText)).2 _ (by decide) windows (by decide)

/-- One line `x` after the other. -/
def repeated (count : Nat) : Text := (List.replicate count ['x','\n']).flatten

theorem repeatedLines (count : Nat) : Str.lines (repeated count) = List.replicate count ['x'] := by
  induction count with
  | zero => rfl
  | succ count ih =>
    have first : Str.splitInclusive (repeated (count + 1)) = ['x','\n']::Str.splitInclusive (repeated count) := rfl
    rw [Str.lines,first,List.map_cons,← Str.lines,ih,List.replicate_succ]
    rfl

/-- Of the hundred lines that the second window asks for, its first is returned. -/
theorem windowBeyondCap : (Str.lines (repeated 2100)).length = 2100 ∧
    ¬ Shows (handleSourceRead demo demoCache (demoFiles (repeated 2100)) (fun _ => none) (asked demoRequest (2001,2100)))
      (Str.lines (repeated 2100)) 2001 2100 := by
  have count : (Str.lines (repeated 2100)).length = 2100 := by rw [repeatedLines,List.length_replicate]
  refine ⟨count,?_⟩
  rw [asked,foundResponse demoFound (demoRead _),selectedIff _ (by decide) (by omega) (by decide),count]
  decide

end RustMcp.SourceReads
