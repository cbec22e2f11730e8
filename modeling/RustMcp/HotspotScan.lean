import RustMcp.Hotspots
import RustMcp.Paging

/-! What `detect_hotspots_in_file` finds: of each numbered line and each pattern that occurs in
it, the first hit. Numbers are of `u32`, so that lines far apart can have the same one. -/
namespace RustMcp.HotspotScan
open Str (Text)
open Utils (u32)
open Queries (SourceFileRow)
open Hotspots

def occurs (pattern : HotspotPattern) (line : Text) : Bool :=
  Str.contains (Str.toAsciiLowercase pattern.text) (Str.toAsciiLowercase line)

def hitAt (number : Nat → Nat) (path line : Text) (index : Nat) (pattern : HotspotPattern) : CrateHotspotHit :=
  ⟨path,number (index + 1),pattern.kind,pattern.text,pattern.severity,(Str.trim line).take 220⟩

def lineHits (number : Nat → Nat) (path : Text) (patterns : List HotspotPattern) (numbered : Text × Nat) : List CrateHotspotHit :=
  (patterns.filter fun pattern => occurs pattern numbered.1).map (hitAt number path numbered.1 numbered.2)

/-- A hit for each pattern in each line, the lines being numbered. -/
def fileHits (number : Nat → Nat) (path content : Text) (patterns : List HotspotPattern) : List CrateHotspotHit :=
  (Str.lines content).zipIdx.flatMap (lineHits number path patterns)

def place (hit : CrateHotspotHit) : Nat × Text := (hit.line,hit.pattern)

/-! Patterns. -/

/-- A pattern does not occur in a blank line. -/
def Visible (pattern : HotspotPattern) : Prop := ∀ line, occurs pattern line = true → Str.trim line ≠ []

theorem visibleOf {pattern : HotspotPattern}
    (shown : (Str.toAsciiLowercase pattern.text).any (fun c => !Str.isWhiteSpace c) = true) : Visible pattern := by
  intro line here
  obtain ⟨c,inside,kept⟩ := List.any_eq_true.mp shown
  obtain ⟨d,mem,rfl⟩ := List.mem_map.mp ((Str.containsIff.mp here).subset inside)
  rw [Bool.not_eq_true',Str.whiteLower] at kept
  exact List.ne_nil_of_mem (Str.trimMem kept mem)

theorem patternsVisible (includeUnsafe includeConcurrency : Bool) :
    ∀ pattern ∈ hotspotPatterns includeUnsafe includeConcurrency, Visible pattern := by
  have shown : (hotspotPatterns includeUnsafe includeConcurrency).all (fun pattern =>
      (Str.toAsciiLowercase pattern.text).any fun c => !Str.isWhiteSpace c) = true := by
    cases includeUnsafe <;> cases includeConcurrency <;> decide
  exact fun pattern mem => visibleOf (List.all_eq_true.mp shown pattern mem)

theorem patternsOnce (includeUnsafe includeConcurrency : Bool) :
    ((hotspotPatterns includeUnsafe includeConcurrency).map HotspotPattern.text).Nodup := by
  cases includeUnsafe <;> cases includeConcurrency <;> decide

/-! The scan. -/

section
variable {path : Text} {patterns : List HotspotPattern} {hits : List CrateHotspotHit} {detected : Detected}

/-- After some hits, the first of each place have been kept, and their places seen. -/
structure Detects (hits : List CrateHotspotHit) (detected : Detected) : Prop where
  kept : detected.1 = Paging.firstOfEach place [] hits
  seen : ∀ k, k ∈ detected.2 ↔ k ∈ hits.map place

theorem visitsPattern (detects : Detects hits detected) (index : Nat) (line : Text) (pattern : HotspotPattern) :
    Detects (hits ++ if occurs pattern line then [hitAt u32 path line index pattern] else [])
      (visitPattern path (u32 (index + 1)) line detected pattern) := by
  unfold visitPattern
  change Detects _ (if !occurs pattern line then _ else _)
  by_cases here : occurs pattern line = true
  · rw [here,if_pos rfl]
    by_cases known : detected.2.contains (u32 (index + 1),pattern.text) = true
    · have inside : place (hitAt u32 path line index pattern) ∈ hits.map place :=
        (detects.seen _).mp (List.contains_iff_mem.mp known)
      rw [known]
      refine ⟨?_,fun k => ?_⟩
      · rw [Paging.firstConcat,if_pos (Or.inl inside),List.append_nil]
        exact detects.kept
      · rw [List.map_append,List.mem_append,← detects.seen k]
        refine ⟨Or.inl,fun either => either.elim id fun last => ?_⟩
        rw [List.mem_singleton.mp last]
        exact (detects.seen _).mpr inside
    · have outside : place (hitAt u32 path line index pattern) ∉ hits.map place := fun inside =>
        known (List.contains_iff_mem.mpr ((detects.seen _).mpr inside))
      rw [Bool.not_eq_true] at known
      rw [known]
      refine ⟨?_,fun k => ?_⟩
      · rw [Paging.firstConcat,if_neg (not_or.mpr ⟨outside,List.not_mem_nil⟩),← detects.kept]
        rfl
      · rw [List.map_append,List.mem_append,← detects.seen k]
        exact List.mem_append
  · rw [Bool.not_eq_true] at here
    rw [here,if_neg Bool.false_ne_true,List.append_nil]
    exact detects

theorem visitsPatterns (detects : Detects hits detected) (index : Nat) (line : Text) :
    Detects (hits ++ lineHits u32 path patterns (line,index))
      (patterns.foldl (visitPattern path (u32 (index + 1)) line) detected) := by
  induction patterns generalizing hits detected with
  | nil => exact (List.append_nil hits).symm ▸ detects
  | cons pattern rest ih =>
    have split : lineHits u32 path (pattern::rest) (line,index) =
        (if occurs pattern line then [hitAt u32 path line index pattern] else []) ++ lineHits u32 path rest (line,index) := by
      rw [lineHits,List.filter_cons]
      cases occurs pattern line <;> rfl
    rw [split,← List.append_assoc]
    exact ih (visitsPattern detects index line pattern)

theorem visitsLine (detects : Detects hits detected) (visible : ∀ pattern ∈ patterns, Visible pattern) (numbered : Text × Nat) :
    Detects (hits ++ lineHits u32 path patterns numbered) (visitLine path patterns detected numbered) := by
  rw [visitLine]
  split
  · rename_i blank
    have nothing : patterns.filter (fun pattern => occurs pattern numbered.1) = [] :=
      List.filter_eq_nil_iff.mpr fun pattern mem here => visible pattern mem numbered.1 here blank
    rw [lineHits,nothing,List.map_nil,List.append_nil]
    exact detects
  · exact visitsPatterns detects numbered.2 numbered.1

theorem visitsLines (detects : Detects hits detected) (visible : ∀ pattern ∈ patterns, Visible pattern)
    (numbered : List (Text × Nat)) :
    Detects (hits ++ numbered.flatMap (lineHits u32 path patterns)) (numbered.foldl (visitLine path patterns) detected) := by
  induction numbered generalizing hits detected with
  | nil => exact (List.append_nil hits).symm ▸ detects
  | cons line rest ih =>
    rw [List.flatMap_cons,← List.append_assoc]
    exact ih (visitsLine detects visible line)

theorem detectsFirst (visible : ∀ pattern ∈ patterns, Visible pattern) (content : Text) :
    detectHotspotsInFile path content patterns = Paging.firstOfEach place [] (fileHits u32 path content patterns) := by
  have start : Detects [] ([],[]) := ⟨rfl,fun k => by rw [List.map_nil]⟩
  exact (visitsLines start visible (Str.lines content).zipIdx).kept

/-! Numbers that do not wrap. -/

theorem memFile {number : Nat → Nat} {content : Text} {hit : CrateHotspotHit} :
    hit ∈ fileHits number path content patterns ↔ ∃ index line, (Str.lines content)[index]? = some line ∧
      ∃ pattern ∈ patterns, occurs pattern line = true ∧ hitAt number path line index pattern = hit := by
  simp only [fileHits,lineHits,List.mem_flatMap,List.mem_map,List.mem_filter,and_assoc,Prod.exists,List.mem_zipIdx_iff_getElem?]
  exact exists_comm

theorem lineOnce (texts : (patterns.map HotspotPattern.text).Nodup) (number : Nat → Nat) (numbered : Text × Nat) :
    ((lineHits number path patterns numbered).map place).Nodup := by
  refine List.Nodup.of_map Prod.snd ?_
  rw [lineHits,List.map_map,List.map_map]
  exact texts.sublist (List.filter_sublist.map _)

theorem fileOnce (texts : (patterns.map HotspotPattern.text).Nodup) (content : Text) :
    ((fileHits id path content patterns).map place).Nodup := by
  rw [fileHits,List.map_flatMap,List.nodup_flatMap]
  refine ⟨fun numbered _ => lineOnce texts id numbered,?_⟩
  have apart := List.pairwise_map.mp (List.nodup_zipIdx_map_snd (Str.lines content))
  refine apart.imp fun {a b} other k here there => ?_
  obtain ⟨_,mem,rfl⟩ := List.mem_map.mp here
  obtain ⟨_,mem',same⟩ := List.mem_map.mp there
  obtain ⟨_,_,rfl⟩ := List.mem_map.mp mem
  obtain ⟨_,_,rfl⟩ := List.mem_map.mp mem'
  exact other (Nat.succ_injective (congrArg Prod.fst same)).symm

theorem unwrapped {content : Text} (small : ∀ hit ∈ fileHits id path content patterns, hit.line < 2 ^ 32) :
    fileHits u32 path content patterns = fileHits id path content patterns := by
  refine List.flatMap_congr fun numbered mem => List.map_congr_left fun pattern here => ?_
  have line := small _ (List.mem_flatMap.mpr ⟨numbered,mem,List.mem_map_of_mem here⟩)
  exact congrArg (fun n => (⟨path,n,pattern.kind,pattern.text,pattern.severity,_⟩ : CrateHotspotHit)) (Nat.mod_eq_of_lt line)

/-- Where no number wraps, every occurrence is found. -/
theorem detectsAll (visible : ∀ pattern ∈ patterns, Visible pattern) (texts : (patterns.map HotspotPattern.text).Nodup)
    {content : Text} (small : ∀ hit ∈ fileHits id path content patterns, hit.line < 2 ^ 32) :
    detectHotspotsInFile path content patterns = fileHits id path content patterns := by
  rw [detectsFirst visible,unwrapped small,Paging.firstAll (fileOnce texts content)]

theorem detectedSmall (visible : ∀ pattern ∈ patterns, Visible pattern) {content : Text} {hit : CrateHotspotHit}
    (mem : hit ∈ detectHotspotsInFile path content patterns) : hit.path = path ∧ hit.line < 2 ^ 32 := by
  rw [detectsFirst visible] at mem
  obtain ⟨index,line,_,pattern,_,_,rfl⟩ := memFile.mp ((Paging.firstSublist [] _).subset mem)
  exact ⟨rfl,Nat.mod_lt _ (by decide)⟩

end

/-! Files. -/

def spot (hit : CrateHotspotHit) : Text × Nat × Text := (hit.path,hit.line,hit.pattern)

/-- Hits at different places of files of different paths are at different spots. -/
theorem spotsOnce {rows : List SourceFileRow} {hitsOf : SourceFileRow → List CrateHotspotHit}
    (paths : (rows.map SourceFileRow.path).Nodup) (own : ∀ row, ∀ hit ∈ hitsOf row, hit.path = row.path)
    (once : ∀ row, ((hitsOf row).map place).Nodup) : ((rows.flatMap hitsOf).map spot).Nodup := by
  rw [List.map_flatMap,List.nodup_flatMap]
  constructor
  · intro row _
    refine List.Nodup.of_map Prod.snd ?_
    rw [List.map_map]
    exact once row
  · refine (List.pairwise_map.mp paths).imp fun {a b} other k here there => ?_
    obtain ⟨hit,mem,rfl⟩ := List.mem_map.mp here
    obtain ⟨hit',mem',same⟩ := List.mem_map.mp there
    exact other (((own a hit mem).symm.trans (congrArg Prod.fst same).symm).trans (own b hit' mem'))

section
variable (read : Text → Option Text) (patterns : List HotspotPattern)

/-- The hits in a file that can be read, its lines counted without end. -/
def rowHits (row : SourceFileRow) : List CrateHotspotHit :=
  match read row.path with
  | none => []
  | some content => fileHits id row.path content patterns

def rowScan (row : SourceFileRow) : List CrateHotspotHit :=
  match read row.path with
  | none => []
  | some content => detectHotspotsInFile row.path content patterns

variable {read patterns}

theorem memRow {row : SourceFileRow} {hit : CrateHotspotHit} : hit ∈ rowHits read patterns row ↔
    ∃ content, read row.path = some content ∧ hit ∈ fileHits id row.path content patterns := by
  unfold rowHits
  split
  · rename_i unread
    simp [unread]
  · rename_i content found
    simp [found]

theorem hitsOnce (texts : (patterns.map HotspotPattern.text).Nodup) {rows : List SourceFileRow}
    (paths : (rows.map SourceFileRow.path).Nodup) : ((rows.flatMap (rowHits read patterns)).map spot).Nodup := by
  refine spotsOnce paths (fun row hit mem => ?_) fun row => ?_
  · obtain ⟨content,_,inside⟩ := memRow.mp mem
    obtain ⟨_,_,_,_,_,_,rfl⟩ := memFile.mp inside
    rfl
  · unfold rowHits
    split
    · exact List.nodup_nil
    · exact fileOnce texts _

theorem scannedRow (visible : ∀ pattern ∈ patterns, Visible pattern) {row : SourceFileRow} {hit : CrateHotspotHit}
    (mem : hit ∈ rowScan read patterns row) : hit.path = row.path ∧ hit.line < 2 ^ 32 := by
  unfold rowScan at mem
  split at mem
  · contradiction
  · exact detectedSmall visible mem

theorem scansAll (visible : ∀ pattern ∈ patterns, Visible pattern) (texts : (patterns.map HotspotPattern.text).Nodup)
    {row : SourceFileRow} (small : ∀ hit ∈ rowHits read patterns row, hit.line < 2 ^ 32) :
    rowScan read patterns row = rowHits read patterns row := by
  unfold rowScan rowHits at *
  split
  · rfl
  · rename_i content found
    rw [found] at small
    exact detectsAll visible texts small

end

end RustMcp.HotspotScan
