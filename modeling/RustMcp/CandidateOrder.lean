import RustMcp.LocalCache
import RustMcp.Semver

/-! The comparison that orders the candidates of a sync, newest version first. It
is written twice in the source, by directory name and by crate name; here it is
one definition, which compares the keys that both syncs sort by. -/
namespace RustMcp.CandidateOrder
open Str (Text)
open RustdocSync LocalCache

section
variable {C V : Type} [LinearOrder V] (parse : Text → Option V) (name version : C → Text)

/-- The `match (rv, lv)` of both syncs. -/
def compareVersions (left right : C) : Ordering :=
  match parse (version right),parse (version left) with
  | some r, some l => cmp r l
  | some _, none => .lt
  | none, some _ => .gt
  | none, none => cmp (name left) (name right)

/-- `sort_by` is stable. -/
def sortBy (compare : C → C → Ordering) (candidates : List C) : List C :=
  candidates.insertionSort fun left right => compare left right ≠ .gt

end

def compareLocal {V : Type} [LinearOrder V] (parse : Text → Option V) : SourceDir → SourceDir → Ordering :=
  compareVersions parse (fun dir => dir.dir.name) (fun dir => dir.row.version)

def compareRustdoc {V : Type} [LinearOrder V] (parse : Text → Option V) :
    RustdocSyncCandidateRow → RustdocSyncCandidateRow → Ordering :=
  compareVersions parse RustdocSyncCandidateRow.crateName RustdocSyncCandidateRow.version

section
variable {C V : Type} [LinearOrder V] {parse : Text → Option V} {name version : C → Text}

def orderKey (parse : Text → Option V) (name version : C → Text) (c : C) : Bool ×ₗ Text ×ₗ (WithBot V)ᵒᵈ :=
  newestFirst parse (name c) (version c)

/-! The comparison is the order of the keys. -/

theorem bareKey {c : C} (bare : parse (version c) = none) :
    orderKey parse name version c = toLex (false,toLex (name c,OrderDual.toDual ⊥)) := by
  simp only [orderKey,newestFirst,bare]
  rfl

theorem parsedKey {c : C} {v : V} (parsed : parse (version c) = some v) :
    orderKey parse name version c = toLex (true,toLex ([],OrderDual.toDual (v : WithBot V))) := by
  simp only [orderKey,newestFirst,parsed]
  rfl

theorem bareBefore {c other : C} {v : V} (bare : parse (version c) = none) (parsed : parse (version other) = some v) :
    orderKey parse name version c < orderKey parse name version other := by
  rw [bareKey bare,parsedKey parsed]
  exact Prod.Lex.toLex_lt_toLex.mpr (Or.inl Bool.false_lt_true)

theorem bareLe {c other : C} (bare : parse (version c) = none) (bare' : parse (version other) = none) :
    orderKey parse name version c ≤ orderKey parse name version other ↔ name c ≤ name other := by
  rw [bareKey bare,bareKey bare',Prod.Lex.toLex_le_toLex]
  simp only [lt_self_iff_false,true_and,false_or,Prod.Lex.toLex_le_toLex,le_refl,and_true]
  exact le_iff_lt_or_eq.symm

theorem parsedLe {c other : C} {v w : V} (parsed : parse (version c) = some v) (parsed' : parse (version other) = some w) :
    orderKey parse name version c ≤ orderKey parse name version other ↔ w ≤ v := by
  rw [parsedKey parsed,parsedKey parsed',Prod.Lex.toLex_le_toLex]
  simp only [lt_self_iff_false,true_and,false_or,Prod.Lex.toLex_le_toLex,OrderDual.toDual_le_toDual,WithBot.coe_le_coe]

theorem namesLe (a b : Text) : cmp a b ≠ .gt ↔ a ≤ b := by
  have compared : (cmp a b).Compares a b := by convert cmp_compares a b <;> rfl
  exact compared.ne_gt

theorem notAfter {left right : C} : compareVersions parse name version left right ≠ .gt ↔
    orderKey parse name version left ≤ orderKey parse name version right := by
  unfold compareVersions
  cases l : parse (version left) <;> cases r : parse (version right)
  · exact (namesLe _ _).trans (bareLe l r).symm
  · exact iff_of_true (by simp) (bareBefore l r).le
  · exact iff_of_false (by simp) (bareBefore r l).not_ge
  · rw [parsedLe l r,Ne,cmp_eq_gt_iff,not_lt]

theorem comparedTotal : Std.TransCmp (compareVersions parse name version) where
  eq_swap {left right} := by
    unfold compareVersions
    cases parse (version left) <;> cases parse (version right) <;> simp [cmp_swap]
  isLE_trans {first second third} before after := by
    have ordered := (notAfter.mp (Ordering.isLE_iff_ne_gt.mp before)).trans (notAfter.mp (Ordering.isLE_iff_ne_gt.mp after))
    exact Ordering.isLE_iff_ne_gt.mpr (notAfter.mpr ordered)

theorem sortedByKey (candidates : List C) :
    sortBy (compareVersions parse name version) candidates = Ranking.sortBy (orderKey parse name version) candidates := by
  unfold sortBy Ranking.sortBy
  simp only [notAfter]

/-! What the order was meant to give, and what it gives. -/

/-- Newest version first, and after them, by name, what has none. -/
structure NewestThenUnparsed (parse : Text → Option V) (name version : C → Text) (sorted parsed unparsed : List C) : Prop where
  whole : sorted = parsed ++ unparsed
  versions : ∀ c ∈ parsed, (parse (version c)).isSome
  descending : parsed.Pairwise fun c later => ∀ v ∈ parse (version c), ∀ w ∈ parse (version later), w ≤ v
  bare : ∀ c ∈ unparsed, parse (version c) = none
  alphabetical : unparsed.Pairwise fun c later => name c ≤ name later

def SortsAsStated (parse : Text → Option V) (name version : C → Text) (compare : C → C → Ordering) (candidates : List C) : Prop :=
  Std.TransCmp compare ∧ ∃ parsed unparsed, NewestThenUnparsed parse name version (sortBy compare candidates) parsed unparsed

/-- Some version parses and some does not. -/
def Mixed (parse : Text → Option V) (version : C → Text) (candidates : List C) : Prop :=
  (∃ c ∈ candidates, (parse (version c)).isSome) ∧ ∃ c ∈ candidates, parse (version c) = none

theorem memSorted {compare : C → C → Ordering} {candidates : List C} {c : C} :
    c ∈ sortBy compare candidates ↔ c ∈ candidates :=
  List.mem_insertionSort _

/-- What does not parse stands before everything that does. -/
theorem bareFirst (candidates : List C) :
    (sortBy (compareVersions parse name version) candidates).Pairwise fun c later =>
      parse (version later) = none → parse (version c) = none := by
  rw [sortedByKey]
  refine (Ranking.sortBySorted _ _).imp fun {c later} ordered bare => ?_
  by_contra parsed
  obtain ⟨v,parsed⟩ := Option.ne_none_iff_exists'.mp parsed
  exact ordered.not_gt (bareBefore bare parsed)

/-- One of each kind would each have to come before the other. -/
theorem notMixed {candidates parsed unparsed : List C}
    (stated : NewestThenUnparsed parse name version (sortBy (compareVersions parse name version) candidates) parsed unparsed) :
    ¬ Mixed parse version candidates := by
  have placed {c : C} (mem : c ∈ candidates) : c ∈ parsed ∨ c ∈ unparsed := by
    have inside : c ∈ sortBy (compareVersions parse name version) candidates := memSorted.mpr mem
    rw [stated.whole] at inside
    exact List.mem_append.mp inside
  have ordered : (parsed ++ unparsed).Pairwise fun c later => parse (version later) = none → parse (version c) = none :=
    stated.whole ▸ bareFirst candidates
  rintro ⟨⟨c,mem,has⟩,other,mem',bare⟩
  have early : c ∈ parsed := (placed mem).resolve_right fun late => by
    rw [stated.bare c late] at has
    cases has
  have late : other ∈ unparsed := (placed mem').resolve_left fun early => by
    have some_ := stated.versions other early
    rw [bare] at some_
    cases some_
  rw [(List.pairwise_append.mp ordered).2.2 c early other late bare] at has
  cases has

theorem parsedOnly {candidates : List C} (all : ∀ c ∈ candidates, (parse (version c)).isSome) :
    NewestThenUnparsed parse name version (sortBy (compareVersions parse name version) candidates)
      (sortBy (compareVersions parse name version) candidates) [] where
  whole := (List.append_nil _).symm
  versions c mem := all c (memSorted.mp mem)
  descending := by
    rw [sortedByKey]
    refine (Ranking.sortBySorted _ _).imp fun {c later} ordered v parsed w parsed' => ?_
    exact (parsedLe parsed parsed').mp ordered
  bare := by simp
  alphabetical := List.Pairwise.nil

theorem bareOnly {candidates : List C} (all : ∀ c ∈ candidates, parse (version c) = none) :
    NewestThenUnparsed parse name version (sortBy (compareVersions parse name version) candidates)
      [] (sortBy (compareVersions parse name version) candidates) where
  whole := rfl
  versions := by simp
  descending := List.Pairwise.nil
  bare c mem := all c (memSorted.mp mem)
  alphabetical := by
    rw [sortedByKey]
    refine (Ranking.sortBySorted _ _).imp_of_mem fun {c later} mem mem' ordered => ?_
    exact (bareLe (all c (Ranking.memSortBy.mp mem)) (all later (Ranking.memSortBy.mp mem'))).mp ordered

theorem statedIff (candidates : List C) :
    SortsAsStated parse name version (compareVersions parse name version) candidates ↔ ¬ Mixed parse version candidates := by
  constructor
  · rintro ⟨_,parsed,unparsed,stated⟩
    exact notMixed stated
  · intro pure_
    refine ⟨comparedTotal,?_⟩
    by_cases some_ : ∃ c ∈ candidates, (parse (version c)).isSome
    · refine ⟨_,_,parsedOnly fun c mem => ?_⟩
      by_contra bare
      exact pure_ ⟨some_,c,mem,by simpa using bare⟩
    · exact ⟨_,_,bareOnly fun c mem => by simpa using fun has => some_ ⟨c,mem,has⟩⟩

end

section
variable {V : Type} [LinearOrder V] (parse : Text → Option V)

theorem candidateOrdersIff (dirs : List SourceDir) (rows : List RustdocSyncCandidateRow) :
    (SortsAsStated parse (fun dir => dir.dir.name) (fun dir => dir.row.version) (compareLocal parse) dirs ↔
      ¬ Mixed parse (fun dir => dir.row.version) dirs) ∧
    (SortsAsStated parse RustdocSyncCandidateRow.crateName RustdocSyncCandidateRow.version (compareRustdoc parse) rows ↔
      ¬ Mixed parse RustdocSyncCandidateRow.version rows) :=
  ⟨statedIff dirs,statedIff rows⟩

end

/-- A release and a version that is none, each found in its directory. -/
def releaseDir : SourceDir := ⟨0,⟨1,"a".toList,"1.0.0".toList,none,true,none,none⟩,⟨"a-1.0.0".toList,true,.ok []⟩⟩

def strayDir : SourceDir := ⟨1,⟨2,"b".toList,"x".toList,none,true,none,none⟩,⟨"b-x".toList,true,.ok []⟩⟩

theorem strayComesFirst :
    ¬ SortsAsStated Semver.release (fun dir => dir.dir.name) (fun dir => dir.row.version) (compareLocal Semver.release)
      [releaseDir,strayDir] ∧
    ¬ SortsAsStated Semver.release RustdocSyncCandidateRow.crateName RustdocSyncCandidateRow.version
      (compareRustdoc Semver.release) [releaseDir.row.candidate,strayDir.row.candidate] ∧
    sortBy (compareRustdoc Semver.release) [releaseDir.row.candidate,strayDir.row.candidate] =
      [strayDir.row.candidate,releaseDir.row.candidate] := by
  have parsed : (Semver.release releaseDir.row.version).isSome := by decide
  have bare : Semver.release strayDir.row.version = none := by decide
  refine ⟨fun stated => ?_,fun stated => ?_,by decide⟩
  · exact (statedIff _).mp stated ⟨⟨releaseDir,by simp,parsed⟩,strayDir,by simp,bare⟩
  · exact (statedIff _).mp stated ⟨⟨_,List.mem_cons_self,parsed⟩,strayDir.row.candidate,by simp,bare⟩

/-! The two syncs sort by this comparison. -/

theorem pageCompared {V B : Type} [LinearOrder V] (env : Env V B) (lower : Text → Text) (now : Nat)
    (filter : RustdocCandidateFilter) (page perPage : Option Nat) (rows : List CrateVersion) :
    pageCandidates env lower now filter page perPage rows =
      sortBy (compareRustdoc env.parseVersion)
        ((fetchRustdocSyncCandidates lower now filter (Utils.syncPerPage perPage)
          (min ((Utils.syncPage page - 1) * Utils.syncPerPage perPage) (2 ^ 32 - 1)) rows).map CrateVersion.candidate) :=
  (sortedByKey _).symm

/-- With ties left in place, the place of a directory need not be compared. -/
theorem dirsCompared {V : Type} [LinearOrder V] (parse : Text → Option V) (keys : List CrateVersion) (disk : SourceDisk) :
    Ranking.sortBy (dirOrder parse) (sourceDirs keys disk) = sortBy (compareLocal parse) (sourceDirs keys disk) := by
  have numbered : (sourceDirs keys disk).Pairwise fun dir later => dir.found < later.found := by
    unfold sourceDirs
    rw [List.pairwise_iff_getElem]
    intro i j inside inside' before
    simpa using before
  unfold compareLocal
  rw [sortedByKey]
  exact Ranking.sortByPlace (orderKey parse (fun dir : SourceDir => dir.dir.name) fun dir => dir.row.version) SourceDir.found numbered

theorem selectedCompared {V : Type} [LinearOrder V] (parse : Text → Option V) (lower : Text → Text) (crateName : Option Text)
    (page perPage : Option Nat) (locallyPresentOnly : Bool) (disk : SourceDisk) (rows : List CrateVersion) :
    selectedDirs parse lower crateName page perPage locallyPresentOnly disk rows =
      ((sortBy (compareLocal parse)
        (sourceDirs (fetchLocalCacheVersionKeys lower crateName none locallyPresentOnly rows) disk)).drop
          (pageOffset page perPage)).take (Utils.syncPerPage perPage) := by
  rw [selectedDirs,dirsCompared]

end RustMcp.CandidateOrder
