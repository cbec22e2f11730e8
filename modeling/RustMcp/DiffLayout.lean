import RustMcp.ApiDiff

/-! Which row stands for a name and kind, and when the comparison depends on the
layout of the sources: on line numbers and row ids. -/
namespace RustMcp.ApiDiff
open Str (Text)

/-! Picking rows. -/

theorem keepFirstFrom {α β : Type} (read : α → β) (first : β) (xs : List α) :
    xs.foldl (keepFirst read) (some first) = some first := by
  induction xs with
  | nil => rfl
  | cons x xs ih => exact ih

theorem keepFirstHead {α β : Type} (read : α → β) (xs : List α) :
    xs.foldl (keepFirst read) none = xs.head?.map read := by
  cases xs with
  | nil => rfl
  | cons x xs => exact keepFirstFrom read (read x) xs

/-- The sorted rows of a name and kind. -/
def group (symbols : Symbols) (crateVersionId : Int) (k : Text ×ₗ Text) : List SymbolRow :=
  (Ranking.sortBy orderKey (visibleRows symbols crateVersionId)).filter (fun row => rowKey row.apiRow = k)

theorem listedAt (symbols : Symbols) (crateVersionId : Int) (k : Text ×ₗ Text) :
    (listApiDiffSymbolsForVersion symbols crateVersionId).filter (fun row => rowKey row = k) =
      ((group symbols crateVersionId k).head?.map SymbolRow.apiRow).toList := by
  unfold listApiDiffSymbolsForVersion
  rw [Keyed.valuesAt,Keyed.collectAt,keepFirstHead,group]
  intro key row mem
  rw [Keyed.collectMem,keepFirstHead] at mem
  obtain ⟨first,isFirst,rfl⟩ := Option.map_eq_some_iff.mp mem
  simpa using (List.mem_filter.mp (List.mem_of_mem_head? isFirst)).2

theorem keepHigherOnce {rows : List ApiDiffSymbolRow} (once : rows.length ≤ 1) :
    rows.foldl keepHigher none = rows.head?.map (fun row => (symbolRowPriority row,row)) := by
  match rows,once with
  | [],_ => rfl
  | [_],_ => rfl

/-- Rows that are alone with their key pass the choice by priority. -/
theorem prioritizedAt {rows : List ApiDiffSymbolRow}
    (once : ∀ k, (rows.filter (fun row => rowKey row = k)).length ≤ 1) (k : Text ×ₗ Text) :
    (prioritizeSymbolRows rows).filter (fun row => rowKey row = k) = rows.filter (fun row => rowKey row = k) := by
  have values := Keyed.valuesAt (Keyed.collect rowKey keepHigher rows) (fun v => rowKey v.2) ?_ k
  · rw [Keyed.collectAt,keepHigherOnce (once k)] at values
    rw [prioritizeSymbolRows,List.filter_map]
    refine (congrArg (List.map Prod.snd) values).trans ?_
    have short := once k
    match rows.filter (fun row => rowKey row = k),short with
    | [],_ => rfl
    | [_],_ => rfl
  · intro key v mem
    rw [Keyed.collectMem,keepHigherOnce (once key)] at mem
    obtain ⟨first,isFirst,rfl⟩ := Option.map_eq_some_iff.mp mem
    simpa using (List.mem_filter.mp (List.mem_of_mem_head? isFirst)).2

theorem mappedAt (symbols : Symbols) (crateVersionId : Int) (k : Text ×ₗ Text) :
    (mapSymbols (listApiDiffSymbolsForVersion symbols crateVersionId))[k]? =
      (group symbols crateVersionId k).head?.map (fun row => fingerprint row.apiRow) := by
  have once : ∀ k, ((listApiDiffSymbolsForVersion symbols crateVersionId).filter
      (fun row => rowKey row = k)).length ≤ 1 := fun k => by
    rw [listedAt]
    cases (group symbols crateVersionId k).head? <;> simp
  rw [mapSymbols,Keyed.collectAt,prioritizedAt once,listedAt,keepFirstHead]
  cases (group symbols crateVersionId k).head? <;> rfl

/-- The row that comes first among the visible rows of its name and kind. -/
def First (symbols : Symbols) (crateVersionId : Int) (row : SymbolRow) : Prop :=
  row ∈ visibleRows symbols crateVersionId ∧
  ∀ other ∈ visibleRows symbols crateVersionId, rowKey other.apiRow = rowKey row.apiRow → orderKey row ≤ orderKey other

theorem groupMem {symbols : Symbols} {crateVersionId : Int} {k : Text ×ₗ Text} {row : SymbolRow} :
    row ∈ group symbols crateVersionId k ↔ row ∈ visibleRows symbols crateVersionId ∧ rowKey row.apiRow = k := by
  simp [group,Ranking.memSortBy]

theorem groupHead {symbols : Symbols} {crateVersionId : Int} {k : Text ×ₗ Text} {row : SymbolRow}
    (head : (group symbols crateVersionId k).head? = some row) :
    First symbols crateVersionId row ∧ rowKey row.apiRow = k := by
  obtain ⟨inside,rfl⟩ := groupMem.mp (List.mem_of_mem_head? head)
  obtain ⟨rest,shape⟩ := List.head?_eq_some_iff.mp head
  have sorted : (group symbols crateVersionId (rowKey row.apiRow)).Pairwise (fun a b => orderKey a ≤ orderKey b) :=
    (Ranking.sortBySorted orderKey _).filter _
  refine ⟨⟨inside,fun other mem same => ?_⟩,rfl⟩
  have mem := groupMem.mpr ⟨mem,same⟩
  rw [shape] at mem sorted
  rcases List.mem_cons.mp mem with rfl | later
  · exact le_refl _
  · exact (List.pairwise_cons.mp sorted).1 other later

/-- Row ids break every tie, so the first row is unique. -/
theorem firstUnique {symbols : Symbols} {crateVersionId : Int} {a b : SymbolRow} (ha : First symbols crateVersionId a)
    (hb : First symbols crateVersionId b) (same : rowKey a.apiRow = rowKey b.apiRow) : a = b := by
  have order : orderKey a = orderKey b := le_antisymm (ha.2 b hb.1 same.symm) (hb.2 a ha.1 same)
  have ids : a.id = b.id := by
    simp only [orderKey,layoutRank,EmbeddingLike.apply_eq_iff_eq,Prod.mk.injEq] at order
    exact order.2.2.2.2
  exact List.inj_on_of_nodup_map symbols.unique (List.mem_filter.mp ha.1).1 (List.mem_filter.mp hb.1).1 ids

theorem groupHeadIff {symbols : Symbols} {crateVersionId : Int} {k : Text ×ₗ Text} {row : SymbolRow} :
    (group symbols crateVersionId k).head? = some row ↔ First symbols crateVersionId row ∧ rowKey row.apiRow = k := by
  refine ⟨groupHead,fun ⟨first,same⟩ => ?_⟩
  cases head : (group symbols crateVersionId k).head? with
  | none =>
    have mem := groupMem.mpr ⟨first.1,same⟩
    rw [List.head?_eq_none_iff.mp head] at mem
    simp at mem
  | some other =>
    obtain ⟨otherFirst,otherSame⟩ := groupHead head
    rw [firstUnique otherFirst first (otherSame.trans same.symm)]

/-! Two versions with the same visible symbols. -/

def contents (symbols : Symbols) (crateVersionId : Int) : List ApiDiffSymbolRow :=
  (visibleRows symbols crateVersionId).map SymbolRow.apiRow

def SameContents (symbols : Symbols) (fromId toId : Int) : Prop :=
  (contents symbols fromId).Perm (contents symbols toId)

def FirstsAgree (symbols : Symbols) (fromId toId : Int) : Prop :=
  ∀ a b, First symbols fromId a → First symbols toId b → rowKey a.apiRow = rowKey b.apiRow →
    fingerprint a.apiRow = fingerprint b.apiRow

theorem groupEmpty {symbols : Symbols} {crateVersionId : Int} {k : Text ×ₗ Text} :
    (group symbols crateVersionId k).head? = none ↔ ∀ row ∈ contents symbols crateVersionId, rowKey row ≠ k := by
  rw [List.head?_eq_none_iff,List.eq_nil_iff_forall_not_mem]
  constructor
  · intro empty row mem same
    obtain ⟨full,inside,rfl⟩ := List.mem_map.mp mem
    exact empty full (groupMem.mpr ⟨inside,same⟩)
  · intro absent row mem
    obtain ⟨inside,same⟩ := groupMem.mp mem
    exact absent row.apiRow (List.mem_map_of_mem inside) same

theorem noChangeIffFirsts {symbols : Symbols} {fromId toId : Int} (same : SameContents symbols fromId toId) :
    NoChange (crateApiDiff symbols fromId toId) ↔ FirstsAgree symbols fromId toId := by
  rw [crateApiDiff,noChangeIff]
  simp only [mappedAt]
  constructor
  · intro equal a b ha hb keys
    have entry := equal (rowKey b.apiRow)
    rw [groupHeadIff.mpr ⟨ha,keys⟩,groupHeadIff.mpr ⟨hb,rfl⟩] at entry
    exact Option.some.inj entry
  · intro agree k
    cases left : (group symbols fromId k).head? with
    | none =>
      have absent := groupEmpty.mp left
      rw [groupEmpty.mpr fun row mem => absent row (same.mem_iff.mpr mem)]
    | some a =>
      cases right : (group symbols toId k).head? with
      | none =>
        have absent := groupEmpty.mp right
        rw [groupEmpty.mpr fun row mem => absent row (same.mem_iff.mp mem)] at left
        contradiction
      | some b =>
        obtain ⟨ha,ka⟩ := groupHead left
        obtain ⟨hb,kb⟩ := groupHead right
        exact congrArg some (agree a b ha hb (ka.trans kb.symm))

/-! What the layout can decide: any of the rows whose source and signature rank first. -/

def Foremost (rows : List ApiDiffSymbolRow) (row : ApiDiffSymbolRow) : Prop :=
  row ∈ rows ∧ ∀ other ∈ rows, rowKey other = rowKey row → contentRank row ≤ contentRank other

def Uniform (rows : List ApiDiffSymbolRow) : Prop :=
  ∀ a b, Foremost rows a → Foremost rows b → rowKey a = rowKey b → fingerprint a = fingerprint b

def LayoutFree (rows : List ApiDiffSymbolRow) : Prop :=
  ∀ symbols fromId toId, (contents symbols fromId).Perm rows → (contents symbols toId).Perm rows →
    NoChange (crateApiDiff symbols fromId toId)

theorem firstForemost {symbols : Symbols} {crateVersionId : Int} {row : SymbolRow} {rows : List ApiDiffSymbolRow}
    (same : (contents symbols crateVersionId).Perm rows) (first : First symbols crateVersionId row) :
    Foremost rows row.apiRow := by
  refine ⟨same.mem_iff.mp (List.mem_map_of_mem first.1),fun other mem keys => ?_⟩
  obtain ⟨full,inside,rfl⟩ := List.mem_map.mp (same.mem_iff.mpr mem)
  have order := first.2 full inside keys
  rw [orderKey,orderKey,keys,Prod.Lex.toLex_le_toLex] at order
  rcases order with less | ⟨_,order⟩
  · exact absurd less (lt_irrefl _)
  · rcases Prod.Lex.toLex_le_toLex.mp order with less | ⟨equal,_⟩
    · exact le_of_lt less
    · exact le_of_eq equal

theorem uniformLayoutFree {rows : List ApiDiffSymbolRow} (uniform : Uniform rows) : LayoutFree rows := by
  intro symbols fromId toId left right
  refine (noChangeIffFirsts (left.trans right.symm)).mpr fun a b ha hb keys => ?_
  exact uniform a.apiRow b.apiRow (firstForemost left ha) (firstForemost right hb) keys

/-! Any foremost row comes first in a version that declares it first. -/

/-- Row `i` of version 0 or 1. -/
def declareRow (crateVersionId : Int) (entry : ApiDiffSymbolRow × Nat) : SymbolRow :=
  ⟨2 * entry.2 + crateVersionId,crateVersionId,entry.1.name,entry.1.kind,entry.1.signature,entry.1.visibility,
    entry.2,entry.2,entry.1.indexSource⟩

/-- Rows as the symbols of a version, declared in the order of the list. -/
def declare (crateVersionId : Int) (rows : List ApiDiffSymbolRow) : List SymbolRow :=
  rows.zipIdx.map (declareRow crateVersionId)

theorem declareContents (crateVersionId : Int) (rows : List ApiDiffSymbolRow) :
    (declare crateVersionId rows).map SymbolRow.apiRow = rows := by
  rw [declare,List.map_map]
  exact List.zipIdx_map_fst 0 rows

theorem declareVersion {crateVersionId : Int} {rows : List ApiDiffSymbolRow} {row : SymbolRow}
    (mem : row ∈ declare crateVersionId rows) :
    row.crateVersionId = crateVersionId ∧ ∃ i : Nat, row.id = 2 * i + crateVersionId := by
  obtain ⟨entry,_,rfl⟩ := List.mem_map.mp mem
  exact ⟨rfl,entry.2,rfl⟩

theorem declareIds (crateVersionId : Int) (rows : List ApiDiffSymbolRow) :
    ((declare crateVersionId rows).map SymbolRow.id).Nodup := by
  have ids : (declare crateVersionId rows).map SymbolRow.id =
      (rows.zipIdx.map Prod.snd).map (fun i : Nat => 2 * (i : Int) + crateVersionId) := by
    rw [declare,List.map_map,List.map_map]
    rfl
  rw [ids,List.zipIdx_map_snd]
  exact List.Nodup.map (fun i j equal => by omega) List.nodup_range'

/-- A table with version 0 declared in one order and version 1 in another. -/
def declareBoth (rows rows' : List ApiDiffSymbolRow) : Symbols where
  rows := declare 0 rows ++ declare 1 rows'
  unique := by
    rw [List.map_append]
    refine List.Nodup.append (declareIds 0 rows) (declareIds 1 rows') fun id left right => ?_
    obtain ⟨a,ha,rfl⟩ := List.mem_map.mp left
    obtain ⟨b,hb,same⟩ := List.mem_map.mp right
    obtain ⟨_,i,even⟩ := declareVersion ha
    obtain ⟨_,j,odd⟩ := declareVersion hb
    omega

theorem visibleDeclared {rows rows' : List ApiDiffSymbolRow}
    (shown : ∀ row ∈ rows, row.visibility = some "public".toList ∨ row.visibility = none) (perm : rows'.Perm rows) :
    visibleRows (declareBoth rows rows') 0 = declare 0 rows ∧ visibleRows (declareBoth rows rows') 1 = declare 1 rows' := by
  have shows : ∀ v row, row ∈ declare v rows ∨ row ∈ declare v rows' → visible row = true := by
    rintro v row mem
    have inside : row.apiRow ∈ rows := by
      rcases mem with mem | mem
      · rw [← declareContents v rows]; exact List.mem_map_of_mem mem
      · rw [← perm.mem_iff,← declareContents v rows']; exact List.mem_map_of_mem mem
    rw [visible,Bool.or_eq_true,decide_eq_true_eq,decide_eq_true_eq]
    exact shown row.apiRow inside
  unfold visibleRows declareBoth
  simp only [List.filter_append]
  refine ⟨?_,?_⟩
  · rw [List.filter_eq_self.mpr,List.filter_eq_nil_iff.mpr,List.append_nil]
    · intro row mem
      simp [(declareVersion mem).1]
    · intro row mem
      simp [(declareVersion mem).1,shows 0 row (Or.inl mem)]
  · rw [List.filter_eq_nil_iff.mpr,List.filter_eq_self.mpr,List.nil_append]
    · intro row mem
      simp [(declareVersion mem).1,shows 1 row (Or.inr mem)]
    · intro row mem
      simp [(declareVersion mem).1]

/-- The row on the first line is picked, if it is among the foremost. -/
theorem declaredFirst {symbols : Symbols} {crateVersionId : Int} {a : ApiDiffSymbolRow} {rest : List ApiDiffSymbolRow}
    (rows : visibleRows symbols crateVersionId = declare crateVersionId (a::rest)) (foremost : Foremost (a::rest) a) :
    First symbols crateVersionId (declareRow crateVersionId (a,0)) := by
  rw [First,rows]
  refine ⟨List.mem_map_of_mem (by simp),fun other mem keys => ?_⟩
  obtain ⟨⟨row,i⟩,inside,rfl⟩ := List.mem_map.mp mem
  have mem : row ∈ a::rest := List.fst_mem_of_mem_zipIdx inside
  have keys : rowKey row = rowKey a := keys
  have rank : contentRank a ≤ contentRank row := foremost.2 row mem keys
  refine Prod.Lex.toLex_le_toLex.mpr (Or.inr ⟨keys.symm,Prod.Lex.toLex_le_toLex.mpr ?_⟩)
  rcases lt_or_eq_of_le rank with less | equal
  · exact Or.inl less
  · refine Or.inr ⟨equal,Prod.Lex.toLex_le_toLex.mpr ?_⟩
    cases i with
    | zero =>
      exact Or.inr ⟨rfl,Prod.Lex.toLex_le_toLex.mpr (Or.inr ⟨rfl,le_refl _⟩)⟩
    | succ i => exact Or.inl (by simp only [declareRow]; omega)

theorem foremostPerm {rows rows' : List ApiDiffSymbolRow} (perm : rows.Perm rows') {row : ApiDiffSymbolRow}
    (foremost : Foremost rows row) : Foremost rows' row :=
  ⟨perm.mem_iff.mp foremost.1,fun other mem => foremost.2 other (perm.mem_iff.mpr mem)⟩

theorem contentsShown {symbols : Symbols} {crateVersionId : Int} {row : ApiDiffSymbolRow}
    (mem : row ∈ contents symbols crateVersionId) : row.visibility = some "public".toList ∨ row.visibility = none := by
  obtain ⟨full,inside,rfl⟩ := List.mem_map.mp mem
  have shown := (Bool.and_eq_true_iff.mp (List.mem_filter.mp inside).2).2
  rw [visible,Bool.or_eq_true,decide_eq_true_eq,decide_eq_true_eq] at shown
  exact shown

theorem layoutFreeUniform {rows : List ApiDiffSymbolRow}
    (shown : ∀ row ∈ rows, row.visibility = some "public".toList ∨ row.visibility = none) (free : LayoutFree rows) :
    Uniform rows := by
  intro a b ha hb keys
  have aFirst : (a::rows.erase a).Perm rows := (List.perm_cons_erase ha.1).symm
  have bFirst : (b::rows.erase b).Perm rows := (List.perm_cons_erase hb.1).symm
  obtain ⟨left,right⟩ := visibleDeclared (fun row mem => shown row (aFirst.mem_iff.mp mem)) (bFirst.trans aFirst.symm)
  have leftSame : (contents (declareBoth (a::rows.erase a) (b::rows.erase b)) 0).Perm rows := by
    rw [contents,left,declareContents]; exact aFirst
  have rightSame : (contents (declareBoth (a::rows.erase a) (b::rows.erase b)) 1).Perm rows := by
    rw [contents,right,declareContents]; exact bFirst
  have agree := (noChangeIffFirsts (leftSame.trans rightSame.symm)).mp (free _ 0 1 leftSame rightSame)
  exact agree _ _ (declaredFirst left (foremostPerm aFirst.symm ha)) (declaredFirst right (foremostPerm bFirst.symm hb)) keys

/-- The comparison of versions with these contents is free of their layout where the
foremost rows of each name and kind have one signature and visibility. Two versions with
equal contents compare as unchanged where the rows that come first agree. -/
theorem layoutFreeIffUniform (symbols : Symbols) (fromId toId : Int) :
    (LayoutFree (contents symbols fromId) ↔ Uniform (contents symbols fromId)) ∧
    ((SameContents symbols fromId toId → NoChange (crateApiDiff symbols fromId toId)) ↔
      (SameContents symbols fromId toId → FirstsAgree symbols fromId toId)) :=
  ⟨⟨layoutFreeUniform fun _ => contentsShown,uniformLayoutFree⟩,forall_congr' noChangeIffFirsts⟩

/-- Two constructors, `Reader::new` before `Writer::new` in version 1 and after it in version 2. -/
def twoConstructors : Symbols where
  rows := [
    ⟨1,1,"new".toList,"fn".toList,some "fn new() -> Reader".toList,some "public".toList,10,12,"rustdoc_json".toList⟩,
    ⟨2,1,"new".toList,"fn".toList,some "fn new() -> Writer".toList,some "public".toList,20,22,"rustdoc_json".toList⟩,
    ⟨3,2,"new".toList,"fn".toList,some "fn new() -> Reader".toList,some "public".toList,20,22,"rustdoc_json".toList⟩,
    ⟨4,2,"new".toList,"fn".toList,some "fn new() -> Writer".toList,some "public".toList,10,12,"rustdoc_json".toList⟩]
  unique := by decide

theorem movedConstructorBreaks :
    SameContents twoConstructors 1 2 ∧ (crateApiDiff twoConstructors 1 2).changedCount = 1 ∧
    (crateApiDiff twoConstructors 1 2).breakingChangesDetected = true := by
  refine ⟨?_,by decide +kernel,by decide +kernel⟩
  unfold SameContents
  decide +kernel

end RustMcp.ApiDiff
