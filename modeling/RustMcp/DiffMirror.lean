import RustMcp.DiffLayout

/-! Comparing two versions the other way round. -/
namespace RustMcp.DiffMirror
open Str (Text)
open ApiDiff

/-- What a comparison says of one name and kind. -/
def changeAt (key : Text ×ₗ Text) (fromSymbol toSymbol : Option SymbolFingerprint) : Option CrateApiDiffChange :=
  match fromSymbol,toSymbol with
  | none,none => none
  | some left,none => some ⟨(ofLex key).1,(ofLex key).2,.removed,left.signature,none,left.visibility,none,true⟩
  | none,some right => some ⟨(ofLex key).1,(ofLex key).2,.added,none,right.signature,none,right.visibility,false⟩
  | some left,some right =>
      if left = right then none
      else some ⟨(ofLex key).1,(ofLex key).2,if left.visibility ≠ right.visibility then .visibilityChanged else .signatureChanged,
        left.signature,right.signature,left.visibility,right.visibility,
        decide (left.visibility = some "public".toList ∧ right.visibility = some "private".toList) ||
          decide (left.signature ≠ right.signature)⟩

def symbolKey (change : CrateApiDiffChange) : Text ×ₗ Text := toLex (change.name,change.kind)

def mirrored : ChangeType → ChangeType
  | .added => .removed
  | .removed => .added
  | other => other

/-- The same change, seen from the other version. -/
structure Mirrors (change other : CrateApiDiffChange) : Prop where
  key : symbolKey other = symbolKey change
  changeType : other.changeType = mirrored change.changeType
  signatures : other.fromSignature = change.toSignature ∧ other.toSignature = change.fromSignature
  visibilities : other.fromVisibility = change.toVisibility ∧ other.toVisibility = change.fromVisibility

theorem changeKeyed {key : Text ×ₗ Text} {left right : Option SymbolFingerprint} {change : CrateApiDiffChange}
    (changed : changeAt key left right = some change) : symbolKey change = key := by
  unfold changeAt at changed
  split at changed
  · contradiction
  · cases Option.some.inj changed; rfl
  · cases Option.some.inj changed; rfl
  · split at changed
    · contradiction
    · cases Option.some.inj changed; rfl

theorem changeMirrored {key : Text ×ₗ Text} {left right : Option SymbolFingerprint} {change : CrateApiDiffChange}
    (changed : changeAt key left right = some change) : ∃ other, changeAt key right left = some other ∧ Mirrors change other := by
  match left,right with
  | none,none => contradiction
  | some left,none =>
    cases Option.some.inj changed
    exact ⟨_,rfl,⟨rfl,rfl,⟨rfl,rfl⟩,rfl,rfl⟩⟩
  | none,some right =>
    cases Option.some.inj changed
    exact ⟨_,rfl,⟨rfl,rfl,⟨rfl,rfl⟩,rfl,rfl⟩⟩
  | some left,some right =>
    by_cases same : left = right
    · rw [changeAt,if_pos same] at changed
      contradiction
    · rw [changeAt,if_neg same] at changed
      cases Option.some.inj changed
      refine ⟨_,if_neg (Ne.symm same),⟨rfl,?_,⟨rfl,rfl⟩,rfl,rfl⟩⟩
      by_cases visible : left.visibility = right.visibility
      · rw [if_neg (not_not.mpr visible),if_neg (not_not.mpr visible.symm)]
        rfl
      · rw [if_pos visible,if_pos (Ne.symm visible)]
        rfl

/-! Either loop writes down the changes of its keys, and counts each by its kind. -/

theorem symbolsSame (left right : SymbolFingerprint) :
    (!(decide (left.visibility ≠ right.visibility) || decide (left.signature ≠ right.signature))) = true ↔ left = right := by
  simp only [ne_eq,decide_not,Bool.not_or,Bool.not_not,Bool.and_eq_true,decide_eq_true_eq]
  constructor
  · rintro ⟨visible,signed⟩
    cases left; cases right
    simp only at visible signed
    rw [visible,signed]
  · rintro rfl
    exact ⟨rfl,rfl⟩

theorem compareChanges (toMap : SymbolMap) (tally : Tally) (entry : (Text ×ₗ Text) × SymbolFingerprint) :
    (compareSymbol toMap tally entry).changes = tally.changes ++ (changeAt entry.1 (some entry.2) toMap[entry.1]?).toList := by
  obtain ⟨key,left⟩ := entry
  unfold compareSymbol
  cases found : toMap[key]? with
  | none => simp only [found,changeAt,Option.toList_some]
  | some right =>
    simp only [found]
    split
    · rename_i kept
      rw [changeAt,if_pos ((symbolsSame left right).mp kept)]
      exact (List.append_nil _).symm
    · rename_i moved
      rw [changeAt,if_neg fun same => moved ((symbolsSame left right).mpr same)]
      simp only [decide_eq_true_eq,Option.toList_some]

/-- What the second loop says of one key. -/
def addedAt (fromMap : SymbolMap) (entry : (Text ×ₗ Text) × SymbolFingerprint) : Option CrateApiDiffChange :=
  match fromMap[entry.1]? with
  | some _ => none
  | none => changeAt entry.1 none (some entry.2)

theorem addChanges (fromMap : SymbolMap) (tally : Tally) (entry : (Text ×ₗ Text) × SymbolFingerprint) :
    (addSymbol fromMap tally entry).changes = tally.changes ++ (addedAt fromMap entry).toList := by
  obtain ⟨key,right⟩ := entry
  unfold addSymbol
  cases found : fromMap[key]? with
  | none => simp only [found,addedAt,changeAt,Option.toList_some]
  | some left => simp only [found,addedAt,Option.toList_none,List.append_nil]

def kindCount (changeType : ChangeType) (changes : List CrateApiDiffChange) : Nat :=
  changes.countP fun change => change.changeType = changeType

/-- The counters agree with the changes written down. -/
structure Counted (tally : Tally) : Prop where
  added : tally.added = kindCount .added tally.changes
  removed : tally.removed = kindCount .removed tally.changes
  changed : tally.changed = kindCount .signatureChanged tally.changes + kindCount .visibilityChanged tally.changes

theorem kindCountPush (changeType : ChangeType) (changes : List CrateApiDiffChange) (change : CrateApiDiffChange) :
    kindCount changeType (changes ++ [change]) =
      kindCount changeType changes + if change.changeType = changeType then 1 else 0 := by
  rw [kindCount,List.countP_append,List.countP_singleton]
  simp only [decide_eq_true_eq]
  rfl

theorem compareCounted (toMap : SymbolMap) {tally : Tally} (counted : Counted tally)
    (entry : (Text ×ₗ Text) × SymbolFingerprint) : Counted (compareSymbol toMap tally entry) := by
  obtain ⟨added,removed,changed⟩ := counted
  obtain ⟨key,left⟩ := entry
  unfold compareSymbol
  cases found : toMap[key]? with
  | none =>
    simp only [found]
    constructor <;> simp only [kindCountPush,reduceCtorEq,if_true,if_false] <;> omega
  | some right =>
    simp only [found]
    split
    · exact ⟨added,removed,changed⟩
    · by_cases visible : left.visibility = right.visibility
      · simp only [visible,ne_eq,not_true,decide_false,Bool.false_eq_true,if_false]
        constructor <;> simp only [kindCountPush,reduceCtorEq,if_true,if_false] <;> omega
      · simp only [visible,ne_eq,not_false_iff,decide_true,if_true]
        constructor <;> simp only [kindCountPush,reduceCtorEq,if_true,if_false] <;> omega

theorem addCounted (fromMap : SymbolMap) {tally : Tally} (counted : Counted tally)
    (entry : (Text ×ₗ Text) × SymbolFingerprint) : Counted (addSymbol fromMap tally entry) := by
  obtain ⟨added,removed,changed⟩ := counted
  obtain ⟨key,right⟩ := entry
  unfold addSymbol
  cases found : fromMap[key]? with
  | none =>
    simp only [found]
    constructor <;> simp only [kindCountPush,reduceCtorEq,if_true,if_false] <;> omega
  | some left =>
    simp only [found]
    exact ⟨added,removed,changed⟩

theorem foldCounted {step : Tally → (Text ×ₗ Text) × SymbolFingerprint → Tally}
    (keeps : ∀ {tally}, Counted tally → ∀ entry, Counted (step tally entry))
    (entries : List ((Text ×ₗ Text) × SymbolFingerprint)) {tally : Tally} (counted : Counted tally) :
    Counted (entries.foldl step tally) := by
  induction entries generalizing tally with
  | nil => exact counted
  | cons entry rest ih => exact ih (keeps counted entry)

theorem foldChanges {step : Tally → (Text ×ₗ Text) × SymbolFingerprint → Tally}
    {change : (Text ×ₗ Text) × SymbolFingerprint → Option CrateApiDiffChange}
    (writes : ∀ tally entry, (step tally entry).changes = tally.changes ++ (change entry).toList)
    (entries : List ((Text ×ₗ Text) × SymbolFingerprint)) (tally : Tally) :
    (entries.foldl step tally).changes = tally.changes ++ entries.filterMap change := by
  induction entries generalizing tally with
  | nil => exact (List.append_nil _).symm
  | cons entry rest ih =>
    rw [List.foldl_cons,ih,writes,List.append_assoc,List.filterMap_cons]
    cases change entry <;> rfl

theorem talliedCounted (fromMap toMap : SymbolMap) : Counted (tallyMaps fromMap toMap) :=
  foldCounted (addCounted fromMap) _ (foldCounted (compareCounted toMap) _ ⟨rfl,rfl,rfl⟩)

theorem kindsLength (changes : List CrateApiDiffChange) :
    kindCount .added changes + kindCount .removed changes +
      (kindCount .signatureChanged changes + kindCount .visibilityChanged changes) = changes.length := by
  induction changes using List.reverseRecOn with
  | nil => rfl
  | append_singleton rest change ih =>
    simp only [kindCountPush,List.length_append,List.length_singleton]
    cases change.changeType <;> simp only [reduceCtorEq,if_true,if_false] <;> omega

theorem talliedChanges (fromMap toMap : SymbolMap) :
    (tallyMaps fromMap toMap).changes = fromMap.toList.filterMap (fun entry => changeAt entry.1 (some entry.2) toMap[entry.1]?) ++
      toMap.toList.filterMap (addedAt fromMap) := by
  rw [tallyMaps,foldChanges (addChanges fromMap),foldChanges (compareChanges toMap)]
  rfl

theorem memTallied {fromMap toMap : SymbolMap} {change : CrateApiDiffChange} :
    change ∈ (tallyMaps fromMap toMap).changes ↔ ∃ key : Text ×ₗ Text, changeAt key fromMap[key]? toMap[key]? = some change := by
  rw [talliedChanges,List.mem_append,List.mem_filterMap,List.mem_filterMap]
  constructor
  · rintro (⟨entry,mem,changed⟩ | ⟨entry,mem,changed⟩)
    · refine ⟨entry.1,?_⟩
      rw [Keyed.mapMem.mp mem]
      exact changed
    · refine ⟨entry.1,?_⟩
      unfold addedAt at changed
      split at changed
      · contradiction
      · rename_i absent
        rw [absent,Keyed.mapMem.mp mem]
        exact changed
  · rintro ⟨key,changed⟩
    cases left : fromMap[key]? with
    | some symbol =>
      rw [left] at changed
      exact Or.inl ⟨(key,symbol),Keyed.mapMem.mpr left,changed⟩
    | none =>
      cases right : toMap[key]? with
      | none =>
        rw [left,right] at changed
        contradiction
      | some symbol =>
        rw [left,right] at changed
        refine Or.inr ⟨(key,symbol),Keyed.mapMem.mpr right,?_⟩
        rw [addedAt,left]
        exact changed

theorem filterKeys {change : (Text ×ₗ Text) × SymbolFingerprint → Option CrateApiDiffChange}
    (keyed : ∀ entry c, change entry = some c → symbolKey c = entry.1) (entries : List ((Text ×ₗ Text) × SymbolFingerprint)) :
    ((entries.filterMap change).map symbolKey).Sublist (entries.map Prod.fst) := by
  induction entries with
  | nil => exact .slnil
  | cons entry rest ih =>
    rw [List.filterMap_cons,List.map_cons]
    cases changed : change entry with
    | none => exact ih.cons _
    | some c =>
      rw [List.map_cons,keyed entry c changed]
      exact ih.cons_cons _

theorem mapKeys (map : SymbolMap) : (map.toList.map Prod.fst).Nodup := by
  have ascending : map.toList.Pairwise (fun a b => a.1 < b.1) :=
    Std.TreeMap.ordered_keys_toList.imp compare_lt_iff_lt.mp
  exact List.pairwise_map.mpr (ascending.imp ne_of_lt)

theorem addedKeyed (fromMap : SymbolMap) (entry : (Text ×ₗ Text) × SymbolFingerprint) (change : CrateApiDiffChange)
    (added : addedAt fromMap entry = some change) : symbolKey change = entry.1 ∧ fromMap[entry.1]? = none := by
  unfold addedAt at added
  split at added
  · contradiction
  · rename_i absent
    exact ⟨changeKeyed added,absent⟩

/-- The first loop writes keys of one map, the second one keys that this map lacks. -/
theorem talliedOnce (fromMap toMap : SymbolMap) : ((tallyMaps fromMap toMap).changes.map symbolKey).Nodup := by
  rw [talliedChanges,List.map_append]
  refine List.Nodup.append ?_ ?_ ?_
  · exact (filterKeys (fun _ _ => changeKeyed) _).nodup (mapKeys fromMap)
  · exact (filterKeys (fun entry c added => (addedKeyed fromMap entry c added).1) _).nodup (mapKeys toMap)
  · intro key one two
    obtain ⟨c,mem,rfl⟩ := List.mem_map.mp one
    obtain ⟨entry,inside,changed⟩ := List.mem_filterMap.mp mem
    obtain ⟨d,mem',same⟩ := List.mem_map.mp two
    obtain ⟨entry',_,added⟩ := List.mem_filterMap.mp mem'
    have here := Keyed.mapMem.mp inside
    have absent := addedKeyed fromMap entry' d added
    rw [← absent.1,same,changeKeyed changed,here] at absent
    exact absurd absent.2 (Option.some_ne_none _)

/-! Collapsing keeps one row of a key, and the map its symbol. -/

theorem keepHigherMem {rows : List ApiDiffSymbolRow} {kept : Option (Nat × ApiDiffSymbolRow)} {entry : Nat × ApiDiffSymbolRow}
    (last : rows.foldl keepHigher kept = some entry) : kept = some entry ∨ entry.2 ∈ rows := by
  induction rows generalizing kept with
  | nil => exact Or.inl last
  | cons row rest ih =>
    rcases ih last with step | later
    · unfold keepHigher at step
      split at step
      · split at step
        · exact Or.inl step
        · cases Option.some.inj step
          exact Or.inr List.mem_cons_self
      · cases Option.some.inj step
        exact Or.inr List.mem_cons_self
    · exact Or.inr (List.mem_cons_of_mem _ later)

theorem collapsedKeyed (rows : List ApiDiffSymbolRow) (key : Text ×ₗ Text) (entry : Nat × ApiDiffSymbolRow)
    (mem : (key,entry) ∈ (Keyed.collect rowKey keepHigher rows).toList) : rowKey entry.2 = key := by
  rw [Keyed.collectMem] at mem
  rcases keepHigherMem mem with start | kept
  · contradiction
  · simpa using (List.mem_filter.mp kept).2

theorem collapsedMapped {rows : List ApiDiffSymbolRow} {row : ApiDiffSymbolRow} (mem : row ∈ prioritizeSymbolRows rows) :
    (mapSymbols rows)[rowKey row]? = some (fingerprint row) := by
  have values := Keyed.valuesAt (Keyed.collect rowKey keepHigher rows) (fun entry => rowKey entry.2) (collapsedKeyed rows)
    (rowKey row)
  have alone : (prioritizeSymbolRows rows).filter (fun other => rowKey other = rowKey row) =
      ((Keyed.collect rowKey keepHigher rows)[rowKey row]?).toList.map Prod.snd := by
    rw [prioritizeSymbolRows,List.filter_map]
    exact congrArg (List.map Prod.snd) values
  have inside : row ∈ (prioritizeSymbolRows rows).filter (fun other => rowKey other = rowKey row) :=
    List.mem_filter.mpr ⟨mem,by simp⟩
  rw [mapSymbols,Keyed.collectAt,keepFirstHead]
  rw [alone] at inside ⊢
  cases kept : (Keyed.collect rowKey keepHigher rows)[rowKey row]? with
  | none => rw [kept] at inside; contradiction
  | some entry =>
    rw [kept] at inside
    rw [List.mem_singleton.mp inside]
    rfl

theorem memChanges {fromRows toRows : List ApiDiffSymbolRow} {change : CrateApiDiffChange} :
    change ∈ (buildDiffSummary fromRows toRows).changes ↔
      ∃ key : Text ×ₗ Text, changeAt key (mapSymbols fromRows)[key]? (mapSymbols toRows)[key]? = some change :=
  Ranking.memSortBy.trans memTallied

theorem changesMirrored {fromRows toRows : List ApiDiffSymbolRow} {change : CrateApiDiffChange}
    (mem : change ∈ (buildDiffSummary fromRows toRows).changes) :
    ∃ other ∈ (buildDiffSummary toRows fromRows).changes, Mirrors change other := by
  obtain ⟨key,changed⟩ := memChanges.mp mem
  obtain ⟨other,back,mirrors⟩ := changeMirrored changed
  exact ⟨other,memChanges.mpr ⟨key,back⟩,mirrors⟩

def keysOf (changeType : ChangeType) (summary : ApiDiffSummary) : Set (Text ×ₗ Text) :=
  {key | ∃ change ∈ summary.changes, change.changeType = changeType ∧ symbolKey change = key}

theorem keysMirrored (fromRows toRows : List ApiDiffSymbolRow) (changeType : ChangeType) :
    keysOf changeType (buildDiffSummary fromRows toRows) ⊆ keysOf (mirrored changeType) (buildDiffSummary toRows fromRows) := by
  rintro key ⟨change,mem,rfl,rfl⟩
  obtain ⟨other,mem',mirrors⟩ := changesMirrored mem
  exact ⟨other,mem',mirrors.changeType,mirrors.key⟩

theorem diffMirrored (a b : List ApiDiffSymbolRow) :
    keysOf .added (buildDiffSummary b a) = keysOf .removed (buildDiffSummary a b) ∧
    keysOf .removed (buildDiffSummary b a) = keysOf .added (buildDiffSummary a b) ∧
    (∀ change ∈ (buildDiffSummary a b).changes, ∃ other ∈ (buildDiffSummary b a).changes, Mirrors change other) ∧
    (∀ change ∈ (buildDiffSummary b a).changes, ∃ other ∈ (buildDiffSummary a b).changes, Mirrors change other) ∧
    ((buildDiffSummary a b).changes.map symbolKey).Nodup ∧
    (∀ row ∈ prioritizeSymbolRows a, ∀ row' ∈ prioritizeSymbolRows b, rowKey row = rowKey row' →
      normalizeSignature row.signature = normalizeSignature row'.signature →
      normalizeVisibility row.visibility = normalizeVisibility row'.visibility →
      rowKey row ∉ (buildDiffSummary a b).changes.map symbolKey) ∧
    (buildDiffSummary a b).addedCount + (buildDiffSummary a b).removedCount + (buildDiffSummary a b).changedCount =
      (buildDiffSummary a b).changes.length := by
  have sorted : (buildDiffSummary a b).changes.Perm (tallyMaps (mapSymbols a) (mapSymbols b)).changes :=
    Ranking.sortByPerm changeKey _
  refine ⟨?_,?_,fun _ => changesMirrored,fun _ => changesMirrored,?_,?_,?_⟩
  · exact (keysMirrored b a .added).antisymm (keysMirrored a b .removed)
  · exact (keysMirrored b a .removed).antisymm (keysMirrored a b .added)
  · exact (sorted.map symbolKey).nodup_iff.mpr (talliedOnce _ _)
  · intro row mem row' mem' keys signed visible listed
    obtain ⟨change,there,keyed⟩ := List.mem_map.mp listed
    obtain ⟨key,changed⟩ := memChanges.mp there
    have same : fingerprint row = fingerprint row' := by rw [fingerprint,fingerprint,signed,visible]
    have right := collapsedMapped mem'
    rw [← keys,← same] at right
    rw [(changeKeyed changed).symm.trans keyed,collapsedMapped mem,right,changeAt,if_pos rfl] at changed
    contradiction
  · obtain ⟨added,removed,changed⟩ := talliedCounted (mapSymbols a) (mapSymbols b)
    rw [sorted.length_eq,← kindsLength,← added,← removed,← changed]
    rfl

end RustMcp.DiffMirror
