import Mathlib

/-! Maps built by folding a list into one entry a key, and tables that hold at
most one row a key and overwrite on conflict. -/
namespace RustMcp.Keyed
open Std (TreeMap)

variable {α β κ : Type}

/-! Ordered maps: every element updates the entry of its own key. -/

abbrev Map (κ β : Type) [LinearOrder κ] := TreeMap κ β compare

theorem mapMem [LinearOrder κ] {map : Map κ β} {k : κ} {v : β} : (k,v) ∈ map.toList ↔ map[k]? = some v :=
  TreeMap.mem_toList_iff_getElem?_eq_some

theorem insertAt [LinearOrder κ] (map : Map κ β) (k : κ) (v : β) (k' : κ) :
    (map.insert k v)[k']? = if k = k' then some v else map[k']? := by
  rw [TreeMap.getElem?_insert]
  simp only [compare_eq_iff_eq]

theorem containsIff [LinearOrder κ] {map : Map κ β} {k : κ} : map.contains k = true ↔ ∃ v, map[k]? = some v := by
  rw [TreeMap.contains_eq_isSome_getElem?,Option.isSome_iff_exists]

theorem memKeys [LinearOrder κ] {map : Map κ β} {k : κ} : k ∈ map.keys ↔ ∃ v, map[k]? = some v := by
  rw [TreeMap.mem_keys,TreeMap.mem_iff_contains,containsIff]

/-- Pairs inserted one after another. -/
def ofPairs [LinearOrder κ] (pairs : List (κ × β)) : Map κ β := pairs.foldl (fun map pair => map.insert pair.1 pair.2) ∅

/-- Where no key has two values, the order of the pairs does not matter. -/
theorem ofPairsAt [LinearOrder κ] {pairs : List (κ × β)} (one : ∀ p ∈ pairs, ∀ q ∈ pairs, p.1 = q.1 → p.2 = q.2) {k : κ} {v : β} :
    (ofPairs pairs)[k]? = some v ↔ (k,v) ∈ pairs := by
  induction pairs using List.reverseRecOn generalizing v with
  | nil => simp [ofPairs]
  | append_singleton pairs pair ih =>
    have earlier : (ofPairs pairs)[k]? = some v ↔ (k,v) ∈ pairs :=
      ih fun p mem q mem' => one p (List.mem_append_left _ mem) q (List.mem_append_left _ mem')
    have step : ofPairs (pairs ++ [pair]) = (ofPairs pairs).insert pair.1 pair.2 := by simp [ofPairs]
    have here : pair ∈ pairs ++ [pair] := List.mem_append_right _ (List.mem_singleton.mpr rfl)
    rw [step,insertAt,List.mem_append,List.mem_singleton]
    by_cases same : pair.1 = k
    · rw [if_pos same,Option.some.injEq]
      constructor
      · rintro rfl
        exact Or.inr (Prod.ext same.symm rfl)
      · rintro (mem | rfl)
        · exact one pair here (k,v) (List.mem_append_left _ mem) same
        · rfl
    · rw [if_neg same,earlier]
      exact ⟨Or.inl,fun either => either.resolve_right fun eq => same (eq ▸ rfl)⟩

/-- A key that is inserted is found, with one of its values. -/
theorem ofPairsFound [LinearOrder κ] {pairs : List (κ × β)} {k : κ} {v : β} (mem : (k,v) ∈ pairs) :
    ∃ found, (ofPairs pairs)[k]? = some found ∧ (k,found) ∈ pairs := by
  induction pairs using List.reverseRecOn with
  | nil => cases mem
  | append_singleton pairs pair ih =>
    have step : ofPairs (pairs ++ [pair]) = (ofPairs pairs).insert pair.1 pair.2 := by simp [ofPairs]
    rw [step,insertAt]
    by_cases same : pair.1 = k
    · rw [if_pos same]
      exact ⟨pair.2,rfl,same ▸ List.mem_append_right _ (List.mem_singleton.mpr rfl)⟩
    · rw [if_neg same]
      have earlier : (k,v) ∈ pairs := by
        rcases List.mem_append.mp mem with early | late
        · exact early
        · exact absurd (congrArg Prod.fst (List.mem_singleton.mp late)).symm same
      obtain ⟨found,last,listed⟩ := ih earlier
      exact ⟨found,last,List.mem_append_left _ listed⟩

def collect [LinearOrder κ] (key : α → κ) (update : Option β → α → Option β) (xs : List α) : Map κ β :=
  xs.foldl (fun map x => map.alter (key x) (fun old => update old x)) ∅

theorem collectConcat [LinearOrder κ] (key : α → κ) (update : Option β → α → Option β) (xs : List α) (x : α) :
    collect key update (xs ++ [x]) = (collect key update xs).alter (key x) (fun old => update old x) := by
  simp [collect]

/-- An entry depends on the elements of its key alone, in their order. -/
theorem collectAt [LinearOrder κ] (key : α → κ) (update : Option β → α → Option β) (xs : List α) (k : κ)
    [DecidablePred (fun x => key x = k)] :
    (collect key update xs)[k]? = (xs.filter (fun x => key x = k)).foldl update none := by
  induction xs using List.reverseRecOn with
  | nil => simp [collect]
  | append_singleton xs x ih =>
    rw [collectConcat,TreeMap.getElem?_alter,List.filter_append,List.foldl_append]
    by_cases same : key x = k
    · subst same; simp [ih]
    · simp [same,ih]

theorem collectMem [LinearOrder κ] {key : α → κ} {update : Option β → α → Option β} {xs : List α} {k : κ} {v : β}
    [DecidablePred (fun x => key x = k)] :
    (k,v) ∈ (collect key update xs).toList ↔ (xs.filter (fun x => key x = k)).foldl update none = some v := by
  rw [mapMem,collectAt]

theorem collectAscending [LinearOrder κ] (key : α → κ) (update : Option β → α → Option β) (xs : List α) :
    (collect key update xs).toList.Pairwise (fun a b => a.1 < b.1) :=
  TreeMap.ordered_keys_toList.imp compare_lt_iff_lt.mp

/-- Where every value knows its key, the values are of different keys. -/
theorem valuesOnce [LinearOrder κ] {map : Map κ β} {own : β → κ} (keyed : ∀ k v, (k,v) ∈ map.toList → own v = k) :
    ((map.toList.map Prod.snd).map own).Nodup := by
  have keys : (map.toList.map Prod.snd).map own = map.toList.map Prod.fst := by
    rw [List.map_map]
    exact List.map_congr_left fun pair mem => keyed pair.1 pair.2 mem
  rw [keys]
  exact List.pairwise_map.mpr (TreeMap.ordered_keys_toList.imp fun less => ne_of_lt (compare_lt_iff_lt.mp less))

/-- The values of a key, where every value knows its own. -/
theorem valuesAt [LinearOrder κ] (map : Map κ β) (own : β → κ) (keyed : ∀ k v, (k,v) ∈ map.toList → own v = k) (k : κ)
    [DecidablePred (fun v => own v = k)] :
    (map.toList.map Prod.snd).filter (fun v => own v = k) = map[k]?.toList := by
  have ascending : map.toList.Pairwise (fun a b => a.1 < b.1) := TreeMap.ordered_keys_toList.imp compare_lt_iff_lt.mp
  have distinct : ((map.toList.map Prod.snd).filter (fun v => own v = k)).Pairwise (fun a b => own a < own b) := by
    refine List.Pairwise.filter _ (List.pairwise_map.mpr (ascending.imp_of_mem fun {a b} ha hb less => ?_))
    rw [keyed a.1 a.2 ha,keyed b.1 b.2 hb]
    exact less
  have mem : ∀ v, v ∈ (map.toList.map Prod.snd).filter (fun v => own v = k) ↔ map[k]? = some v := fun v => by
    simp only [List.mem_filter,List.mem_map,Prod.exists,exists_eq_right,decide_eq_true_eq]
    constructor
    · rintro ⟨⟨k',inside⟩,rfl⟩
      rw [keyed k' v inside]
      exact mapMem.mp inside
    · intro found
      have inside := mapMem.mpr found
      exact ⟨⟨k,inside⟩,keyed k v inside⟩
  cases values : (map.toList.map Prod.snd).filter (fun v => own v = k) with
  | nil =>
    cases found : map[k]? with
    | none => rfl
    | some v => have := (mem v).mpr found; simp [values] at this
  | cons v rest =>
    have found := (mem v).mp (by simp [values])
    cases rest with
    | nil => rw [found]; rfl
    | cons w rest =>
      have again := (mem w).mp (by simp [values])
      rw [found] at again
      cases Option.some.inj again
      rw [values] at distinct
      exact absurd ((List.pairwise_cons.mp distinct).1 v List.mem_cons_self) (lt_irrefl _)

def pushGroup (group : Option (List α)) (x : α) : Option (List α) := some (group.getD [] ++ [x])

theorem pushGroups (xs : List α) (group : List α) : xs.foldl pushGroup (some group) = some (group ++ xs) := by
  induction xs generalizing group with
  | nil => simp
  | cons x xs ih => simp [pushGroup,ih]

/-- Grouping keeps every element with those of its key, in their order. -/
theorem pushGroupsIff {xs group : List α} : xs.foldl pushGroup none = some group ↔ xs = group ∧ xs ≠ [] := by
  cases xs with
  | nil => simp
  | cons x xs =>
    have all := pushGroups xs [x]
    simp only [List.foldl_cons,pushGroup,Option.getD_none,List.nil_append] at all ⊢
    simp [all]

/-! Tables with a unique key. -/

structure Table (key : α → κ) where
  rows : List α
  unique : (rows.map key).Nodup

/-- Insert, or overwrite the row that holds the key already. -/
def put [DecidableEq κ] (key : α → κ) (row : α) : List α → List α
  | [] => [row]
  | r::rs => if key r = key row then row::rs else r :: put key row rs

theorem putKeys [DecidableEq κ] (key : α → κ) (row : α) (rows : List α) :
    (put key row rows).map key = rows.map key ∨
    (key row ∉ rows.map key ∧ (put key row rows).map key = rows.map key ++ [key row]) := by
  induction rows with
  | nil => exact Or.inr ⟨by simp,rfl⟩
  | cons r rs ih =>
    by_cases same : key r = key row
    · exact Or.inl (by simp [put,same])
    · rcases ih with kept | ⟨fresh,grown⟩
      · exact Or.inl (by simp [put,same,kept])
      · refine Or.inr ⟨?_,by simp [put,same,grown]⟩
        simp only [List.map_cons,List.mem_cons,not_or]
        exact ⟨Ne.symm same,fresh⟩

theorem putUnique [DecidableEq κ] {key : α → κ} {rows : List α} (row : α) (unique : (rows.map key).Nodup) :
    ((put key row rows).map key).Nodup := by
  rcases putKeys key row rows with kept | ⟨fresh,grown⟩
  · rw [kept]; exact unique
  · rw [grown]
    exact List.nodup_append_comm.mp (List.nodup_cons.mpr ⟨fresh,unique⟩)

theorem memPut [DecidableEq κ] {key : α → κ} {row r : α} {rows : List α} (unique : (rows.map key).Nodup) :
    r ∈ put key row rows ↔ r = row ∨ (r ∈ rows ∧ key r ≠ key row) := by
  induction rows with
  | nil => simp [put]
  | cons head tail ih =>
    simp only [List.map_cons,List.nodup_cons] at unique
    by_cases same : key head = key row
    · have others : ∀ x ∈ tail, key x ≠ key row := fun x mem eq =>
        unique.1 (List.mem_map.mpr ⟨x,mem,eq.trans same.symm⟩)
      simp only [put,if_pos same,List.mem_cons]
      constructor
      · rintro (rfl | mem)
        · exact Or.inl rfl
        · exact Or.inr ⟨Or.inr mem,others r mem⟩
      · rintro (rfl | ⟨rfl | mem,differ⟩)
        · exact Or.inl rfl
        · exact absurd same differ
        · exact Or.inr mem
    · simp only [put,if_neg same,List.mem_cons,ih unique.2]
      constructor
      · rintro (rfl | rfl | ⟨mem,differ⟩)
        · exact Or.inr ⟨Or.inl rfl,same⟩
        · exact Or.inl rfl
        · exact Or.inr ⟨Or.inr mem,differ⟩
      · rintro (rfl | ⟨rfl | mem,differ⟩)
        · exact Or.inr (Or.inl rfl)
        · exact Or.inl rfl
        · exact Or.inr (Or.inr ⟨mem,differ⟩)

/-- Rows that are all filtered out, or all kept, with their key are put there alone. -/
theorem putFilter [DecidableEq κ] {key : α → κ} {row : α} {p : α → Bool} (rows : List α)
    (alike : ∀ r, key r = key row → p r = p row) :
    (put key row rows).filter p = if p row then put key row (rows.filter p) else rows.filter p := by
  induction rows with
  | nil => cases kept : p row <;> simp [put,kept]
  | cons r rows ih =>
    by_cases same : key r = key row
    · cases kept : p row <;> simp [put,same,kept,alike r same]
    · rw [put,if_neg same,List.filter_cons,ih,List.filter_cons]
      cases p row <;> cases p r <;> simp [put,same]

namespace Table

variable {key : α → κ}

def upsert [DecidableEq κ] (table : Table key) (row : α) : Table key :=
  ⟨put key row table.rows,putUnique row table.unique⟩

def delete (table : Table key) (drop : α → Bool) : Table key :=
  ⟨table.rows.filter (fun r => !drop r),
    table.unique.sublist (List.filter_sublist.map key)⟩

def upsertAll [DecidableEq κ] (table : Table key) (rows : List α) : Table key := rows.foldl upsert table

/-- Insert, unless the key is held already. -/
def ensure [DecidableEq κ] (table : Table key) (row : α) : Table key :=
  if taken : key row ∈ table.rows.map key then table
  else ⟨table.rows ++ [row],by
    rw [List.map_append]
    exact List.nodup_append_comm.mp (List.nodup_cons.mpr ⟨taken,table.unique⟩)⟩

/-- `row` is the last of `rows` with its key. -/
def LastOfKey (key : α → κ) (rows : List α) (row : α) : Prop :=
  ∃ before after, rows = before ++ row::after ∧ ∀ r ∈ after, key r ≠ key row

theorem memUpsert [DecidableEq κ] {table : Table key} {row r : α} :
    r ∈ (table.upsert row).rows ↔ r = row ∨ (r ∈ table.rows ∧ key r ≠ key row) :=
  memPut table.unique

/-- The row of a key. -/
def lookup [DecidableEq κ] (table : Table key) (k : κ) : Option α := table.rows.find? fun row => key row = k

theorem lookupIff [DecidableEq κ] {table : Table key} {k : κ} {row : α} :
    table.lookup k = some row ↔ row ∈ table.rows ∧ key row = k := by
  refine ⟨fun found => ⟨List.mem_of_find?_eq_some found,by simpa using List.find?_some found⟩,fun ⟨mem,same⟩ => ?_⟩
  have there : (table.lookup k).isSome = true := List.find?_isSome.mpr ⟨row,mem,by simpa using same⟩
  obtain ⟨other,found⟩ := Option.isSome_iff_exists.mp there
  have own : key other = key row := (by simpa using List.find?_some found : key other = k).trans same.symm
  rw [found,List.inj_on_of_nodup_map table.unique (List.mem_of_find?_eq_some found) mem own]

theorem lookupUpsert [DecidableEq κ] (table : Table key) (row : α) (k : κ) :
    (table.upsert row).lookup k = if key row = k then some row else table.lookup k := by
  refine Option.ext fun other => ?_
  rw [lookupIff,memUpsert]
  by_cases same : key row = k
  · rw [if_pos same,Option.some.injEq]
    refine ⟨fun ⟨either,here⟩ => ?_,fun eq => ⟨Or.inl eq.symm,eq ▸ same⟩⟩
    exact either.elim Eq.symm fun old => absurd (here.trans same.symm) old.2
  · rw [if_neg same,lookupIff]
    refine ⟨fun ⟨either,here⟩ => ?_,fun ⟨mem,here⟩ => ⟨Or.inr ⟨mem,fun eq => same (eq.symm.trans here)⟩,here⟩⟩
    exact either.elim (fun eq => absurd (eq ▸ here) same) fun old => ⟨old.1,here⟩

theorem memEnsure [DecidableEq κ] {table : Table key} {row r : α} :
    r ∈ (table.ensure row).rows ↔ r ∈ table.rows ∨ (r = row ∧ key row ∉ table.rows.map key) := by
  unfold ensure
  split
  · rename_i taken
    exact ⟨Or.inl,fun h => h.resolve_right fun new => new.2 taken⟩
  · rename_i fresh
    simp only [List.mem_append,List.mem_singleton,fresh,not_false_eq_true,and_true]

theorem memDelete {table : Table key} {drop : α → Bool} {r : α} :
    r ∈ (table.delete drop).rows ↔ r ∈ table.rows ∧ drop r = false := by
  simp [delete]

theorem lastOfKeyConcat {rows : List α} {row r : α} :
    LastOfKey key (rows ++ [row]) r ↔ r = row ∨ (LastOfKey key rows r ∧ key row ≠ key r) := by
  constructor
  · rintro ⟨before,after,same,later⟩
    cases after using List.reverseRecOn with
    | nil =>
      have parts := List.append_inj' same rfl
      exact Or.inl (List.cons.inj parts.2).1.symm
    | append_singleton after x =>
      have shape : rows ++ [row] = (before ++ r::after) ++ [x] := by simpa using same
      have parts := List.append_inj' shape rfl
      obtain rfl : row = x := (List.cons.inj parts.2).1
      exact Or.inr ⟨⟨before,after,parts.1,fun y mem => later y (by simp [mem])⟩,later row (by simp)⟩
  · rintro (rfl | ⟨⟨before,after,rfl,later⟩,differ⟩)
    · exact ⟨rows,[],rfl,by simp⟩
    · refine ⟨before,after ++ [row],by simp,fun y mem => ?_⟩
      rcases List.mem_append.mp mem with mem | mem
      · exact later y mem
      · simp only [List.mem_singleton] at mem; subst y; exact differ

theorem lastOfKeyAppend {rows later : List α} {r : α} :
    LastOfKey key (rows ++ later) r ↔ LastOfKey key later r ∨ (LastOfKey key rows r ∧ key r ∉ later.map key) := by
  induction later using List.reverseRecOn with
  | nil => simp [LastOfKey]
  | append_singleton later last ih =>
    rw [← List.append_assoc,lastOfKeyConcat,ih,lastOfKeyConcat]
    simp only [List.map_append,List.map_cons,List.map_nil,List.mem_append,List.mem_singleton,not_or]
    constructor
    · rintro (same | ⟨inner | ⟨old,fresh⟩,differ⟩)
      · exact Or.inl (Or.inl same)
      · exact Or.inl (Or.inr ⟨inner,differ⟩)
      · exact Or.inr ⟨old,fresh,differ.symm⟩
    · rintro ((same | ⟨inner,differ⟩) | ⟨old,fresh,differ⟩)
      · exact Or.inl same
      · exact Or.inr ⟨Or.inl inner,differ⟩
      · exact Or.inr ⟨Or.inr ⟨old,fresh⟩,Ne.symm differ⟩

/-- After a series of upserts each key holds the last row written to it. -/
theorem memUpsertAll [DecidableEq κ] {table : Table key} {rows : List α} {r : α} :
    r ∈ (table.upsertAll rows).rows ↔
      LastOfKey key rows r ∨ (r ∈ table.rows ∧ key r ∉ rows.map key) := by
  induction rows using List.reverseRecOn generalizing r with
  | nil => simp [upsertAll,LastOfKey]
  | append_singleton rows row ih =>
    have step : table.upsertAll (rows ++ [row]) = (table.upsertAll rows).upsert row := by
      simp [upsertAll]
    rw [step,memUpsert,ih,lastOfKeyConcat]
    simp only [List.map_append,List.map_cons,List.map_nil,List.mem_append,List.mem_singleton,not_or]
    constructor
    · rintro (same | ⟨last | ⟨old,fresh⟩,differ⟩)
      · exact Or.inl (Or.inl same)
      · exact Or.inl (Or.inr ⟨last,differ.symm⟩)
      · exact Or.inr ⟨old,fresh,differ⟩
    · rintro ((same | ⟨last,differ⟩) | ⟨old,fresh,differ⟩)
      · exact Or.inl same
      · exact Or.inr ⟨Or.inl last,differ.symm⟩
      · exact Or.inr ⟨Or.inr ⟨old,fresh⟩,differ⟩

theorem lastOfKeyMem {rows : List α} {r : α} (h : LastOfKey key rows r) : r ∈ rows := by
  obtain ⟨before,after,rfl,_⟩ := h
  simp

/-- Every key that is written ends up with a row. -/
theorem lastOfKeyExists (key : α → κ) {rows : List α} {row : α} (mem : row ∈ rows) :
    ∃ r, LastOfKey key rows r ∧ key r = key row := by
  classical
  induction rows using List.reverseRecOn with
  | nil => simp at mem
  | append_singleton rows last ih =>
    by_cases same : key last = key row
    · exact ⟨last,lastOfKeyConcat.mpr (Or.inl rfl),same⟩
    · rcases List.mem_append.mp mem with old | new
      · obtain ⟨r,hr,eq⟩ := ih old
        exact ⟨r,lastOfKeyConcat.mpr (Or.inr ⟨hr,fun h => same (h.trans eq)⟩),eq⟩
      · simp only [List.mem_singleton] at new; subst row; exact absurd rfl same

end Table
end RustMcp.Keyed
