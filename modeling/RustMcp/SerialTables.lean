import RustMcp.Keyed

/-! Tables with a unique key whose rows get their ids from a sequence. An insert that
conflicts with a row of its key changes that row, and has used up an id all the same. -/
namespace RustMcp.SerialTables
open Keyed (Table)

variable {α κ : Type} {key : α → κ} {id : α → Nat}

structure Serial (key : α → κ) (id : α → Nat) where
  table : Table key
  nextId : Nat
  ids : (table.rows.map id).Nodup
  below : ∀ row ∈ table.rows, id row < nextId

/-- `INSERT … ON CONFLICT … DO UPDATE` -/
structure Upsert (key : α → κ) (id : α → Nat) where
  target : κ
  fresh : Nat → α
  change : α → α
  freshKey : ∀ n, key (fresh n) = target
  freshId : ∀ n, id (fresh n) = n
  changeKey : ∀ row, key (change row) = key row
  changeId : ∀ row, id (change row) = id row

theorem rowOfId {serial : Serial key id} {row other : α} (mem : row ∈ serial.table.rows) (mem' : other ∈ serial.table.rows)
    (same : id row = id other) : row = other :=
  List.inj_on_of_nodup_map serial.ids mem mem' same

section
variable [DecidableEq κ]

/-- The row that an upsert writes. -/
def Upsert.row (write : Upsert key id) (serial : Serial key id) : α :=
  ((serial.table.lookup write.target).map write.change).getD (write.fresh serial.nextId)

variable {write : Upsert key id} {serial : Serial key id}

theorem writtenKey : key (write.row serial) = write.target := by
  unfold Upsert.row
  cases found : serial.table.lookup write.target with
  | none => exact write.freshKey _
  | some old => exact (write.changeKey old).trans (Table.lookupIff.mp found).2

variable (write serial) in
/-- The id is that of the row in the way, or the next one. -/
theorem writtenId : (∃ old, serial.table.lookup write.target = some old ∧ id (write.row serial) = id old) ∨
    (serial.table.lookup write.target = none ∧ id (write.row serial) = serial.nextId) := by
  unfold Upsert.row
  cases found : serial.table.lookup write.target with
  | none => exact Or.inr ⟨rfl,write.freshId _⟩
  | some old => exact Or.inl ⟨old,rfl,write.changeId old⟩

theorem writtenApart {row : α} (mem : row ∈ serial.table.rows) (other : key row ≠ write.target) :
    id row ≠ id (write.row serial) := by
  intro same
  rcases writtenId write serial with ⟨old,found,known⟩ | ⟨_,next⟩
  · obtain ⟨inside,own⟩ := Table.lookupIff.mp found
    obtain rfl := rowOfId mem inside (same.trans known)
    exact other own
  · exact absurd (serial.below row mem) (by rw [same,next]; exact lt_irrefl _)

theorem putIds (rows : List α) (row : α) (ids : (rows.map id).Nodup) (unique : (rows.map key).Nodup)
    (apart : ∀ r ∈ rows, key r ≠ key row → id r ≠ id row) : ((Keyed.put key row rows).map id).Nodup := by
  induction rows with
  | nil => exact List.nodup_singleton _
  | cons r rs ih =>
    obtain ⟨away,ids⟩ := List.nodup_cons.mp ids
    obtain ⟨first,unique⟩ := List.nodup_cons.mp unique
    rw [Keyed.put]
    split
    · rename_i same
      refine List.nodup_cons.mpr ⟨fun listed => ?_,ids⟩
      obtain ⟨other,mem,eq⟩ := List.mem_map.mp listed
      exact apart other (List.mem_cons_of_mem _ mem) (fun key_ => first (List.mem_map.mpr ⟨other,mem,key_.trans same.symm⟩)) eq
    · rename_i differ
      refine List.nodup_cons.mpr ⟨fun listed => ?_,ih ids unique fun x mem => apart x (List.mem_cons_of_mem _ mem)⟩
      obtain ⟨other,mem,eq⟩ := List.mem_map.mp listed
      rcases (Keyed.memPut unique).mp mem with rfl | ⟨old,_⟩
      · exact apart r List.mem_cons_self differ eq.symm
      · exact away (List.mem_map.mpr ⟨other,old,eq⟩)

def Serial.upsert (serial : Serial key id) (write : Upsert key id) : Serial key id where
  table := serial.table.upsert (write.row serial)
  nextId := serial.nextId + 1
  ids := putIds _ _ serial.ids serial.table.unique fun row mem other => writtenApart mem fun same => other (same.trans writtenKey.symm)
  below := fun row mem => by
    rcases Table.memUpsert.mp mem with rfl | ⟨old,_⟩
    · rcases writtenId write serial with ⟨old,found,known⟩ | ⟨_,next⟩
      · exact known ▸ Nat.lt_succ_of_lt (serial.below old (Table.lookupIff.mp found).1)
      · exact next ▸ Nat.lt_succ_self _
    · exact Nat.lt_succ_of_lt (serial.below row old)

theorem upsertLookup (k : κ) : (serial.upsert write).table.lookup k =
    if write.target = k then some (write.row serial) else serial.table.lookup k := by
  have own : key (write.row serial) = write.target := writtenKey
  rw [Serial.upsert,Table.lookupUpsert,own]

end

/-- `UPDATE … WHERE id = …`, of columns that are in no key. -/
def Serial.update (serial : Serial key id) (n : Nat) (change : α → α) (changeKey : ∀ row, key (change row) = key row)
    (changeId : ∀ row, id (change row) = id row) : Serial key id :=
  have keys : ∀ row, key (if id row = n then change row else row) = key row := fun row => by split; exact changeKey row; rfl
  have same : ∀ row, id (if id row = n then change row else row) = id row := fun row => by split; exact changeId row; rfl
  { table := ⟨serial.table.rows.map fun row => if id row = n then change row else row,by
      rw [List.map_map]
      exact (List.map_congr_left fun row _ => keys row) ▸ serial.table.unique⟩
    nextId := serial.nextId
    ids := by
      rw [List.map_map]
      exact (List.map_congr_left fun row _ => same row) ▸ serial.ids
    below := fun row mem => by
      obtain ⟨old,inside,rfl⟩ := List.mem_map.mp mem
      exact (same old).symm ▸ serial.below old inside }

def Serial.delete (serial : Serial key id) (drop : α → Bool) : Serial key id where
  table := serial.table.delete drop
  nextId := serial.nextId
  ids := serial.ids.sublist (List.filter_sublist.map id)
  below := fun row mem => serial.below row (Table.memDelete.mp mem).1

end RustMcp.SerialTables
