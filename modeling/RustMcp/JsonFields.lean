import RustMcp.StdioProxy

/-! The fields of a JSON object: what is found under a key after one is set, added where it is
missing, or taken out, and what stays as it was. -/
namespace RustMcp.JsonFields
open Str (Text)
open StdioProxy (Json Fields)

variable {fields : Fields} {key other : Text} {value : Json}

@[simp] theorem getNil (key : Text) : Fields.get [] key = none := rfl

@[simp] theorem getCons (name : Text) (value : Json) (fields : Fields) (key : Text) :
    Fields.get ((name,value)::fields) key = if name = key then some value else Fields.get fields key := by
  by_cases same : name = key <;> simp [Fields.get,same]

theorem getAppend (fields more : Fields) (key : Text) :
    Fields.get (fields ++ more) key = (Fields.get fields key).or (Fields.get more key) := by
  simp only [Fields.get,List.find?_append]
  cases fields.find? fun field => field.1 = key <;> rfl

/-- `values_mut`: each value is changed where it stands. -/
def mapValues (change : Json → Json) (fields : Fields) : Fields := fields.map fun field => (field.1,change field.2)

@[simp] theorem getMapValues (change : Json → Json) (fields : Fields) (key : Text) :
    Fields.get (mapValues change fields) key = (Fields.get fields key).map change := by
  induction fields with
  | nil => rfl
  | cons field fields ih =>
    have head : mapValues change (field::fields) = (field.1,change field.2) :: mapValues change fields := rfl
    rw [head,getCons,ih,getCons field.1 field.2]
    split <;> rfl

/-- One key's value is changed where it stands: `get_mut`. -/
def modify (key : Text) (change : Json → Json) (fields : Fields) : Fields :=
  fields.map fun field => if field.1 = key then (field.1,change field.2) else field

theorem getModify (key : Text) (change : Json → Json) (fields : Fields) (other : Text) :
    Fields.get (modify key change fields) other =
      if other = key then (Fields.get fields key).map change else Fields.get fields other := by
  induction fields with
  | nil => simp [modify]
  | cons field fields ih =>
    have head : modify key change (field::fields) =
        (field.1,if field.1 = key then change field.2 else field.2) :: modify key change fields := by
      by_cases same : field.1 = key <;> simp [modify,same]
    rw [head,getCons,ih,getCons field.1 field.2,getCons field.1 field.2]
    by_cases same : other = key
    · subst same
      by_cases here : field.1 = other <;> simp [here]
    · by_cases here : field.1 = other
      · simp [here,same]
      · simp [here,same]

theorem getModifySame (change : Json → Json) : Fields.get (modify key change fields) key = (Fields.get fields key).map change := by
  rw [getModify,if_pos rfl]

theorem getModifyOther (change : Json → Json) (apart : other ≠ key) :
    Fields.get (modify key change fields) other = Fields.get fields other := by
  rw [getModify,if_neg apart]

/-- `remove` -/
def without (key : Text) (fields : Fields) : Fields := fields.filter fun field => field.1 ≠ key

theorem getWithoutOther (apart : other ≠ key) : Fields.get (without key fields) other = Fields.get fields other := by
  induction fields with
  | nil => rfl
  | cons field fields ih =>
    by_cases here : field.1 = key
    · have gone : without key (field::fields) = without key fields := List.filter_cons_of_neg (by simp [here])
      rw [gone,ih,getCons field.1 field.2,if_neg fun same => apart (same.symm.trans here)]
    · have kept : without key (field::fields) = field :: without key fields := List.filter_cons_of_pos (by simp [here])
      rw [kept,getCons field.1 field.2,getCons field.1 field.2,ih]

theorem getWithoutSame : Fields.get (without key fields) key = none := by
  simp [Fields.get,without]

/-! Setting a key. -/

theorem absentAny (absent : (fields.any fun field => field.1 = key) = false) : Fields.get fields key = none := by
  rw [Fields.get,Option.map_eq_none_iff,List.find?_eq_none]
  exact List.any_eq_false.mp absent

theorem presentAny (present : (fields.any fun field => field.1 = key) = true) : (Fields.get fields key).isSome = true := by
  rw [Fields.get,Option.isSome_map,List.find?_isSome]
  exact List.any_eq_true.mp present

theorem insertModify (present : (fields.any fun field => field.1 = key) = true) :
    Fields.insert fields key value = modify key (fun _ => value) fields := by
  rw [Fields.insert,if_pos present,modify]
  refine List.map_congr_left fun field _ => ?_
  by_cases same : field.1 = key <;> simp [same]

theorem insertAppend (absent : (fields.any fun field => field.1 = key) = false) :
    Fields.insert fields key value = fields ++ [(key,value)] := by
  rw [Fields.insert,if_neg (by simp [absent])]

theorem getInsertSame : Fields.get (Fields.insert fields key value) key = some value := by
  cases present : fields.any fun field => field.1 = key with
  | true =>
    obtain ⟨old,held⟩ := Option.isSome_iff_exists.mp (presentAny present)
    rw [insertModify present,getModifySame,held]
    rfl
  | false =>
    rw [insertAppend present,getAppend,absentAny present]
    simp

theorem getInsertOther (apart : other ≠ key) : Fields.get (Fields.insert fields key value) other = Fields.get fields other := by
  cases present : fields.any fun field => field.1 = key with
  | true => rw [insertModify present,getModifyOther _ apart]
  | false => simp [insertAppend present,getAppend,apart.symm]

theorem withoutInsert : without key (Fields.insert fields key value) = without key fields := by
  cases present : fields.any fun field => field.1 = key with
  | true =>
    rw [insertModify present]
    clear present
    induction fields with
    | nil => rfl
    | cons field fields ih =>
      by_cases here : field.1 = key
      · simpa [without,modify,here] using ih
      · simpa [without,modify,here] using ih
  | false => simp [insertAppend present,without]

theorem orInsertEq : Fields.orInsert fields key value = if (Fields.get fields key).isSome then fields else fields ++ [(key,value)] := by
  unfold Fields.orInsert
  cases present : fields.any fun field => field.1 = key with
  | true => rw [if_pos rfl,if_pos (presentAny present)]
  | false => rw [if_neg (by decide),absentAny present,if_neg (by decide)]

theorem getOrInsertSame : Fields.get (Fields.orInsert fields key value) key = some ((Fields.get fields key).getD value) := by
  rw [orInsertEq]
  cases held : Fields.get fields key with
  | none => simp [getAppend,held]
  | some old => simp [held]

theorem getOrInsertOther (apart : other ≠ key) : Fields.get (Fields.orInsert fields key value) other = Fields.get fields other := by
  rw [orInsertEq]
  split
  · rfl
  · simp [getAppend,apart.symm]

end RustMcp.JsonFields
