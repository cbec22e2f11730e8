import RustMcp.Keyed
import RustMcp.Ranking

/-! A listing read page by page, with one element more than a page holds. Duplicates
of one identity are collapsed within what was read, the rest is arranged anew and cut
to a page, and the next page begins a page further on in the listing. -/
namespace RustMcp.Paging

section
variable {α ι : Type} (identity : α → ι) (priority : α → Nat)

/-- Each identity once, by an element of its highest priority. -/
structure Exact (rows out : List α) : Prop where
  once : (out.map identity).Nodup
  only : ∀ r ∈ out, r ∈ rows
  all : ∀ r ∈ rows, ∃ r' ∈ out, identity r' = identity r ∧ priority r ≤ priority r'

variable {identity priority}

theorem Exact.perm {rows out out' : List α} (exact_ : Exact identity priority rows out) (perm : out.Perm out') :
    Exact identity priority rows out' := by
  refine ⟨(perm.map identity).nodup_iff.mp exact_.once,fun r mem => exact_.only r (perm.mem_iff.mpr mem),fun r mem => ?_⟩
  obtain ⟨r',there,facts⟩ := exact_.all r mem
  exact ⟨r',perm.mem_iff.mp there,facts⟩

end

section
variable {α ι : Type} [LinearOrder ι] (identity : α → ι) (priority : α → Nat)

/-- The first element of the highest priority, for each identity. -/
def distinct (xs : List α) : List α := (Keyed.collect identity (Ranking.keepBest priority) xs).toList.map Prod.snd

variable {identity priority} {xs : List α}

theorem entryOf {k : ι} {v : α} (mem : (k,v) ∈ (Keyed.collect identity (Ranking.keepBest priority) xs).toList) :
    v ∈ xs ∧ identity v = k ∧ ∀ x ∈ xs, identity x = k → priority x ≤ priority v := by
  obtain ⟨inside,highest⟩ := Ranking.bestSome (Keyed.collectMem.mp mem)
  obtain ⟨inside,same⟩ := List.mem_filter.mp inside
  exact ⟨inside,by simpa using same,fun x there here => highest x (List.mem_filter.mpr ⟨there,by simpa using here⟩)⟩

variable (identity priority) in
/-- The first element of the highest priority among those of its identity. -/
def First (xs : List α) (x : α) : Prop :=
  ∃ before after, xs = before ++ x::after ∧ (∀ r ∈ before, identity r = identity x → priority r < priority x) ∧
    ∀ r ∈ after, identity r = identity x → priority r ≤ priority x

theorem memDistinct {x : α} : x ∈ distinct identity priority xs ↔ First identity priority xs x := by
  have entry : x ∈ distinct identity priority xs ↔
      Ranking.best priority (xs.filter fun r => identity r = identity x) = some x := by
    refine ⟨fun mem => ?_,fun kept => List.mem_map.mpr ⟨(identity x,x),Keyed.collectMem.mpr kept,rfl⟩⟩
    obtain ⟨⟨k,v⟩,inside,rfl⟩ := List.mem_map.mp mem
    have own := (entryOf inside).2.1
    exact Keyed.collectMem.mp (own ▸ inside)
  rw [entry,Ranking.bestIff]
  constructor
  · rintro ⟨before,after,shape,below,above⟩
    obtain ⟨early,late,rfl,rfl,rest⟩ := List.filter_eq_append_iff.mp shape
    obtain ⟨skipped,behind,rfl,others,_,rfl⟩ := List.filter_eq_cons_iff.mp rest
    refine ⟨early ++ skipped,behind,by simp,fun r mem same => ?_,fun r mem same => ?_⟩
    · rcases List.mem_append.mp mem with here | there
      · exact below r (List.mem_filter.mpr ⟨here,decide_eq_true same⟩)
      · exact absurd (decide_eq_true same) (others r there)
    · exact above r (List.mem_filter.mpr ⟨mem,decide_eq_true same⟩)
  · rintro ⟨before,after,rfl,below,above⟩
    refine ⟨before.filter fun r => identity r = identity x,after.filter fun r => identity r = identity x,?_,?_,?_⟩
    · rw [List.filter_append,List.filter_cons_of_pos (by simp)]
    · exact fun r mem => below r (List.mem_filter.mp mem).1 (of_decide_eq_true (List.mem_filter.mp mem).2)
    · exact fun r mem => above r (List.mem_filter.mp mem).1 (of_decide_eq_true (List.mem_filter.mp mem).2)

theorem distinctExact (xs : List α) : Exact identity priority xs (distinct identity priority xs) := by
  refine ⟨?_,fun r mem => ?_,fun r mem => ?_⟩
  · exact Keyed.valuesOnce fun k v mem => (entryOf mem).2.1
  · obtain ⟨entry,inside,rfl⟩ := List.mem_map.mp mem
    exact (entryOf inside).1
  · cases kept : (xs.filter (fun x => identity x = identity r)).foldl (Ranking.keepBest priority) none with
    | none =>
      have nobody := Ranking.bestNone.mp kept
      have there : r ∈ xs.filter (fun x => identity x = identity r) := List.mem_filter.mpr ⟨mem,by simp⟩
      rw [nobody] at there
      contradiction
    | some v =>
      have entry : (identity r,v) ∈ (Keyed.collect identity (Ranking.keepBest priority) xs).toList := Keyed.collectMem.mpr kept
      obtain ⟨_,same,highest⟩ := entryOf entry
      exact ⟨v,List.mem_map.mpr ⟨_,entry,rfl⟩,same,highest r mem rfl⟩

/-- Where every identity occurs once, nothing is collapsed. -/
theorem distinctPerm (once : (xs.map identity).Nodup) : (distinct identity priority xs).Perm xs := by
  have kept : Exact identity priority xs (distinct identity priority xs) := distinctExact xs
  refine (List.perm_ext_iff_of_nodup (List.Nodup.of_map _ kept.once) (List.Nodup.of_map _ once)).mpr fun r => ⟨kept.only r,fun mem => ?_⟩
  obtain ⟨r',there,same,_⟩ := kept.all r mem
  rwa [← List.inj_on_of_nodup_map once (kept.only r' there) mem same]

end

/-! Pages. -/

structure Reader (α ι : Type) where
  rows : List α
  identity : α → ι
  priority : α → Nat
  limit : Nat
  /-- offsets do not grow beyond -/
  cap : Nat
  arrange : Nat → List α → List α
  arranged : ∀ offset xs, (arrange offset xs).Perm xs
  holdsSome : 0 < limit

section
variable {α ι : Type} (reader : Reader α ι)

def Reader.window (offset : Nat) : List α := (reader.rows.drop offset).take (reader.limit + 1)

def Reader.next (offset : Nat) : Nat := min (offset + reader.limit) reader.cap

/-- A page and the element after it, all of different identities. -/
def Reader.Full (offset : Nat) : Prop :=
  (reader.window offset).length = reader.limit + 1 ∧ ((reader.window offset).map reader.identity).Nodup

/-- Full pages follow one another in place up to the page `m`, which is not full; what stands before
it is repeated neither there nor among itself, and what stands behind it repeats, at no higher
priority, something that was read. -/
structure Reader.Regular (inPlace : Nat → Prop) (m : Nat) : Prop where
  within : m * reader.limit ≤ reader.cap
  pages : ∀ k < m, reader.Full (k * reader.limit) ∧ inPlace (k * reader.limit)
  ends : ¬ reader.Full (m * reader.limit)
  once : ((reader.rows.take (m * reader.limit)).map reader.identity).Nodup
  fresh : ∀ r ∈ reader.rows.take (m * reader.limit), ∀ r' ∈ reader.window (m * reader.limit),
    reader.identity r ≠ reader.identity r'
  seen : ∀ r ∈ reader.rows.drop (m * reader.limit + (reader.limit + 1)),
    ∃ r' ∈ reader.rows.take (m * reader.limit + (reader.limit + 1)),
      reader.identity r' = reader.identity r ∧ reader.priority r ≤ reader.priority r'

variable {reader}

theorem Reader.Regular.congr {inPlace inPlace' : Nat → Prop}
    (same : ∀ offset, reader.Full offset → (inPlace offset ↔ inPlace' offset)) {m : Nat} (regular : reader.Regular inPlace m) :
    reader.Regular inPlace' m :=
  {regular with pages := fun k below => ⟨(regular.pages k below).1,(same _ (regular.pages k below).1).mp (regular.pages k below).2⟩}

/-- The listing has an element after a full page. -/
theorem fullNext {offset : Nat} (full : reader.Full offset) :
    ∃ y, reader.rows[offset + reader.limit]? = some y ∧
      reader.window offset = (reader.rows.drop offset).take reader.limit ++ [y] := by
  have length := full.1
  rw [Reader.window,List.length_take,List.length_drop] at length
  have inside : reader.limit < (reader.rows.drop offset).length := by rw [List.length_drop]; omega
  refine ⟨(reader.rows.drop offset)[reader.limit],?_,?_⟩
  · rw [← List.getElem?_drop,List.getElem?_eq_getElem inside]
  · rw [Reader.window,List.take_succ_eq_append_getElem inside]

theorem memWindow {offset i : Nat} {r : α} (here : reader.rows[i]? = some r) (from_ : offset ≤ i)
    (upto : i ≤ offset + reader.limit) : r ∈ reader.window offset := by
  refine List.mem_iff_getElem?.mpr ⟨i - offset,?_⟩
  rw [Reader.window,List.getElem?_take_of_lt (by omega),List.getElem?_drop,Nat.add_sub_cancel' from_]
  exact here

theorem pageParts (rows : List α) (offset limit m : Nat) :
    (rows.drop offset).take ((m + 1) * limit) =
      (rows.drop offset).take limit ++ (rows.drop (offset + limit)).take (m * limit) := by
  rw [Nat.succ_mul,Nat.add_comm,List.take_add,List.drop_drop]

theorem nextPage (offset limit k : Nat) : offset + (k + 1) * limit = offset + limit + k * limit := by
  rw [Nat.succ_mul]; omega

end

section
variable {α ι : Type} [LinearOrder ι] (reader : Reader α ι)

def Reader.collapsed (offset : Nat) : List α :=
  reader.arrange offset (distinct reader.identity reader.priority (reader.window offset))

def Reader.hasMore (offset : Nat) : Bool := reader.limit < (reader.collapsed offset).length

def Reader.items (offset : Nat) : List α :=
  if reader.hasMore offset then (reader.collapsed offset).take reader.limit else reader.collapsed offset

/-- What is read from an offset on, until there is no more. -/
inductive Reader.Reads : Nat → List α → Prop where
  | last {offset : Nat} (done : reader.hasMore offset = false) : Reader.Reads offset (reader.items offset)
  | more {offset : Nat} {out : List α} (more : reader.hasMore offset = true)
      (rest : Reader.Reads (reader.next offset) out) : Reader.Reads offset (reader.items offset ++ out)

/-- The element after the page is arranged last. -/
def Reader.InPlace (offset : Nat) : Prop := (reader.collapsed offset).getLast? = reader.rows[offset + reader.limit]?

variable {reader}

theorem collapsedExact (reader : Reader α ι) (offset : Nat) :
    Exact reader.identity reader.priority (reader.window offset) (reader.collapsed offset) :=
  (distinctExact _).perm (reader.arranged offset _).symm

theorem fullPerm {offset : Nat} (full : reader.Full offset) : (reader.collapsed offset).Perm (reader.window offset) :=
  (reader.arranged offset _).trans (distinctPerm full.2)

theorem hasMoreIff {offset : Nat} : reader.hasMore offset = true ↔ reader.Full offset := by
  rw [Reader.hasMore,decide_eq_true_eq]
  constructor
  · intro longer
    have kept := collapsedExact reader offset
    have short : (reader.window offset).length ≤ reader.limit + 1 := List.length_take_le _ _
    have perm : (reader.collapsed offset).Perm (reader.window offset) :=
      (List.subperm_of_subset (List.Nodup.of_map _ kept.once) kept.only).perm_of_length_le (by omega)
    exact ⟨by have := perm.length_eq; omega,(perm.map _).nodup_iff.mp kept.once⟩
  · intro full
    rw [(fullPerm full).length_eq,full.1]
    exact Nat.lt_succ_self _

theorem itemsMore {offset : Nat} (full : reader.Full offset) :
    reader.items offset = (reader.collapsed offset).take reader.limit := by
  rw [Reader.items,if_pos (hasMoreIff.mpr full)]

theorem itemsLast {offset : Nat} (ends : ¬ reader.Full offset) : reader.items offset = reader.collapsed offset := by
  rw [Reader.items,if_neg fun more => ends (hasMoreIff.mp more)]

/-- A full page is shown but for what is arranged last. -/
theorem fullSplit {offset : Nat} (full : reader.Full offset) :
    ∃ x, reader.collapsed offset = reader.items offset ++ [x] ∧ (reader.collapsed offset).getLast? = some x := by
  have length := (fullPerm full).length_eq
  rw [full.1] at length
  have rest : ((reader.collapsed offset).drop reader.limit).length = 1 := by rw [List.length_drop,length]; omega
  obtain ⟨x,only⟩ := List.length_eq_one_iff.mp rest
  have split := List.take_append_drop reader.limit (reader.collapsed offset)
  rw [only,← itemsMore full] at split
  exact ⟨x,split.symm,by rw [← split]; simp⟩

/-- In place, a page shows just its part of the listing. -/
theorem inPlacePerm {offset : Nat} (full : reader.Full offset) (inPlace : reader.InPlace offset) :
    (reader.items offset).Perm ((reader.rows.drop offset).take reader.limit) := by
  obtain ⟨x,split,last⟩ := fullSplit full
  obtain ⟨y,next,window⟩ := fullNext full
  have same : x = y := Option.some.inj (last.symm.trans (inPlace.trans next))
  have perm := fullPerm full
  rw [split,window,same] at perm
  exact (List.perm_append_right_iff [y]).mp perm

/-- Where nothing is shown twice, a page that is followed by others is in place, and the next one
begins where it ends: both pages read the element after the first. -/
theorem moreInPlace {offset : Nat} {out : List α} (full : reader.Full offset) (low : offset ≤ reader.cap)
    (once : ((reader.items offset ++ out).map reader.identity).Nodup)
    (covered : ∀ r ∈ reader.window (reader.next offset), reader.identity r ∈ out.map reader.identity) :
    reader.InPlace offset ∧ offset + reader.limit ≤ reader.cap := by
  obtain ⟨x,split,last⟩ := fullSplit full
  obtain ⟨y,next,window⟩ := fullNext full
  rw [List.map_append] at once
  have apart : ∀ r ∈ reader.items offset, r ∉ reader.window (reader.next offset) := fun r mem again =>
    (List.disjoint_of_nodup_append once) (List.mem_map_of_mem mem) (covered r again)
  have again : y ∈ reader.window (reader.next offset) :=
    memWindow next (Nat.min_le_left _ _) (by unfold Reader.next; omega)
  have inside : y ∈ reader.items offset ++ [x] := by
    rw [← split,(fullPerm full).mem_iff,window]
    exact List.mem_append_right _ (List.mem_singleton.mpr rfl)
  have inPlace : reader.InPlace offset := by
    rcases List.mem_append.mp inside with shown | dropped
    · exact absurd again (apart y shown)
    · rw [Reader.InPlace,last,next,List.mem_singleton.mp dropped]
  refine ⟨inPlace,?_⟩
  by_contra beyond
  -- the next page would begin at the cap and read the last element of this one
  have some_ := reader.holdsSome
  have inside : offset + reader.limit - 1 < reader.rows.length := by
    have bound := (List.getElem?_eq_some_iff.mp next).1
    omega
  have before : reader.rows[offset + reader.limit - 1]? = some reader.rows[offset + reader.limit - 1] :=
    List.getElem?_eq_getElem inside
  refine apart _ ((inPlacePerm full inPlace).mem_iff.mpr ?_) (memWindow before (by unfold Reader.next; omega)
    (by unfold Reader.next; omega))
  refine List.mem_iff_getElem?.mpr ⟨reader.limit - 1,?_⟩
  rw [List.getElem?_take_of_lt (by omega),List.getElem?_drop,← before]
  congr 1
  omega

/-- What a reader without repetitions has shown. -/
theorem readsOnce {offset : Nat} {out : List α} (reads : reader.Reads offset out) (low : offset ≤ reader.cap)
    (once : (out.map reader.identity).Nodup) :
    (∀ r ∈ reader.window offset, reader.identity r ∈ out.map reader.identity) ∧
    ∃ m, offset + m * reader.limit ≤ reader.cap ∧
      (∀ k < m, reader.Full (offset + k * reader.limit) ∧ reader.InPlace (offset + k * reader.limit)) ∧
      ¬ reader.Full (offset + m * reader.limit) ∧
      out.Perm ((reader.rows.drop offset).take (m * reader.limit) ++ reader.collapsed (offset + m * reader.limit)) := by
  induction reads with
  | @last offset done =>
    have ends : ¬ reader.Full offset := fun full => by rw [hasMoreIff.mpr full] at done; contradiction
    rw [itemsLast ends] at once ⊢
    refine ⟨fun r mem => ?_,0,by simpa using low,by simp,by simpa using ends,by simp⟩
    obtain ⟨r',there,same,_⟩ := (collapsedExact reader offset).all r mem
    exact List.mem_map.mpr ⟨r',there,same⟩
  | @more offset out more rest ih =>
    have full := hasMoreIff.mp more
    obtain ⟨covered,m,bound,pages,ends,perm⟩ := ih (Nat.min_le_right _ _) (by
      rw [List.map_append] at once
      exact (List.nodup_append.mp once).2.1)
    obtain ⟨inPlace,within⟩ := moreInPlace full low once covered
    have next : reader.next offset = offset + reader.limit := Nat.min_eq_left within
    rw [next] at covered bound pages ends perm
    have shown := inPlacePerm full inPlace
    refine ⟨fun r mem => ?_,m + 1,by rw [nextPage]; exact bound,fun k below => ?_,by rw [nextPage]; exact ends,?_⟩
    · obtain ⟨y,after,window⟩ := fullNext full
      rw [List.map_append,List.mem_append]
      rw [window,List.mem_append] at mem
      rcases mem with here | later
      · exact Or.inl (List.mem_map_of_mem (shown.mem_iff.mpr here))
      · rw [List.mem_singleton.mp later]
        exact Or.inr (covered y (memWindow after (le_refl _) (Nat.le_add_right _ _)))
    · cases k with
      | zero => rw [Nat.zero_mul,Nat.add_zero]; exact ⟨full,inPlace⟩
      | succ k => rw [nextPage]; exact pages k (Nat.lt_of_succ_lt_succ below)
    · rw [pageParts,nextPage,List.append_assoc]
      exact shown.append perm

theorem readsThrough {m : Nat} : ∀ offset : Nat, offset + m * reader.limit ≤ reader.cap →
    (∀ k < m, reader.Full (offset + k * reader.limit) ∧ reader.InPlace (offset + k * reader.limit)) →
    ¬ reader.Full (offset + m * reader.limit) →
    ∃ out, reader.Reads offset out ∧
      out.Perm ((reader.rows.drop offset).take (m * reader.limit) ++ reader.collapsed (offset + m * reader.limit)) := by
  induction m with
  | zero =>
    intro offset _ _ ends
    rw [Nat.zero_mul,Nat.add_zero] at ends ⊢
    refine ⟨_,.last ?_,by rw [itemsLast ends]; simp⟩
    cases more : reader.hasMore offset with
    | false => rfl
    | true => exact absurd (hasMoreIff.mp more) ends
  | succ m ih =>
    intro offset within pages ends
    obtain ⟨full,inPlace⟩ := pages 0 (Nat.succ_pos m)
    rw [Nat.zero_mul,Nat.add_zero] at full inPlace
    rw [nextPage] at within ends ⊢
    obtain ⟨out,reads,perm⟩ := ih (offset + reader.limit) within
      (fun k below => nextPage offset reader.limit k ▸ pages (k + 1) (Nat.succ_lt_succ below)) ends
    have next : reader.next offset = offset + reader.limit := Nat.min_eq_left (by omega)
    refine ⟨_,.more (hasMoreIff.mpr full) (next ▸ reads),?_⟩
    rw [pageParts,List.append_assoc]
    exact (inPlacePerm full inPlace).append perm

theorem exactParts (m : Nat) :
    Exact reader.identity reader.priority reader.rows
      (reader.rows.take (m * reader.limit) ++ reader.collapsed (m * reader.limit)) ↔
    ((reader.rows.take (m * reader.limit)).map reader.identity).Nodup ∧
    (∀ r ∈ reader.rows.take (m * reader.limit), ∀ r' ∈ reader.window (m * reader.limit),
      reader.identity r ≠ reader.identity r') ∧
    ∀ r ∈ reader.rows.drop (m * reader.limit + (reader.limit + 1)),
      ∃ r' ∈ reader.rows.take (m * reader.limit + (reader.limit + 1)),
        reader.identity r' = reader.identity r ∧ reader.priority r ≤ reader.priority r' := by
  have kept := collapsedExact reader (m * reader.limit)
  have read : reader.rows.take (m * reader.limit + (reader.limit + 1)) =
      reader.rows.take (m * reader.limit) ++ reader.window (m * reader.limit) := List.take_add
  rw [read]
  constructor
  · intro exact_
    have parts := exact_.once
    rw [List.map_append] at parts
    refine ⟨(List.nodup_append.mp parts).1,fun r mem r' mem' same => ?_,fun r mem => ?_⟩
    · obtain ⟨r'',there,same',_⟩ := kept.all r' mem'
      exact (List.disjoint_of_nodup_append parts) (List.mem_map_of_mem mem)
        (List.mem_map.mpr ⟨r'',there,same'.trans same.symm⟩)
    · obtain ⟨r',there,facts⟩ := exact_.all r (List.mem_of_mem_drop mem)
      refine ⟨r',?_,facts⟩
      rcases List.mem_append.mp there with before | here
      · exact List.mem_append_left _ before
      · exact List.mem_append_right _ (kept.only r' here)
  · rintro ⟨once,fresh,seen⟩
    have shown : ∀ r ∈ reader.rows.take (m * reader.limit) ++ reader.window (m * reader.limit),
        ∃ r' ∈ reader.rows.take (m * reader.limit) ++ reader.collapsed (m * reader.limit),
          reader.identity r' = reader.identity r ∧ reader.priority r ≤ reader.priority r' := fun r mem => by
      rcases List.mem_append.mp mem with before | here
      · exact ⟨r,List.mem_append_left _ before,rfl,le_refl _⟩
      · obtain ⟨r',there,facts⟩ := kept.all r here
        exact ⟨r',List.mem_append_right _ there,facts⟩
    refine ⟨?_,fun r mem => ?_,fun r mem => ?_⟩
    · rw [List.map_append]
      refine List.nodup_append.mpr ⟨once,kept.once,fun k before k' here => ?_⟩
      obtain ⟨r,mem,rfl⟩ := List.mem_map.mp before
      obtain ⟨r',mem',rfl⟩ := List.mem_map.mp here
      exact fresh r mem r' (kept.only r' mem')
    · rcases List.mem_append.mp mem with before | here
      · exact List.mem_of_mem_take before
      · exact List.mem_of_mem_drop (List.mem_of_mem_take (kept.only r here))
    · rw [← List.take_append_drop (m * reader.limit + (reader.limit + 1)) reader.rows,read] at mem
      rcases List.mem_append.mp mem with early | late
      · exact shown r early
      · obtain ⟨r',there,same,least⟩ := seen r late
        obtain ⟨r'',found,same',least'⟩ := shown r' there
        exact ⟨r'',found,same'.trans same,le_trans least least'⟩

/-- A listing is read to its end with each identity once, by an element of its highest priority,
exactly if its pages are regular. -/
theorem readsExactly : (∃ out, reader.Reads 0 out ∧ Exact reader.identity reader.priority reader.rows out) ↔
    ∃ m, reader.Regular reader.InPlace m := by
  constructor
  · rintro ⟨out,reads,exact_⟩
    obtain ⟨_,m,within,pages,ends,perm⟩ := readsOnce reads (Nat.zero_le _) exact_.once
    simp only [Nat.zero_add,List.drop_zero] at within pages ends perm
    obtain ⟨once,fresh,seen⟩ := (exactParts m).mp (exact_.perm perm)
    exact ⟨m,within,pages,ends,once,fresh,seen⟩
  · rintro ⟨m,regular⟩
    obtain ⟨out,reads,perm⟩ := readsThrough 0 (by simpa using regular.within) (by simpa using regular.pages)
      (by simpa using regular.ends)
    simp only [Nat.zero_add,List.drop_zero] at perm
    exact ⟨out,reads,((exactParts m).mpr ⟨regular.once,regular.fresh,regular.seen⟩).perm perm.symm⟩

end
/-! A page that shows what it has gathered, cut to a limit, with no duplicates to collapse. -/

section
variable {α : Type}

/-- What is read from an offset on, where a page says that there is more when it had to cut. -/
inductive Cuts (shown : Nat → List α) (limit cap : Nat) : Nat → List α → Prop where
  | last {offset : Nat} (done : (shown offset).length ≤ limit) : Cuts shown limit cap offset (shown offset)
  | more {offset : Nat} {out : List α} (more : limit < (shown offset).length)
      (rest : Cuts shown limit cap (min (offset + limit) cap) out) :
      Cuts shown limit cap offset ((shown offset).take limit ++ out)

variable {shown : Nat → List α} {limit cap offset : Nat} {out out' : List α}

theorem Cuts.unique (cuts : Cuts shown limit cap offset out) (cuts' : Cuts shown limit cap offset out') : out = out' := by
  induction cuts generalizing out' with
  | last done =>
    cases cuts' with
    | last => rfl
    | more more => omega
  | more more _ ih =>
    cases cuts' with
    | last done => omega
    | more _ rest => rw [ih rest]

/-- A scan that begins anew for every page, and stops one element behind it, reads everything up
to the cap on offsets. -/
theorem cutsScan {xs : List α} (some_ : 0 < limit) (scans : ∀ o, shown o = (xs.take (min (o + limit + 1) cap)).drop o)
    (low : offset ≤ cap) : Cuts shown limit cap offset ((xs.take cap).drop offset) := by
  induction rest : xs.length - offset using Nat.strong_induction_on generalizing offset with
  | _ n ih =>
    by_cases more : limit < (shown offset).length
    · have length := more
      rw [scans,List.length_drop,List.length_take] at length
      have next : min (offset + limit) cap = offset + limit := by omega
      have later := ih (xs.length - (offset + limit)) (by omega) (by omega) rfl
      rw [← next] at later
      have cut : (shown offset).take limit = ((xs.take cap).drop offset).take limit := by
        rw [scans,List.drop_take,List.drop_take,List.take_take,List.take_take]
        congr 1
        omega
      have split : (shown offset).take limit ++ (xs.take cap).drop (min (offset + limit) cap) = (xs.take cap).drop offset := by
        rw [next,cut,← List.drop_drop,List.take_append_drop]
      rw [← split]
      exact .more more later
    · have all : (xs.take cap).drop offset = shown offset := by
        rw [scans,List.length_drop,List.length_take] at more
        rw [scans,List.drop_take,List.drop_take]
        by_cases near : cap ≤ offset + limit + 1
        · rw [Nat.min_eq_right near]
        · rw [List.take_of_length_le (by rw [List.length_drop]; omega),
            List.take_of_length_le (by rw [List.length_drop]; omega)]
      rw [all]
      exact .last (Nat.le_of_not_lt more)

/-- A list that the offsets reach through is read whole. -/
theorem cutsWithin {xs : List α} (some_ : 0 < limit) (within : xs.length ≤ cap)
    (scans : ∀ o, shown o = (xs.take (o + limit + 1)).drop o) : Cuts shown limit cap 0 xs := by
  have stops : ∀ o, shown o = (xs.take (min (o + limit + 1) cap)).drop o := fun o => by
    have same : xs.take (min (o + limit + 1) cap) = xs.take (o + limit + 1) := by rw [List.take_eq_take_iff]; omega
    rw [same,scans]
  have cuts := cutsScan some_ stops (Nat.zero_le cap)
  rwa [List.drop_zero,List.take_of_length_le within] at cuts

/-- Every page that has another one after it ends where an offset can stand. -/
def Reachable (limit cap total : Nat) : Prop := ∀ k, (k + 1) * limit < total → (k + 1) * limit ≤ cap

variable {xs : List α}

/-- What is read from an offset is no shorter than what stands there, and longer if the offsets end on the way. -/
theorem cutsLength (scans : ∀ o, shown o = (xs.drop o).take (limit + 1)) (cuts : Cuts shown limit cap offset out) :
    xs.length ≤ offset + out.length ∧
      (offset + out.length = xs.length → ∀ k, offset + (k + 1) * limit < xs.length → offset + (k + 1) * limit ≤ cap) := by
  induction cuts with
  | @last offset done =>
    rw [scans,List.length_take,List.length_drop] at done ⊢
    refine ⟨by omega,fun _ k below => ?_⟩
    have least : limit ≤ (k + 1) * limit := Nat.le_mul_of_pos_left limit (Nat.succ_pos k)
    omega
  | @more offset out more _ ih =>
    obtain ⟨least,further⟩ := ih
    have page : ((shown offset).take limit).length = limit := by rw [List.length_take]; omega
    rw [List.length_append,page]
    refine ⟨by omega,fun exact_ k below => ?_⟩
    have next : min (offset + limit) cap = offset + limit := by omega
    rw [next] at further
    rcases k with _ | k
    · omega
    · rw [Nat.succ_mul] at below ⊢
      have later := further (by omega) k (by omega)
      omega

theorem reachableCuts (scans : ∀ o, shown o = (xs.drop o).take (limit + 1)) (some_ : 0 < limit) {k : Nat}
    (reachable : Reachable limit cap xs.length) : Cuts shown limit cap (k * limit) (xs.drop (k * limit)) := by
  induction rest : xs.length - k * limit using Nat.strong_induction_on generalizing k with
  | _ n ih =>
    by_cases more : (k + 1) * limit < xs.length
    · have next : min (k * limit + limit) cap = (k + 1) * limit := by
        have step := reachable k more
        rw [Nat.succ_mul] at step ⊢
        exact Nat.min_eq_left step
      have later := ih (xs.length - (k + 1) * limit) (by rw [Nat.succ_mul] at more ⊢; omega) rfl
      rw [← next] at later
      have split : (shown (k * limit)).take limit ++ xs.drop (min (k * limit + limit) cap) = xs.drop (k * limit) := by
        rw [scans,List.take_take,Nat.min_eq_left (Nat.le_succ limit),next,Nat.succ_mul,← List.drop_drop,List.take_append_drop]
      rw [← split]
      refine .more ?_ later
      rw [scans,List.length_take,List.length_drop]
      rw [Nat.succ_mul] at more
      omega
    · have all : xs.drop (k * limit) = shown (k * limit) := by
        rw [Nat.succ_mul] at more
        rw [scans,List.take_of_length_le (by rw [List.length_drop]; omega)]
      rw [all]
      refine .last ?_
      rw [← all,List.length_drop]
      rw [Nat.succ_mul] at more
      omega

/-- The pages of a list are the list, once, just if offsets reach through it. -/
theorem cutsWholeIff (scans : ∀ o, shown o = (xs.drop o).take (limit + 1)) (some_ : 0 < limit) :
    (Cuts shown limit cap 0 out ∧ out.length = xs.length) ↔ out = xs ∧ Reachable limit cap xs.length := by
  constructor
  · rintro ⟨cuts,length⟩
    have reachable : Reachable limit cap xs.length := fun k below => by
      have within := (cutsLength scans cuts).2 (by omega) k (by rwa [Nat.zero_add])
      rwa [Nat.zero_add] at within
    have whole : Cuts shown limit cap (0 * limit) (xs.drop (0 * limit)) := reachableCuts scans some_ reachable
    rw [Nat.zero_mul] at whole
    exact ⟨cuts.unique whole,reachable⟩
  · rintro ⟨rfl,reachable⟩
    have whole : Cuts shown limit cap (0 * limit) (out.drop (0 * limit)) := reachableCuts scans some_ reachable
    rw [Nat.zero_mul] at whole
    exact ⟨whole,rfl⟩

theorem cutsMem (scans : ∀ o, shown o = (xs.drop o).take (limit + 1)) (cuts : Cuts shown limit cap offset out) {x : α}
    (mem : x ∈ out) : x ∈ xs := by
  have page {o : Nat} (here : x ∈ shown o) : x ∈ xs := by
    rw [scans] at here
    exact List.mem_of_mem_drop (List.mem_of_mem_take here)
  induction cuts with
  | last _ => exact page mem
  | more _ _ ih => exact (List.mem_append.mp mem).elim (fun here => page (List.mem_of_mem_take here)) ih

/-- Pages that repeat nothing are the list. -/
theorem cutsOnce (scans : ∀ o, shown o = (xs.drop o).take (limit + 1)) (some_ : 0 < limit)
    (cuts : Cuts shown limit cap 0 out) (once : out.Nodup) : out = xs ∧ Reachable limit cap xs.length := by
  have most := (List.subperm_of_subset once fun _ mem => cutsMem scans cuts mem).length_le
  have least := (cutsLength scans cuts).1
  exact (cutsWholeIff scans some_).mp ⟨cuts,by omega⟩

end
/-! A scan that passes over elements with nothing to show, while the offset counts them. -/

section
variable {α β : Type} {entry : α → Option β} {xs : List α} {shown : Nat → List β} {limit cap offset : Nat} {out : List β}

theorem cutsHead (cuts : Cuts shown limit cap offset out) {x : β} (mem : x ∈ (shown offset).take limit) : x ∈ out := by
  cases cuts with
  | last => exact List.mem_of_mem_take mem
  | more => exact List.mem_append_left _ mem

theorem entriesFull : (xs.filterMap entry).length = xs.length ↔ ∀ x ∈ xs, (entry x).isSome = true := by
  induction xs with
  | nil => simp
  | cons x xs ih =>
    have short : (xs.filterMap entry).length ≤ xs.length := List.length_filterMap_le _ _
    rw [List.forall_mem_cons,← ih]
    cases shows : entry x with
    | none =>
      rw [List.filterMap_cons_none shows]
      simp
      omega
    | some value =>
      rw [List.filterMap_cons_some shows]
      simp

/-- More than a page is left at an offset: then the page is full in place, and the next offset is in reach. -/
def Dense (entry : α → Option β) (xs : List α) (limit cap offset : Nat) : Prop :=
  limit < ((xs.drop offset).filterMap entry).length →
    offset + limit ≤ cap ∧ ∀ x ∈ (xs.drop offset).take limit, (entry x).isSome = true

theorem entriesSplit (entry : α → Option β) (xs : List α) (offset step : Nat) :
    (xs.drop offset).filterMap entry =
      ((xs.drop offset).take step).filterMap entry ++ (xs.drop (offset + step)).filterMap entry := by
  rw [← List.filterMap_append,← List.drop_drop,List.take_append_drop]

theorem densePage (dense : Dense entry xs limit cap offset) (more : limit < ((xs.drop offset).filterMap entry).length) :
    ((xs.drop offset).filterMap entry).take limit = ((xs.drop offset).take limit).filterMap entry := by
  have long : limit < (xs.drop offset).length := lt_of_lt_of_le more (List.length_filterMap_le _ _)
  have full : (((xs.drop offset).take limit).filterMap entry).length = limit := by
    rw [entriesFull.mpr (dense more).2,List.length_take]
    omega
  rw [entriesSplit entry xs offset limit,List.take_left' full]

/-- Where nothing is shown twice, a page that is followed by another shows just its own part. -/
theorem denseHere (scans : ∀ o, shown o = ((xs.drop o).filterMap entry).take (limit + 1)) (some_ : 0 < limit) (low : offset ≤ cap)
    (rest : Cuts shown limit cap (min (offset + limit) cap) out) (once : ((shown offset).take limit ++ out).Nodup) :
    Dense entry xs limit cap offset := by
  intro more
  have apart := List.disjoint_of_nodup_append once
  -- what the two pages have in common
  obtain ⟨step,next,within⟩ : ∃ step, min (offset + limit) cap = offset + step ∧ step ≤ limit :=
    ⟨min (offset + limit) cap - offset,by omega,by omega⟩
  rw [next] at rest
  have split := entriesSplit entry xs offset step
  generalize own_ : ((xs.drop offset).take step).filterMap entry = own at split
  have ownShort : own.length ≤ step := by
    rw [← own_]
    exact le_trans (List.length_filterMap_le _ _) (List.length_take_le _ _)
  have full : own.length = limit := by
    by_contra short
    obtain ⟨x,later,same⟩ : ∃ x later, (xs.drop (offset + step)).filterMap entry = x::later := by
      refine List.exists_cons_of_ne_nil fun none_ => ?_
      rw [split,none_,List.append_nil] at more
      omega
    have here : x ∈ (shown offset).take limit := by
      rw [scans,List.take_take,split,same,Nat.min_eq_left (Nat.le_succ limit),List.take_append]
      refine List.mem_append_right _ ?_
      rw [show limit - own.length = (limit - own.length - 1) + 1 by omega]
      exact List.mem_cons_self
    refine apart here (cutsHead rest ?_)
    rw [scans,List.take_take,same,Nat.min_eq_left (Nat.le_succ limit),show limit = (limit - 1) + 1 by omega]
    exact List.mem_cons_self
  have whole : step = limit := by omega
  subst whole
  refine ⟨by omega,entriesFull.mp ?_⟩
  rw [own_,full]
  have most : ((xs.drop offset).take step).length ≤ step := List.length_take_le _ _
  have least : own.length ≤ ((xs.drop offset).take step).length := by
    rw [← own_]
    exact List.length_filterMap_le _ _
  omega

theorem denseFrom (scans : ∀ o, shown o = ((xs.drop o).filterMap entry).take (limit + 1)) (some_ : 0 < limit)
    (cuts : Cuts shown limit cap offset out) (low : offset ≤ cap) (once : out.Nodup) (k : Nat) :
    Dense entry xs limit cap (offset + k * limit) := by
  induction cuts generalizing k with
  | @last offset done =>
    intro more
    have fewer : ((xs.drop (offset + k * limit)).filterMap entry).length ≤ ((xs.drop offset).filterMap entry).length := by
      rw [entriesSplit entry xs offset (k * limit),List.length_append]
      omega
    rw [scans,List.length_take] at done
    omega
  | @more offset out more rest ih =>
    have here := denseHere scans some_ low rest once
    have longer : limit < ((xs.drop offset).filterMap entry).length := by
      rw [scans,List.length_take] at more
      omega
    have next : min (offset + limit) cap = offset + limit := Nat.min_eq_left (here longer).1
    cases k with
    | zero => simpa using here
    | succ k =>
      have later := ih (Nat.min_le_right _ _) (List.nodup_append.mp once).2.1 k
      rwa [next,← nextPage] at later

theorem denseCuts (scans : ∀ o, shown o = ((xs.drop o).filterMap entry).take (limit + 1)) (some_ : 0 < limit)
    (dense : ∀ k, Dense entry xs limit cap (offset + k * limit)) :
    Cuts shown limit cap offset ((xs.drop offset).filterMap entry) := by
  induction rest : xs.length - offset using Nat.strong_induction_on generalizing offset with
  | _ n ih =>
    have first : Dense entry xs limit cap offset := by simpa using dense 0
    by_cases more : limit < ((xs.drop offset).filterMap entry).length
    · have long : limit < (xs.drop offset).length := lt_of_lt_of_le more (List.length_filterMap_le _ _)
      rw [List.length_drop] at long
      have later := ih (xs.length - (offset + limit)) (by omega) (fun k => nextPage offset limit k ▸ dense (k + 1)) rfl
      have next : min (offset + limit) cap = offset + limit := Nat.min_eq_left (first more).1
      have page : (shown offset).take limit = ((xs.drop offset).take limit).filterMap entry := by
        rw [scans,List.take_take,Nat.min_eq_left (Nat.le_succ limit),densePage first more]
      rw [← next] at later
      rw [entriesSplit entry xs offset limit,← page,← next]
      refine .more ?_ later
      rw [scans,List.length_take]
      omega
    · have all : (xs.drop offset).filterMap entry = shown offset := by
        rw [scans,List.take_of_length_le (by omega)]
      rw [all]
      refine .last ?_
      rw [scans,List.length_take]
      omega

/-- Everything is shown once just when no page that is followed by another has something to pass over. -/
theorem skipsIff (scans : ∀ o, shown o = ((xs.drop o).filterMap entry).take (limit + 1)) (some_ : 0 < limit)
    (once : (xs.filterMap entry).Nodup) :
    (∃ out, Cuts shown limit cap 0 out ∧ out.Perm (xs.filterMap entry)) ↔ ∀ k, Dense entry xs limit cap (k * limit) := by
  constructor
  · rintro ⟨out,cuts,perm⟩ k
    have dense := denseFrom scans some_ cuts (Nat.zero_le cap) (perm.nodup_iff.mpr once) k
    rwa [Nat.zero_add] at dense
  · intro dense
    exact ⟨_,denseCuts scans some_ fun k => (Nat.zero_add (k * limit)).symm ▸ dense k,List.Perm.refl _⟩

end
/-- What is gathered up to a bound, and then further. -/
theorem takeAgain {α : Type} (n : Nat) (xs ys : List α) : (xs.take n ++ ys).take n = (xs ++ ys).take n := by
  rw [List.take_append,List.take_append,List.take_take,Nat.min_self,List.length_take]
  congr 2
  omega

/-! Cursors: an answer to a cursor, or to none, is a page with the cursor of the next one. -/

structure Page (T α : Type) where
  items : List α
  hasMore : Bool
  nextCursor : Option T

section
variable {T α : Type}

/-- What is returned when the cursor is followed until there is no more. -/
inductive Follows (answer : Option T → Option (Page T α)) : Option T → List α → Prop where
  | last {cursor : Option T} {page : Page T α} (answered : answer cursor = some page) (done : page.hasMore = false) :
      Follows answer cursor page.items
  | more {cursor : Option T} {page : Page T α} {out : List α} (answered : answer cursor = some page)
      (more : page.hasMore = true) (rest : Follows answer page.nextCursor out) : Follows answer cursor (page.items ++ out)

def cutPage (gathered : List α) (limit : Nat) (next : T) : Page T α :=
  if limit < gathered.length then ⟨gathered.take limit,true,some next⟩ else ⟨gathered,false,none⟩

theorem cutWritten (gathered : List α) (limit : Nat) (next : T) :
    (⟨if decide (gathered.length > limit) then gathered.take limit else gathered,decide (gathered.length > limit),
      if decide (gathered.length > limit) then some next else none⟩ : Page T α) = cutPage gathered limit next := by
  unfold cutPage
  by_cases more : limit < gathered.length <;> simp [more]

/-- The same page, where there is more as long as fewer than all have been shown. -/
theorem countWritten (xs : List α) {limit offset : Nat} (some_ : 0 < limit) (next : T) :
    (⟨(xs.drop offset).take (max limit 1),decide (offset + ((xs.drop offset).take (max limit 1)).length < xs.length),
      if decide (offset + ((xs.drop offset).take (max limit 1)).length < xs.length) then some next else none⟩ :
        Page T α) = cutPage ((xs.drop offset).take (limit + 1)) limit next := by
  have more : offset + ((xs.drop offset).take (max limit 1)).length < xs.length ↔
      limit < ((xs.drop offset).take (limit + 1)).length := by
    rw [List.length_take,List.length_take,List.length_drop]
    omega
  rw [cutPage,Nat.max_eq_left some_]
  rw [Nat.max_eq_left some_] at more
  by_cases longer : limit < ((xs.drop offset).take (limit + 1)).length
  · rw [if_pos longer,List.take_take,Nat.min_eq_left (Nat.le_succ limit),decide_eq_true (more.mpr longer)]
    rfl
  · have short := Nat.le_of_not_lt longer
    rw [if_neg longer,decide_eq_false (mt more.mp longer)]
    rw [List.length_take] at short
    have all : (xs.drop offset).take limit = (xs.drop offset).take (limit + 1) := by
      rw [List.take_of_length_le (by omega),List.take_of_length_le (by omega)]
    rw [all]
    rfl

/-- A cursor that stands at an offset; the first page is asked for without one. -/
def StandsAt (tokenAt : Nat → T) (cursor : Option T) (offset : Nat) : Prop :=
  (cursor = none ∧ offset = 0) ∨ cursor = some (tokenAt offset)

variable {answer : Option T → Option (Page T α)} {tokenAt : Nat → T} {limit cap : Nat}

theorem StandsAt.map {T' : Type} (f : T → T') {cursor : Option T} {offset : Nat} (stands : StandsAt tokenAt cursor offset) :
    StandsAt (fun offset => f (tokenAt offset)) (cursor.map f) offset := by
  rcases stands with ⟨rfl,rfl⟩ | rfl
  · exact Or.inl ⟨rfl,rfl⟩
  · exact Or.inr rfl

theorem followsEnds (answers : ∀ {cursor offset page}, StandsAt tokenAt cursor offset → answer cursor = some page →
      ∃ gathered, page = cutPage gathered limit (tokenAt (min (offset + limit) cap)))
    {cursor : Option T} {out : List α} (follows : Follows answer cursor out) {offset : Nat}
    (stands : StandsAt tokenAt cursor offset) :
    ∃ cursor offset page, StandsAt tokenAt cursor offset ∧ answer cursor = some page ∧ page.hasMore = false := by
  induction follows generalizing offset with
  | last answered done => exact ⟨_,_,_,stands,answered,done⟩
  | more answered more _ ih =>
    obtain ⟨gathered,rfl⟩ := answers stands answered
    by_cases longer : limit < gathered.length
    · have next : StandsAt tokenAt (cutPage gathered limit (tokenAt (min (offset + limit) cap))).nextCursor
          (min (offset + limit) cap) := by
        rw [cutPage,if_pos longer]
        exact Or.inr rfl
      exact ih next
    · rw [cutPage,if_neg longer] at more
      contradiction

/-- The pages at the offsets that a reader can come to. -/
theorem followsWithin (within : Nat → Prop) (next : ∀ {offset}, within offset → within (min (offset + limit) cap)) {shown : Nat → List α}
    (answers : ∀ {cursor offset}, within offset → StandsAt tokenAt cursor offset →
      answer cursor = some (cutPage (shown offset) limit (tokenAt (min (offset + limit) cap))))
    {cursor : Option T} {offset : Nat} {out : List α} (here : within offset) (stands : StandsAt tokenAt cursor offset) :
    Follows answer cursor out ↔ Cuts shown limit cap offset out := by
  constructor
  · intro follows
    induction follows generalizing offset with
    | last answered done =>
      cases Option.some.inj (answered.symm.trans (answers here stands))
      by_cases more : limit < (shown offset).length
      · rw [cutPage,if_pos more] at done
        contradiction
      · rw [cutPage,if_neg more]
        exact .last (Nat.le_of_not_lt more)
    | more answered again _ ih =>
      cases Option.some.inj (answered.symm.trans (answers here stands))
      by_cases more : limit < (shown offset).length
      · rw [cutPage,if_pos more] at ih ⊢
        exact .more more (ih (next here) (Or.inr rfl))
      · rw [cutPage,if_neg more] at again
        contradiction
  · intro cuts
    induction cuts generalizing cursor with
    | @last offset done =>
      have answered := answers here stands
      rw [cutPage,if_neg (Nat.not_lt_of_le done)] at answered
      exact .last answered rfl
    | @more offset out more _ ih =>
      have answered := answers here stands
      rw [cutPage,if_pos more] at answered
      exact .more answered rfl (ih (next here) (Or.inr rfl))

theorem followsCuts {shown : Nat → List α} (answers : ∀ {cursor offset}, StandsAt tokenAt cursor offset →
      answer cursor = some (cutPage (shown offset) limit (tokenAt (min (offset + limit) cap))))
    {cursor : Option T} {offset : Nat} {out : List α} (stands : StandsAt tokenAt cursor offset) :
    Follows answer cursor out ↔ Cuts shown limit cap offset out :=
  followsWithin (fun _ => True) (fun _ => trivial) (fun _ stands => answers stands) trivial stands

theorem cutsMap {β : Type} {f : α → β} {shown : Nat → List α} {offset : Nat} {out' : List β} :
    Cuts (fun o => (shown o).map f) limit cap offset out' ↔ ∃ out, Cuts shown limit cap offset out ∧ out.map f = out' := by
  constructor
  · intro cuts
    induction cuts with
    | last done => exact ⟨_,.last (by rwa [List.length_map] at done),rfl⟩
    | more more _ ih =>
      obtain ⟨out,rest,rfl⟩ := ih
      rw [List.length_map] at more
      exact ⟨_,.more more rest,by rw [List.map_append,List.map_take]⟩
  · rintro ⟨out,cuts,rfl⟩
    induction cuts with
    | last done => exact .last (by rwa [List.length_map])
    | more more _ ih =>
      rw [List.map_append,List.map_take]
      exact .more (by rwa [List.length_map]) ih

end
/-! The first element of each identity, in the order of the list. -/

section
variable {α ι : Type} [DecidableEq ι] (identity : α → ι)

def firstOfEach : List ι → List α → List α
  | _, [] => []
  | seen, x::xs =>
      if identity x ∈ seen then firstOfEach seen xs else x :: firstOfEach (identity x::seen) xs

variable {identity}

theorem memFirst {seen : List ι} {xs : List α} {k : ι} :
    k ∈ (firstOfEach identity seen xs).map identity ↔ k ∈ xs.map identity ∧ k ∉ seen := by
  induction xs generalizing seen with
  | nil => simp [firstOfEach]
  | cons x xs ih =>
    unfold firstOfEach
    split
    · rename_i known
      rw [ih,List.map_cons,List.mem_cons]
      exact ⟨fun ⟨inside,new⟩ => ⟨Or.inr inside,new⟩,
        fun ⟨inside,new⟩ => ⟨inside.resolve_left fun same => new (same ▸ known),new⟩⟩
    · rename_i new
      rw [List.map_cons,List.map_cons,List.mem_cons,List.mem_cons,ih,List.mem_cons]
      by_cases same : k = identity x
      · simp [same,new]
      · simp [same]

theorem firstOnce (seen : List ι) (xs : List α) : ((firstOfEach identity seen xs).map identity).Nodup := by
  induction xs generalizing seen with
  | nil => exact List.nodup_nil
  | cons x xs ih =>
    unfold firstOfEach
    split
    · exact ih seen
    · rw [List.map_cons,List.nodup_cons]
      exact ⟨fun again => (memFirst.mp again).2 List.mem_cons_self,ih _⟩

theorem firstSublist (seen : List ι) (xs : List α) : (firstOfEach identity seen xs).Sublist xs := by
  induction xs generalizing seen with
  | nil => exact List.Sublist.refl _
  | cons x xs ih =>
    unfold firstOfEach
    split
    · exact (ih seen).cons x
    · exact (ih _).cons_cons x

theorem firstConcat (seen : List ι) (xs : List α) (x : α) : firstOfEach identity seen (xs ++ [x]) =
    firstOfEach identity seen xs ++ if identity x ∈ xs.map identity ∨ identity x ∈ seen then [] else [x] := by
  induction xs generalizing seen with
  | nil => simp [firstOfEach]
  | cons y ys ih =>
    rw [List.cons_append,firstOfEach,firstOfEach]
    split
    · rename_i known
      rw [ih]
      congr 1
      refine if_congr ⟨Or.imp_left (List.mem_cons_of_mem _),?_⟩ rfl rfl
      rintro (inside | before)
      · exact (List.mem_cons.mp inside).elim (fun same => Or.inr (same ▸ known)) Or.inl
      · exact Or.inr before
    · rw [ih,List.cons_append]
      congr 2
      refine if_congr ?_ rfl rfl
      rw [List.map_cons,List.mem_cons,List.mem_cons]
      tauto

theorem firstLength (seen : List ι) (xs : List α) : (firstOfEach identity seen xs).length ≤ xs.length :=
  (firstSublist seen xs).length_le

theorem firstAll {xs : List α} (once : (xs.map identity).Nodup) :
    firstOfEach identity [] xs = xs := by
  refine (firstSublist [] xs).eq_of_length_le ?_
  have kept : xs.map identity ⊆ (firstOfEach identity [] xs).map identity := fun k mem =>
    memFirst.mpr ⟨mem,List.not_mem_nil⟩
  have least := (List.subperm_of_subset once kept).length_le
  rwa [List.length_map,List.length_map] at least

/-- In a list in order, the first of an identity is the least. -/
theorem firstLeast {κ : Type} [Preorder κ] {key : α → κ} {seen : List ι} {xs : List α}
    (sorted : xs.Pairwise fun a b => key a ≤ key b) {x y : α} (kept : x ∈ firstOfEach identity seen xs) (mem : y ∈ xs)
    (same : identity y = identity x) : key x ≤ key y := by
  induction xs generalizing seen with
  | nil => contradiction
  | cons z xs ih =>
    obtain ⟨below,later⟩ := List.pairwise_cons.mp sorted
    unfold firstOfEach at kept
    split at kept
    · rename_i known
      have new := (memFirst.mp (List.mem_map_of_mem kept)).2
      rcases List.mem_cons.mp mem with rfl | further
      · exact absurd (same ▸ known) new
      · exact ih later kept further
    · rcases List.mem_cons.mp kept with rfl | after
      · exact (List.mem_cons.mp mem).elim (fun own => own ▸ le_refl (key y)) (below y)
      · have new := (memFirst.mp (List.mem_map_of_mem after)).2
        rcases List.mem_cons.mp mem with rfl | further
        · exact absurd (same ▸ List.mem_cons_self) new
        · exact ih later after further

/-- Elements of identities that occur earlier change nothing. -/
theorem firstAppend {xs ys : List α} {seen : List ι} (known : ∀ y ∈ ys, identity y ∈ xs.map identity ∨ identity y ∈ seen) :
    firstOfEach identity seen (xs ++ ys) = firstOfEach identity seen xs := by
  induction xs generalizing seen with
  | nil =>
    change firstOfEach identity seen ys = []
    rw [← List.map_eq_nil_iff (f := identity)]
    refine List.eq_nil_iff_forall_not_mem.mpr fun k mem => ?_
    obtain ⟨inside,new⟩ := memFirst.mp mem
    obtain ⟨y,there,rfl⟩ := List.mem_map.mp inside
    exact new ((known y there).resolve_left List.not_mem_nil)
  | cons x xs ih =>
    rw [List.cons_append,firstOfEach,firstOfEach]
    split
    · rename_i here
      refine ih fun y mem => (known y mem).elim (fun inside => ?_) Or.inr
      exact (List.mem_cons.mp inside).elim (fun same => Or.inr (same ▸ here)) Or.inl
    · congr 1
      refine ih fun y mem => (known y mem).elim (fun inside => ?_) fun inside => Or.inr (List.mem_cons_of_mem _ inside)
      exact (List.mem_cons.mp inside).elim (fun same => Or.inr (same ▸ List.mem_cons_self)) Or.inl

end
end RustMcp.Paging
