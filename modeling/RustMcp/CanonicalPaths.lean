import RustMcp.Chains
import RustMcp.Keyed
import RustMcp.Ranking
import RustMcp.Str

/-! The canonical paths of a rustdoc crate's items. The map of them is read while it is
improved, in the order in which the index happens to be walked. -/
namespace RustMcp.CanonicalPaths
open Str (Text)

abbrev Id := Nat

inductive RustdocVisibility where
  | public_
  | default_
  | crate
  | restricted
  deriving DecidableEq

inductive ItemEnum where
  | moduleItem (items : List Id)
  | useItem (id : Option Id) (isGlob : Bool)
  | other

structure Item where
  name : Option Text
  visibility : RustdocVisibility
  inner : ItemEnum

/-- Both maps, listed in the order in which they are walked. -/
structure RustdocCrate where
  index : Keyed.Table fun row : Id × Item => row.1
  paths : Keyed.Table fun row : Id × List Text => row.1

abbrev Paths := Keyed.Map Id Text

def pathRank (path : Text) : Nat ×ₗ Nat ×ₗ Text :=
  toLex (((Str.split "::".toList path).filter (· ≠ [])).length,toLex ((path.map Char.utf8Size).sum,path))

section
variable (krate : RustdocCrate)

def getItem (id : Id) : Option Item := (krate.index.lookup id).map Prod.snd

/-- What a use item stands for. -/
def useTarget (id : Id) : Option Id :=
  match getItem krate id with
  | some ⟨_,_,.useItem target _⟩ => target
  | _ => none

theorem memIndex {id : Id} {item : Item} : getItem krate id = some item ↔ (id,item) ∈ krate.index.rows := by
  rw [getItem,Option.map_eq_some_iff]
  constructor
  · rintro ⟨⟨id',item'⟩,found,rfl⟩
    obtain ⟨mem,rfl⟩ := Keyed.Table.lookupIff.mp found
    exact mem
  · intro mem
    exact ⟨(id,item),Keyed.Table.lookupIff.mpr ⟨mem,rfl⟩,rfl⟩

theorem targetInside (id : Id) (some_ : useTarget krate id ≠ none) : id ∈ krate.index.rows.map (·.1) := by
  cases found : getItem krate id with
  | none => exact absurd (by rw [useTarget,found]) some_
  | some item => exact List.mem_map_of_mem ((memIndex krate).mp found)

/-- Every round of the loop passes an item of the index, so there are no more than it has, and one. -/
theorem resolveReturns (start : Id) :
    ∃ target, Chains.follow (useTarget krate) (krate.index.rows.length + 1) [] start = some target :=
  Chains.followReturns (targetInside krate)
    (Nat.lt_succ_of_le (le_trans (List.length_filter_le _ _) (List.length_map _).le))

def resolveUseTargetId (start : Id) : Id :=
  (Chains.follow (useTarget krate) (krate.index.rows.length + 1) [] start).get
    (Option.isSome_iff_exists.mpr (resolveReturns krate start))

/-- The path that the crate's own table gives. -/
def ownPath (id : Id) : Option Text := (krate.paths.lookup id).map fun row => Str.join "::".toList row.2

def initial : Paths := Keyed.ofPairs (krate.paths.rows.map fun (id,path) => (id,Str.join "::".toList path))

/-- The items of each module that has a path. -/
def containing (canonical : Paths) : List (Id × Text) :=
  krate.index.rows.flatMap fun (modId,item) =>
    match item.inner, canonical[modId]? with
    | .moduleItem items, some modPath => items.map fun childId => (childId,modPath)
    | _, _ => []

def offer (canonical : Paths) (id : Id) (candidate : Text) : Paths :=
  canonical.alter id fun entry =>
    match entry with
    | none => some candidate
    | some path => some (if pathRank candidate < pathRank path then candidate else path)

def registerChild (parentPath : Text) (canonical : Paths) (childId : Id) : Paths :=
  match getItem krate childId with
  | none => canonical
  | some child =>
      if child.visibility ≠ .public_ then canonical
      else match child.name with
        | none => canonical
        | some childName => offer canonical (resolveUseTargetId krate childId) (parentPath ++ "::".toList ++ childName)

def visit (parentPathOf : Paths) (canonical : Paths) (row : Id × Item) : Paths :=
  match row.2.inner with
  | .useItem target isGlob =>
      if row.2.visibility ≠ .public_ then canonical
      else if isGlob then
        match target, parentPathOf[row.1]? with
        | some targetId, some parentPath =>
            match getItem krate targetId with
            | some ⟨_,_,.moduleItem items⟩ => items.foldl (registerChild krate parentPath) canonical
            | _ => canonical
        | _, _ => canonical
      else
        match target, canonical[row.1]? with
        | some targetId, some aliasPath => offer canonical (resolveUseTargetId krate targetId) aliasPath
        | _, _ => canonical
  | _ => canonical

def buildCanonicalPathMap : Paths :=
  krate.index.rows.foldl (visit krate (Keyed.ofPairs (containing krate (initial krate)))) (initial krate)

end

/-! What is to be registered, whatever the map holds. -/

section
variable (krate : RustdocCrate)

abbrev Offer := Id × Text

def childOffer (parentPath : Text) (childId : Id) : List Offer :=
  match getItem krate childId with
  | some ⟨some childName,.public_,_⟩ => [(resolveUseTargetId krate childId,parentPath ++ "::".toList ++ childName)]
  | _ => []

/-- What an item offers, given the path that its use item has. -/
def offers (parentPathOf : Paths) (aliasPath : Option Text) (row : Id × Item) : List Offer :=
  match row.2 with
  | ⟨_,.public_,.useItem (some targetId) true⟩ =>
      match parentPathOf[row.1]?, getItem krate targetId with
      | some parentPath, some ⟨_,_,.moduleItem items⟩ => items.flatMap (childOffer krate parentPath)
      | _, _ => []
  | ⟨_,.public_,.useItem (some targetId) false⟩ =>
      aliasPath.toList.map fun path => (resolveUseTargetId krate targetId,path)
  | _ => []

def register (canonical : Paths) (os : List Offer) : Paths := os.foldl (fun map o => offer map o.1 o.2) canonical

theorem registerAppend (canonical : Paths) (os os' : List Offer) :
    register canonical (os ++ os') = register (register canonical os) os' := List.foldl_append

theorem registersChild (parentPath : Text) (canonical : Paths) (childId : Id) :
    registerChild krate parentPath canonical childId = register canonical (childOffer krate parentPath childId) := by
  unfold registerChild childOffer
  cases getItem krate childId with
  | none => rfl
  | some child =>
    obtain ⟨name,visibility,inner⟩ := child
    cases visibility <;> cases name <;> rfl

theorem registersChildren (parentPath : Text) (canonical : Paths) (items : List Id) :
    items.foldl (registerChild krate parentPath) canonical = register canonical (items.flatMap (childOffer krate parentPath)) := by
  induction items generalizing canonical with
  | nil => rfl
  | cons childId items ih => rw [List.foldl_cons,registersChild,ih,List.flatMap_cons,registerAppend]

theorem visits (parentPathOf canonical : Paths) (row : Id × Item) :
    visit krate parentPathOf canonical row = register canonical (offers krate parentPathOf canonical[row.1]? row) := by
  obtain ⟨useId,name,visibility,inner⟩ := row
  unfold visit offers
  cases inner with
  | moduleItem => cases visibility <;> rfl
  | other => cases visibility <;> rfl
  | useItem target isGlob =>
    cases visibility <;> try rfl
    cases target with
    | none => cases isGlob <;> rfl
    | some targetId =>
      cases isGlob with
      | false => cases canonical[useId]? <;> rfl
      | true =>
        simp only [ne_eq,not_true_eq_false,if_true,if_false]
        cases parentPathOf[useId]? with
        | none => rfl
        | some parentPath =>
          dsimp only
          cases getItem krate targetId with
          | none => rfl
          | some item =>
            obtain ⟨_,_,inner⟩ := item
            cases inner with
            | moduleItem items => exact registersChildren krate parentPath canonical items
            | useItem => rfl
            | other => rfl

end

/-! An offer changes the entry of its own item alone, which it makes the least. -/

theorem offerAt (canonical : Paths) (o : Offer) (id : Id) :
    (offer canonical o.1 o.2)[id]? =
      if o.1 = id then Ranking.keepBest (OrderDual.toDual ∘ pathRank) canonical[id]? o.2 else canonical[id]? := by
  rw [offer,Std.TreeMap.getElem?_alter]
  simp only [compare_eq_iff_eq]
  by_cases same : o.1 = id
  · rw [if_pos same,if_pos same,same]
    cases canonical[id]? with
    | none => rfl
    | some path =>
      simp only [Ranking.keepBest,Option.all_some,Function.comp_apply,OrderDual.toDual_lt_toDual,decide_eq_true_eq]
      split <;> rfl
  · rw [if_neg same,if_neg same]

theorem registerAt (canonical : Paths) (os : List Offer) (id : Id) :
    (register canonical os)[id]? =
      ((os.filter (·.1 = id)).map (·.2)).foldl (Ranking.keepBest (OrderDual.toDual ∘ pathRank)) canonical[id]? := by
  induction os generalizing canonical with
  | nil => rfl
  | cons o os ih =>
    rw [register,List.foldl_cons]
    change (register (offer canonical o.1 o.2) os)[id]? = _
    rw [ih,offerAt]
    by_cases same : o.1 = id
    · simp [same]
    · simp [same]

theorem registerOther {canonical : Paths} {os : List Offer} {id : Id} (others : ∀ o ∈ os, o.1 ≠ id) :
    (register canonical os)[id]? = canonical[id]? := by
  have none_ : os.filter (·.1 = id) = [] := List.filter_eq_nil_iff.mpr fun o mem => by simpa using others o mem
  rw [registerAt,none_]
  rfl

/-! The paths that an item may have. -/

section
variable (krate : RustdocCrate)

def IsModule (id : Id) (items : List Id) : Prop := ∃ name visibility, getItem krate id = some ⟨name,visibility,.moduleItem items⟩

/-- Of a module that lists the item. -/
def ParentPath (childId : Id) (path : Text) : Prop :=
  ∃ modId items, IsModule krate modId items ∧ childId ∈ items ∧ ownPath krate modId = some path

def Resolves (start target : Id) : Prop := Chains.EndsAt (useTarget krate) start target

inductive Candidate (id : Id) : Text → Prop where
  | own {path : Text} (own : ownPath krate id = some path) : Candidate id path
  | named {useId targetId : Id} {name : Option Text} {path : Text}
      (item : getItem krate useId = some ⟨name,.public_,.useItem (some targetId) false⟩)
      (alias_ : ownPath krate useId = some path) (resolves : Resolves krate targetId id) : Candidate id path
  | glob {useId moduleId childId : Id} {name : Option Text} {items : List Id} {parentPath childName : Text} {inner : ItemEnum}
      (item : getItem krate useId = some ⟨name,.public_,.useItem (some moduleId) true⟩)
      (parent : ParentPath krate useId parentPath) (target : IsModule krate moduleId items) (mem : childId ∈ items)
      (child : getItem krate childId = some ⟨some childName,.public_,inner⟩) (resolves : Resolves krate childId id) :
      Candidate id (parentPath ++ "::".toList ++ childName)

def Least (id : Id) (path : Text) : Prop :=
  Candidate krate id path ∧ ∀ other, Candidate krate id other → pathRank path ≤ pathRank other

/-- No item is listed in two modules. -/
def ListedOnce : Prop :=
  ∀ modId modId' items items' childId, IsModule krate modId items → IsModule krate modId' items' →
    childId ∈ items → childId ∈ items' → modId = modId'

variable {krate}

theorem initialAt (id : Id) : (initial krate)[id]? = ownPath krate id := by
  have one : ∀ p ∈ krate.paths.rows.map (fun (id,path) => (id,Str.join "::".toList path)),
      ∀ q ∈ krate.paths.rows.map (fun (id,path) => (id,Str.join "::".toList path)), p.1 = q.1 → p.2 = q.2 := by
    intro p mem q mem' same
    obtain ⟨row,inside,rfl⟩ := List.mem_map.mp mem
    obtain ⟨row',inside',rfl⟩ := List.mem_map.mp mem'
    rw [List.inj_on_of_nodup_map krate.paths.unique inside inside' same]
  refine Option.ext fun path => ?_
  rw [initial,Keyed.ofPairsAt one,ownPath,Option.map_eq_some_iff,List.mem_map]
  constructor
  · rintro ⟨row,mem,same⟩
    obtain ⟨rfl,rfl⟩ := Prod.mk.inj same
    exact ⟨row,Keyed.Table.lookupIff.mpr ⟨mem,rfl⟩,rfl⟩
  · rintro ⟨row,found,rfl⟩
    obtain ⟨mem,rfl⟩ := Keyed.Table.lookupIff.mp found
    exact ⟨row,mem,rfl⟩

theorem memContaining {childId : Id} {path : Text} :
    (childId,path) ∈ containing krate (initial krate) ↔ ParentPath krate childId path := by
  rw [containing,List.mem_flatMap]
  constructor
  · rintro ⟨⟨modId,name,visibility,inner⟩,mem,inside⟩
    cases inner with
    | useItem => contradiction
    | other => contradiction
    | moduleItem items =>
      cases own : (initial krate)[modId]? with
      | none => simp [own] at inside
      | some modPath =>
        simp only [own] at inside
        obtain ⟨child,listed,same⟩ := List.mem_map.mp inside
        obtain ⟨rfl,rfl⟩ := Prod.mk.inj same
        exact ⟨modId,items,⟨name,visibility,(memIndex krate).mpr mem⟩,listed,(initialAt modId).symm.trans own⟩
  · rintro ⟨modId,items,⟨name,visibility,item⟩,listed,own⟩
    refine ⟨_,(memIndex krate).mp item,?_⟩
    rw [← initialAt] at own
    simp only [own]
    exact List.mem_map.mpr ⟨childId,listed,rfl⟩

theorem parentAt (once : ListedOnce krate) {childId : Id} {path : Text} :
    (Keyed.ofPairs (containing krate (initial krate)))[childId]? = some path ↔ ParentPath krate childId path := by
  refine (Keyed.ofPairsAt fun p mem q mem' same => ?_).trans memContaining
  obtain ⟨modId,items,isModule,listed,own⟩ := memContaining.mp mem
  obtain ⟨modId',items',isModule',listed',own'⟩ := memContaining.mp mem'
  cases once modId modId' items items' p.1 isModule isModule' listed (same ▸ listed')
  exact Option.some.inj (own.symm.trans own')

theorem resolvesIff (acyclic : Chains.Acyclic (useTarget krate)) {start id : Id} :
    resolveUseTargetId krate start = id ↔ Resolves krate start id := by
  obtain ⟨target,returns⟩ := resolveReturns krate start
  have resolved : resolveUseTargetId krate start = target := by
    simp only [resolveUseTargetId,returns,Option.get_some]
  have ends : Resolves krate start target := Chains.followEnds acyclic (fun _ mem => absurd mem List.not_mem_nil) returns
  rw [resolved]
  exact ⟨fun same => same ▸ ends,fun other => ends.unique other⟩

theorem offersEnd (acyclic : Chains.Acyclic (useTarget krate)) {parentPathOf : Paths} {aliasPath : Option Text}
    {row : Id × Item} {o : Offer} (mem : o ∈ offers krate parentPathOf aliasPath row) : useTarget krate o.1 = none := by
  have last : ∀ start, useTarget krate (resolveUseTargetId krate start) = none := fun start =>
    ((resolvesIff acyclic).mp rfl : Resolves krate start (resolveUseTargetId krate start)).last
  unfold offers at mem
  split at mem
  · split at mem <;> try contradiction
    obtain ⟨childId,_,inside⟩ := List.mem_flatMap.mp mem
    unfold childOffer at inside
    split at inside <;> try contradiction
    rw [List.mem_singleton.mp inside]
    exact last childId
  · obtain ⟨path,_,rfl⟩ := List.mem_map.mp mem
    exact last _
  · contradiction

/-- An item that is not at the end of a chain keeps its own path, so the alias is read as it was at first. -/
theorem runsOffers (acyclic : Chains.Acyclic (useTarget krate)) (parentPathOf : Paths) {rows : List (Id × Item)}
    (inside : rows ⊆ krate.index.rows) {canonical : Paths}
    (kept : ∀ useId, useTarget krate useId ≠ none → canonical[useId]? = ownPath krate useId) :
    rows.foldl (visit krate parentPathOf) canonical =
      register canonical (rows.flatMap fun row => offers krate parentPathOf (ownPath krate row.1) row) := by
  induction rows generalizing canonical with
  | nil => rfl
  | cons row rows ih =>
    obtain ⟨here,later⟩ := List.cons_subset.mp inside
    have read : offers krate parentPathOf canonical[row.1]? row = offers krate parentPathOf (ownPath krate row.1) row := by
      by_cases ends : useTarget krate row.1 = none
      · obtain ⟨useId,item⟩ := row
        have item_ := (memIndex krate).mpr here
        unfold offers
        split
        · rfl
        · rename_i named
          dsimp only at named
          rw [useTarget,item_,named] at ends
          contradiction
        · rfl
      · rw [kept row.1 ends]
    rw [List.foldl_cons,visits,read,List.flatMap_cons,registerAppend]
    refine ih later fun useId some_ => ?_
    have others : ∀ o ∈ offers krate parentPathOf (ownPath krate row.1) row, o.1 ≠ useId := fun o mem same =>
      some_ (by rw [← same]; exact offersEnd acyclic mem)
    rw [registerOther others]
    exact kept useId some_

theorem memOffers (acyclic : Chains.Acyclic (useTarget krate)) (once : ListedOnce krate) {id : Id} {path : Text} :
    Candidate krate id path ↔ ownPath krate id = some path ∨
      (id,path) ∈ krate.index.rows.flatMap fun row =>
        offers krate (Keyed.ofPairs (containing krate (initial krate))) (ownPath krate row.1) row := by
  rw [List.mem_flatMap]
  constructor
  · intro candidate
    cases candidate with
    | own own => exact Or.inl own
    | named item alias_ resolves =>
      refine Or.inr ⟨_,(memIndex krate).mp item,?_⟩
      simp only [offers,alias_,(resolvesIff acyclic).mpr resolves]
      exact List.mem_singleton.mpr rfl
    | glob item parent target mem child resolves =>
      obtain ⟨_,_,target⟩ := target
      refine Or.inr ⟨_,(memIndex krate).mp item,?_⟩
      simp only [offers,(parentAt once).mpr parent,target]
      refine List.mem_flatMap.mpr ⟨_,mem,?_⟩
      simp only [childOffer,child,(resolvesIff acyclic).mpr resolves]
      exact List.mem_singleton.mpr rfl
  · rintro (own | ⟨⟨useId,item⟩,inside,mem⟩)
    · exact .own own
    · have found := (memIndex krate).mpr inside
      unfold offers at mem
      split at mem
      · rename_i name targetId same
        dsimp only at same
        subst same
        split at mem <;> try contradiction
        rename_i parentPath _ _ items parent target
        obtain ⟨childId,listed,mem⟩ := List.mem_flatMap.mp mem
        unfold childOffer at mem
        split at mem <;> try contradiction
        rename_i child
        obtain ⟨rfl,rfl⟩ := Prod.mk.inj (List.mem_singleton.mp mem)
        exact .glob found ((parentAt once).mp parent) ⟨_,_,target⟩ listed child ((resolvesIff acyclic).mp rfl)
      · rename_i name targetId same
        dsimp only at same
        subst same
        obtain ⟨aliasPath,alias_,same⟩ := List.mem_map.mp mem
        obtain ⟨rfl,rfl⟩ := Prod.mk.inj same
        exact .named found (Option.mem_toList.mp alias_) ((resolvesIff acyclic).mp rfl)
      · contradiction

theorem rankSame {path path' : Text} (same : pathRank path = pathRank path') : path = path' :=
  congrArg (fun rank => (ofLex (ofLex rank).2).2) same

theorem canonicalAt (acyclic : Chains.Acyclic (useTarget krate)) (once : ListedOnce krate) (id : Id) :
    ((buildCanonicalPathMap krate)[id]? = none ↔ ∀ path, ¬Candidate krate id path) ∧
      ∀ path, (buildCanonicalPathMap krate)[id]? = some path ↔ Least krate id path := by
  have run := runsOffers acyclic (Keyed.ofPairs (containing krate (initial krate))) (List.Subset.refl krate.index.rows)
    fun useId _ => initialAt useId
  rw [buildCanonicalPathMap,run,registerAt,initialAt]
  generalize listed : ((krate.index.rows.flatMap fun row => offers krate (Keyed.ofPairs (containing krate (initial krate)))
    (ownPath krate row.1) row).filter (·.1 = id)).map (·.2) = paths
  have best : paths.foldl (Ranking.keepBest (OrderDual.toDual ∘ pathRank)) (ownPath krate id) =
      Ranking.best (OrderDual.toDual ∘ pathRank) ((ownPath krate id).toList ++ paths) := by
    cases ownPath krate id <;> rfl
  have candidates : ∀ path, Candidate krate id path ↔ path ∈ (ownPath krate id).toList ++ paths := fun path => by
    rw [memOffers acyclic once,List.mem_append,Option.mem_toList,← listed,List.mem_map]
    refine or_congr Iff.rfl ⟨fun mem => ⟨_,List.mem_filter.mpr ⟨mem,by simp⟩,rfl⟩,?_⟩
    rintro ⟨⟨id',path'⟩,mem,rfl⟩
    obtain ⟨mem,same⟩ := List.mem_filter.mp mem
    have same : id' = id := by simpa using same
    exact same ▸ mem
  rw [best]
  constructor
  · rw [Ranking.bestNone,List.eq_nil_iff_forall_not_mem]
    exact forall_congr' fun path => not_congr (candidates path).symm
  · intro path
    constructor
    · intro found
      obtain ⟨mem,least⟩ := Ranking.bestSome found
      exact ⟨(candidates path).mpr mem,fun other candidate => least other ((candidates other).mp candidate)⟩
    · rintro ⟨candidate,least⟩
      have mem := (candidates path).mp candidate
      cases found : Ranking.best (OrderDual.toDual ∘ pathRank) ((ownPath krate id).toList ++ paths) with
      | none =>
        rw [Ranking.bestNone.mp found] at mem
        contradiction
      | some other =>
        obtain ⟨inside,below⟩ := Ranking.bestSome found
        have le : pathRank other ≤ pathRank path := below path mem
        rw [rankSame (le_antisymm le (least other ((candidates other).mpr inside)))]

end

/-! The order of the maps. -/

/-- The same two maps, walked in other orders. -/
structure SameMaps (krate krate' : RustdocCrate) : Prop where
  index : krate'.index.rows.Perm krate.index.rows
  paths : krate'.paths.rows.Perm krate.paths.rows

section
variable {krate krate' : RustdocCrate} (same : SameMaps krate krate')
include same

theorem SameMaps.getItem : getItem krate' = getItem krate := by
  funext id
  refine Option.ext fun item => ?_
  rw [memIndex,memIndex,same.index.mem_iff]

theorem SameMaps.ownPath : ownPath krate' = ownPath krate := by
  funext id
  have lookups : krate'.paths.lookup id = krate.paths.lookup id := Option.ext fun row => by
    rw [Keyed.Table.lookupIff,Keyed.Table.lookupIff,same.paths.mem_iff]
  rw [CanonicalPaths.ownPath,CanonicalPaths.ownPath,lookups]

theorem SameMaps.useTarget : useTarget krate' = useTarget krate := by
  funext id
  rw [CanonicalPaths.useTarget,CanonicalPaths.useTarget,same.getItem]

theorem SameMaps.isModule : IsModule krate' = IsModule krate := by
  funext id items
  rw [IsModule,IsModule,same.getItem]

theorem SameMaps.symm : SameMaps krate' krate := ⟨same.index.symm,same.paths.symm⟩

theorem SameMaps.candidate {id : Id} {path : Text} (candidate : Candidate krate id path) : Candidate krate' id path := by
  have parents : ParentPath krate' = ParentPath krate := by
    funext childId path
    rw [ParentPath,ParentPath,same.isModule,same.ownPath]
  have chains : Resolves krate' = Resolves krate := by
    funext start target
    rw [Resolves,Resolves,same.useTarget]
  cases candidate with
  | own own => exact .own (same.ownPath ▸ own)
  | named item alias_ resolves => exact .named (same.getItem ▸ item) (same.ownPath ▸ alias_) (chains ▸ resolves)
  | glob item parent target mem child resolves =>
    exact .glob (same.getItem ▸ item) (parents ▸ parent) (same.isModule ▸ target) mem (same.getItem ▸ child) (chains ▸ resolves)

theorem SameMaps.least {id : Id} {path : Text} : Least krate' id path ↔ Least krate id path :=
  ⟨fun ⟨candidate,least⟩ => ⟨same.symm.candidate candidate,fun other mem => least other (same.candidate mem)⟩,
    fun ⟨candidate,least⟩ => ⟨same.candidate candidate,fun other mem => least other (same.symm.candidate mem)⟩⟩

/-- The order in which the maps are walked does not matter. -/
theorem SameMaps.built (acyclic : Chains.Acyclic (CanonicalPaths.useTarget krate)) (once : ListedOnce krate) (id : Id) :
    (buildCanonicalPathMap krate')[id]? = (buildCanonicalPathMap krate)[id]? := by
  have acyclic' : Chains.Acyclic (CanonicalPaths.useTarget krate') := by rw [same.useTarget]; exact acyclic
  have once' : ListedOnce krate' := by rw [ListedOnce,same.isModule]; exact once
  exact Option.ext fun path => by rw [(canonicalAt acyclic' once' id).2,(canonicalAt acyclic once id).2,same.least]

end

theorem leastOfCandidates (krate : RustdocCrate) :
    (∀ start, ∃ target, ∀ rounds > krate.index.rows.length,
      Chains.follow (useTarget krate) rounds [] start = some target) ∧
    (Chains.Acyclic (useTarget krate) → ListedOnce krate →
      (∀ id path, (buildCanonicalPathMap krate)[id]? = some path ↔ Least krate id path) ∧
      (∀ id path, Candidate krate id path → (buildCanonicalPathMap krate)[id]? ≠ none) ∧
      ∀ krate', SameMaps krate krate' → ∀ id : Id, (buildCanonicalPathMap krate')[id]? = (buildCanonicalPathMap krate)[id]?) := by
  constructor
  · intro start
    obtain ⟨target,returns⟩ := resolveReturns krate start
    exact ⟨target,fun rounds enough => Chains.followMore returns enough⟩
  · intro acyclic once
    refine ⟨fun id => (canonicalAt acyclic once id).2,fun id path candidate none_ => ?_,fun krate' same id => ?_⟩
    · exact (canonicalAt acyclic once id).1.mp none_ path candidate
    · exact same.built acyclic once id

/-! A crate whose root re-exports what a module of it has. -/

def demoCrate : RustdocCrate where
  index := ⟨[(0,⟨some "demo".toList,.public_,.moduleItem [1,2]⟩),(1,⟨some "inner".toList,.public_,.moduleItem [3]⟩),
    (2,⟨none,.public_,.useItem (some 1) true⟩),(3,⟨some "Foo".toList,.public_,.other⟩)],by decide⟩
  paths := ⟨[(0,["demo".toList]),(1,["demo".toList,"inner".toList]),(3,["demo".toList,"inner".toList,"Foo".toList])],by decide⟩

theorem demoTarget {id target : Id} (step : useTarget demoCrate id = some target) : id = 2 ∧ target = 1 := by
  cases found : getItem demoCrate id with
  | none => rw [useTarget,found] at step; contradiction
  | some item =>
    have mem := (memIndex demoCrate).mp found
    rw [useTarget,found] at step
    simp only [demoCrate,List.mem_cons,List.not_mem_nil,or_false,Prod.mk.injEq] at mem
    rcases mem with ⟨rfl,rfl⟩ | ⟨rfl,rfl⟩ | ⟨rfl,rfl⟩ | ⟨rfl,rfl⟩ <;> simp_all

theorem demoAcyclic : Chains.Acyclic (useTarget demoCrate) := by
  intro id cycle
  obtain ⟨_,first,_⟩ := Relation.TransGen.head'_iff.mp cycle
  obtain ⟨_,_,last⟩ := Relation.TransGen.tail'_iff.mp cycle
  exact absurd ((demoTarget first).1.symm.trans (demoTarget last).2) (by decide)

theorem demoModules {id : Id} {items : List Id} (isModule : IsModule demoCrate id items) :
    (id = 0 ∧ items = [1,2]) ∨ (id = 1 ∧ items = [3]) := by
  obtain ⟨_,_,found⟩ := isModule
  have mem := (memIndex demoCrate).mp found
  simp only [demoCrate,List.mem_cons,List.not_mem_nil,or_false,Prod.mk.injEq,Item.mk.injEq,ItemEnum.moduleItem.injEq,
    reduceCtorEq,and_false,or_false] at mem
  rcases mem with ⟨root,_,_,listed⟩ | ⟨inner,_,_,listed⟩
  · exact Or.inl ⟨root,listed⟩
  · exact Or.inr ⟨inner,listed⟩

theorem demoOnce : ListedOnce demoCrate := by
  intro modId modId' items items' childId isModule isModule' mem mem'
  have apart : ∀ child : Id, child ∈ [1,2] → child ∉ [3] := by decide
  rcases demoModules isModule with ⟨rfl,rfl⟩ | ⟨rfl,rfl⟩ <;> rcases demoModules isModule' with ⟨rfl,rfl⟩ | ⟨rfl,rfl⟩
  · rfl
  · exact absurd mem' (apart childId mem)
  · exact absurd mem (apart childId mem')
  · rfl

theorem leastOfCandidatesReExported : Least demoCrate 3 "demo::Foo".toList :=
  (((leastOfCandidates demoCrate).2 demoAcyclic demoOnce).1 3 _).mp (by decide +kernel)

end RustMcp.CanonicalPaths
