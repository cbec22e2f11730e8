import Mathlib

/-! A tree of directories and files, in which every node stands in a directory. Nodes
are added or overwritten by a node of their kind, never taken away. -/
namespace RustMcp.FileTree

variable {α β : Type}

inductive Node (β : Type) where
  | directory
  | file (contents : β)
  deriving DecidableEq

def Node.isDirectory : Node β → Bool
  | .directory => true
  | .file _ => false

theorem directoryOf {n : Node β} (h : n.isDirectory = true) : n = .directory := by
  cases n with
  | directory => rfl
  | file => contradiction

structure Tree (α β : Type) where
  node : List α → Option (Node β)
  rooted : ∀ p x, node (p ++ [x]) ≠ none → node p = some .directory

def Tree.empty : Tree α β := ⟨fun _ => none,by simp⟩

def Tree.isDir [DecidableEq β] (t : Tree α β) (p : List α) : Bool := t.node p = some .directory

variable {t t' u : Tree α β} {p q : List α} {n m : Node β}

theorem nothingBelow (gone : t.node p ≠ some .directory) (x : α) (q : List α) : t.node (p ++ x::q) = none := by
  induction q using List.reverseRecOn with
  | nil => exact not_not.mp (mt (t.rooted p x) gone)
  | append_singleton q y ih =>
    have here : t.node (p ++ x::q) ≠ some .directory := by simp [ih]
    have none := not_not.mp (mt (t.rooted (p ++ x::q) y) here)
    simpa using none

theorem treeExt (same : ∀ q, t.node q = t'.node q) : t = t' := by
  obtain ⟨node,_⟩ := t
  obtain ⟨node',_⟩ := t'
  cases funext same
  rfl

theorem directoryAbove (there : t.node p = some m) (above : q <+: p) (other : q ≠ p) : t.node q = some .directory := by
  obtain ⟨rest,rfl⟩ := above
  by_contra gone
  cases rest with
  | nil => exact other (List.append_nil q).symm
  | cons x rest =>
    rw [nothingBelow gone] at there
    contradiction

theorem parentOther {p : List α} (some_ : p ≠ []) : p.dropLast ≠ p := fun same => by
  have length := congrArg List.length same
  have positive := List.length_pos_iff.mpr some_
  rw [List.length_dropLast] at length
  omega

/-- What stands in a tree still does, with its kind. -/
def Kept (t t' : Tree α β) : Prop :=
  ∀ q m, t.node q = some m → ∃ m', t'.node q = some m' ∧ m'.isDirectory = m.isDirectory

theorem Kept.refl (t : Tree α β) : Kept t t := fun _ m here => ⟨m,here,rfl⟩

theorem Kept.trans (h : Kept t t') (h' : Kept t' u) : Kept t u := by
  intro q m here
  obtain ⟨m',there,same⟩ := h q m here
  obtain ⟨m'',last,same'⟩ := h' q m' there
  exact ⟨m'',last,same'.trans same⟩

/-- A node in a directory, or the root, where nothing of another kind stands. -/
def Tree.Fits (t : Tree α β) (p : List α) (n : Node β) : Prop :=
  (p = [] ∨ t.node p.dropLast = some .directory) ∧ (t.node p).all (fun m => m.isDirectory == n.isDirectory) = true

theorem fitsKind (fits : t.Fits p n) (here : t.node p = some m) : m.isDirectory = n.isDirectory := by
  have kind := fits.2
  rw [here] at kind
  simpa using kind

variable [DecidableEq α] [DecidableEq β]

instance (t : Tree α β) (p : List α) (n : Node β) : Decidable (t.Fits p n) := inferInstanceAs (Decidable (_ ∧ _))

omit [DecidableEq β] in
theorem putRooted (fits : t.Fits p n) (q : List α) (x : α) (h : Function.update t.node p (some n) (q ++ [x]) ≠ none) :
    Function.update t.node p (some n) q = some .directory := by
  by_cases last : q ++ [x] = p
  · subst last
    rw [Function.update_of_ne (by simp)]
    simpa using fits.1
  · rw [Function.update_of_ne last] at h
    have parent := t.rooted q x h
    by_cases same : q = p
    · subst same
      have kind : n.isDirectory = true := (fitsKind fits parent).symm
      rw [Function.update_self,directoryOf kind]
    · rw [Function.update_of_ne same,parent]

def Tree.put (t : Tree α β) (p : List α) (n : Node β) : Option (Tree α β) :=
  if fits : t.Fits p n then some ⟨Function.update t.node p (some n),putRooted fits⟩ else none

theorem putNode (h : t.put p n = some t') : t'.node = Function.update t.node p (some n) := by
  unfold Tree.put at h
  split at h <;> try contradiction
  cases Option.some.inj h
  rfl

theorem putFits (h : t.put p n = some t') : t.Fits p n := by
  unfold Tree.put at h
  split at h <;> try contradiction
  assumption

theorem putHere (h : t.put p n = some t') : t'.node p = some n := by rw [putNode h,Function.update_self]

theorem putElsewhere (h : t.put p n = some t') (other : q ≠ p) : t'.node q = t.node q := by
  rw [putNode h,Function.update_of_ne other]

theorem putCases (h : t.put p n = some t') (here : t'.node q = some m) : q = p ∧ m = n ∨ q ≠ p ∧ t.node q = some m := by
  by_cases same : q = p
  · subst same
    exact Or.inl ⟨rfl,Option.some.inj (here.symm.trans (putHere h))⟩
  · exact Or.inr ⟨same,(putElsewhere h same).symm.trans here⟩

theorem putKept (h : t.put p n = some t') : Kept t t' := by
  intro q m here
  by_cases same : q = p
  · subst same
    exact ⟨n,putHere h,(fitsKind (putFits h) here).symm⟩
  · exact ⟨m,(putElsewhere h same).trans here,rfl⟩

/-- The directory of a path with all those above it. -/
def Tree.makeDirs (t : Tree α β) (p : List α) : Option (Tree α β) :=
  p.inits.foldlM (fun t q => t.put q .directory) t

/-- New directories stand where nothing did. -/
def DirsAdded (among : List (List α)) (t t' : Tree α β) : Prop :=
  ∀ q, t'.node q = t.node q ∨ t.node q = none ∧ q ∈ among ∧ t'.node q = some .directory

theorem foldDirsAdded {ps : List (List α)} (h : ps.foldlM (fun t q => Tree.put t q .directory) t = some t') :
    DirsAdded ps t t' ∧ Kept t t' := by
  induction ps generalizing t with
  | nil => cases Option.some.inj h; exact ⟨fun _ => Or.inl rfl,Kept.refl _⟩
  | cons p ps ih =>
    rw [List.foldlM_cons] at h
    obtain ⟨u,first,rest⟩ := Option.bind_eq_some_iff.mp h
    obtain ⟨added,kept⟩ := ih rest
    refine ⟨fun q => ?_,(putKept first).trans kept⟩
    by_cases same : q = p
    · subst same
      obtain ⟨m,here,kind⟩ := kept q _ (putHere first)
      rw [here,directoryOf kind]
      cases before : t.node q with
      | none => exact Or.inr ⟨rfl,List.mem_cons_self,rfl⟩
      | some m => exact Or.inl (by rw [directoryOf (fitsKind (putFits first) before)])
    · rcases added q with unchanged | ⟨gone,mem,made⟩
      · exact Or.inl (unchanged.trans (putElsewhere first same))
      · exact Or.inr ⟨(putElsewhere first same).symm.trans gone,List.mem_cons_of_mem p mem,made⟩

theorem makeDirsAdded (h : t.makeDirs p = some t') : DirsAdded p.inits t t' := (foldDirsAdded h).1

theorem makeDirsKept (h : t.makeDirs p = some t') : Kept t t' := (foldDirsAdded h).2

theorem makeDirsFile (h : t.makeDirs p = some t') (b : β) : t'.node q = some (.file b) ↔ t.node q = some (.file b) := by
  rcases makeDirsAdded h q with same | ⟨gone,_,made⟩
  · rw [same]
  · simp [gone,made]

theorem makeDirsElsewhere (h : t.makeDirs p = some t') (apart : ¬q <+: p) : t'.node q = t.node q := by
  rcases makeDirsAdded h q with same | ⟨_,mem,_⟩
  · exact same
  · exact absurd ((List.mem_inits q p).mp mem) apart

/-! Writing what is there already, or in two strokes. -/

theorem putThere (there : t.node p = some .directory) : t.put p .directory = some t := by
  have fits : t.Fits p .directory := by
    refine ⟨?_,by rw [there]; rfl⟩
    by_cases root : p = []
    · exact Or.inl root
    · exact Or.inr (directoryAbove there (List.dropLast_prefix p) (parentOther root))
  rw [Tree.put,dif_pos fits]
  refine congrArg some (treeExt fun q => ?_)
  by_cases same : q = p
  · subst same
    exact (Function.update_self ..).trans there.symm
  · exact Function.update_of_ne same ..

theorem makeDirsThere (there : t.node p = some .directory) : t.makeDirs p = some t := by
  have each : ∀ ps : List (List α), (∀ q ∈ ps, t.node q = some .directory) →
      ps.foldlM (fun t q => Tree.put t q .directory) t = some t := by
    intro ps
    induction ps with
    | nil => exact fun _ => rfl
    | cons q ps ih =>
      intro all
      rw [List.foldlM_cons,putThere (all q List.mem_cons_self)]
      exact ih fun q mem => all q (List.mem_cons_of_mem _ mem)
  refine each p.inits fun q mem => ?_
  by_cases same : q = p
  · rw [same,there]
  · exact directoryAbove there ((List.mem_inits q p).mp mem) same

theorem makeDirsHere (h : t.makeDirs p = some t') (above : q <+: p) : t'.node q = some .directory := by
  have each : ∀ (ps : List (List α)) (t : Tree α β), ps.foldlM (fun t q => Tree.put t q .directory) t = some t' → q ∈ ps →
      t'.node q = some .directory := by
    intro ps
    induction ps with
    | nil => exact fun _ _ mem => absurd mem List.not_mem_nil
    | cons p ps ih =>
      intro t made mem
      rw [List.foldlM_cons] at made
      obtain ⟨u,first,rest⟩ := Option.bind_eq_some_iff.mp made
      rcases List.mem_cons.mp mem with rfl | later
      · obtain ⟨m,here,kind⟩ := (foldDirsAdded rest).2 q _ (putHere first)
        rw [here,directoryOf kind]
      · exact ih u rest later
  exact each p.inits t h ((List.mem_inits q p).mpr above)

theorem putAgain (h : t.put p n = some t') (kind : m.isDirectory = n.isDirectory) : t'.put p m = t.put p m := by
  have before := putFits h
  have first : t.Fits p m := ⟨before.1,by rw [kind]; exact before.2⟩
  have second : t'.Fits p m := by
    refine ⟨?_,by rw [putHere h,kind]; exact beq_self_eq_true n.isDirectory⟩
    by_cases root : p = []
    · exact Or.inl root
    · exact Or.inr ((putElsewhere h (parentOther root)).trans (before.1.resolve_left root))
  rw [Tree.put,Tree.put,dif_pos first,dif_pos second]
  refine congrArg some (treeExt fun q => ?_)
  by_cases same : q = p
  · subst same
    exact (Function.update_self q (some m) t'.node).trans (Function.update_self q (some m) t.node).symm
  · exact (Function.update_of_ne same ..).trans ((putElsewhere h same).trans (Function.update_of_ne same ..).symm)

theorem putKind (h : t.put p n = some t') (kind : m.isDirectory = n.isDirectory) : ∃ u, t.put p m = some u := by
  have fits : t.Fits p m := ⟨(putFits h).1,by rw [kind]; exact (putFits h).2⟩
  exact ⟨_,by rw [Tree.put,dif_pos fits]⟩

/-- A node with the directories above it. -/
def Tree.place (t : Tree α β) (p : List α) (n : Node β) : Option (Tree α β) := (t.makeDirs p.dropLast).bind (·.put p n)

/-- Directories are made for a node in vain only where they are there already. -/
theorem placeUnmade (some_ : p ≠ []) (dirs : t.makeDirs p.dropLast = some t') (unfit : t'.put p n = none) : t' = t := by
  have gone : t'.node p ≠ none := fun gone => by
    have fits : t'.Fits p n := ⟨Or.inr (makeDirsHere dirs (List.prefix_refl _)),by rw [gone]; rfl⟩
    rw [Tree.put,dif_pos fits] at unfit
    contradiction
  have alone : t'.node p = t.node p := makeDirsElsewhere dirs fun above => by
    have bound := above.length_le
    have positive := List.length_pos_iff.mpr some_
    rw [List.length_dropLast] at bound
    omega
  rw [alone] at gone
  obtain ⟨m,there⟩ := Option.ne_none_iff_exists'.mp gone
  refine treeExt fun q => ?_
  rcases makeDirsAdded dirs q with same | ⟨none_,above,_⟩
  · exact same
  · have prefix_ : q <+: p := ((List.mem_inits _ _).mp above).trans (List.dropLast_prefix p)
    by_cases self : q = p
    · exact absurd none_ (self ▸ gone)
    · rw [directoryAbove there prefix_ self] at none_
      contradiction

end RustMcp.FileTree
