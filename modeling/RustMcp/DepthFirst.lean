import Mathlib

/-! Depth-first search for a cycle, with the colours of the nodes as its state. -/
namespace RustMcp.DepthFirst

inductive Color where
  | white | gray | black
  deriving DecidableEq

section
variable {α : Type} [DecidableEq α]

/-- The neighbours in turn, until one is found on the path. -/
def visitAll (visit : α → (α → Color) → Option (Bool × (α → Color))) :
    List α → (α → Color) → Option (Bool × (α → Color))
  | [],colors => some (false,colors)
  | neighbor::neighbors,colors =>
      match colors neighbor with
      | .gray => some (true,colors)
      | .black => visitAll visit neighbors colors
      | .white =>
          match visit neighbor colors with
          | none => none
          | some (true,colors) => some (true,colors)
          | some (false,colors) => visitAll visit neighbors colors

variable (next : α → List α)

/-- None where the search goes deeper than `fuel`. -/
def visit : Nat → α → (α → Color) → Option (Bool × (α → Color))
  | 0,_,_ => none
  | fuel + 1,node,colors =>
      match visitAll (visit fuel) (next node) (Function.update colors node .gray) with
      | none => none
      | some (true,colors) => some (true,colors)
      | some (false,colors) => some (false,Function.update colors node .black)

def search (fuel : Nat) : List α → (α → Color) → Option Bool
  | [],_ => some false
  | node::nodes,colors =>
      if colors node = .white then
        match visit next fuel node colors with
        | none => none
        | some (true,_) => some true
        | some (false,colors) => search fuel nodes colors
      else search fuel nodes colors

def Step (a b : α) : Prop := b ∈ next a

def Cyclic : Prop := ∃ x, Relation.TransGen (Step next) x x

/-! What the colours mean. -/

/-- The black nodes are finished: they lead to black ones alone, and not back to themselves. -/
structure Finished (colors : α → Color) : Prop where
  closed : ∀ x, colors x = .black → ∀ y ∈ next x, colors y = .black
  acyclic : ∀ x, colors x = .black → ¬ Relation.TransGen (Step next) x x

/-- The gray nodes are a path to the node. -/
def OnPath (node : α) (colors : α → Color) : Prop := ∀ x, colors x = .gray → Relation.ReflTransGen (Step next) x node

/-- A visit leaves the gray nodes, and adds to the black ones. -/
structure Passed (before after : α → Color) : Prop where
  gray : ∀ x, after x = .gray ↔ before x = .gray
  black : ∀ x, before x = .black → after x = .black

variable {next} {colors colors' : α → Color} {node : α}

omit [DecidableEq α] in
theorem passedStill (colors : α → Color) : Passed colors colors := ⟨fun _ => Iff.rfl,fun _ => id⟩

omit [DecidableEq α] in
theorem passedTrans {between after : α → Color} (first : Passed colors between) (second : Passed between after) : Passed colors after :=
  ⟨fun x => (second.gray x).trans (first.gray x),fun x black => second.black x (first.black x black)⟩

omit [DecidableEq α] in
theorem blackLeads (finished : Finished next colors) {x y : α} (black : colors x = .black)
    (leads : Relation.ReflTransGen (Step next) x y) : colors y = .black := by
  induction leads with
  | refl => exact black
  | tail _ step ih => exact finished.closed _ ih _ step

theorem finishedGray (finished : Finished next colors) (white : colors node = .white) :
    Finished next (Function.update colors node .gray) := by
  have same {x : α} : Function.update colors node .gray x = .black ↔ colors x = .black := by
    by_cases here : x = node
    · subst here
      simp [white]
    · simp [here]
  exact ⟨fun x black y mem => same.mpr (finished.closed x (same.mp black) y mem),fun x black => finished.acyclic x (same.mp black)⟩

theorem finishedBlack (finished : Finished next colors) (gray : colors node = .gray) (all : ∀ y ∈ next node, colors y = .black) :
    Finished next (Function.update colors node .black) := by
  have grown {x : α} (black : colors x = .black) : Function.update colors node .black x = .black := by
    by_cases here : x = node
    · subst here
      simp
    · simpa [here] using black
  constructor
  · intro x black y mem
    by_cases here : x = node
    · subst here
      exact grown (all y mem)
    · rw [Function.update_of_ne here] at black
      exact grown (finished.closed x black y mem)
  · intro x black cycle
    by_cases here : x = node
    · subst here
      obtain ⟨y,step,back⟩ := Relation.TransGen.head'_iff.mp cycle
      exact absurd ((blackLeads finished (all y step) back).symm.trans gray) (by decide)
    · rw [Function.update_of_ne here] at black
      exact finished.acyclic x black cycle

/-! A visit. -/

/-- What a visit of a white node comes to. -/
structure Visited (next : α → List α) (colors : α → Color) (node : α) (found : Bool) (after : α → Color) : Prop where
  cyclic : found = true → Cyclic next
  finished : found = false → Finished next after
  passed : found = false → Passed colors after
  black : found = false → after node = .black

/-- A node that may be visited. -/
structure Visitable (next : α → List α) (node : α) (colors : α → Color) : Prop where
  white : colors node = .white
  finished : Finished next colors
  path : OnPath next node colors

omit [DecidableEq α] in
theorem onPathPassed (path : OnPath next node colors) (passed : Passed colors colors') : OnPath next node colors' :=
  fun x gray => path x ((passed.gray x).mp gray)

omit [DecidableEq α] in
theorem visitableChild {child : α} (white : colors child = .white) (finished : Finished next colors) (path : OnPath next node colors)
    (edge : child ∈ next node) : Visitable next child colors :=
  ⟨white,finished,fun x gray => (path x gray).tail edge⟩

omit [DecidableEq α] in
theorem visitAllSpec {descend : α → (α → Color) → Option (Bool × (α → Color))}
    (spec : ∀ child colors found after, Visitable next child colors → descend child colors = some (found,after) →
      Visited next colors child found after)
    {neighbors : List α} (edges : ∀ y ∈ neighbors, y ∈ next node) {colors : α → Color} (finished : Finished next colors)
    (path : OnPath next node colors) {found : Bool} {after : α → Color} (ran : visitAll descend neighbors colors = some (found,after)) :
    (found = true → Cyclic next) ∧
      (found = false → Finished next after ∧ Passed colors after ∧ ∀ y ∈ neighbors, after y = .black) := by
  induction neighbors generalizing colors with
  | nil =>
    cases Option.some.inj ran
    exact ⟨fun h => absurd h (by decide),fun _ => ⟨finished,passedStill _,by simp⟩⟩
  | cons neighbor neighbors ih =>
    obtain ⟨edge,edges⟩ := List.forall_mem_cons.mp edges
    rw [visitAll] at ran
    split at ran
    · rename_i gray
      cases Option.some.inj ran
      exact ⟨fun _ => ⟨neighbor,Relation.TransGen.tail' (path neighbor gray) edge⟩,fun h => absurd h (by decide)⟩
    · rename_i black
      obtain ⟨cyclic,rest⟩ := ih edges finished path ran
      refine ⟨cyclic,fun h => ?_⟩
      obtain ⟨done,passed,all⟩ := rest h
      exact ⟨done,passed,List.forall_mem_cons.mpr ⟨passed.black neighbor black,all⟩⟩
    · rename_i white
      have visitable := visitableChild white finished path edge
      split at ran
      · contradiction
      · rename_i after' descended
        cases Option.some.inj ran
        exact ⟨fun _ => (spec _ _ _ _ visitable descended).cyclic rfl,fun h => absurd h (by decide)⟩
      · rename_i between descended
        have visited := spec _ _ _ _ visitable descended
        have through := visited.passed rfl
        obtain ⟨cyclic,rest⟩ := ih edges (visited.finished rfl) (onPathPassed path through) ran
        refine ⟨cyclic,fun h => ?_⟩
        obtain ⟨done,passed,all⟩ := rest h
        exact ⟨done,passedTrans through passed,List.forall_mem_cons.mpr ⟨passed.black neighbor (visited.black rfl),all⟩⟩

theorem pathGray (path : OnPath next node colors) : OnPath next node (Function.update colors node .gray) := by
  intro x gray
  by_cases here : x = node
  · subst here
    exact .refl
  · rw [Function.update_of_ne here] at gray
    exact path x gray

/-- From white over gray to black, the other nodes being passed. -/
theorem passedVisit (white : colors node = .white) {after : α → Color} (passed : Passed (Function.update colors node .gray) after) :
    Passed colors (Function.update after node .black) := by
  constructor <;> intro x
  · by_cases here : x = node
    · subst here
      simp [white]
    · rw [Function.update_of_ne here,passed.gray x,Function.update_of_ne here]
  · intro black
    by_cases here : x = node
    · subst here
      simp
    · rw [Function.update_of_ne here]
      exact passed.black x (by rwa [Function.update_of_ne here])

theorem visitSpec {fuel : Nat} {node : α} {colors : α → Color} {found : Bool} {after : α → Color}
    (visitable : Visitable next node colors) (ran : visit next fuel node colors = some (found,after)) :
    Visited next colors node found after := by
  induction fuel generalizing node colors found after with
  | zero => contradiction
  | succ fuel ih =>
    have finished := finishedGray visitable.finished visitable.white
    have path := pathGray visitable.path
    rw [visit] at ran
    split at ran
    · contradiction
    · rename_i after' descended
      cases Option.some.inj ran
      obtain ⟨cyclic,_⟩ := visitAllSpec (fun _ _ _ _ child => ih child) (fun _ mem => mem) finished path descended
      exact ⟨fun _ => cyclic rfl,fun h => absurd h (by decide),fun h => absurd h (by decide),fun h => absurd h (by decide)⟩
    · rename_i after' descended
      cases Option.some.inj ran
      obtain ⟨_,rest⟩ := visitAllSpec (fun _ _ _ _ child => ih child) (fun _ mem => mem) finished path descended
      obtain ⟨done,passed,all⟩ := rest rfl
      have gray : after' node = .gray := (passed.gray node).mpr (by simp)
      exact ⟨fun h => absurd h (by decide),fun _ => finishedBlack done gray all,fun _ => passedVisit visitable.white passed,fun _ => by simp⟩

/-! The depth of the search. -/

def whites (nodes : List α) (colors : α → Color) : Nat := (nodes.filter fun node => colors node = .white).length

omit [DecidableEq α] in
theorem whitesPassed (nodes : List α) {colors after : α → Color} (passed : Passed colors after) :
    whites nodes after ≤ whites nodes colors := by
  refine List.Sublist.length_le (List.monotone_filter_right nodes fun x white => ?_)
  cases before : colors x with
  | white => rfl
  | gray => simp [(passed.gray x).mpr before] at white
  | black => simp [passed.black x before] at white

theorem whitesGray {nodes : List α} (mem : node ∈ nodes) (white : colors node = .white) :
    whites nodes (Function.update colors node .gray) < whites nodes colors := by
  have fewer : nodes.filter (fun x => Function.update colors node .gray x = .white) =
      (nodes.filter fun x => colors x = .white).filter fun x => x ≠ node := by
    rw [List.filter_filter]
    refine List.filter_congr fun x _ => ?_
    by_cases here : x = node
    · subst here
      simp
    · simp [here]
  rw [whites,fewer]
  exact List.length_filter_lt_length_iff_exists.mpr ⟨node,List.mem_filter.mpr ⟨mem,by simpa using white⟩,by simp⟩

omit [DecidableEq α] in
theorem visitAllEnds {descend : α → (α → Color) → Option (Bool × (α → Color))}
    (spec : ∀ child colors found after, Visitable next child colors → descend child colors = some (found,after) →
      Visited next colors child found after)
    {nodes : List α} {bound : Nat}
    (ends : ∀ child colors, Visitable next child colors → whites nodes colors < bound →
      ∃ found after, descend child colors = some (found,after))
    {neighbors : List α} (edges : ∀ y ∈ neighbors, y ∈ next node) {colors : α → Color} (finished : Finished next colors)
    (path : OnPath next node colors) (room : whites nodes colors < bound) :
    ∃ found after, visitAll descend neighbors colors = some (found,after) := by
  induction neighbors generalizing colors with
  | nil => exact ⟨false,colors,rfl⟩
  | cons neighbor neighbors ih =>
    obtain ⟨edge,edges⟩ := List.forall_mem_cons.mp edges
    rw [visitAll]
    split
    · exact ⟨true,colors,rfl⟩
    · exact ih edges finished path room
    · rename_i white
      have visitable := visitableChild white finished path edge
      obtain ⟨found,after,descended⟩ := ends neighbor colors visitable room
      have visited := spec _ _ _ _ visitable descended
      rw [descended]
      cases found with
      | true => exact ⟨true,after,rfl⟩
      | false =>
        have through := visited.passed rfl
        exact ih edges (visited.finished rfl) (onPathPassed path through) (lt_of_le_of_lt (whitesPassed nodes through) room)

/-- Every node on the path that has neighbours was white before. -/
theorem visitEnds {nodes : List α} (only : ∀ x, x ∉ nodes → next x = []) {fuel : Nat} {node : α} {colors : α → Color}
    (visitable : Visitable next node colors) (room : whites nodes colors < fuel) :
    ∃ found after, visit next fuel node colors = some (found,after) := by
  induction fuel generalizing node colors with
  | zero => exact absurd room (Nat.not_lt_zero _)
  | succ fuel ih =>
    have finished := finishedGray visitable.finished visitable.white
    have path := pathGray visitable.path
    have all : ∃ found after, visitAll (visit next fuel) (next node) (Function.update colors node .gray) = some (found,after) := by
      by_cases mem : node ∈ nodes
      · have fewer := whitesGray mem visitable.white
        exact visitAllEnds (fun _ _ _ _ child => visitSpec child) (fun _ _ child => ih child) (fun _ edge => edge) finished path (by omega)
      · rw [only node mem]
        exact ⟨false,_,rfl⟩
    obtain ⟨found,after,descended⟩ := all
    rw [visit,descended]
    cases found
    · exact ⟨false,_,rfl⟩
    · exact ⟨true,_,rfl⟩

/-! The whole search. -/

/-- Between two visits nothing is gray. -/
structure Resting (next : α → List α) (colors : α → Color) : Prop where
  finished : Finished next colors
  idle : ∀ x, colors x ≠ .gray

omit [DecidableEq α] in
theorem restingStart : Resting next fun _ => Color.white :=
  ⟨⟨fun _ black => absurd black (by decide),fun _ black => absurd black (by decide)⟩,fun _ => by decide⟩

omit [DecidableEq α] in
theorem restingVisitable (resting : Resting next colors) (white : colors node = .white) : Visitable next node colors :=
  ⟨white,resting.finished,fun x gray => absurd gray (resting.idle x)⟩

omit [DecidableEq α] in
theorem restingVisited {after : α → Color} (resting : Resting next colors) (visited : Visited next colors node false after) :
    Resting next after :=
  ⟨visited.finished rfl,fun x gray => resting.idle x (((visited.passed rfl).gray x).mp gray)⟩

/-- Every node with a successor is among `nodes`, so that none on a cycle is left out. -/
theorem allBlack {nodes : List α} (only : ∀ x, x ∉ nodes → next x = []) (resting : Resting next colors)
    (all : ∀ x ∈ nodes, colors x = .black) : ¬ Cyclic next := by
  rintro ⟨x,cycle⟩
  refine resting.finished.acyclic x (all x ?_) cycle
  by_contra absent
  obtain ⟨y,step,_⟩ := Relation.TransGen.head'_iff.mp cycle
  rw [Step,only x absent] at step
  exact List.not_mem_nil step

theorem searchSpec {nodes : List α} (only : ∀ x, x ∉ nodes → next x = []) {fuel : Nat} {todo : List α} {colors : α → Color}
    (resting : Resting next colors) (room : whites nodes colors < fuel) (rest : ∀ x ∈ nodes, x ∈ todo ∨ colors x = .black) :
    ∃ found, search next fuel todo colors = some found ∧ (found = true ↔ Cyclic next) := by
  induction todo generalizing colors with
  | nil =>
    refine ⟨false,rfl,fun h => absurd h (by decide),fun cyclic => absurd cyclic (allBlack only resting fun x mem => ?_)⟩
    exact (rest x mem).resolve_left List.not_mem_nil
  | cons node todo ih =>
    rw [search]
    split
    · rename_i white
      obtain ⟨found,after,ran⟩ := visitEnds only (restingVisitable resting white) room
      have visited := visitSpec (restingVisitable resting white) ran
      rw [ran]
      cases found with
      | true => exact ⟨true,rfl,fun _ => visited.cyclic rfl,fun _ => rfl⟩
      | false =>
        have passed := visited.passed rfl
        refine ih (restingVisited resting visited) (lt_of_le_of_lt (whitesPassed nodes passed) room) fun x mem => ?_
        rcases rest x mem with waits | black
        · rcases List.mem_cons.mp waits with rfl | later
          · exact Or.inr (visited.black rfl)
          · exact Or.inl later
        · exact Or.inr (passed.black x black)
    · rename_i seen
      refine ih resting room fun x mem => ?_
      rcases rest x mem with waits | black
      · rcases List.mem_cons.mp waits with rfl | later
        · cases here : colors x with
          | white => exact absurd here seen
          | gray => exact absurd here (resting.idle x)
          | black => exact Or.inr rfl
        · exact Or.inl later
      · exact Or.inr black

/-- A search from all nodes that have neighbours finds a cycle exactly where there is one. -/
theorem searchExact {nodes : List α} (only : ∀ x, x ∉ nodes → next x = []) {fuel : Nat} (enough : nodes.length < fuel) :
    ∃ found, search next fuel nodes (fun _ => .white) = some found ∧ (found = true ↔ Cyclic next) := by
  refine searchSpec only restingStart (lt_of_le_of_lt (List.length_filter_le _ _) enough) fun x mem => Or.inl mem

end

end RustMcp.DepthFirst
