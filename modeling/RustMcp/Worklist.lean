import Mathlib

/-! What a worklist visits: everything that its first nodes lead to, where the fuel
covers what is ever put on it, or as much of it as a frontier of bounded size holds. -/
namespace RustMcp.Worklist

variable {α : Type} [DecidableEq α] (next : α → List α)

/-- Takes the nodes of a queue in turn; those that one leads to go to its end. -/
def explore : Nat → List α → List α → List α
  | 0, _, visited => visited
  | _ + 1, [], visited => visited
  | fuel + 1, node::queue, visited =>
    if node ∈ visited then explore fuel queue visited
    else explore fuel (queue ++ (next node).filter fun child => child ∉ visited ++ [node]) (visited ++ [node])

/-- Nodes that are not among `nodes` lead nowhere; those that are may put on the queue what they lead to, once. -/
def reachable (nodes roots : List α) : List α :=
  explore next (roots.length + (nodes.map fun node => (next node).length).sum) roots []

def Leads (a b : α) : Prop := Relation.ReflTransGen (fun a b => b ∈ next a) a b

variable {next} {nodes : List α}

theorem exploreEmpty (fuel : Nat) (visited : List α) : explore next fuel [] visited = visited := by
  cases fuel <;> rfl

theorem exploreSound {fuel : Nat} {queue visited : List α} {x : α} (mem : x ∈ explore next fuel queue visited) :
    x ∈ visited ∨ ∃ root ∈ queue, Leads next root x := by
  induction fuel generalizing queue visited with
  | zero => exact Or.inl mem
  | succ fuel ih =>
    cases queue with
    | nil => exact Or.inl mem
    | cons node queue =>
      rw [explore] at mem
      split at mem
      · exact (ih mem).imp_right fun ⟨root,inside,leads⟩ => ⟨root,List.mem_cons_of_mem node inside,leads⟩
      · rcases ih mem with here | ⟨root,inside,leads⟩
        · rcases List.mem_append.mp here with old | new
          · exact Or.inl old
          · cases List.mem_singleton.mp new
            exact Or.inr ⟨x,List.mem_cons_self,.refl⟩
        · rcases List.mem_append.mp inside with old | child
          · exact Or.inr ⟨root,List.mem_cons_of_mem node old,leads⟩
          · exact Or.inr ⟨node,List.mem_cons_self,.head (List.mem_of_mem_filter child) leads⟩

/-- What the nodes that are not visited may still put on the queue. -/
def ahead (next : α → List α) (nodes visited : List α) : Nat :=
  ((nodes.filter fun node => node ∉ visited).map fun node => (next node).length).sum

theorem aheadCons (node : α) (nodes visited : List α) :
    ahead next (node::nodes) visited =
      (if node ∈ visited then 0 else (next node).length) + ahead next nodes visited := by
  by_cases seen : node ∈ visited <;> simp [ahead,seen]

variable (next) in
theorem aheadMono (nodes visited : List α) (node : α) :
    ahead next nodes (visited ++ [node]) ≤ ahead next nodes visited := by
  induction nodes with
  | nil => exact le_rfl
  | cons other nodes ih =>
    rw [aheadCons,aheadCons]
    refine Nat.add_le_add ?_ ih
    split
    · exact Nat.zero_le _
    · rename_i fresh
      rw [if_neg fun seen => fresh (List.mem_append_left _ seen)]

variable (next) in
theorem aheadVisit {visited : List α} {node : α} (fresh : node ∉ visited) (mem : node ∈ nodes) :
    ahead next nodes (visited ++ [node]) + (next node).length ≤ ahead next nodes visited := by
  induction nodes with
  | nil => contradiction
  | cons other nodes ih =>
    rw [aheadCons,aheadCons]
    by_cases same : other = node
    · subst same
      rw [if_pos (by simp),if_neg fresh]
      have rest := aheadMono next nodes visited other
      omega
    · have rest := ih ((List.mem_cons.mp mem).resolve_left (Ne.symm same))
      have kept : other ∈ visited ++ [node] ↔ other ∈ visited := by simp [same]
      simp only [kept]
      omega

/-- Visiting a node of `nodes` puts no more on the queue than was set aside for it. -/
theorem visitFewer (only : ∀ node, node ∉ nodes → next node = []) {visited : List α} {node : α} (fresh : node ∉ visited) :
    ((next node).filter fun child => child ∉ visited ++ [node]).length + ahead next nodes (visited ++ [node]) ≤
      ahead next nodes visited := by
  by_cases inside : node ∈ nodes
  · have visit := aheadVisit next fresh inside
    have filtered := List.length_filter_le (fun child => decide (child ∉ visited ++ [node])) (next node)
    omega
  · rw [only node inside,List.filter_nil,List.length_nil,Nat.zero_add]
    exact aheadMono next nodes visited node

omit [DecidableEq α] in
theorem headSeen {visited queue : List α} {node y : α} (seen : node ∈ visited) (mem : y ∈ node::queue) :
    y ∈ visited ∨ y ∈ queue := by
  rcases List.mem_cons.mp mem with rfl | later
  · exact Or.inl seen
  · exact Or.inr later

/-- The nodes visited at the end are closed, where those visited so far lead into the queue. -/
theorem exploreClosed (only : ∀ node, node ∉ nodes → next node = []) {fuel : Nat} {queue visited : List α}
    (enough : queue.length + ahead next nodes visited ≤ fuel)
    (open_ : ∀ x ∈ visited, ∀ y ∈ next x, y ∈ visited ∨ y ∈ queue) :
    (∀ x, x ∈ visited ∨ x ∈ queue → x ∈ explore next fuel queue visited) ∧
      ∀ x ∈ explore next fuel queue visited, ∀ y ∈ next x, y ∈ explore next fuel queue visited := by
  induction fuel generalizing queue visited with
  | zero =>
    have empty : queue = [] := List.length_eq_zero_iff.mp (by omega)
    subst empty
    rw [exploreEmpty]
    exact ⟨fun x mem => by simpa using mem,fun x mem y step => by simpa using open_ x mem y step⟩
  | succ fuel ih =>
    cases queue with
    | nil =>
      rw [exploreEmpty]
      exact ⟨fun x mem => by simpa using mem,fun x mem y step => by simpa using open_ x mem y step⟩
    | cons node queue =>
      rw [explore]
      split
      · rename_i seen
        rw [List.length_cons] at enough
        have less : queue.length + ahead next nodes visited ≤ fuel := by omega
        have rest := ih less fun x mem y step => (open_ x mem y step).elim Or.inl (headSeen seen)
        exact ⟨fun x mem => rest.1 x (mem.elim Or.inl (headSeen seen)),rest.2⟩
      · rename_i fresh
        have fewer := visitFewer only fresh
        rw [List.length_cons] at enough
        have less : (queue ++ (next node).filter fun child => child ∉ visited ++ [node]).length +
            ahead next nodes (visited ++ [node]) ≤ fuel := by
          rw [List.length_append]
          omega
        have rest := ih less fun x mem y step => by
            by_cases there : y ∈ visited ++ [node]
            · exact Or.inl there
            · right
              rcases List.mem_append.mp mem with old | new
              · rcases open_ x old y step with seen | queued
                · exact absurd (List.mem_append_left _ seen) there
                · rcases List.mem_cons.mp queued with rfl | later
                  · exact absurd (by simp) there
                  · exact List.mem_append_left _ later
              · cases List.mem_singleton.mp new
                exact List.mem_append_right _ (List.mem_filter.mpr ⟨step,by simpa using there⟩)
        refine ⟨fun x mem => rest.1 x ?_,rest.2⟩
        rcases mem with old | queued
        · exact Or.inl (List.mem_append_left _ old)
        · rcases List.mem_cons.mp queued with rfl | later
          · exact Or.inl (by simp)
          · exact Or.inr (List.mem_append_left _ later)

theorem memReachable (only : ∀ node, node ∉ nodes → next node = []) {roots : List α} {x : α} :
    x ∈ reachable next nodes roots ↔ ∃ root ∈ roots, Leads next root x := by
  have enough : roots.length + ahead next nodes [] ≤
      roots.length + (nodes.map fun node => (next node).length).sum := by simp [ahead]
  obtain ⟨kept,closed⟩ := exploreClosed only enough (by simp)
  constructor
  · intro mem
    exact (exploreSound mem).resolve_left (by simp)
  · rintro ⟨root,mem,leads⟩
    induction leads with
    | refl => exact kept root (Or.inr mem)
    | tail _ step ih => exact closed _ ih _ step

/-! A worklist that runs until nothing waits. -/

/-- As `explore`, but none where the fuel does not suffice. -/
def drain (next : α → List α) : Nat → List α → List α → Option (List α)
  | _, [], visited => some visited
  | 0, _::_, _ => none
  | fuel + 1, node::queue, visited =>
    if node ∈ visited then drain next fuel queue visited
    else drain next fuel (queue ++ (next node).filter fun child => child ∉ visited ++ [node]) (visited ++ [node])

theorem drainExplores {fuel : Nat} {queue visited out : List α} (ran : drain next fuel queue visited = some out) :
    explore next fuel queue visited = out := by
  induction fuel generalizing queue visited with
  | zero =>
    cases queue with
    | nil => exact Option.some.inj ran
    | cons => contradiction
  | succ fuel ih =>
    cases queue with
    | nil => exact Option.some.inj ran
    | cons node queue =>
      rw [drain] at ran
      rw [explore]
      split at ran
      · rename_i seen
        rw [if_pos seen]
        exact ih ran
      · rename_i fresh
        rw [if_neg fresh]
        exact ih ran

theorem drainNodup {fuel : Nat} {queue visited out : List α} (nodup : visited.Nodup)
    (ran : drain next fuel queue visited = some out) : out.Nodup := by
  induction fuel generalizing queue visited with
  | zero =>
    cases queue with
    | nil => exact Option.some.inj ran ▸ nodup
    | cons => contradiction
  | succ fuel ih =>
    cases queue with
    | nil => exact Option.some.inj ran ▸ nodup
    | cons node queue =>
      rw [drain] at ran
      split at ran
      · exact ih nodup ran
      · rename_i fresh
        exact ih (List.nodup_append_comm.mp (List.nodup_cons.mpr ⟨fresh,nodup⟩)) ran

theorem drainEnds (only : ∀ node, node ∉ nodes → next node = []) {fuel : Nat} {queue visited : List α}
    (enough : queue.length + ahead next nodes visited ≤ fuel) : ∃ out, drain next fuel queue visited = some out := by
  induction fuel generalizing queue visited with
  | zero =>
    have empty : queue = [] := List.length_eq_zero_iff.mp (by omega)
    subst empty
    exact ⟨visited,rfl⟩
  | succ fuel ih =>
    cases queue with
    | nil => exact ⟨visited,rfl⟩
    | cons node queue =>
      rw [List.length_cons] at enough
      rw [drain]
      split
      · exact ih (by omega)
      · rename_i fresh
        have fewer := visitFewer only fresh
        refine ih ?_
        rw [List.length_append]
        omega

theorem drainMore {fuel fuel' : Nat} {queue visited out : List α} (ran : drain next fuel queue visited = some out)
    (more : fuel ≤ fuel') : drain next fuel' queue visited = some out := by
  induction fuel generalizing fuel' queue visited with
  | zero =>
    cases queue with
    | nil => cases fuel' <;> exact ran
    | cons => contradiction
  | succ fuel ih =>
    obtain ⟨fuel',rfl⟩ : ∃ n, fuel' = n + 1 := ⟨fuel' - 1,by omega⟩
    cases queue with
    | nil => exact ran
    | cons node queue =>
      rw [drain] at ran ⊢
      split at ran
      · rename_i seen
        rw [if_pos seen]
        exact ih ran (by omega)
      · rename_i fresh
        rw [if_neg fresh]
        exact ih ran (by omega)

theorem drainUnique {fuel fuel' : Nat} {queue visited out out' : List α} (ran : drain next fuel queue visited = some out)
    (ran' : drain next fuel' queue visited = some out') : out = out' := by
  rcases Nat.le_total fuel fuel' with more | more
  · exact Option.some.inj ((drainMore ran more).symm.trans ran')
  · exact Option.some.inj (ran.symm.trans (drainMore ran' more))

/-- What an upper bound of the turns is: the roots, and the successors of every node once. -/
def turns (next : α → List α) (nodes roots : List α) : Nat := roots.length + (nodes.map fun node => (next node).length).sum

/-- Exactly what the roots lead to is visited, each once. -/
theorem drainExact (only : ∀ node, node ∉ nodes → next node = []) (roots : List α) :
    ∃ out, (∀ fuel, turns next nodes roots ≤ fuel → drain next fuel roots [] = some out) ∧ out.Nodup ∧
      ∀ x, x ∈ out ↔ ∃ root ∈ roots, Leads next root x := by
  have covered : roots.length + ahead next nodes [] ≤ turns next nodes roots := by simp [ahead,turns]
  obtain ⟨out,ran⟩ := drainEnds only covered
  have same : reachable next nodes roots = out := drainExplores ran
  refine ⟨out,fun fuel enough => drainMore ran enough,drainNodup List.nodup_nil ran,fun x => ?_⟩
  rw [← same]
  exact memReachable only

/-! Frontiers. -/

/-- The nodes that wait, in order and as a set, and those that were taken. -/
structure Frontier (α : Type) where
  queue : List α
  pending : Finset α
  seen : Finset α

namespace Frontier

def full (cap : Nat) (f : Frontier α) : Bool := cap ≤ f.seen.card + f.pending.card

def taken (f : Frontier α) (x : α) (queue : List α) : Frontier α := ⟨queue,f.pending.erase x,insert x f.seen⟩

def push (f : Frontier α) (x : α) : Frontier α := {f with queue := f.queue ++ [x], pending := insert x f.pending}

/-- Nodes that are not known go to the end of the queue, until the frontier is full. -/
def offer (cap : Nat) : List α → Frontier α → Frontier α
  | [],f => f
  | x::xs,f =>
      if x ∈ f.seen ∨ x ∈ f.pending then offer cap xs f
      else if f.full cap then f
      else offer cap xs (f.push x)

def Known (f : Frontier α) (x : α) : Prop := x ∈ f.seen ∨ x ∈ f.pending

structure Sound (cap : Nat) (f : Frontier α) : Prop where
  nodup : f.queue.Nodup
  waits : ∀ x, x ∈ f.pending ↔ x ∈ f.queue
  apart : Disjoint f.seen f.pending
  fits : f.seen.card + f.pending.card ≤ cap

variable {cap : Nat} {f : Frontier α} {x : α}

omit [DecidableEq α] in
theorem headUnseen {queue : List α} (sound : f.Sound cap) (head : f.queue = x::queue) : x ∈ f.pending ∧ x ∉ f.seen := by
  have mem : x ∈ f.pending := (sound.waits x).mpr (head ▸ List.mem_cons_self)
  exact ⟨mem,Finset.disjoint_right.mp sound.apart mem⟩

theorem takenKnown {queue : List α} (sound : f.Sound cap) (head : f.queue = x::queue) (y : α) :
    (f.taken x queue).Known y ↔ f.Known y := by
  have mem := (headUnseen sound head).1
  by_cases same : y = x
  · subst same
    simp [Known,taken,mem]
  · simp [Known,taken,same]

theorem takenSound {queue : List α} (sound : f.Sound cap) (head : f.queue = x::queue) : (f.taken x queue).Sound cap := by
  obtain ⟨mem,unseen⟩ := headUnseen sound head
  have nodup := sound.nodup
  rw [head,List.nodup_cons] at nodup
  refine ⟨nodup.2,fun y => ?_,?_,?_⟩
  · rw [taken,Finset.mem_erase,sound.waits y,head,List.mem_cons]
    constructor
    · rintro ⟨other,same | later⟩
      · exact absurd same other
      · exact later
    · intro later
      exact ⟨fun same => nodup.1 (same ▸ later),Or.inr later⟩
  · refine Finset.disjoint_left.mpr fun y here waiting => ?_
    obtain ⟨other,there⟩ := Finset.mem_erase.mp waiting
    rcases Finset.mem_insert.mp here with same | old
    · exact other same
    · exact Finset.disjoint_left.mp sound.apart old there
  · have one := Finset.card_erase_of_mem mem
    have some_ := Finset.card_pos.mpr ⟨x,mem⟩
    have fits := sound.fits
    simp only [taken,Finset.card_insert_of_notMem unseen,one]
    omega

theorem pushSound (sound : f.Sound cap) (fresh : ¬ f.Known x) (open_ : f.full cap = false) : (f.push x).Sound cap := by
  obtain ⟨unseen,absent⟩ := not_or.mp fresh
  refine ⟨?_,fun y => ?_,?_,?_⟩
  · refine List.nodup_append.mpr ⟨sound.nodup,List.nodup_singleton x,fun y mem z single same => ?_⟩
    cases List.mem_singleton.mp single
    exact absent ((sound.waits x).mpr (same ▸ mem))
  · rw [push,Finset.mem_insert,sound.waits y,List.mem_append,List.mem_singleton,or_comm]
  · exact Finset.disjoint_insert_right.mpr ⟨unseen,sound.apart⟩
  · rw [full,decide_eq_false_iff_not] at open_
    simp only [push,Finset.card_insert_of_notMem absent]
    omega

theorem pushKnown (y : α) : (f.push x).Known y ↔ y = x ∨ f.Known y := by
  simp only [Known,push,Finset.mem_insert]
  tauto

theorem offerSeen (xs : List α) (f : Frontier α) : (offer cap xs f).seen = f.seen := by
  induction xs generalizing f with
  | nil => rfl
  | cons x xs ih =>
    rw [offer]
    split
    · exact ih f
    · split
      · rfl
      · exact ih _

theorem offerSound (xs : List α) {f : Frontier α} (sound : f.Sound cap) : (offer cap xs f).Sound cap := by
  induction xs generalizing f with
  | nil => exact sound
  | cons x xs ih =>
    rw [offer]
    split
    · exact ih sound
    · rename_i fresh
      split
      · exact sound
      · rename_i open_
        exact ih (pushSound sound fresh (Bool.not_eq_true _ ▸ open_))

theorem offerKeeps (xs : List α) {f : Frontier α} {y : α} (known : f.Known y) : (offer cap xs f).Known y := by
  induction xs generalizing f with
  | nil => exact known
  | cons x xs ih =>
    rw [offer]
    split
    · exact ih known
    · split
      · exact known
      · exact ih ((pushKnown y).mpr (Or.inr known))

theorem offerSource (xs : List α) {f : Frontier α} {y : α} (known : (offer cap xs f).Known y) : f.Known y ∨ y ∈ xs := by
  induction xs generalizing f with
  | nil => exact Or.inl known
  | cons x xs ih =>
    rw [offer] at known
    split at known
    · exact (ih known).imp_right (List.mem_cons_of_mem x)
    · split at known
      · exact Or.inl known
      · rcases ih known with pushed | later
        · rcases (pushKnown y).mp pushed with rfl | old
          · exact Or.inr List.mem_cons_self
          · exact Or.inl old
        · exact Or.inr (List.mem_cons_of_mem x later)

theorem offerWhole (xs : List α) (f : Frontier α) :
    (offer cap xs f).full cap = true ∨ ∀ y ∈ xs, (offer cap xs f).Known y := by
  induction xs generalizing f with
  | nil => exact Or.inr fun y mem => absurd mem List.not_mem_nil
  | cons x xs ih =>
    rw [offer]
    split
    · rename_i known
      exact (ih f).imp_right fun all => List.forall_mem_cons.mpr ⟨offerKeeps xs known,all⟩
    · split
      · rename_i whole
        exact Or.inl whole
      · refine (ih _).imp_right fun all => List.forall_mem_cons.mpr ⟨offerKeeps xs ?_,all⟩
        exact (pushKnown x).mpr (Or.inl rfl)

/-- What is known comes from the roots, and it is closed as far as it was taken, or the frontier is full. -/
structure Covers (next : α → List α) (cap : Nat) (roots : List α) (f : Frontier α) : Prop where
  sound : f.Sound cap
  rooted : ∀ root ∈ roots, f.Known root
  reached : ∀ x, f.Known x → ∃ root ∈ roots, Leads next root x
  closed : f.full cap = true ∨ ∀ x ∈ f.seen, ∀ y ∈ next x, f.Known y

variable {roots : List α}

theorem fullKnown {g : Frontier α} (sound : f.Sound cap) (sound' : g.Sound cap) (more : ∀ x, f.Known x → g.Known x)
    (full_ : f.full cap = true) : g.full cap = true := by
  have sub : f.seen ∪ f.pending ⊆ g.seen ∪ g.pending := fun x mem => Finset.mem_union.mpr (more x (Finset.mem_union.mp mem))
  have fewer := Finset.card_le_card sub
  rw [Finset.card_union_of_disjoint sound.apart,Finset.card_union_of_disjoint sound'.apart] at fewer
  rw [full,decide_eq_true_eq] at full_ ⊢
  omega

theorem takenCovers {queue : List α} (covers : f.Covers next cap roots) (head : f.queue = x::queue)
    (skips : (f.taken x queue).full cap = true ∨ next x = []) : (f.taken x queue).Covers next cap roots := by
  have known := takenKnown covers.sound head
  have sound := takenSound covers.sound head
  refine ⟨sound,fun root mem => (known root).mpr (covers.rooted root mem),fun y mem => covers.reached y ((known y).mp mem),?_⟩
  rcases skips with whole | none_
  · exact Or.inl whole
  · rcases covers.closed with whole | closed
    · exact Or.inl (fullKnown covers.sound sound (fun y mem => (known y).mpr mem) whole)
    · refine Or.inr fun y mem z step => (known z).mpr ?_
      rcases Finset.mem_insert.mp mem with rfl | old
      · rw [none_] at step
        contradiction
      · exact closed y old z step

theorem offeredCovers {queue : List α} (covers : f.Covers next cap roots) (head : f.queue = x::queue) :
    (offer cap (next x) (f.taken x queue)).Covers next cap roots := by
  have known := takenKnown covers.sound head
  have sound := offerSound (next x) (takenSound covers.sound head)
  have kept (y : α) (old : f.Known y) : (offer cap (next x) (f.taken x queue)).Known y := offerKeeps _ ((known y).mpr old)
  refine ⟨sound,fun root mem => kept root (covers.rooted root mem),fun y mem => ?_,?_⟩
  · rcases offerSource _ mem with old | new
    · exact covers.reached y ((known y).mp old)
    · obtain ⟨root,from_,leads⟩ := covers.reached x (Or.inr (headUnseen covers.sound head).1)
      exact ⟨root,from_,leads.tail new⟩
  · rcases covers.closed with whole | closed
    · exact Or.inl (fullKnown covers.sound sound kept whole)
    · refine (offerWhole (next x) (f.taken x queue)).imp_right fun all y mem z step => ?_
      rw [offerSeen] at mem
      rcases Finset.mem_insert.mp mem with rfl | old
      · exact all z step
      · exact kept z (closed y old z step)

omit [DecidableEq α] in
theorem emptySeen (sound : f.Sound cap) (empty : f.queue = []) {y : α} (known : f.Known y) : y ∈ f.seen := by
  rcases known with here | waiting
  · exact here
  · have queued := (sound.waits y).mp waiting
    rw [empty] at queued
    contradiction

omit [DecidableEq α] in
/-- Where the frontier has room for everything that the roots lead to, an empty queue means that all of it was taken. -/
theorem coversAll (covers : f.Covers next cap roots) (empty : f.queue = []) {s : Finset α} (room : s.card ≤ cap)
    (within : ∀ root ∈ roots, ∀ y, Leads next root y → y ∈ s) {root y : α} (mem : root ∈ roots) (leads : Leads next root y) :
    y ∈ f.seen := by
  have none_ : f.pending = ∅ := Finset.eq_empty_of_forall_notMem fun z mem =>
    Finset.disjoint_left.mp covers.sound.apart (emptySeen covers.sound empty (Or.inr mem)) mem
  rcases covers.closed with whole | closed
  · have inside : f.seen ⊆ s := fun z mem => by
      obtain ⟨root,from_,leads⟩ := covers.reached z (Or.inl mem)
      exact within root from_ z leads
    rw [full,none_,Finset.card_empty,Nat.add_zero,decide_eq_true_eq] at whole
    rw [Finset.eq_of_subset_of_card_le inside (room.trans whole)]
    exact within root mem y leads
  · induction leads with
    | refl => exact emptySeen covers.sound empty (covers.rooted root mem)
    | tail _ step ih => exact emptySeen covers.sound empty (closed _ ih _ step)

end Frontier

end RustMcp.Worklist
