import RustMcp.Ranking

/-! Batches of those who wait, in the order of a key. Whoever is served leaves; whoever
cannot be served stays, and takes a place in every batch that it comes first in. -/
namespace RustMcp.Batches

section
variable {α κ : Type} [LinearOrder κ] (key : α → κ) (serves : α → Bool) (limit : Nat)

/-- Those left after one batch. -/
def batch (xs : List α) : List α := xs.filter fun x => !(serves x && Ranking.rank key xs x < limit)

def left (n : Nat) (waiting : List α) : List α := (batch key serves limit)^[n] waiting

/-- Somebody who is needed comes at or after `x`, and `x` can be served. -/
def Due (waiting : List α) (needed : α → Prop) (x : α) : Prop :=
  serves x = true ∧ ∃ d ∈ waiting, needed d ∧ key x ≤ key d

/-- Turns below `n` in the order of the key, such that each batch has room for everybody: for those
of the same turn, and for all before them that cannot be served. -/
structure Turns (waiting : List α) (needed : α → Prop) (n : Nat) (turn : α → Nat) : Prop where
  inTime : ∀ x ∈ waiting, needed x → turn x < n
  ordered : ∀ x ∈ waiting, ∀ y ∈ waiting, serves x = true → Due key serves waiting needed y → key x ≤ key y →
    turn x ≤ turn y
  room : ∀ x ∈ waiting, Due key serves waiting needed x →
    (waiting.filter fun y => key y < key x && (!serves y || turn y = turn x)).length < limit

variable {key serves limit} {waiting : List α} {x y : α} {n : Nat}

theorem leftNext (n : Nat) (waiting : List α) :
    left key serves limit (n + 1) waiting = batch key serves limit (left key serves limit n waiting) :=
  Function.iterate_succ_apply' _ _ _

theorem leftAfter (n : Nat) (waiting : List α) :
    left key serves limit n (batch key serves limit waiting) = left key serves limit (n + 1) waiting :=
  (Function.iterate_succ_apply _ _ _).symm

theorem memLeftNext : x ∈ left key serves limit (n + 1) waiting ↔ x ∈ left key serves limit n waiting ∧
    ¬ (serves x = true ∧ Ranking.rank key (left key serves limit n waiting) x < limit) := by
  rw [leftNext,batch,List.mem_filter]
  cases serves x <;> simp

theorem leftBefore {m : Nat} (le : m ≤ n) (mem : x ∈ left key serves limit n waiting) : x ∈ left key serves limit m waiting := by
  induction n with
  | zero => rwa [Nat.le_zero.mp le]
  | succ n ih =>
    rcases Nat.le_succ_iff.mp le with earlier | rfl
    · exact ih earlier (memLeftNext.mp mem).1
    · exact mem

theorem unservedStays (mem : x ∈ waiting) (fails : serves x = false) (n : Nat) : x ∈ left key serves limit n waiting := by
  induction n with
  | zero => exact mem
  | succ n ih => exact memLeftNext.mpr ⟨ih,by simp [fails]⟩

theorem leftFilter (key : α → κ) (serves : α → Bool) (limit n : Nat) (waiting : List α) :
    ∃ p : α → Bool, left key serves limit n waiting = waiting.filter p := by
  induction n with
  | zero => exact ⟨fun _ => true,by simp [left]⟩
  | succ n ih =>
    obtain ⟨p,same⟩ := ih
    rw [leftNext,batch]
    generalize (fun x => !(serves x && decide (Ranking.rank key (left key serves limit n waiting) x < limit))) = q
    exact ⟨fun x => q x && p x,by rw [same,List.filter_filter]⟩

/-- Ranks among those left, counted among all who waited. -/
theorem rankLeft (key : α → κ) (serves : α → Bool) (limit n : Nat) (waiting : List α) (x : α) :
    ∃ p : α → Bool, (∀ y ∈ waiting, p y = true ↔ y ∈ left key serves limit n waiting) ∧
      Ranking.rank key (left key serves limit n waiting) x = (waiting.filter fun y => key y < key x && p y).length := by
  obtain ⟨p,same⟩ := leftFilter key serves limit n waiting
  refine ⟨p,fun y mem => ?_,?_⟩
  · rw [same,List.mem_filter]
    exact ⟨fun kept => ⟨mem,kept⟩,fun kept => kept.2⟩
  · rw [Ranking.rank,same,List.filter_filter]

theorem filterLength {p q : α → Bool} (sub : ∀ y ∈ waiting, p y = true → q y = true) :
    (waiting.filter p).length ≤ (waiting.filter q).length := by
  rw [← List.countP_eq_length_filter,← List.countP_eq_length_filter]
  exact List.countP_mono_left sub

/-- Whoever can be served leaves with everybody who comes after. -/
theorem leavesBefore (can : serves x = true) (before : key x ≤ key y) (here : y ∈ left key serves limit n waiting)
    (gone : y ∉ left key serves limit (n + 1) waiting) : x ∉ left key serves limit (n + 1) waiting := by
  intro mem
  have served : serves y = true ∧ Ranking.rank key (left key serves limit n waiting) y < limit := by
    by_contra late
    exact gone (memLeftNext.mpr ⟨here,late⟩)
  obtain ⟨stays,late⟩ := memLeftNext.mp mem
  refine late ⟨can,lt_of_le_of_lt ?_ served.2⟩
  exact filterLength fun z _ less => by
    simp only [decide_eq_true_eq] at less ⊢
    exact lt_of_lt_of_le less before

/-- Whoever has a turn in time is served by then. -/
theorem turnServed {needed : α → Prop} {turn : α → Nat} (turns : Turns key serves limit waiting needed n turn) (k : Nat) :
    ∀ x ∈ waiting, Due key serves waiting needed x → turn x < k → x ∉ left key serves limit k waiting := by
  induction k with
  | zero => exact fun _ _ _ early => absurd early (Nat.not_lt_zero _)
  | succ k ih =>
    intro x mem due early stays
    obtain ⟨still,late⟩ := memLeftNext.mp stays
    have now : turn x = k := by
      by_contra other
      exact ih x mem due (by omega) still
    refine late ⟨due.1,lt_of_le_of_lt ?_ (turns.room x mem due)⟩
    obtain ⟨p,kept,rank⟩ := rankLeft key serves limit k waiting x
    rw [rank]
    refine filterLength fun y there both => ?_
    simp only [Bool.and_eq_true,decide_eq_true_eq,Bool.or_eq_true,Bool.not_eq_true'] at both ⊢
    refine ⟨both.1,?_⟩
    cases can : serves y with
    | false => exact Or.inl rfl
    | true =>
      obtain ⟨d,inside,needs,upto⟩ := due.2
      have dueY : Due key serves waiting needed y := ⟨can,d,inside,needs,le_trans (le_of_lt both.1) upto⟩
      have upto := turns.ordered y there x mem can due (le_of_lt both.1)
      have from_ : ¬ turn y < k := fun earlier => ih y there dueY earlier ((kept y there).mp both.2)
      exact Or.inr (by omega)

/-- The batch with which somebody leaves, or `n` where he has not left before. -/
noncomputable def leaving (key : α → κ) (serves : α → Bool) (limit : Nat) (waiting : List α) (n : Nat) (x : α) : Nat :=
  sInf ({k | x ∉ left key serves limit (k + 1) waiting} ∪ {n})

theorem leavingAt (early : leaving key serves limit waiting n x < n) :
    x ∉ left key serves limit (leaving key serves limit waiting n x + 1) waiting := by
  have some_ : ({k | x ∉ left key serves limit (k + 1) waiting} ∪ {n}).Nonempty := ⟨n,Or.inr rfl⟩
  rcases Nat.sInf_mem some_ with gone | last
  · exact gone
  · exact absurd last (ne_of_lt early)

theorem leavingLeft (mem : x ∈ waiting) {k : Nat} (before : k ≤ leaving key serves limit waiting n x) :
    x ∈ left key serves limit k waiting := by
  cases k with
  | zero => exact mem
  | succ k =>
    by_contra gone
    exact absurd (Nat.sInf_le (Or.inl gone)) (not_le.mpr before)

theorem leavingBy {k : Nat} (below : k < n) (gone : x ∉ left key serves limit (k + 1) waiting) :
    leaving key serves limit waiting n x < n :=
  lt_of_le_of_lt (Nat.sInf_le (Or.inl gone)) below

/-- Everybody who is needed has left after `n` batches exactly if there are turns for them. -/
theorem leftIffTurns {needed : α → Prop} (can : ∀ x ∈ waiting, needed x → serves x = true) (n : Nat) :
    (∀ x ∈ waiting, needed x → x ∉ left key serves limit n waiting) ↔
      ∃ turn, Turns key serves limit waiting needed n turn := by
  constructor
  · intro gone
    have early : ∀ d ∈ waiting, needed d → leaving key serves limit waiting n d < n := fun d mem needs => by
      have away := gone d mem needs
      cases n with
      | zero => exact absurd mem away
      | succ n => exact leavingBy (Nat.lt_succ_self n) away
    have dueLeaves : ∀ x ∈ waiting, ∀ y ∈ waiting, serves x = true → key x ≤ key y →
        leaving key serves limit waiting n y < n →
        leaving key serves limit waiting n x ≤ leaving key serves limit waiting n y := fun x _ y there able before soon =>
      Nat.sInf_le (Or.inl (leavesBefore able before (leavingLeft there (le_refl _)) (leavingAt soon)))
    have dueEarly : ∀ x ∈ waiting, Due key serves waiting needed x → leaving key serves limit waiting n x < n :=
      fun x mem ⟨able,d,inside,needs,upto⟩ => lt_of_le_of_lt (dueLeaves x mem d inside able upto (early d inside needs))
        (early d inside needs)
    refine ⟨leaving key serves limit waiting n,early,fun x mem y there able due before => ?_,fun x mem due => ?_⟩
    · exact dueLeaves x mem y there able before (dueEarly y there due)
    · have soon := dueEarly x mem due
      obtain ⟨p,kept,rank⟩ := rankLeft key serves limit
        (leaving key serves limit waiting n x) waiting x
      have first : Ranking.rank key (left key serves limit (leaving key serves limit waiting n x) waiting) x < limit := by
        by_contra late
        exact leavingAt soon (memLeftNext.mpr ⟨leavingLeft mem (le_refl _),fun both => late both.2⟩)
      rw [rank] at first
      refine lt_of_le_of_lt (filterLength fun y there both => ?_) first
      simp only [Bool.and_eq_true,decide_eq_true_eq,Bool.or_eq_true,Bool.not_eq_true'] at both ⊢
      refine ⟨both.1,(kept y there).mpr ?_⟩
      rcases both.2 with fails | same
      · exact unservedStays there fails _
      · exact leavingLeft there (le_of_eq same.symm)
  · rintro ⟨turn,turns⟩ x mem needs
    exact turnServed turns n x mem ⟨can x mem needs,x,mem,needs,le_refl _⟩ (turns.inTime x mem needs)

end
end RustMcp.Batches
