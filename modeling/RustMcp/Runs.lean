import Mathlib

/-! Runs of a system of executable steps, and what every state of a run
satisfies. A condition on steps narrows the runs that are looked at. -/
namespace RustMcp.Runs

variable {σ ε : Type}

structure System (σ ε : Type) where
  initial : σ → Prop
  step : σ → ε → Option σ

/-- States of the runs in which every step meets `allowed`, a condition on the
state before the step and the event. -/
inductive Reach (sys : System σ ε) (allowed : σ → ε → Prop) : σ → Prop where
  | start {s : σ} (first : sys.initial s) : Reach sys allowed s
  | next {s s' : σ} {e : ε} (run : Reach sys allowed s) (meets : allowed s e) (moves : sys.step s e = some s') :
      Reach sys allowed s'

/-- No condition at all. -/
def always (_ : σ) (_ : ε) : Prop := True

instance (s : σ) (e : ε) : Decidable (always s e) := isTrue trivial

variable {sys : System σ ε} {allowed allowed' : σ → ε → Prop} {s s' : σ}

theorem Reach.invariant {I : σ → Prop} (starts : ∀ s, sys.initial s → I s)
    (keeps : ∀ s e s', I s → allowed s e → sys.step s e = some s' → I s') (run : Reach sys allowed s) : I s := by
  induction run with
  | start first => exact starts _ first
  | next _ meets moves ih => exact keeps _ _ _ ih meets moves

/-- An invariant may rest on one that is known of every state already. -/
theorem Reach.invariantOver {I J : σ → Prop} (known : ∀ s, Reach sys allowed s → J s) (starts : ∀ s, sys.initial s → I s)
    (keeps : ∀ s e s', J s → I s → allowed s e → sys.step s e = some s' → I s') (run : Reach sys allowed s) : I s := by
  induction run with
  | start first => exact starts _ first
  | next run meets moves ih => exact keeps _ _ _ (known _ run) ih meets moves

theorem Reach.mono (sub : ∀ s e, allowed s e → allowed' s e) (run : Reach sys allowed s) : Reach sys allowed' s := by
  induction run with
  | start first => exact .start first
  | next _ meets moves ih => exact .next ih (sub _ _ meets) moves

/-! Runs of given events. -/

/-- A run of given events, each of them allowed. -/
inductive Path (sys : System σ ε) (allowed : σ → ε → Prop) : σ → List ε → σ → Prop where
  | done (s : σ) : Path sys allowed s [] s
  | move {s t u : σ} {e : ε} {es : List ε} (meets : allowed s e) (moves : sys.step s e = some t)
      (rest : Path sys allowed t es u) : Path sys allowed s (e::es) u

theorem Reach.along {es : List ε} (run : Reach sys allowed s) (path : Path sys allowed s es s') : Reach sys allowed s' := by
  induction path with
  | done => exact run
  | move meets moves _ ih => exact ih (.next run meets moves)

theorem Path.keeps {I : σ → Prop} {es : List ε} (step : ∀ s e s', I s → allowed s e → sys.step s e = some s' → I s')
    (path : Path sys allowed s es s') (holds : I s) : I s' := by
  induction path with
  | done => exact holds
  | move meets moves _ ih => exact ih (step _ _ _ holds meets moves)

theorem Path.mono {es : List ε} (sub : ∀ s e, allowed s e → allowed' s e) (path : Path sys allowed s es s') :
    Path sys allowed' s es s' := by
  induction path with
  | done => exact .done _
  | move meets moves _ ih => exact .move (sub _ _ meets) moves ih

/-- The events one after the other, as long as each is allowed. -/
def exec (sys : System σ ε) (allowed : σ → ε → Prop) [∀ s e, Decidable (allowed s e)] : σ → List ε → Option σ
  | s, [] => some s
  | s, e::es => if allowed s e then (sys.step s e).bind fun t => exec sys allowed t es else none

theorem execPath (sys : System σ ε) (allowed : σ → ε → Prop) [∀ s e, Decidable (allowed s e)] (es : List ε)
    (h : exec sys allowed s es = some s') :
    Path sys allowed s es s' := by
  induction es generalizing s with
  | nil => cases Option.some.inj h; exact .done _
  | cons e es ih =>
    rw [exec] at h
    split at h <;> try contradiction
    rename_i meets
    obtain ⟨t,moves,rest⟩ := Option.bind_eq_some_iff.mp h
    exact .move meets moves (ih rest)

theorem execReach (sys : System σ ε) (allowed : σ → ε → Prop) [∀ s e, Decidable (allowed s e)] (es : List ε)
    (first : sys.initial s) (h : (exec sys allowed s es).isSome = true) : Reach sys allowed ((exec sys allowed s es).get h) :=
  Reach.along (.start first) (execPath sys allowed es (Option.some_get h).symm)

/-! A lock that one of many parties may hold, told by where each party stands. -/

variable {ι π : Type} {holds : π → Bool} {at_ : ι → π} {holder : Option ι} {i : ι} {pc : π}

def Guards (holds : π → Bool) (at_ : ι → π) (holder : Option ι) : Prop := ∀ i, holds (at_ i) = true ↔ holder = some i

theorem Guards.alone (lock : Guards holds at_ holder) {j : ι} (mine : holds (at_ i) = true) (theirs : holds (at_ j) = true) :
    j = i :=
  Option.some.inj (((lock j).mp theirs).symm.trans ((lock i).mp mine))

variable [DecidableEq ι]

/-- A party stands somewhere as it has moved there, or has stood there before. -/
theorem movedAt {j : ι} {target : π} (there : Function.update at_ i pc j = target) :
    (j = i ∧ pc = target) ∨ (j ≠ i ∧ at_ j = target) := by
  by_cases mine : j = i
  · subst mine
    rw [Function.update_self] at there
    exact .inl ⟨rfl,there⟩
  · rw [Function.update_of_ne mine] at there
    exact .inr ⟨mine,there⟩

/-- Where the holder moves, no other party stands inside. -/
theorem Guards.inside (lock : Guards holds at_ holder) (held : holds (at_ i) = true) {j : ι} {target : π}
    (inner : holds target = true) (there : Function.update at_ i pc j = target) : pc = target := by
  obtain ⟨_,here⟩ | ⟨other,before⟩ := movedAt there
  · exact here
  · exact absurd (lock.alone held (before ▸ inner)) other

theorem Guards.keep (lock : Guards holds at_ holder) (same : holds pc = holds (at_ i)) :
    Guards holds (Function.update at_ i pc) holder := by
  intro j
  by_cases here : j = i
  · subst here; rw [Function.update_self,same]; exact lock j
  · rw [Function.update_of_ne here]; exact lock j

theorem Guards.take (lock : Guards holds at_ none) (taken : holds pc = true) :
    Guards holds (Function.update at_ i pc) (some i) := by
  intro j
  by_cases here : j = i
  · subst here; simp [taken]
  · rw [Function.update_of_ne here,lock j]
    simp [Ne.symm here]

theorem Guards.drop (lock : Guards holds at_ holder) (held : holds (at_ i) = true) (left : holds pc = false) :
    Guards holds (Function.update at_ i pc) none := by
  intro j
  by_cases here : j = i
  · subst here; simp [left]
  · rw [Function.update_of_ne here,lock j,(lock i).mp held]
    simp [Ne.symm here]

end RustMcp.Runs
