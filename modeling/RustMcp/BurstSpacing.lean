import RustMcp.RateLimiter

/-! The burst tier: how far apart the calls return. Passing the gate is spaced,
returning is not, unless the calls behind the gate keep their order and none
spends less time there than the one before it. -/
namespace RustMcp.BurstSpacing
open Runs RateLimiter

/-- When a call passed the burst gate, while it has not returned. -/
def passed : Pc → Option Nat
  | .burstPassed gate | .windowLocked gate | .windowFull gate _ | .windowSleeping gate _ | .windowWoken gate
  | .windowRelocked gate | .windowReady gate => some gate
  | .start | .burstLocked | .burstSleeping _ | .burstAwake | .returned _ _ => none

structure BurstInv (limiter : OutboundRateLimiter) (s : State) : Prop where
  lock : Guards Pc.holdsBurst s.calls s.burstHolder
  sleeping : ∀ call wake, s.calls call = .burstSleeping wake → wake = s.nextAllowedAt
  awake : ∀ call, s.calls call = .burstAwake → s.nextAllowedAt ≤ s.clock
  waiting : ∀ call gate, passed (s.calls call) = some gate →
    gate + limiter.burstInterval ≤ s.nextAllowedAt ∧ gate ≤ s.clock
  given : ∀ g ∈ s.granted, g.gate + limiter.burstInterval ≤ s.nextAllowedAt ∧ g.gate ≤ g.at_
  apart : ∀ a b gate gate', a ≠ b → passed (s.calls a) = some gate → passed (s.calls b) = some gate' →
    gate + limiter.burstInterval ≤ gate' ∨ gate' + limiter.burstInterval ≤ gate
  after : ∀ g ∈ s.granted, ∀ call gate, passed (s.calls call) = some gate → g.gate + limiter.burstInterval ≤ gate
  spaced : s.granted.Pairwise (fun later earlier => earlier.at_ + limiter.burstInterval ≤ later.at_)
  recorded : ∀ call gate at_, s.calls call = .returned gate at_ → ⟨call,gate,at_⟩ ∈ s.granted

/-- A call about to return passed the gate before every call still waiting behind it, and
has been there no shorter than the call that returned last. -/
def InTurn (s : State) (event : Nat × Nat) : Prop :=
  ∀ gate, s.calls event.1 = .windowReady gate →
    (∀ other gate', passed (s.calls other) = some gate' → gate ≤ gate') ∧
    ∀ last ∈ s.granted.head?, last.at_ - last.gate ≤ event.2 - gate

section
variable {limiter : OutboundRateLimiter} {s s' : State} {call now : Nat}

theorem freshInv (first : Fresh s) : BurstInv limiter s := by
  obtain ⟨_,holder,_,_,calls,granted⟩ := first
  constructor
  · intro c; simp [calls,holder,Pc.holdsBurst]
  all_goals simp [calls,granted,passed]

theorem BurstInv.tick (inv : BurstInv limiter s) (later : s.clock ≤ now) : BurstInv limiter {s with clock := now} :=
  {inv with
    awake := fun c here => le_trans (inv.awake c here) later
    waiting := fun c gate here => ⟨(inv.waiting c gate here).1,le_trans (inv.waiting c gate here).2 later⟩}

/-- A step that neither passes the gate nor returns. -/
theorem BurstInv.aside (inv : BurstInv limiter s) {pc : Pc} (clock : s'.clock = s.clock)
    (next : s'.nextAllowedAt = s.nextAllowedAt) (granted : s'.granted = s.granted)
    (calls : s'.calls = Function.update s.calls call pc) (lock : Guards Pc.holdsBurst s'.calls s'.burstHolder)
    (gate : passed pc = passed (s.calls call)) (open_ : ∀ gate at_, pc ≠ .returned gate at_)
    (sleeping : ∀ wake, pc = .burstSleeping wake → wake = s.nextAllowedAt)
    (awake : pc = .burstAwake → s.nextAllowedAt ≤ s.clock) : BurstInv limiter s' := by
  have same : ∀ c, passed (s'.calls c) = passed (s.calls c) := fun c => by
    obtain ⟨rfl,here⟩ | ⟨_,here⟩ := movedAt (congrFun calls c).symm
    · rw [← here,gate]
    · rw [here]
  refine ⟨lock,fun c wake here => ?_,fun c here => ?_,?_,?_,?_,?_,?_,fun c g at_ here => ?_⟩
  · rw [next]
    obtain ⟨_,here⟩ | ⟨_,here⟩ := movedAt (calls ▸ here)
    · exact sleeping wake here
    · exact inv.sleeping c wake here
  · rw [next,clock]
    obtain ⟨_,here⟩ | ⟨_,here⟩ := movedAt (calls ▸ here)
    · exact awake here
    · exact inv.awake c here
  · simpa only [same,next,clock] using inv.waiting
  · simpa only [granted,next] using inv.given
  · simpa only [same] using inv.apart
  · simpa only [same,granted] using inv.after
  · simpa only [granted] using inv.spaced
  · rw [granted]
    obtain ⟨_,here⟩ | ⟨_,here⟩ := movedAt (calls ▸ here)
    · exact absurd here (open_ g at_)
    · exact inv.recorded c g at_ here

theorem BurstInv.pass (inv : BurstInv limiter s) (here : s.calls call = .burstAwake) :
    BurstInv limiter ({s with nextAllowedAt := s.clock + limiter.burstInterval, burstHolder := none}.goto call
      (.burstPassed s.clock)) := by
  have held : (s.calls call).holdsBurst = true := by rw [here]; rfl
  have due := inv.awake call here
  have gates : ∀ c gate, passed (Function.update s.calls call (.burstPassed s.clock) c) = some gate →
      (c = call ∧ gate = s.clock) ∨ (c ≠ call ∧ passed (s.calls c) = some gate) := fun c gate h => by
    generalize stands : Function.update s.calls call (.burstPassed s.clock) c = pc at h
    obtain ⟨mine,rfl⟩ | ⟨other,rfl⟩ := movedAt stands
    · exact .inl ⟨mine,(Option.some.inj h).symm⟩
    · exact .inr ⟨other,h⟩
  constructor
  · exact inv.lock.drop held rfl
  · intro c wake at_
    cases inv.lock.inside held rfl at_
  · intro c at_
    cases inv.lock.inside held rfl at_
  · intro c gate h
    simp only [State.goto]
    rcases gates c gate h with ⟨_,rfl⟩ | ⟨_,h⟩
    · exact ⟨le_refl _,le_refl _⟩
    · obtain ⟨before,past⟩ := inv.waiting c gate h
      exact ⟨by omega,past⟩
  · intro g mem
    obtain ⟨before,order⟩ := inv.given g mem
    simp only [State.goto]
    exact ⟨by omega,order⟩
  · intro a b gate gate' differ ha hb
    rcases gates a gate ha with ⟨rfl,rfl⟩ | ⟨_,oldA⟩ <;> rcases gates b gate' hb with ⟨rfl,rfl⟩ | ⟨_,oldB⟩
    · exact absurd rfl differ
    · have := (inv.waiting b gate' oldB).1; omega
    · have := (inv.waiting a gate oldA).1; omega
    · exact inv.apart a b gate gate' differ oldA oldB
  · intro g mem c gate h
    rcases gates c gate h with ⟨_,rfl⟩ | ⟨_,h⟩
    · have := (inv.given g mem).1; omega
    · exact inv.after g mem c gate h
  · exact inv.spaced
  · intro c gate at_ h
    obtain ⟨_,here⟩ | ⟨_,here⟩ := movedAt h
    · cases here
    · exact inv.recorded c gate at_ here

/-- Returning in turn, the call is a full interval after all that returned before it. -/
theorem BurstInv.push (inv : BurstInv limiter s) {gate : Nat} (here : s.calls call = .windowReady gate)
    (order : ∀ other gate', passed (s.calls other) = some gate' → gate ≤ gate')
    (stay : ∀ last ∈ s.granted.head?, last.at_ - last.gate ≤ s.clock - gate) :
    BurstInv limiter ({s with windowTimestamps := s.windowTimestamps ++ [s.clock], windowHolder := none}.grant
      call gate) := by
  have mineGate : passed (s.calls call) = some gate := by rw [here]; rfl
  obtain ⟨before,past⟩ := inv.waiting call gate mineGate
  have gates : ∀ c gate', passed (Function.update s.calls call (.returned gate s.clock) c) = some gate' →
      c ≠ call ∧ passed (s.calls c) = some gate' := fun c gate' h => by
    generalize stands : Function.update s.calls call (.returned gate s.clock) c = pc at h
    obtain ⟨_,rfl⟩ | ⟨other,rfl⟩ := movedAt stands
    · cases h
    · exact ⟨other,h⟩
  constructor
  · exact inv.lock.keep (by rw [here]; rfl)
  · intro c wake at_
    obtain ⟨_,here⟩ | ⟨_,here⟩ := movedAt at_
    · cases here
    · exact inv.sleeping c wake here
  · intro c at_
    obtain ⟨_,here⟩ | ⟨_,here⟩ := movedAt at_
    · cases here
    · exact inv.awake c here
  · intro c gate' h
    exact inv.waiting c gate' (gates c gate' h).2
  · intro g mem
    rcases List.mem_cons.mp mem with rfl | old
    · exact ⟨before,past⟩
    · exact inv.given g old
  · intro a b ga gb differ ha hb
    exact inv.apart a b ga gb differ (gates a ga ha).2 (gates b gb hb).2
  · intro g mem c gate' h
    obtain ⟨differ,h⟩ := gates c gate' h
    rcases List.mem_cons.mp mem with rfl | old
    · have spacing := inv.apart call c gate gate' differ.symm mineGate h
      have behind := order c gate' h
      simp only
      omega
    · exact inv.after g old c gate' h
  · refine List.pairwise_cons.mpr ⟨fun g mem => ?_,inv.spaced⟩
    -- The last return is a full interval back, and every other one lies before it.
    have last : ∀ g ∈ s.granted.head?, g.at_ + limiter.burstInterval ≤ s.clock := fun g first => by
      have inside := List.mem_of_mem_head? first
      have ahead := inv.after g inside call gate mineGate
      have ordered := (inv.given g inside).2
      have longer := stay g first
      omega
    have spaced := inv.spaced
    simp only
    cases all : s.granted with
    | nil => simp [all] at mem
    | cons newest rest =>
      rw [all] at last spaced
      have newestBack := last newest rfl
      rcases List.mem_cons.mp (all ▸ mem) with rfl | old
      · exact newestBack
      · have := (List.pairwise_cons.mp spaced).1 g old
        omega
  · intro c g at_ h
    obtain ⟨mine,stands⟩ | ⟨_,stands⟩ := movedAt h
    · cases stands
      rw [mine]
      exact List.mem_cons_self
    · exact List.mem_cons_of_mem _ (inv.recorded c g at_ stands)

theorem BurstInv.move (enabled : 0 < limiter.windowMax) (inv : BurstInv limiter s)
    (turn : ∀ gate, s.calls call = .windowReady gate →
      (∀ other gate', passed (s.calls other) = some gate' → gate ≤ gate') ∧
      ∀ last ∈ s.granted.head?, last.at_ - last.gate ≤ s.clock - gate)
    (move : Move limiter s call s') : BurstInv limiter s' := by
  cases move with
  | lockBurst here free =>
    exact inv.aside rfl rfl rfl rfl (Guards.take (free ▸ inv.lock) rfl) (by rw [here]; rfl) nofun nofun nofun
  | sleepBurst here _ =>
    refine inv.aside rfl rfl rfl rfl (inv.lock.keep (by rw [here]; rfl)) (by rw [here]; rfl) nofun ?_ nofun
    rintro _ ⟨⟩; rfl
  | openBurst here due =>
    exact inv.aside rfl rfl rfl rfl (inv.lock.keep (by rw [here]; rfl)) (by rw [here]; rfl) nofun nofun fun _ => due
  | wakeBurst wake here due =>
    have awake := inv.sleeping call wake here ▸ due
    exact inv.aside rfl rfl rfl rfl (inv.lock.keep (by rw [here]; rfl)) (by rw [here]; rfl) nofun nofun fun _ => awake
  | passBurst here _ => exact inv.pass here
  | grantBurst _ disabled => omega
  -- The window tier is behind the gate.
  | lockWindow _ here _ | findFull _ _ here _ _ | findRoom _ here _ | sleepWindow _ _ here _ | expired _ _ here _
  | wakeWindow _ _ here _ | relockWindow _ here _ | evictAgain _ here =>
    exact inv.aside rfl rfl rfl rfl (inv.lock.keep (by rw [here]; rfl)) (by rw [here]; rfl) nofun nofun nofun
  | push gate here => exact inv.push here (turn gate here).1 (turn gate here).2

theorem BurstInv.step (enabled : 0 < limiter.windowMax) (inv : BurstInv limiter s) {event : Nat × Nat}
    (turn : InTurn s event) (h : RateLimiter.step limiter s event = some s') : BurstInv limiter s' := by
  obtain ⟨later,move⟩ := stepMove h
  exact (inv.tick later).move enabled turn move

/-- Two calls return a burst interval apart in every run in which the calls return in turn. -/
theorem returnsSpaced (limiter : OutboundRateLimiter) (enabled : 0 < limiter.windowMax) {s : State}
    (run : Reach (system limiter) InTurn s) {a b gate gate' at_ at_' : Nat} (distinct : a ≠ b)
    (first : s.calls a = .returned gate at_) (second : s.calls b = .returned gate' at_') :
    at_ + limiter.burstInterval ≤ at_' ∨ at_' + limiter.burstInterval ≤ at_ := by
  have inv : BurstInv limiter s :=
    run.invariant (fun _ first => freshInv first) fun _ _ _ inv turn h => inv.step enabled turn h
  have either : s.granted.Pairwise fun g h : Grant =>
      h.at_ + limiter.burstInterval ≤ g.at_ ∨ g.at_ + limiter.burstInterval ≤ h.at_ := inv.spaced.imp Or.inl
  have symmetric : Std.Symm fun g h : Grant =>
      h.at_ + limiter.burstInterval ≤ g.at_ ∨ g.at_ + limiter.burstInterval ≤ h.at_ := ⟨fun _ _ => Or.symm⟩
  have differ : (⟨b,gate',at_'⟩ : Grant) ≠ ⟨a,gate,at_⟩ := fun same => distinct (Grant.mk.inj same).1.symm
  exact either.forall (inv.recorded b gate' at_' second) (inv.recorded a gate at_ first) differ

end

/-- No permit is given by the step. -/
def Quiet (s : State) (event : Nat × Nat) : Prop := (s.calls event.1).holdsWindow = false ∨ (s.calls event.1).evicts = true

instance (s : State) (event : Nat × Nat) : Decidable (Quiet s event) := inferInstanceAs (Decidable (_ = false ∨ _ = true))

theorem quietInTurn {s : State} {event : Nat × Nat} (quiet : Quiet s event) : InTurn s event := by
  intro gate here
  simp [Quiet,here,Pc.holdsWindow,Pc.evicts] at quiet

/-- Two calls, one after the other, each three instants behind the gate. -/
theorem returnsSpacedTwoCalls :
    ∃ s, Reach (system ⟨4,5,100⟩) InTurn s ∧ s.calls 0 = .returned 1003 1006 ∧ s.calls 1 = .returned 1009 1012 ∧
      (1006 + 4 ≤ 1012 ∨ 1012 + 4 ≤ 1006) := by
  have start := (execReach (system ⟨4,5,100⟩) Quiet (wakeTogether.take 5) (freshFresh 1000)
    (by decide)).mono fun _ _ => quietInTurn
  have first : Reach (system ⟨4,5,100⟩) InTurn _ := .next (e := (0,1006)) start (by
    rintro gate ⟨⟩
    refine ⟨fun other gate' h => ?_,nofun⟩
    rcases other with _ | other
    · cases h; exact le_refl _
    · cases h) rfl
  have second := first.along ((execPath (system ⟨4,5,100⟩) Quiet ((wakeTogether.drop 6).take 5) rfl).mono
    fun _ _ => quietInTurn)
  have run : Reach (system ⟨4,5,100⟩) InTurn _ := .next (e := (1,1012)) second (by
    rintro gate ⟨⟩
    refine ⟨fun other gate' h => ?_,?_⟩
    · rcases other with _ | _ | other
      · cases h
      · cases h; exact le_refl _
      · cases h
    · rintro last ⟨⟩; decide) rfl
  exact ⟨_,run,rfl,rfl,returnsSpaced ⟨4,5,100⟩ (by decide) run (by decide : (0 : Nat) ≠ 1) rfl rfl⟩

/-- Two calls spaced at the gate leave the window tier three instants apart. -/
theorem wokenCallsBurst :
    ¬ ∀ s, Reach (system ⟨4,1,100⟩) always s → ∀ a b gate gate' at_ at_', a ≠ b →
      s.calls a = .returned gate at_ → s.calls b = .returned gate' at_' → at_ + 4 ≤ at_' ∨ at_' + 4 ≤ at_ := by
  intro spaced
  have run := execReach (system ⟨4,1,100⟩) always wakeTogether (freshFresh 1000) (by decide)
  exact absurd (spaced _ run 1 2 1009 1015 1111 1114 (by decide) rfl rfl) (by decide)

end RustMcp.BurstSpacing
