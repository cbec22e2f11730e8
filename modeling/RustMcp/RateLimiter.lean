import RustMcp.Runs

/-! The two-tier outbound rate limiter, with any number of concurrent `acquire`
calls. A step takes one call from one await point, lock or clock read to the
next; locks are held across the steps between. -/
namespace RustMcp.RateLimiter
open Runs

/-- Durations, in the clock's unit. -/
structure OutboundRateLimiter where
  burstInterval : Nat
  windowMax : Nat
  windowDuration : Nat

/-- Where a call stands. `gate` is when it passed the burst gate; the code keeps
no record of it. -/
inductive Pc where
  | start
  | burstLocked
  | burstSleeping (wake : Nat)
  | burstAwake
  | burstPassed (gate : Nat)
  | windowLocked (gate : Nat)
  | windowFull (gate oldest : Nat)
  | windowSleeping (gate wake : Nat)
  | windowWoken (gate : Nat)
  | windowRelocked (gate : Nat)
  | windowReady (gate : Nat)
  | returned (gate at_ : Nat)

structure Grant where
  call : Nat
  gate : Nat
  at_ : Nat

/-- Instants count from the earliest one the platform can represent. -/
structure State where
  clock : Nat
  nextAllowedAt : Nat
  burstHolder : Option Nat
  windowTimestamps : List Nat
  windowHolder : Option Nat
  calls : Nat → Pc
  /-- the permits given so far, newest first -/
  granted : List Grant

def State.goto (s : State) (call : Nat) (pc : Pc) : State := {s with calls := Function.update s.calls call pc}

/-- `now.checked_sub(window_duration).unwrap_or(now)` -/
def cutoff (limiter : OutboundRateLimiter) (now : Nat) : Nat :=
  if limiter.windowDuration ≤ now then now - limiter.windowDuration else now

/-- Evict entries outside the window. -/
def evict (limiter : OutboundRateLimiter) (now : Nat) (timestamps : List Nat) : List Nat :=
  timestamps.dropWhile (fun ts => ts < cutoff limiter now)

def State.grant (s : State) (call gate : Nat) : State :=
  {s with granted := ⟨call,gate,s.clock⟩::s.granted}.goto call (.returned gate s.clock)

def advance (limiter : OutboundRateLimiter) (s : State) (call : Nat) : Option State :=
  match s.calls call with
  | .start =>
      if s.burstHolder.isSome then none
      else some ({s with burstHolder := some call}.goto call .burstLocked)
  | .burstLocked =>
      if s.nextAllowedAt > s.clock then some (s.goto call (.burstSleeping s.nextAllowedAt))
      else some (s.goto call .burstAwake)
  | .burstSleeping wake => if wake ≤ s.clock then some (s.goto call .burstAwake) else none
  | .burstAwake =>
      let passed := {s with nextAllowedAt := s.clock + limiter.burstInterval, burstHolder := none}
      if limiter.windowMax > 0 then some (passed.goto call (.burstPassed s.clock))
      else some (passed.grant call s.clock)
  | .burstPassed gate =>
      if s.windowHolder.isSome then none
      else some ({s with windowHolder := some call}.goto call (.windowLocked gate))
  | .windowLocked gate =>
      let kept := evict limiter s.clock s.windowTimestamps
      let evicted := {s with windowTimestamps := kept}
      match kept.head? with
      | some oldest =>
          if kept.length ≥ limiter.windowMax then some (evicted.goto call (.windowFull gate oldest))
          else some (evicted.goto call (.windowReady gate))
      | none => some (evicted.goto call (.windowReady gate))
  | .windowFull gate oldest =>
      if oldest + limiter.windowDuration > s.clock then
        some ({s with windowHolder := none}.goto call (.windowSleeping gate (oldest + limiter.windowDuration)))
      else some (s.goto call (.windowReady gate))
  | .windowSleeping gate wake => if wake ≤ s.clock then some (s.goto call (.windowWoken gate)) else none
  | .windowWoken gate =>
      if s.windowHolder.isSome then none
      else some ({s with windowHolder := some call}.goto call (.windowRelocked gate))
  | .windowRelocked gate =>
      -- the length is not looked at again
      let evicted := {s with windowTimestamps := evict limiter s.clock s.windowTimestamps}
      some (evicted.goto call (.windowReady gate))
  | .windowReady gate =>
      some ({s with windowTimestamps := s.windowTimestamps ++ [s.clock], windowHolder := none}.grant call gate)
  | .returned _ _ => none

/-- One step of a call, at a time that is not before the step before. -/
def step (limiter : OutboundRateLimiter) (s : State) (event : Nat × Nat) : Option State :=
  if s.clock ≤ event.2 then advance limiter {s with clock := event.2} event.1 else none

/-- A fresh limiter, created at the current instant. -/
def Fresh (s : State) : Prop :=
  s.nextAllowedAt = s.clock ∧ s.burstHolder = none ∧ s.windowTimestamps = [] ∧ s.windowHolder = none ∧
    (∀ call, s.calls call = .start) ∧ s.granted = []

def system (limiter : OutboundRateLimiter) : System State (Nat × Nat) := ⟨Fresh,step limiter⟩

/-- A limiter created at `clock`. -/
def fresh (clock : Nat) : State := ⟨clock,clock,none,[],none,fun _ => .start,[]⟩

theorem freshFresh (clock : Nat) : Fresh (fresh clock) := ⟨rfl,rfl,rfl,rfl,fun _ => rfl,rfl⟩

def Pc.holdsBurst : Pc → Bool
  | .burstLocked | .burstSleeping _ | .burstAwake => true
  | _ => false

def Pc.holdsWindow : Pc → Bool
  | .windowLocked _ | .windowFull _ _ | .windowRelocked _ | .windowReady _ => true
  | _ => false

/-- Whether the next step evicts, and whether it is the step after the sleep. -/
def Pc.evicts : Pc → Bool
  | .windowLocked _ | .windowRelocked _ => true
  | _ => false

def Pc.relocked : Pc → Bool
  | .windowRelocked _ => true
  | _ => false

/-- Three calls at a window of one permit; the last two wait for the same entry. -/
def wakeTogether : List (Nat × Nat) :=
  [(0,1001),(0,1002),(0,1003),(0,1004),(0,1005),(0,1006),
   (1,1007),(1,1008),(1,1009),(1,1010),(1,1011),(1,1012),
   (2,1013),(2,1014),(2,1015),(2,1016),(2,1017),(2,1018),
   (1,1107),(2,1108),(1,1109),(1,1110),(1,1111),(2,1112),(2,1113),(2,1114)]

/-! What one step of a call can do, once and for all. -/

inductive Move (limiter : OutboundRateLimiter) (s : State) (call : Nat) : State → Prop where
  | lockBurst (here : s.calls call = .start) (free : s.burstHolder = none) :
      Move limiter s call ({s with burstHolder := some call}.goto call .burstLocked)
  | sleepBurst (here : s.calls call = .burstLocked) (early : s.clock < s.nextAllowedAt) :
      Move limiter s call (s.goto call (.burstSleeping s.nextAllowedAt))
  | openBurst (here : s.calls call = .burstLocked) (due : s.nextAllowedAt ≤ s.clock) :
      Move limiter s call (s.goto call .burstAwake)
  | wakeBurst (wake : Nat) (here : s.calls call = .burstSleeping wake) (due : wake ≤ s.clock) :
      Move limiter s call (s.goto call .burstAwake)
  | passBurst (here : s.calls call = .burstAwake) (enabled : 0 < limiter.windowMax) :
      Move limiter s call ({s with nextAllowedAt := s.clock + limiter.burstInterval, burstHolder := none}.goto call
        (.burstPassed s.clock))
  | grantBurst (here : s.calls call = .burstAwake) (disabled : limiter.windowMax = 0) :
      Move limiter s call ({s with nextAllowedAt := s.clock + limiter.burstInterval, burstHolder := none}.grant call
        s.clock)
  | lockWindow (gate : Nat) (here : s.calls call = .burstPassed gate) (free : s.windowHolder = none) :
      Move limiter s call ({s with windowHolder := some call}.goto call (.windowLocked gate))
  | findFull (gate oldest : Nat) (here : s.calls call = .windowLocked gate)
      (first : (evict limiter s.clock s.windowTimestamps).head? = some oldest)
      (full : limiter.windowMax ≤ (evict limiter s.clock s.windowTimestamps).length) :
      Move limiter s call ({s with windowTimestamps := evict limiter s.clock s.windowTimestamps}.goto call
        (.windowFull gate oldest))
  | findRoom (gate : Nat) (here : s.calls call = .windowLocked gate)
      (room : (evict limiter s.clock s.windowTimestamps).length < limiter.windowMax ∨
        evict limiter s.clock s.windowTimestamps = []) :
      Move limiter s call ({s with windowTimestamps := evict limiter s.clock s.windowTimestamps}.goto call
        (.windowReady gate))
  | sleepWindow (gate oldest : Nat) (here : s.calls call = .windowFull gate oldest)
      (early : s.clock < oldest + limiter.windowDuration) :
      Move limiter s call ({s with windowHolder := none}.goto call
        (.windowSleeping gate (oldest + limiter.windowDuration)))
  | expired (gate oldest : Nat) (here : s.calls call = .windowFull gate oldest)
      (due : oldest + limiter.windowDuration ≤ s.clock) : Move limiter s call (s.goto call (.windowReady gate))
  | wakeWindow (gate wake : Nat) (here : s.calls call = .windowSleeping gate wake) (due : wake ≤ s.clock) :
      Move limiter s call (s.goto call (.windowWoken gate))
  | relockWindow (gate : Nat) (here : s.calls call = .windowWoken gate) (free : s.windowHolder = none) :
      Move limiter s call ({s with windowHolder := some call}.goto call (.windowRelocked gate))
  | evictAgain (gate : Nat) (here : s.calls call = .windowRelocked gate) :
      Move limiter s call ({s with windowTimestamps := evict limiter s.clock s.windowTimestamps}.goto call
        (.windowReady gate))
  | push (gate : Nat) (here : s.calls call = .windowReady gate) :
      Move limiter s call ({s with windowTimestamps := s.windowTimestamps ++ [s.clock], windowHolder := none}.grant
        call gate)

theorem advanceMove {limiter : OutboundRateLimiter} {s s' : State} {call : Nat}
    (h : advance limiter s call = some s') : Move limiter s call s' := by
  unfold advance at h
  split at h
  · rename_i here
    split at h <;> try contradiction
    rename_i free
    cases Option.some.inj h
    exact .lockBurst here (by simpa using free)
  · rename_i here
    split at h <;> rename_i due <;> cases Option.some.inj h
    · exact .sleepBurst here due
    · exact .openBurst here (by omega)
  · rename_i wake here
    split at h <;> try contradiction
    rename_i due
    cases Option.some.inj h
    exact .wakeBurst wake here due
  · rename_i here
    simp only at h
    split at h <;> rename_i enabled <;> cases Option.some.inj h
    · exact .passBurst here enabled
    · exact .grantBurst here (by omega)
  · rename_i gate here
    split at h <;> try contradiction
    rename_i free
    cases Option.some.inj h
    exact .lockWindow gate here (by simpa using free)
  · rename_i gate here
    simp only at h
    split at h
    · rename_i oldest first
      split at h <;> rename_i full <;> cases Option.some.inj h
      · exact .findFull gate oldest here first full
      · exact .findRoom gate here (Or.inl (by omega))
    · rename_i none_
      cases Option.some.inj h
      exact .findRoom gate here (Or.inr (List.head?_eq_none_iff.mp none_))
  · rename_i gate oldest here
    split at h <;> rename_i due <;> cases Option.some.inj h
    · exact .sleepWindow gate oldest here due
    · exact .expired gate oldest here (by omega)
  · rename_i gate wake here
    split at h <;> try contradiction
    rename_i due
    cases Option.some.inj h
    exact .wakeWindow gate wake here due
  · rename_i gate here
    split at h <;> try contradiction
    rename_i free
    cases Option.some.inj h
    exact .relockWindow gate here (by simpa using free)
  · rename_i gate here
    cases Option.some.inj h
    exact .evictAgain gate here
  · rename_i gate here
    cases Option.some.inj h
    exact .push gate here
  · contradiction

theorem stepMove {limiter : OutboundRateLimiter} {s s' : State} {call now : Nat}
    (h : step limiter s (call,now) = some s') : s.clock ≤ now ∧ Move limiter {s with clock := now} call s' := by
  unfold step at h
  split at h <;> try contradiction
  rename_i later
  exact ⟨later,advanceMove h⟩

end RustMcp.RateLimiter
