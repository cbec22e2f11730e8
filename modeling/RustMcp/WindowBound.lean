import RustMcp.RateLimiter

/-! The window tier: how many permits any interval of the window's length can
hold. A call that was woken pushes its timestamp whatever it finds, so the bound
rests on there being room again when it takes the lock back. -/
namespace RustMcp.WindowBound
open Runs RateLimiter

/-! Ascending times, counted in half-open intervals of one length. -/

def within (width start : Nat) (times : List Nat) : Nat :=
  times.countP (fun ts => decide (start ≤ ts ∧ ts < start + width))

/-- The times that an interval ending right after `now` could still hold. -/
def live (width now : Nat) (times : List Nat) : Nat := times.countP (fun ts => decide (now < ts + width))

theorem withinPush {width limit now : Nat} {times : List Nat} (room : live width now times < limit)
    (bound : ∀ start, within width start times ≤ limit) (start : Nat) :
    within width start (times ++ [now]) ≤ limit := by
  have old := bound start
  unfold within at old ⊢
  rw [List.countP_append,List.countP_singleton]
  split
  · rename_i inside
    simp only [decide_eq_true_eq] at inside
    have fewer : times.countP (fun ts => decide (start ≤ ts ∧ ts < start + width)) ≤ live width now times :=
      List.countP_mono_left fun ts _ h => by
        simp only [decide_eq_true_eq] at h ⊢
        omega
    omega
  · omega

theorem liveLater {width now later : Nat} (h : now ≤ later) (times : List Nat) :
    live width later times ≤ live width now times :=
  List.countP_mono_left fun ts _ h => by
    simp only [decide_eq_true_eq] at h ⊢
    omega

theorem livePast {width now : Nat} {dropped : List Nat} (gone : ∀ ts ∈ dropped, ts + width < now) (times : List Nat) :
    live width now (dropped ++ times) = live width now times := by
  have none_ : dropped.countP (fun ts => decide (now < ts + width)) = 0 :=
    List.countP_eq_zero.mpr fun ts mem => by
      have := gone ts mem
      simp only [decide_eq_true_eq]
      omega
  simp [live,none_]

theorem withinAll {width start : Nat} {times : List Nat} (all : ∀ ts ∈ times, start ≤ ts ∧ ts < start + width) :
    within width start times = times.length :=
  List.countP_eq_length.mpr fun ts mem => by simpa using all ts mem

/-! Eviction from the front of an ascending queue. -/

theorem evictSplit (limiter : OutboundRateLimiter) (now : Nat) (times : List Nat) :
    ∃ gone, times = gone ++ evict limiter now times ∧ ∀ ts ∈ gone, ts < cutoff limiter now :=
  ⟨times.takeWhile (fun ts => ts < cutoff limiter now),(List.takeWhile_append_dropWhile).symm,
    fun ts mem => by simpa using List.mem_takeWhile_imp mem⟩

theorem evictRecent {limiter : OutboundRateLimiter} {now : Nat} {times : List Nat} (sorted : times.Pairwise (· < ·)) :
    ∀ ts ∈ evict limiter now times, cutoff limiter now ≤ ts := by
  induction times with
  | nil => simp [evict]
  | cons first rest ih =>
    obtain ⟨above,tail⟩ := List.pairwise_cons.mp sorted
    by_cases old : first < cutoff limiter now
    · simpa [evict,old] using ih tail
    · intro ts mem
      rw [evict,List.dropWhile_cons_of_neg (by simpa using old)] at mem
      rcases List.mem_cons.mp mem with rfl | later
      · omega
      · have := above ts later
        omega

def log (s : State) : List Nat := (s.granted.map Grant.at_).reverse

/-- What holds of the window tier; `full` and `ready` say what the lock holder has found. -/
structure WindowInv (limiter : OutboundRateLimiter) (s : State) : Prop where
  lock : Guards Pc.holdsWindow s.calls s.windowHolder
  past : ∀ ts ∈ log s, ts ≤ s.clock
  sorted : (log s).Pairwise (· < ·)
  kept : ∃ dropped, log s = dropped ++ s.windowTimestamps ∧ ∀ ts ∈ dropped, ts + limiter.windowDuration < s.clock
  bound : ∀ start, within limiter.windowDuration start (log s) ≤ limiter.windowMax
  full : ∀ call gate oldest, s.calls call = .windowFull gate oldest →
    s.windowTimestamps.head? = some oldest ∧ s.windowTimestamps.length ≤ limiter.windowMax
  ready : ∀ call gate, s.calls call = .windowReady gate →
    live limiter.windowDuration s.clock s.windowTimestamps < limiter.windowMax

/-- The clock strictly increases. -/
def Ticking (s : State) (event : Nat × Nat) : Prop := s.clock < event.2

instance (s : State) (event : Nat × Nat) : Decidable (Ticking s event) := inferInstanceAs (Decidable (_ < _))

/-- A woken call finds room once it has evicted again. -/
def RoomOnWaking (limiter : OutboundRateLimiter) (s : State) (event : Nat × Nat) : Prop :=
  (s.calls event.1).relocked = true → (evict limiter event.2 s.windowTimestamps).length < limiter.windowMax

/-- Where a queue is evicted from, the cutoff is an instant the clock can represent. -/
def CutoffExists (limiter : OutboundRateLimiter) (s : State) (event : Nat × Nat) : Prop :=
  (s.calls event.1).evicts = true → limiter.windowDuration ≤ event.2 ∨ s.windowTimestamps = []

/-- The steps from which the bound follows. -/
def Roomy (limiter : OutboundRateLimiter) (s : State) (event : Nat × Nat) : Prop :=
  Ticking s event ∧ RoomOnWaking limiter s event ∧ CutoffExists limiter s event

instance (limiter : OutboundRateLimiter) (s : State) (event : Nat × Nat) : Decidable (Roomy limiter s event) :=
  inferInstanceAs (Decidable (_ < _ ∧ (_ = true → _ < _) ∧ (_ = true → _ ≤ _ ∨ s.windowTimestamps = [])))

section
variable {limiter : OutboundRateLimiter} {s s' : State} {call now : Nat}

theorem freshInv (first : Fresh s) : WindowInv limiter s := by
  obtain ⟨_,_,stamps,holder,calls,granted⟩ := first
  have empty : log s = [] := by simp [log,granted]
  refine ⟨fun c => by simp [calls,holder,Pc.holdsWindow],by simp [empty],by simp [empty],⟨[],by simp [empty,stamps]⟩,
    by simp [empty,within],?_,?_⟩
  · intro c gate oldest here; simp [calls] at here
  · intro c gate here; simp [calls] at here

theorem WindowInv.tick (inv : WindowInv limiter s) (later : s.clock < now) :
    WindowInv limiter {s with clock := now} ∧ ∀ ts ∈ log s, ts < now := by
  refine ⟨⟨inv.lock,fun ts mem => ?_,inv.sorted,?_,inv.bound,inv.full,fun c gate here => ?_⟩,fun ts mem => ?_⟩
  · exact le_of_lt (lt_of_le_of_lt (inv.past ts mem) later)
  · obtain ⟨dropped,all,gone⟩ := inv.kept
    exact ⟨dropped,all,fun ts mem => lt_trans (gone ts mem) later⟩
  · exact lt_of_le_of_lt (liveLater (le_of_lt later) _) (inv.ready c gate here)
  · exact lt_of_le_of_lt (inv.past ts mem) later

/-- A step that leaves the queue and the permits alone. -/
theorem WindowInv.aside (inv : WindowInv limiter s) {pc : Pc} (clock : s'.clock = s.clock)
    (stamps : s'.windowTimestamps = s.windowTimestamps) (granted : s'.granted = s.granted)
    (calls : s'.calls = Function.update s.calls call pc) (lock : Guards Pc.holdsWindow s'.calls s'.windowHolder)
    (full : ∀ gate oldest, pc ≠ .windowFull gate oldest)
    (ready : ∀ gate, pc = .windowReady gate → live limiter.windowDuration s.clock s.windowTimestamps < limiter.windowMax) :
    WindowInv limiter s' := by
  have same : log s' = log s := by simp [log,granted]
  refine ⟨lock,by rw [same,clock]; exact inv.past,by rw [same]; exact inv.sorted,
    by rw [same,stamps,clock]; exact inv.kept,by rw [same]; exact inv.bound,fun c gate oldest here => ?_,
    fun c gate here => ?_⟩
  · rw [stamps]
    obtain ⟨_,here⟩ | ⟨_,here⟩ := movedAt (calls ▸ here)
    · exact absurd here (full gate oldest)
    · exact inv.full c gate oldest here
  · rw [stamps,clock]
    obtain ⟨_,here⟩ | ⟨_,here⟩ := movedAt (calls ▸ here)
    · exact ready gate here
    · exact inv.ready c gate here

theorem WindowInv.evicted (inv : WindowInv limiter s) (held : (s.calls call).holdsWindow = true) {pc : Pc}
    (holds : pc.holdsWindow = true) (represented : limiter.windowDuration ≤ s.clock ∨ s.windowTimestamps = [])
    (full : ∀ gate oldest, pc = .windowFull gate oldest →
      (evict limiter s.clock s.windowTimestamps).head? = some oldest ∧
      (evict limiter s.clock s.windowTimestamps).length ≤ limiter.windowMax)
    (ready : ∀ gate, pc = .windowReady gate →
      (evict limiter s.clock s.windowTimestamps).length < limiter.windowMax) :
    WindowInv limiter ({s with windowTimestamps := evict limiter s.clock s.windowTimestamps}.goto call pc) := by
  refine ⟨inv.lock.keep (by rw [holds,held]),inv.past,inv.sorted,?_,inv.bound,fun c gate oldest here => ?_,
    fun c gate here => ?_⟩
  · obtain ⟨dropped,all,gone⟩ := inv.kept
    obtain ⟨front,parts,old⟩ := evictSplit limiter s.clock s.windowTimestamps
    refine ⟨dropped ++ front,by rw [List.append_assoc]; exact all.trans (congrArg _ parts),fun ts mem => ?_⟩
    rcases List.mem_append.mp mem with before | evicted
    · exact gone ts before
    · have below := old ts evicted
      rcases represented with inRange | empty
      · simp only [cutoff,if_pos inRange] at below
        change ts + limiter.windowDuration < s.clock
        omega
      · rw [empty] at parts
        simp [(List.append_eq_nil_iff.mp parts.symm).1] at evicted
  · exact full gate oldest (inv.lock.inside held rfl here)
  · exact lt_of_le_of_lt List.countP_le_length (ready gate (inv.lock.inside held rfl here))

/-- What is left after eviction lies within one window's length before now. -/
theorem WindowInv.evictedLength (inv : WindowInv limiter s) (strict : ∀ ts ∈ log s, ts < s.clock)
    (inRange : limiter.windowDuration ≤ s.clock) :
    (evict limiter s.clock s.windowTimestamps).length ≤ limiter.windowMax := by
  obtain ⟨dropped,all,_⟩ := inv.kept
  obtain ⟨front,parts,_⟩ := evictSplit limiter s.clock s.windowTimestamps
  have whole : log s = (dropped ++ front) ++ evict limiter s.clock s.windowTimestamps := by
    rw [List.append_assoc]; exact all.trans (congrArg _ parts)
  have sorted : s.windowTimestamps.Pairwise (· < ·) := (List.pairwise_append.mp (all ▸ inv.sorted)).2.1
  have recent : ∀ ts ∈ evict limiter s.clock s.windowTimestamps,
      cutoff limiter s.clock ≤ ts ∧ ts < cutoff limiter s.clock + limiter.windowDuration := fun ts mem => by
    have low := evictRecent sorted ts mem
    have high := strict ts (by rw [whole]; exact List.mem_append_right _ mem)
    simp only [cutoff,if_pos inRange] at low ⊢
    omega
  have counted := inv.bound (cutoff limiter s.clock)
  rw [whole,within,List.countP_append] at counted
  have last : within limiter.windowDuration (cutoff limiter s.clock) (evict limiter s.clock s.windowTimestamps) = _ :=
    withinAll recent
  unfold within at last
  omega

/-- The permit given with room under the limit keeps every interval within it. -/
theorem WindowInv.pushed (inv : WindowInv limiter s) (strict : ∀ ts ∈ log s, ts < s.clock) {gate : Nat}
    (here : s.calls call = .windowReady gate) :
    WindowInv limiter ({s with windowTimestamps := s.windowTimestamps ++ [s.clock], windowHolder := none}.grant
      call gate) := by
  obtain ⟨dropped,all,gone⟩ := inv.kept
  have longer : log ({s with windowTimestamps := s.windowTimestamps ++ [s.clock], windowHolder := none}.grant call gate) =
      log s ++ [s.clock] := by simp [log,State.grant,State.goto]
  have held : (s.calls call).holdsWindow = true := by rw [here]; rfl
  have room : live limiter.windowDuration s.clock (log s) < limiter.windowMax := by
    rw [all,livePast gone]
    exact inv.ready call gate here
  refine ⟨inv.lock.drop held rfl,?_,?_,?_,?_,fun c g oldest at_ => ?_,fun c g at_ => ?_⟩
  · rw [longer]
    intro ts mem
    rcases List.mem_append.mp mem with old | new
    · exact inv.past ts old
    · exact le_of_eq (List.mem_singleton.mp new)
  · rw [longer,List.pairwise_append]
    refine ⟨inv.sorted,List.pairwise_singleton _ _,fun ts mem new same => ?_⟩
    rw [List.mem_singleton.mp same]
    exact strict ts mem
  · rw [longer]
    exact ⟨dropped,by rw [all,List.append_assoc]; rfl,gone⟩
  · rw [longer]
    exact withinPush room inv.bound
  · cases inv.lock.inside held rfl at_
  · cases inv.lock.inside held rfl at_

theorem WindowInv.move (enabled : 0 < limiter.windowMax) (inv : WindowInv limiter s)
    (strict : ∀ ts ∈ log s, ts < s.clock)
    (room : (s.calls call).relocked = true → (evict limiter s.clock s.windowTimestamps).length < limiter.windowMax)
    (exists_ : (s.calls call).evicts = true → limiter.windowDuration ≤ s.clock ∨ s.windowTimestamps = [])
    (move : Move limiter s call s') : WindowInv limiter s' := by
  cases move with
  | lockBurst here _ | sleepBurst here _ | openBurst here _ | wakeBurst _ here _ | passBurst here _ | wakeWindow _ _ here _ =>
    exact inv.aside rfl rfl rfl rfl (inv.lock.keep (by rw [here]; rfl)) nofun nofun
  | grantBurst _ disabled => omega
  | lockWindow _ here free | relockWindow _ here free =>
    exact inv.aside rfl rfl rfl rfl (Guards.take (free ▸ inv.lock) rfl) nofun nofun
  | findFull gate oldest here first _ =>
    refine inv.evicted (by rw [here]; rfl) rfl (exists_ (by rw [here]; rfl)) ?_ nofun
    rintro _ _ ⟨⟩
    refine ⟨first,?_⟩
    rcases exists_ (by rw [here]; rfl) with inRange | empty
    · exact inv.evictedLength strict inRange
    · simp [evict,empty] at first
  | findRoom gate here fits =>
    refine inv.evicted (by rw [here]; rfl) rfl (exists_ (by rw [here]; rfl)) nofun ?_
    rintro _ ⟨⟩
    rcases fits with fewer | empty
    · exact fewer
    · simpa [empty] using enabled
  | sleepWindow _ _ here _ =>
    exact inv.aside rfl rfl rfl rfl (inv.lock.drop (by rw [here]; rfl) rfl) nofun nofun
  | expired gate oldest here due =>
    refine inv.aside rfl rfl rfl rfl (inv.lock.keep (by rw [here]; rfl)) nofun ?_
    -- The oldest entry stays in the queue, but no interval to come reaches back to it.
    rintro _ ⟨⟩
    obtain ⟨first,fits⟩ := inv.full call gate oldest here
    obtain ⟨rest,queue⟩ : ∃ rest, s.windowTimestamps = oldest::rest := by
      cases stamps : s.windowTimestamps with
      | nil => simp [stamps] at first
      | cons x xs => exact ⟨xs,by simpa [stamps] using first⟩
    have spent : live limiter.windowDuration s.clock (oldest::rest) ≤ rest.length := by
      rw [live,List.countP_cons_of_neg (by simpa using due)]
      exact List.countP_le_length
    rw [queue] at fits ⊢
    exact lt_of_le_of_lt spent fits
  | evictAgain gate here =>
    refine inv.evicted (by rw [here]; rfl) rfl (exists_ (by rw [here]; rfl)) nofun ?_
    rintro _ ⟨⟩
    exact room (by rw [here]; rfl)
  | push gate here => exact inv.pushed strict here

theorem WindowInv.step (enabled : 0 < limiter.windowMax) (inv : WindowInv limiter s) {event : Nat × Nat}
    (roomy : Roomy limiter s event) (h : RateLimiter.step limiter s event = some s') : WindowInv limiter s' := by
  obtain ⟨later,room,exists_⟩ := roomy
  obtain ⟨ticked,strict⟩ := inv.tick later
  exact ticked.move enabled strict room exists_ (stepMove h).2

/-- Permits given in `[start,start + windowDuration)`. -/
def permitsWithin (limiter : OutboundRateLimiter) (s : State) (start : Nat) : Nat :=
  s.granted.countP fun g => decide (start ≤ g.at_ ∧ g.at_ < start + limiter.windowDuration)

theorem permitsLog (s : State) (start : Nat) :
    permitsWithin limiter s start = within limiter.windowDuration start (log s) := by
  simp [permitsWithin,within,log,List.countP_map,Function.comp_def]

/-- No interval of the window's length holds more permits than the window allows. -/
theorem permitsBounded (limiter : OutboundRateLimiter) (enabled : 0 < limiter.windowMax) {s : State}
    (run : Reach (system limiter) (Roomy limiter) s) (start : Nat) :
    permitsWithin limiter s start ≤ limiter.windowMax := by
  have inv : WindowInv limiter s :=
    run.invariant (fun _ first => freshInv first) fun _ _ _ inv roomy h => inv.step enabled roomy h
  rw [permitsLog]
  exact inv.bound start

end

theorem permitsBoundedOneCall :
    permitsWithin ⟨4,1,100⟩ ((exec (system ⟨4,1,100⟩) (Roomy ⟨4,1,100⟩) (fresh 1000) (wakeTogether.take 18)).get
      (by decide)) 1006 ≤ 1 :=
  permitsBounded ⟨4,1,100⟩ (by decide) (execReach _ _ _ (freshFresh 1000) (by decide)) 1006

/-- Two calls asleep behind one entry both push when it expires. -/
theorem wokenCallsOverfill :
    ¬ ∀ s, Reach (system ⟨4,1,100⟩) Ticking s → ∀ start, permitsWithin ⟨4,1,100⟩ s start ≤ 1 := by
  intro bound
  have run := execReach (system ⟨4,1,100⟩) Ticking wakeTogether (freshFresh 1000) (by decide)
  exact absurd (bound _ run 1111) (by decide)

end RustMcp.WindowBound
