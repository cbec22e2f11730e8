import RustMcp.Invalidation
import RustMcp.Runs

/-! Calls of the caching tools next to the refresh worker of one crate. Looking in
the cache, reading the index and filling the cache are steps of their own, and so
are the worker's write, its mark, its signal and its invalidation. A result is told
by the oldest state of the index that it was read from. -/
namespace RustMcp.CacheRuns
open Str (Text)
open Runs QueryCache Invalidation

/-- The number of refreshes of the crate that had written to the index. -/
abbrev Generation := Nat

/-- A handler looks in the cache, may wait for a job, reads the index and fills the cache. `freed`
is the refresh whose signal released it, or 0. -/
inductive Call where
  | idle
  | served (oldest : Generation)
  | missed (request : ToolRequest) (key : Text) (freed : Generation)
  | waiting (request : ToolRequest) (key : Text)
  | reading (request : ToolRequest) (key : Text) (freed oldest : Generation)
  | answered (freed oldest : Generation)
  deriving DecidableEq

inductive Refresh where
  | idle
  | wrote (name : CrateName) (generation : Generation)
  | marked (name : CrateName) (generation : Generation)
  | signalled (name : CrateName) (generation : Generation)

structure State where
  clock : Nat
  generation : Generation
  /-- the last refresh whose invalidation has run -/
  invalidated : Generation
  cache : Cache Generation
  calls : Nat → Call
  workers : Nat → Refresh

inductive Event where
  | tick (now : Nat)
  | lookup (call : Nat) (request : ToolRequest)
  | wait (call : Nat)
  | giveUp (call : Nat)
  | read (call : Nat)
  | put (call : Nat)
  | drop (call : Nat)
  | write (worker : Nat) (name : CrateName)
  | fail (worker : Nat)
  | finish (worker : Nat)
  | signal (worker : Nat) (released : List Nat)
  | invalidate (worker : Nat) (deleted : Bool)

def State.call (s : State) (call : Nat) (pc : Call) : State := {s with calls := Function.update s.calls call pc}
def State.work (s : State) (worker : Nat) (pc : Refresh) : State := {s with workers := Function.update s.workers worker pc}

/-- The completion signal of a refresh, as a waiting handler receives it. -/
def Call.release (generation : Generation) : Call → Call
  | .waiting request key => .missed request key generation
  | pc => pc

section
variable (lower : Lower) (crate : CrateName) (decodeCursor : Text → Except Text DocsCursorToken)

def step (s : State) : Event → Option State
  | .tick now => if s.clock ≤ now then some {s with clock := now} else none
  | .lookup call request =>
      match request.cacheKey decodeCursor with
      | .error _ => none
      | .ok key =>
          match fetchQueryCacheValue s.clock key request.source s.cache with
          | some oldest => some (s.call call (.served oldest))
          | none => some (s.call call (.missed request key 0))
  | .wait call =>
      match s.calls call with
      -- of the caching tools only this one waits for a job
      | .missed (.sourceSearch request) key _ => some (s.call call (.waiting (.sourceSearch request) key))
      | _ => none
  | .giveUp call =>
      match s.calls call with
      | .waiting request key => some (s.call call (.missed request key 0))
      | _ => none
  | .read call =>
      match s.calls call with
      | .missed request key freed => some (s.call call (.reading request key freed s.generation))
      | .reading request key freed oldest => some (s.call call (.reading request key freed oldest))
      | _ => none
  | .put call =>
      match s.calls call with
      | .reading request key freed oldest =>
          some ({s with cache := upsertQueryCacheValue s.clock key request.source oldest 300 s.cache}.call call
            (.answered freed oldest))
      | _ => none
  | .drop call => some (s.call call .idle)
  | .write worker name =>
      match s.workers worker with
      | .idle =>
          if lower.text name.text = lower.text crate.text then
            some ({s with generation := s.generation + 1}.work worker (.wrote name (s.generation + 1)))
          else none
      | _ => none
  | .fail worker =>
      match s.workers worker with
      | .wrote _ _ => some (s.work worker .idle)
      | _ => none
  | .finish worker =>
      match s.workers worker with
      | .wrote name generation => some (s.work worker (.marked name generation))
      | _ => none
  | .signal worker released =>
      match s.workers worker with
      | .marked name generation =>
          let told := fun call => if call ∈ released then (s.calls call).release generation else s.calls call
          some ({s with calls := told}.work worker (.signalled name generation))
      | _ => none
  | .invalidate worker deleted =>
      match s.workers worker with
      | .signalled name generation =>
          if deleted then
            some ({s with
              cache := deleteQueryCacheForCrate name.text s.cache,
              invalidated := max s.invalidated generation}.work worker .idle)
          else some (s.work worker .idle)
      | _ => none

/-- Nobody is at work, and nothing was refreshed yet. -/
def Start (s : State) : Prop := s.invalidated = 0 ∧ (∀ call, s.calls call = .idle) ∧ ∀ worker, s.workers worker = .idle

def system : System State Event := ⟨Start,step lower crate decodeCursor⟩

/-- The key of a request that names the crate. -/
def KeyNames (key : Text) : Prop := ∃ request : ToolRequest, request.cacheKey decodeCursor = .ok key ∧ Names lower crate request

/-- No entry that can still be served was read before a refresh whose invalidation has run. -/
def Current (s : State) : Prop :=
  ∀ row ∈ s.cache.rows, s.clock < row.expiresAt → KeyNames lower crate decodeCursor row.key → s.invalidated ≤ row.value

/-- Nothing is put that was read before a refresh whose invalidation has run, and the entries that
an invalidation is for spell the crate as its job does. -/
def Guarded (s : State) : Event → Prop
  | .put call =>
      match s.calls call with
      | .reading _ key _ oldest => KeyNames lower crate decodeCursor key → s.invalidated ≤ oldest
      | _ => True
  | .invalidate worker true =>
      match s.workers worker with
      | .signalled name generation =>
          ∀ row ∈ s.cache.rows, s.clock < row.expiresAt → row.value < generation → ∀ request : ToolRequest,
            request.cacheKey decodeCursor = .ok row.key → Names lower crate request → SpelledAsStored name request
      | _ => True
  | _ => True

end

section
variable {lower : Lower} {crate : CrateName} {decodeCursor : Text → Except Text DocsCursorToken} {s s' : State} {event : Event}

inductive Move (lower : Lower) (crate : CrateName) (decodeCursor : Text → Except Text DocsCursorToken) (s : State) :
    Event → State → Prop where
  | tick (now : Nat) (later : s.clock ≤ now) : Move lower crate decodeCursor s (.tick now) {s with clock := now}
  | hit (call : Nat) (request : ToolRequest) (key : Text) (oldest : Generation)
      (keyed : request.cacheKey decodeCursor = .ok key)
      (found : fetchQueryCacheValue s.clock key request.source s.cache = some oldest) :
      Move lower crate decodeCursor s (.lookup call request) (s.call call (.served oldest))
  | miss (call : Nat) (request : ToolRequest) (key : Text) :
      Move lower crate decodeCursor s (.lookup call request) (s.call call (.missed request key 0))
  | wait (call : Nat) (request : ToolRequest) (key : Text) :
      Move lower crate decodeCursor s (.wait call) (s.call call (.waiting request key))
  | giveUp (call : Nat) (request : ToolRequest) (key : Text) :
      Move lower crate decodeCursor s (.giveUp call) (s.call call (.missed request key 0))
  | firstRead (call : Nat) (request : ToolRequest) (key : Text) (freed : Generation)
      (here : s.calls call = .missed request key freed) :
      Move lower crate decodeCursor s (.read call) (s.call call (.reading request key freed s.generation))
  | nextRead (call : Nat) (request : ToolRequest) (key : Text) (freed oldest : Generation)
      (here : s.calls call = .reading request key freed oldest) :
      Move lower crate decodeCursor s (.read call) (s.call call (.reading request key freed oldest))
  | put (call : Nat) (request : ToolRequest) (key : Text) (freed oldest : Generation)
      (here : s.calls call = .reading request key freed oldest) :
      Move lower crate decodeCursor s (.put call)
        ({s with cache := upsertQueryCacheValue s.clock key request.source oldest 300 s.cache}.call call
          (.answered freed oldest))
  | drop (call : Nat) : Move lower crate decodeCursor s (.drop call) (s.call call .idle)
  | write (worker : Nat) (name : CrateName) (same : lower.text name.text = lower.text crate.text) :
      Move lower crate decodeCursor s (.write worker name)
        ({s with generation := s.generation + 1}.work worker (.wrote name (s.generation + 1)))
  | fail (worker : Nat) : Move lower crate decodeCursor s (.fail worker) (s.work worker .idle)
  | finish (worker : Nat) (name : CrateName) (generation : Generation) (here : s.workers worker = .wrote name generation) :
      Move lower crate decodeCursor s (.finish worker) (s.work worker (.marked name generation))
  | signal (worker : Nat) (released : List Nat) (name : CrateName) (generation : Generation)
      (here : s.workers worker = .marked name generation) :
      Move lower crate decodeCursor s (.signal worker released)
        ({s with calls := fun call => if call ∈ released then (s.calls call).release generation else s.calls call}.work
          worker (.signalled name generation))
  | invalidate (worker : Nat) (name : CrateName) (generation : Generation)
      (here : s.workers worker = .signalled name generation) :
      Move lower crate decodeCursor s (.invalidate worker true)
        ({s with
          cache := deleteQueryCacheForCrate name.text s.cache,
          invalidated := max s.invalidated generation}.work worker .idle)
  | kept (worker : Nat) : Move lower crate decodeCursor s (.invalidate worker false) (s.work worker .idle)

theorem stepMove (h : step lower crate decodeCursor s event = some s') : Move lower crate decodeCursor s event s' := by
  cases event with
  | tick now =>
    simp only [step] at h
    split at h <;> try contradiction
    rename_i later
    cases Option.some.inj h
    exact .tick now later
  | lookup call request =>
    simp only [step] at h
    split at h <;> try contradiction
    rename_i key keyed
    split at h <;> rename_i found <;> cases Option.some.inj h
    · exact .hit call request key _ keyed found
    · exact .miss call request key
  | wait call =>
    simp only [step] at h
    split at h <;> try contradiction
    cases Option.some.inj h
    exact .wait call _ _
  | giveUp call =>
    simp only [step] at h
    split at h <;> try contradiction
    cases Option.some.inj h
    exact .giveUp call _ _
  | read call =>
    simp only [step] at h
    split at h <;> try contradiction
    · rename_i here
      cases Option.some.inj h
      exact .firstRead call _ _ _ here
    · rename_i here
      cases Option.some.inj h
      exact .nextRead call _ _ _ _ here
  | put call =>
    simp only [step] at h
    split at h <;> try contradiction
    rename_i here
    cases Option.some.inj h
    exact .put call _ _ _ _ here
  | drop call =>
    cases Option.some.inj h
    exact .drop call
  | write worker name =>
    simp only [step] at h
    split at h <;> try contradiction
    split at h <;> try contradiction
    rename_i same
    cases Option.some.inj h
    exact .write worker name same
  | fail worker =>
    simp only [step] at h
    split at h <;> try contradiction
    cases Option.some.inj h
    exact .fail worker
  | finish worker =>
    simp only [step] at h
    split at h <;> try contradiction
    rename_i here
    cases Option.some.inj h
    exact .finish worker _ _ here
  | signal worker released =>
    simp only [step] at h
    split at h <;> try contradiction
    rename_i here
    cases Option.some.inj h
    exact .signal worker released _ _ here
  | invalidate worker deleted =>
    simp only [step] at h
    split at h <;> try contradiction
    rename_i here
    cases deleted with
    | true => cases Option.some.inj h; exact .invalidate worker _ _ here
    | false => cases Option.some.inj h; exact .kept worker

/-! What handlers and workers know of the index. -/

def Refresh.job : Refresh → Option (CrateName × Generation)
  | .idle => none
  | .wrote name generation | .marked name generation | .signalled name generation => some (name,generation)

/-- What a call was released by is in what it has read since. -/
def Call.Ordered (generation : Generation) : Call → Prop
  | .missed _ _ freed => freed ≤ generation
  | .reading _ _ freed oldest | .answered freed oldest => freed ≤ oldest
  | .idle | .served _ | .waiting _ _ => True

structure Sound (lower : Lower) (crate : CrateName) (s : State) : Prop where
  calls : ∀ call, (s.calls call).Ordered s.generation
  jobs : ∀ worker name generation, (s.workers worker).job = some (name,generation) →
    lower.text name.text = lower.text crate.text ∧ generation ≤ s.generation

theorem Call.Ordered.later {pc : Call} {generation generation' : Generation} (ordered : pc.Ordered generation)
    (later : generation ≤ generation') : pc.Ordered generation' := by
  cases pc with
  | missed _ _ freed => exact le_trans ordered later
  | idle | served | waiting | reading | answered => exact ordered

theorem orderedUpdate {calls : Nat → Call} {call : Nat} {pc : Call} {generation : Generation}
    (ordered : ∀ call, (calls call).Ordered generation) (now : pc.Ordered generation) (k : Nat) :
    (Function.update calls call pc k).Ordered generation := by
  by_cases here : k = call
  · subst here; rw [Function.update_self]; exact now
  · rw [Function.update_of_ne here]; exact ordered k

theorem jobUpdate {workers : Nat → Refresh} {worker w : Nat} {pc : Refresh} {job : CrateName × Generation}
    (has : (Function.update workers worker pc w).job = some job) : pc.job = some job ∨ (workers w).job = some job := by
  by_cases here : w = worker
  · subst here; rw [Function.update_self] at has; exact Or.inl has
  · rw [Function.update_of_ne here] at has; exact Or.inr has

theorem Sound.called (sound : Sound lower crate s) {cache : Cache Generation} {call : Nat} {pc : Call} (ordered : pc.Ordered s.generation) :
    Sound lower crate ({s with cache := cache}.call call pc) :=
  ⟨orderedUpdate sound.calls ordered,sound.jobs⟩

/-- The worker goes on with its job, or is done with it. -/
theorem Sound.worked (sound : Sound lower crate s) {cache : Cache Generation} {invalidated : Generation} {worker : Nat}
    {pc : Refresh} (job : ∀ job, pc.job = some job → (s.workers worker).job = some job) :
    Sound lower crate ({s with cache := cache, invalidated := invalidated}.work worker pc) := by
  refine ⟨sound.calls,fun w name generation has => ?_⟩
  rcases jobUpdate has with now | before
  · exact sound.jobs worker name generation (job _ now)
  · exact sound.jobs w name generation before

theorem Sound.move (sound : Sound lower crate s) (move : Move lower crate decodeCursor s event s') : Sound lower crate s' := by
  cases move with
  | tick => exact ⟨sound.calls,sound.jobs⟩
  | hit | wait | drop => exact sound.called trivial
  | miss | giveUp => exact sound.called (Nat.zero_le _)
  | firstRead call request key freed here =>
    have ordered := sound.calls call
    rw [here] at ordered
    have answers : (Call.reading request key freed s.generation).Ordered s.generation := ordered
    exact sound.called answers
  | nextRead call request key freed oldest here =>
    have ordered := sound.calls call
    rw [here] at ordered
    have answers : (Call.reading request key freed oldest).Ordered s.generation := ordered
    exact sound.called answers
  | put call request key freed oldest here =>
    have ordered := sound.calls call
    rw [here] at ordered
    have answers : (Call.answered freed oldest).Ordered s.generation := ordered
    exact sound.called answers
  | write worker name same =>
    refine ⟨fun call => (sound.calls call).later (Nat.le_succ _),fun w name' generation has => ?_⟩
    rcases jobUpdate has with now | before
    · cases now; exact ⟨same,le_refl _⟩
    · obtain ⟨named,known⟩ := sound.jobs w name' generation before
      exact ⟨named,Nat.le_succ_of_le known⟩
  | fail | kept => exact sound.worked (by simp [Refresh.job])
  | finish worker name generation here => exact sound.worked (by simp [Refresh.job,here])
  | signal worker released name generation here =>
    have known := (sound.jobs worker name generation (by rw [here]; rfl)).2
    have told : Sound lower crate
        {s with calls := fun call => if call ∈ released then (s.calls call).release generation else s.calls call} := by
      refine ⟨fun call => ?_,sound.jobs⟩
      have ordered := sound.calls call
      dsimp only
      split
      · cases pc : s.calls call with
        | waiting => exact known
        | idle | served | missed | reading | answered => rw [pc] at ordered; exact ordered
      · exact ordered
    exact told.worked (by simp [Refresh.job,here])
  | invalidate => exact sound.worked (by simp [Refresh.job])

/-! What can be served. -/

theorem Current.same (current : Current lower crate decodeCursor s) (cache : s'.cache = s.cache)
    (invalidated : s'.invalidated = s.invalidated) (clock : s.clock ≤ s'.clock) : Current lower crate decodeCursor s' := by
  intro row mem live names
  rw [cache] at mem
  rw [invalidated]
  exact current row mem (lt_of_le_of_lt clock live) names

/-- A put keeps the entries current exactly if what it puts is. -/
theorem currentPut (current : Current lower crate decodeCursor s) (call : Nat) (pc : Call) (key source : Text) (oldest : Generation) :
    Current lower crate decodeCursor ({s with cache := upsertQueryCacheValue s.clock key source oldest 300 s.cache}.call call pc) ↔
      (KeyNames lower crate decodeCursor key → s.invalidated ≤ oldest) := by
  constructor
  · intro after names
    exact after ⟨key,oldest,source,s.clock,s.clock + (max (300 : Int) 1).toNat⟩ (Keyed.Table.memUpsert.mpr (Or.inl rfl))
      (Nat.lt_add_of_pos_right (by decide)) names
  · intro fresh row mem live names
    rcases Keyed.Table.memUpsert.mp mem with rfl | ⟨old,_⟩
    · exact fresh names
    · exact current row old live names

/-- An invalidation keeps them current exactly if every older entry of the crate has its spelling. -/
theorem currentInvalidated (current : Current lower crate decodeCursor s) (worker : Nat) (pc : Refresh) {name : CrateName}
    (same : lower.text name.text = lower.text crate.text) (generation : Generation) :
    Current lower crate decodeCursor ({s with
        cache := deleteQueryCacheForCrate name.text s.cache,
        invalidated := max s.invalidated generation}.work worker pc) ↔
      ∀ row ∈ s.cache.rows, s.clock < row.expiresAt → row.value < generation → ∀ request : ToolRequest,
        request.cacheKey decodeCursor = .ok row.key → Names lower crate request → SpelledAsStored name request := by
  have names_ : ∀ request, Names lower crate request ↔ Names lower name request := fun request => by
    simp only [Names,same]
  constructor
  · intro after row mem live older request keyed names
    by_contra other
    have unmatched : Like.like (cratePattern name.text) row.key = false :=
      Bool.eq_false_iff.mpr fun hit => other ((matchedIff lower name keyed ((names_ request).mp names)).mp hit)
    have fenced := after row (Keyed.Table.memDelete.mpr ⟨mem,unmatched⟩) live ⟨request,keyed,names⟩
    exact absurd (le_trans (le_max_right _ _) fenced) (not_le.mpr older)
  · intro spelled row mem live names
    obtain ⟨inside,unmatched⟩ := Keyed.Table.memDelete.mp mem
    refine max_le (current row inside live names) (not_lt.mp fun older => ?_)
    obtain ⟨request,keyed,names⟩ := names
    have hit := (matchedIff lower name keyed ((names_ request).mp names)).mpr (spelled row inside live older request keyed names)
    rw [hit] at unmatched
    contradiction

theorem currentMove (sound : Sound lower crate s) (current : Current lower crate decodeCursor s)
    (move : Move lower crate decodeCursor s event s') :
    Current lower crate decodeCursor s' ↔ Guarded lower crate decodeCursor s event := by
  cases move with
  | tick now later => exact iff_of_true (current.same rfl rfl later) trivial
  | hit | miss | wait | giveUp | firstRead | nextRead | drop | write | fail | finish | signal | kept =>
    exact iff_of_true (current.same rfl rfl (le_refl _)) trivial
  | put call request key freed oldest here =>
    simp only [Guarded,here]
    exact currentPut current call _ key request.source oldest
  | invalidate worker name generation here =>
    have same := (sound.jobs worker name generation (by rw [here]; rfl)).1
    simp only [Guarded,here]
    exact currentInvalidated current worker _ same generation

theorem soundReach {allowed : State → Event → Prop} (run : Reach (system lower crate decodeCursor) allowed s) :
    Sound lower crate s := by
  refine run.invariant (fun s first => ⟨fun call => ?_,fun worker name generation has => ?_⟩)
    fun _ _ _ sound _ h => sound.move (stepMove h)
  · rw [first.2.1]; exact trivial
  · rw [first.2.2] at has; contradiction

theorem currentReach (run : Reach (system lower crate decodeCursor) (Guarded lower crate decodeCursor) s) :
    Current lower crate decodeCursor s :=
  run.invariantOver (fun _ => soundReach) (fun _ first _ _ _ _ => first.1 ▸ Nat.zero_le _)
    fun _ _ _ sound current guarded h => (currentMove sound current (stepMove h)).mpr guarded

/-- In every guarded run: no lookup that names the crate is served what was read before a refresh
whose invalidation has run, and a handler answers with what was read after the refresh that
released it; and a step keeps the entries current exactly if it is guarded. -/
theorem lookupsCurrent (lower : Lower) (crate : CrateName) (decodeCursor : Text → Except Text DocsCursorToken) {s : State}
    (run : Reach (system lower crate decodeCursor) (Guarded lower crate decodeCursor) s) :
    (∀ call request s' oldest, step lower crate decodeCursor s (.lookup call request) = some s' → Names lower crate request →
      s'.calls call = .served oldest → s.invalidated ≤ oldest) ∧
    (∀ call freed oldest, s.calls call = .answered freed oldest → freed ≤ oldest) ∧
    ∀ event s', step lower crate decodeCursor s event = some s' →
      (Current lower crate decodeCursor s' ↔ Guarded lower crate decodeCursor s event) := by
  have sound := soundReach run
  have current := currentReach run
  refine ⟨fun call request s' oldest moves names served => ?_,fun call freed oldest here => ?_,
    fun event s' moves => currentMove sound current (stepMove moves)⟩
  · cases stepMove moves with
    | hit _ _ key _ keyed found =>
      simp only [State.call,Function.update_self,Call.served.injEq] at served
      subst served
      obtain ⟨row,there,rfl⟩ := Option.map_eq_some_iff.mp found
      have hit := List.find?_some there
      simp only [Bool.and_eq_true,decide_eq_true_eq] at hit
      exact current row (List.mem_of_find?_eq_some there) hit.2 ⟨request,hit.1.1 ▸ keyed,names⟩
    | miss => simp [State.call] at served
  · have ordered := sound.calls call
    rw [here] at ordered
    exact ordered

/-- Enough for a step to be guarded, and computed from the state alone. -/
def checked (lower : Lower) (crate : CrateName) (s : State) : Event → Bool
  | .put call =>
      match s.calls call with
      | .reading _ _ _ oldest => s.invalidated ≤ oldest
      | _ => true
  | .invalidate worker _ =>
      match s.workers worker with
      | .signalled name _ =>
          lower.text name.text = lower.text crate.text &&
            s.cache.rows.all fun row => Like.like (cratePattern name.text) row.key
      | _ => true
  | _ => true

theorem checkedGuarded (h : checked lower crate s event = true) : Guarded lower crate decodeCursor s event := by
  cases event with
  | put call =>
    cases here : s.calls call with
    | reading request key freed oldest =>
      simp only [checked,here,decide_eq_true_eq] at h
      simp only [Guarded,here]
      exact fun _ => h
    | idle | served | missed | waiting | answered => simp only [Guarded,here]
  | invalidate worker deleted =>
    cases deleted with
    | false => exact trivial
    | true =>
      cases here : s.workers worker with
      | signalled name generation =>
        simp only [checked,here,Bool.and_eq_true,decide_eq_true_eq,List.all_eq_true] at h
        simp only [Guarded,here]
        intro row mem _ _ request keyed ⟨typed,named,lowered⟩
        exact (matchedIff lower name keyed ⟨typed,named,lowered.trans h.1.symm⟩).mp (h.2 row mem)
      | idle | wrote | marked => simp only [Guarded,here]
  | tick | lookup | wait | giveUp | read | drop | write | fail | finish | signal => exact trivial

end

def idleState : State := ⟨0,0,0,⟨[],List.nodup_nil⟩,fun _ => .idle,fun _ => .idle⟩

theorem idleStart : Start idleState := ⟨rfl,fun _ => rfl,fun _ => rfl⟩

def noCursor (_ : Text) : Except Text DocsCursorToken := .error "cursor is invalid".toList

/-- `symbol_search` for the crate in the given spelling. -/
def search (crateName : Text) : ToolRequest :=
  .symbolSearch ⟨"Serialize".toList,some crateName,none,none,none,none,none,none,none⟩

def refreshed (worker : Nat) : List Event := [.write worker serde,.finish worker,.signal worker [],.invalidate worker true]

/-- A result is cached, the crate is refreshed, and the same search is computed anew and then served. -/
def searchedAgain : List Event :=
  [.lookup 0 (search serde.text),.read 0,.put 0] ++ refreshed 0 ++
    [.lookup 1 (search serde.text),.read 1,.put 1,.lookup 2 (search serde.text)]

theorem lookupsCurrentSearchedAgain :
    ∃ s : State, (s.invalidated,s.generation) = (1,1) ∧ (∀ call freed oldest, s.calls call = .answered freed oldest → freed ≤ oldest) ∧
      ∀ call request s' oldest, step asciiLower serde noCursor s (.lookup call request) = some s' →
        Names asciiLower serde request → s'.calls call = .served oldest → 1 ≤ oldest := by
  have ends : (exec (system asciiLower serde noCursor) (fun s event => checked asciiLower serde s event = true) idleState
      searchedAgain).map (fun s => (s.invalidated,s.generation)) = some (1,1) := by decide +kernel
  obtain ⟨s,ran,stand⟩ := Option.map_eq_some_iff.mp ends
  have path := execPath _ _ searchedAgain ran
  have run : Reach (system asciiLower serde noCursor) (Guarded asciiLower serde noCursor) s :=
    Reach.along (.start idleStart) (path.mono fun _ _ => checkedGuarded)
  have all := lookupsCurrent asciiLower serde noCursor run
  have invalidated : s.invalidated = 1 := congrArg Prod.fst stand
  refine ⟨s,stand,all.2.1,?_⟩
  rw [← invalidated]
  exact all.1

/-- The call read the index before the refresh and puts after its invalidation. -/
def putLate : List Event := [.lookup 0 (search serde.text),.read 0] ++ refreshed 0 ++ [.put 0,.lookup 1 (search serde.text)]

theorem latePutServed :
    ∃ s : State, Reach (system asciiLower serde noCursor) always s ∧ Names asciiLower serde (search serde.text) ∧
      s.invalidated = 1 ∧ s.calls 1 = .served 0 := by
  have run := execReach (system asciiLower serde noCursor) always putLate idleStart (by decide +kernel)
  exact ⟨_,run,⟨serde.text,rfl,by decide +kernel⟩,by decide +kernel,by decide +kernel⟩

end RustMcp.CacheRuns
