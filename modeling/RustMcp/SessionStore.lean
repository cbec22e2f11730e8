import RustMcp.Keyed
import RustMcp.Runs
import RustMcp.Str

/-! Sessions of legacy clients: those that live in memory, their rows in the database, and the
reaper that deletes the rows of sessions idle for too long. -/
namespace RustMcp.SessionStore
open Str (Text)
open Runs

structure SessionRow (J : Type) where
  sessionId : Text
  state : J
  lastSeenAt : Int

abbrev Sessions (J : Type) := Keyed.Table fun row : SessionRow J => row.sessionId

/-- How `serde_json` writes a session's state and reads it back. -/
structure StateJson (V J : Type) where
  toValue : V → Except Text J
  fromValue : J → Except Text V
  readsBack : ∀ v j, toValue v = .ok j → fromValue j = .ok v

section
variable {J : Type}

/-! `db/sessions.rs`; `now` is the statement's `NOW()`. -/

def upsertSession (now : Int) (sessionId : Text) (state : J) (table : Sessions J) : Sessions J := table.upsert ⟨sessionId,state,now⟩

def SessionRow.seen (now : Int) (row : SessionRow J) : SessionRow J := {row with lastSeenAt := now}

def touchRow (now : Int) (sessionIds : List Text) (row : SessionRow J) : SessionRow J :=
  if row.sessionId ∈ sessionIds then row.seen now else row

theorem touchedId (now : Int) (sessionIds : List Text) (row : SessionRow J) :
    (touchRow now sessionIds row).sessionId = row.sessionId := by
  unfold touchRow
  split <;> rfl

def touchSessions (now : Int) (sessionIds : List Text) (table : Sessions J) : Sessions J where
  rows := table.rows.map (touchRow now sessionIds)
  unique := by
    rw [List.map_map]
    exact (List.map_congr_left fun row _ => touchedId now sessionIds row) ▸ table.unique

def loadSession (now : Int) (sessionId : Text) (table : Sessions J) : Option J × Sessions J :=
  ((table.lookup sessionId).map (·.state),touchSessions now [sessionId] table)

def deleteSession (sessionId : Text) (table : Sessions J) : Sessions J := table.delete fun row => row.sessionId = sessionId

def stale (now maxAgeSecs : Int) (row : SessionRow J) : Bool := row.lastSeenAt < now - maxAgeSecs

def deleteStaleSessions (now maxAgeSecs : Int) (table : Sessions J) : Sessions J := table.delete (stale now maxAgeSecs)

/-! What each statement leaves of one session's row. -/

variable {table : Sessions J} {sessionId other : Text} {row : SessionRow J}

theorem mapFound (change : SessionRow J → SessionRow J) (kept : ∀ row, (change row).sessionId = row.sessionId)
    (rows : List (SessionRow J)) (k : Text) :
    (rows.map change).find? (fun row => row.sessionId = k) = (rows.find? fun row => row.sessionId = k).map change := by
  rw [List.find?_map]
  exact congrArg (Option.map change) (congrArg (List.find? · rows) (funext fun row => by simp [kept]))

theorem touchedLookup (now : Int) (sessionIds : List Text) (k : Text) :
    (touchSessions now sessionIds table).lookup k = (table.lookup k).map (touchRow now sessionIds) :=
  mapFound _ (touchedId now sessionIds) table.rows k

theorem deletedLookup {drop : SessionRow J → Bool} {k : Text} :
    (table.delete drop).lookup k = (table.lookup k).filter fun row => !drop row := by
  refine Option.ext fun row => ?_
  rw [Keyed.Table.lookupIff,Keyed.Table.memDelete,Option.filter_eq_some_iff,Keyed.Table.lookupIff]
  simp only [Bool.not_eq_true']
  tauto

theorem deletedOther (differ : other ≠ sessionId) : (deleteSession other table).lookup sessionId = table.lookup sessionId := by
  rw [deleteSession,deletedLookup]
  cases found : table.lookup sessionId with
  | none => rfl
  | some row =>
    have own := (Keyed.Table.lookupIff.mp found).2
    simp [Option.filter,own,Ne.symm differ]

theorem storedLookup (now : Int) (state : J) (k : Text) :
    (upsertSession now sessionId state table).lookup k = if sessionId = k then some ⟨sessionId,state,now⟩ else table.lookup k :=
  Keyed.Table.lookupUpsert table _ k

end

/-! The running program. -/

/-- The reaper task: asleep since a time, or in a `prune_stale` that took its list of live
sessions at a time, before or after that list is touched. -/
inductive Reaper where
  | asleep (since : Int)
  | touching (live : List Text) (began : Int)
  | deleting (began : Int)

structure State (J : Type) where
  clock : Int
  rows : Sessions J
  live : List Text
  reaper : Reaper

/-- What happens to the manager's map of live sessions (`enter`, `leave`) is `rmcp`'s, and so is
when the store is called; a statement of the reaper may fail. -/
inductive Event (V : Type) where
  | tick (now : Int)
  | enter (sessionId : Text)
  | leave (sessionId : Text)
  | store (sessionId : Text) (state : V)
  | load (sessionId : Text)
  | delete (sessionId : Text)
  | wake
  | touch (persisted : Bool)
  | prune (persisted : Bool)
  | restart

/-- `session_idle_timeout_secs`, cast to `i64` where it is used as an age. -/
def maxIdleSecs (timeoutSecs : Nat) : Int := (BitVec.ofNat 64 timeoutSecs).toInt

def pollInterval (timeoutSecs : Nat) : Int := max (timeoutSecs / 2 : Nat) 60

section
variable {V J : Type} (json : StateJson V J) (timeoutSecs : Nat)

def step (s : State J) : Event V → Option (State J)
  | .tick now => if s.clock ≤ now then some {s with clock := now} else none
  | .enter sessionId => some {s with live := s.live.insert sessionId}
  | .leave sessionId => some {s with live := s.live.filter (· ≠ sessionId)}
  | .store sessionId state =>
      match json.toValue state with
      | .ok value => some {s with rows := upsertSession s.clock sessionId value s.rows}
      | .error _ => some s
  | .load sessionId => some {s with rows := (loadSession s.clock sessionId s.rows).2}
  | .delete sessionId => some {s with rows := deleteSession sessionId s.rows}
  | .wake =>
      match s.reaper with
      | .asleep since =>
          if timeoutSecs ≠ 0 ∧ since + pollInterval timeoutSecs ≤ s.clock then
            -- with nobody live there is nothing to touch
            some {s with reaper := if s.live.isEmpty then .deleting s.clock else .touching s.live s.clock}
          else none
      | _ => none
  | .touch persisted =>
      match s.reaper with
      | .touching live began =>
          if persisted then some {s with rows := touchSessions s.clock live s.rows, reaper := .deleting began}
          else some {s with reaper := .asleep s.clock}
      | _ => none
  | .prune persisted =>
      match s.reaper with
      | .deleting _ =>
          let rows := if persisted then deleteStaleSessions s.clock (maxIdleSecs timeoutSecs) s.rows else s.rows
          some {s with rows := rows, reaper := .asleep s.clock}
      | _ => none
  -- the rows are all that stays
  | .restart => some {s with live := [], reaper := .asleep s.clock}

/-- `PgSessionStore::load` -/
def load (s : State J) (sessionId : Text) : Except Text (Option V) :=
  match (loadSession s.clock sessionId s.rows).1 with
  | none => .ok none
  | some value => (json.fromValue value).map some

def Start (s : State J) : Prop := s.live = [] ∧ s.reaper = .asleep s.clock

def system : System (State J) (Event V) := ⟨Start,step json timeoutSecs⟩

/-! What a step can do. -/

inductive Move (s : State J) : Event V → State J → Prop where
  | tick (now : Int) (later : s.clock ≤ now) : Move s (.tick now) {s with clock := now}
  | enter (id : Text) : Move s (.enter id) {s with live := s.live.insert id}
  | leave (id : Text) : Move s (.leave id) {s with live := s.live.filter (· ≠ id)}
  | store (id : Text) (state : V) (value : J) (written : json.toValue state = .ok value) :
      Move s (.store id state) {s with rows := upsertSession s.clock id value s.rows}
  | unwritten (id : Text) (state : V) : Move s (.store id state) s
  | load (id : Text) : Move s (.load id) {s with rows := touchSessions s.clock [id] s.rows}
  | delete (id : Text) : Move s (.delete id) {s with rows := deleteSession id s.rows}
  | wake (since : Int) (asleep : s.reaper = .asleep since) (some_ : s.live ≠ []) :
      Move s .wake {s with reaper := .touching s.live s.clock}
  | wakeAlone (since : Int) (asleep : s.reaper = .asleep since) (none_ : s.live = []) :
      Move s .wake {s with reaper := .deleting s.clock}
  | touch (live : List Text) (began : Int) (here : s.reaper = .touching live began) :
      Move s (.touch true) {s with rows := touchSessions s.clock live s.rows, reaper := .deleting began}
  | prune (began : Int) (here : s.reaper = .deleting began) :
      Move s (.prune true)
        {s with rows := deleteStaleSessions s.clock (maxIdleSecs timeoutSecs) s.rows, reaper := .asleep s.clock}
  | failed (event : Event V) (statement : event = .touch false ∨ event = .prune false) :
      Move s event {s with reaper := .asleep s.clock}
  | restart : Move s .restart {s with live := [], reaper := .asleep s.clock}

variable {json timeoutSecs} {s s' t u w : State J} {event : Event V} {events later : List (Event V)} {sessionId : Text} {row : SessionRow J}

theorem stepMove (h : step json timeoutSecs s event = some s') : Move json timeoutSecs s event s' := by
  cases event with
  | tick now =>
    simp only [step] at h
    split at h <;> try contradiction
    rename_i later
    cases Option.some.inj h
    exact .tick now later
  | enter id => cases Option.some.inj h; exact .enter id
  | leave id => cases Option.some.inj h; exact .leave id
  | store id state =>
    simp only [step] at h
    split at h <;> cases Option.some.inj h
    · exact .store id state _ (by assumption)
    · exact .unwritten id state
  | load id => cases Option.some.inj h; exact .load id
  | delete id => cases Option.some.inj h; exact .delete id
  | wake =>
    simp only [step] at h
    split at h <;> try contradiction
    rename_i since asleep
    split at h <;> try contradiction
    cases Option.some.inj h
    cases nobody : s.live.isEmpty with
    | true => exact .wakeAlone since asleep (List.isEmpty_iff.mp nobody)
    | false => exact .wake since asleep fun none_ => by simp [none_] at nobody
  | touch persisted =>
    simp only [step] at h
    split at h <;> try contradiction
    rename_i live began here
    cases persisted with
    | true => cases Option.some.inj h; exact .touch live began here
    | false => cases Option.some.inj h; exact .failed _ (Or.inl rfl)
  | prune persisted =>
    simp only [step] at h
    split at h <;> try contradiction
    rename_i began here
    cases persisted with
    | true => cases Option.some.inj h; exact .prune began here
    | false => cases Option.some.inj h; exact .failed _ (Or.inr rfl)
  | restart => cases Option.some.inj h; exact .restart

/-- A prune under way began by now. -/
def Reaper.BeganBy (now : Int) : Reaper → Prop
  | .asleep _ => True
  | .touching _ began => began ≤ now
  | .deleting began => began ≤ now

theorem beganLater {reaper : Reaper} {now after : Int} (began : reaper.BeganBy now) (later : now ≤ after) : reaper.BeganBy after := by
  cases reaper with
  | asleep since => trivial
  | touching live since => exact le_trans began later
  | deleting since => exact le_trans began later

theorem beganMove (began : s.reaper.BeganBy s.clock) (move : Move json timeoutSecs s event s') : s'.reaper.BeganBy s'.clock := by
  cases move with
  | tick now later => exact beganLater began later
  | wake | wakeAlone => exact le_refl s.clock
  | touch live since here => rw [here] at began; exact began
  | prune | failed | restart => trivial
  | _ => exact began

theorem beganReach {allowed : State J → Event V → Prop} (run : Reach (system json timeoutSecs) allowed s) :
    s.reaper.BeganBy s.clock :=
  run.invariant (I := fun s => s.reaper.BeganBy s.clock) (fun _ first => by rw [first.2]; trivial)
    fun _ _ _ began _ moves => beganMove began (stepMove moves)

/-! A session that is in memory whenever the reaper looks. -/

/-- Nobody stores or deletes the session, a prune that starts finds it in memory, and a prune
ends within the idle timeout of its start. -/
def Attended (timeoutSecs : Nat) (sessionId : Text) (s : State J) : Event V → Prop
  | .store id _ => id ≠ sessionId
  | .delete id => id ≠ sessionId
  | .wake => sessionId ∈ s.live
  | .prune _ =>
      match s.reaper with
      | .deleting began => s.clock ≤ began + maxIdleSecs timeoutSecs
      | _ => True
  | _ => True

instance (timeoutSecs : Nat) (sessionId : Text) (s : State J) (event : Event V) :
    Decidable (Attended timeoutSecs sessionId s event) := by
  cases event <;> simp only [Attended] <;> (try split) <;> infer_instance

/-- What a prune under way has to have seen of the session. -/
def Reaper.spares (sessionId : Text) (seen : Int) : Reaper → Prop
  | .asleep _ => True
  | .touching live began => sessionId ∈ live ∨ began ≤ seen
  | .deleting began => began ≤ seen

structure Kept (sessionId : Text) (value : J) (s : State J) : Prop where
  began : s.reaper.BeganBy s.clock
  row : ∃ row, s.rows.lookup sessionId = some row ∧ row.state = value ∧ s.reaper.spares sessionId row.lastSeenAt

theorem sparesNow {reaper : Reaper} {now : Int} (began : reaper.BeganBy now) : reaper.spares sessionId now := by
  cases reaper with
  | asleep since => trivial
  | touching live since => exact Or.inr began
  | deleting since => exact began

theorem touchedKept (ids : List Text) {value : J} (kept : Kept sessionId value s) :
    ∃ row, (touchSessions s.clock ids s.rows).lookup sessionId = some row ∧ row.state = value ∧
      s.reaper.spares sessionId row.lastSeenAt ∧ (sessionId ∈ ids → row.lastSeenAt = s.clock) := by
  obtain ⟨row,found,same,spares⟩ := kept.row
  have own := (Keyed.Table.lookupIff.mp found).2
  refine ⟨touchRow s.clock ids row,by rw [touchedLookup,found]; rfl,?_,?_,?_⟩ <;> unfold touchRow <;> split
  · exact same
  · exact same
  · exact sparesNow kept.began
  · exact spares
  · exact fun _ => rfl
  · rename_i outside
    exact fun inside => absurd (own ▸ inside) outside

theorem keptMove {value : J} (kept : Kept sessionId value s) (attended : Attended timeoutSecs sessionId s event)
    (move : Move json timeoutSecs s event s') : Kept sessionId value s' := by
  refine ⟨beganMove kept.began move,?_⟩
  obtain ⟨row,found,same,spares⟩ := kept.row
  cases move with
  | store id state written => exact ⟨row,by rw [storedLookup,if_neg attended]; exact found,same,spares⟩
  | load id =>
    obtain ⟨row,found,same,spares,_⟩ := touchedKept [id] kept
    exact ⟨row,found,same,spares⟩
  | delete id => exact ⟨row,by rw [deletedOther attended]; exact found,same,spares⟩
  | wake => exact ⟨row,found,same,Or.inl attended⟩
  | wakeAlone since asleep none_ => exact absurd attended (by simp [Attended,none_])
  | touch live began here =>
    obtain ⟨row,found,same,spares,touched⟩ := touchedKept live kept
    refine ⟨row,found,same,?_⟩
    rw [here] at spares
    rcases spares with inside | before
    · have since := kept.began
      rw [here] at since
      rw [touched inside]; exact since
    · exact before
  | prune began here =>
    refine ⟨row,?_,same,trivial⟩
    rw [here] at spares
    have fresh : stale s.clock (maxIdleSecs timeoutSecs) row = false := by
      have within := attended
      simp only [Attended,here] at within
      simp only [stale,decide_eq_false_iff_not,not_lt]
      have seen : began ≤ row.lastSeenAt := spares
      omega
    rw [deleteStaleSessions,deletedLookup,found]
    simp [Option.filter,fresh]
  | failed | restart => exact ⟨row,found,same,trivial⟩
  | _ => exact ⟨row,found,same,spares⟩

theorem keptLoads {state : V} {value : J} (written : json.toValue state = .ok value) (kept : Kept sessionId value s) :
    load json s sessionId = .ok (some state) := by
  obtain ⟨row,found,same,_⟩ := kept.row
  simp only [load,loadSession,found,Option.map_some,same,json.readsBack state value written]
  rfl

theorem storedKept {state : V} {value : J} (began : s.reaper.BeganBy s.clock) (written : json.toValue state = .ok value)
    (stores : step json timeoutSecs s (.store sessionId state) = some s') : Kept sessionId value s' := by
  simp only [step,written] at stores
  cases Option.some.inj stores
  exact ⟨began,_,by rw [storedLookup,if_pos rfl],rfl,sparesNow began⟩

/-- A session that is in memory whenever a prune starts can be restored at any time, with the
state that was stored last, whatever becomes of the others and however often the program restarts. -/
theorem attendedRestored {state : V} {value : J} (run : Reach (system json timeoutSecs) always s)
    (written : json.toValue state = .ok value) (stores : step json timeoutSecs s (.store sessionId state) = some s')
    (path : Path (system json timeoutSecs) (Attended timeoutSecs sessionId) s' events t) :
    load json t sessionId = .ok (some state) :=
  keptLoads written <| path.keeps (I := Kept sessionId value)
    (fun _ _ _ kept attended moves => keptMove kept attended (stepMove moves)) (storedKept (beganReach run) written stores)

/-! A session that stays out of memory. -/

/-- Nobody has to do with the session. -/
def Away (sessionId : Text) (_ : State J) : Event V → Prop
  | .enter id | .store id _ | .load id | .delete id => id ≠ sessionId
  | _ => True

instance (sessionId : Text) (s : State J) (event : Event V) : Decidable (Away sessionId s event) := by
  cases event <;> simp only [Away] <;> infer_instance

def Reaper.passes (sessionId : Text) : Reaper → Prop
  | .touching live _ => sessionId ∉ live
  | _ => True

/-- The row is as it was, or it was stale when the reaper deleted it. -/
structure Left (timeoutSecs : Nat) (sessionId : Text) (row : SessionRow J) (s : State J) : Prop where
  out : sessionId ∉ s.live
  passes : s.reaper.passes sessionId
  row : s.rows.lookup sessionId = some row ∨
    (s.rows.lookup sessionId = none ∧ row.lastSeenAt + maxIdleSecs timeoutSecs < s.clock)

theorem untouchedOther {ids : List Text} (now : Int) (outside : sessionId ∉ ids) (table : Sessions J) :
    (touchSessions now ids table).lookup sessionId = table.lookup sessionId := by
  rw [touchedLookup]
  cases found : table.lookup sessionId with
  | none => rfl
  | some row =>
    have own := (Keyed.Table.lookupIff.mp found).2
    exact congrArg some (if_neg (own ▸ outside))

theorem leftMove (left : Left timeoutSecs sessionId row s) (away : Away sessionId s event)
    (move : Move json timeoutSecs s event s') : Left timeoutSecs sessionId row s' := by
  have same : ∀ {rows : Sessions J}, rows.lookup sessionId = s.rows.lookup sessionId →
      rows.lookup sessionId = some row ∨ (rows.lookup sessionId = none ∧ row.lastSeenAt + maxIdleSecs timeoutSecs < s.clock) :=
    fun unchanged => unchanged ▸ left.row
  cases move with
  | tick now later => exact ⟨left.out,left.passes,left.row.imp_right fun gone => ⟨gone.1,lt_of_lt_of_le gone.2 later⟩⟩
  | enter id => exact ⟨by rw [List.mem_insert_iff]; exact not_or.mpr ⟨Ne.symm away,left.out⟩,left.passes,left.row⟩
  | leave id => exact ⟨fun inside => left.out (List.mem_of_mem_filter inside),left.passes,left.row⟩
  | store id state value written => exact ⟨left.out,left.passes,same (by rw [storedLookup,if_neg away])⟩
  | load id => exact ⟨left.out,left.passes,same (untouchedOther _ (by simpa using Ne.symm away) _)⟩
  | delete id => exact ⟨left.out,left.passes,same (deletedOther away)⟩
  | wake => exact ⟨left.out,left.out,left.row⟩
  | touch live began here =>
    have outside := left.passes
    rw [here] at outside
    exact ⟨left.out,trivial,same (untouchedOther _ outside _)⟩
  | prune began here =>
    refine ⟨left.out,trivial,?_⟩
    rw [deleteStaleSessions,deletedLookup]
    rcases left.row with found | ⟨found,late⟩ <;> rw [found]
    · cases old : stale s.clock (maxIdleSecs timeoutSecs) row with
      | false => exact Or.inl (by simp [Option.filter,old])
      | true =>
        simp only [stale,decide_eq_true_eq] at old
        exact Or.inr ⟨by simp [Option.filter,stale,old],by dsimp only; omega⟩
    · exact Or.inr ⟨rfl,late⟩
  | restart => exact ⟨List.not_mem_nil,trivial,left.row⟩
  | wakeAlone | failed => exact ⟨left.out,trivial,left.row⟩
  | unwritten => exact left

theorem leftPath (left : Left timeoutSecs sessionId row s) (path : Path (system json timeoutSecs) (Away sessionId) s events t) :
    Left timeoutSecs sessionId row t :=
  path.keeps (I := Left timeoutSecs sessionId row) (fun _ _ _ left away moves => leftMove left away (stepMove moves)) left

theorem prunedGone (left : Left timeoutSecs sessionId row t) (late : row.lastSeenAt + maxIdleSecs timeoutSecs < t.clock)
    (prunes : step json timeoutSecs t (.prune true) = some u) : u.rows.lookup sessionId = none := by
  cases stepMove prunes with
  | failed event statement => simp at statement
  | prune began here =>
    rw [deleteStaleSessions,deletedLookup]
    rcases left.row with found | ⟨found,_⟩ <;> rw [found]
    · have old : row.lastSeenAt < t.clock - maxIdleSecs timeoutSecs := by omega
      simp [Option.filter,stale,old]
    · rfl

theorem goneStays (gone : s.rows.lookup sessionId = none) (away : Away sessionId s event)
    (move : Move json timeoutSecs s event s') : s'.rows.lookup sessionId = none := by
  cases move with
  | store id state value written => rw [storedLookup,if_neg away]; exact gone
  | load | touch => rw [touchedLookup,gone]; rfl
  | delete => rw [deletedOther away]; exact gone
  | prune => rw [deleteStaleSessions,deletedLookup,gone]; rfl
  | _ => exact gone

end

theorem plainReads (v j : Nat) (same : (.ok v : Except Text Nat) = .ok j) : (.ok j : Except Text Nat) = .ok v := same.symm

def plainJson : StateJson Nat Nat := ⟨.ok,.ok,plainReads⟩

def clientId : Text := "client".toList

def started : State Nat := ⟨0,⟨[],List.nodup_nil⟩,[],.asleep 0⟩

/-- With an idle timeout of 600 seconds: a prune, a restart after which the client comes back, and another prune. -/
def kept : List (Event Nat) :=
  [.enter clientId,.tick 300,.wake,.touch true,.tick 310,.prune true,.tick 700,.restart,.tick 900,.load clientId,.enter clientId,
    .tick 1000,.wake,.touch true,.prune true]

def storedOnce : State Nat := {started with rows := upsertSession 0 clientId 7 started.rows}

def keptRun : Option (State Nat) := exec (system plainJson 600) (Attended 600 clientId) storedOnce kept

theorem keptRuns : keptRun.isSome = true := by decide

theorem attendedRestoredOnce : load plainJson (keptRun.get keptRuns) clientId = .ok (some 7) :=
  attendedRestored (Reach.start ⟨rfl,rfl⟩ : Reach (system plainJson 600) always started) rfl rfl
    (execPath _ _ kept (Option.some_get keptRuns).symm)

def idleRow : SessionRow Nat := ⟨clientId,7,0⟩

/-- The session's row, with the session closed. -/
def alone : State Nat := {started with rows := ⟨[idleRow],List.nodup_singleton _⟩}

def idleRun : Option (State Nat) := exec (system plainJson 600) (Away clientId) alone [.tick 300,.wake,.prune true,.tick 700,.wake]

theorem idleRuns : idleRun.isSome = true := by decide

def prunedRun : Option (State Nat) := idleRun.bind fun t => step plainJson 600 t (.prune true)

theorem prunedRuns : prunedRun.isSome = true := by decide

end RustMcp.SessionStore
