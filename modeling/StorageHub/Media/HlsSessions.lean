import StorageHub.Library.Store
import StorageHub.Library.Text
import StorageHub.Library.Transition

/-! The two registries of video sessions, one by session id and one by key:
requests, expiry sweeps and jobs take their steps on them in any order. -/
namespace StorageHub.Media
open Library Transition

/-! ### Records and calls -/

inductive WorkerState
  | pending
  | ready
  | failed (message : Text)
  deriving DecidableEq

/-- A record is told by its session id, which is never given twice. Its job runs
once it has been spawned. -/
structure SessionRecord where
  key : Text
  expiresAt : Int
  state : WorkerState
  spawned : Bool
  deriving DecidableEq

structure Snapshot where
  sessionId : Nat
  state : WorkerState
  deriving DecidableEq

structure SessionConfig where
  maxConcurrentTasks : Nat
  cleanupTtlSecs : Int

def SessionConfig.busy (cfg : SessionConfig) : Text :=
  "System busy: media transcoding slots are full (".toList ++ (toString cfg.maxConcurrentTasks).toList ++ [')']

/-- Where a removal goes on. -/
inductive After
  | sweepFrom (rest : List Nat) (key : Option Text)
  | count (key : Text)
  deriving DecidableEq

/-- The next operation of a call on the registries. A sweep belongs to a request
for a key, or stands alone. -/
inductive Stage
  | sweep (key : Option Text)
  | sweepFrom (rest : List Nat) (key : Option Text)
  | expired (id : Nat) (rest : List Nat) (key : Option Text)
  | lookUp (key : Text)
  | touch (key : Text) (id : Nat)
  | read (key : Text) (id : Nat)
  | manifest (key : Text) (id : Nat)
  | removeId (id : Nat) (after : After)
  | removeKey (id : Nat) (after : After)
  | count (key : Text)
  | countFrom (rest : List Nat) (found : Nat) (key : Text)
  | insertId (key : Text)
  | insertKey (key : Text) (id : Nat)
  deriving DecidableEq

def After.stage : After → Stage
  | .sweepFrom rest key => .sweepFrom rest key
  | .count key => .count key

/-- `unregistered` tells, for every removal by key that found a session, the
session to be removed and the one that was found. -/
structure Registries where
  records : Store Nat SessionRecord
  byId : Finset Nat
  byKey : Store Text Nat
  calls : Store Nat Stage
  now : Int
  answers : List (Nat × Except Text Snapshot)
  unregistered : List (Nat × Nat)

inductive SessionAction
  /-- `ensure_web_video_hls_session` for a key, or a sweep alone. -/
  | enter (call : Nat) (key : Option Text)
  /-- The records of the registry by id, in any order. -/
  | collect (call : Nat) (ids : List Nat)
  | manifest (call : Nat) (present : Bool)
  | create (call id : Nat)
  | proceed (call : Nat)
  /-- The end of a job. -/
  | complete (id : Nat) (error : Option Text)
  | tick

namespace Registries

def start : Registries := ⟨∅,∅,∅,∅,0,[],[]⟩

variable (s : Registries)

def moveTo (call : Nat) (stage : Stage) : Registries := { s with calls := s.calls.insert call stage }

def close (call : Nat) : Registries := { s with calls := s.calls.erase call }

def answer (call : Nat) (result : Except Text Snapshot) : Registries :=
  { s with calls := s.calls.erase call, answers := s.answers ++ [(call,result)] }

def setRecord (id : Nat) (r : SessionRecord) : Registries := { s with records := s.records.insert id r }

/-- `remove_video_session_record`, the part on the registry by key. -/
def unregister (id : Nat) (key : Text) : Registries :=
  { s with
    byKey := s.byKey.erase key
    unregistered := s.unregistered ++ (s.byKey.lookup key).toList.map fun other => (id,other) }

def register (id : Nat) (r : SessionRecord) : Registries :=
  { s with
    records := s.records.insert id { r with spawned := true }
    byKey := s.byKey.insert r.key id }

def pendingJobs : Int := s.records.total fun _ r => if r.state = .pending then 1 else 0

end Registries

section
variable (cfg : SessionConfig) (s : Registries)
open Registries

def proceed (call : Nat) : Stage → Option Registries
  | .sweepFrom [] none => some (s.close call)
  | .sweepFrom [] (some key) => some (s.moveTo call (.lookUp key))
  | .sweepFrom (id::rest) key => (s.records.lookup id).map fun r =>
      s.moveTo call (if r.expiresAt ≤ s.now then .expired id rest key else .sweepFrom rest key)
  | .expired id rest key => (s.records.lookup id).map fun r =>
      s.moveTo call (if r.state = .pending then .sweepFrom rest key else .removeId id (.sweepFrom rest key))
  | .lookUp key => some (s.moveTo call ((s.byKey.lookup key).elim (.count key) (.touch key)))
  | .touch key id => (s.records.lookup id).map fun r =>
      (s.setRecord id { r with expiresAt := s.now + cfg.cleanupTtlSecs }).moveTo call (.read key id)
  | .read key id => (s.records.lookup id).map fun r =>
      match r.state with
      | .pending => s.answer call (.ok ⟨id,.pending⟩)
      | .ready => s.moveTo call (.manifest key id)
      | .failed _ => s.moveTo call (.removeId id (.count key))
  | .removeId id after => some ({ s with byId := s.byId.erase id }.moveTo call (.removeKey id after))
  | .removeKey id after => (s.records.lookup id).map fun r => (s.unregister id r.key).moveTo call after.stage
  | .countFrom (id::rest) found key => (s.records.lookup id).map fun r =>
      s.moveTo call (.countFrom rest (if r.state = .pending then found + 1 else found) key)
  | .countFrom [] found key =>
    some (if cfg.maxConcurrentTasks ≤ found then s.answer call (.error cfg.busy) else s.moveTo call (.insertId key))
  | .insertKey _ id => (s.records.lookup id).map fun r => (s.register id r).answer call (.ok ⟨id,.pending⟩)
  | .sweep _ | .count _ | .manifest _ _ | .insertId _ => none

def sessionStep : SessionAction → Option Registries
  | .enter call key => if (s.calls.lookup call).isNone then some (s.moveTo call (.sweep key)) else none
  | .collect call ids =>
    if ids.Nodup ∧ ids.toFinset = s.byId then
      match s.calls.lookup call with
      | some (.sweep key) => some (s.moveTo call (.sweepFrom ids key))
      | some (.count key) => some (s.moveTo call (.countFrom ids 0 key))
      | _ => none
    else none
  | .manifest call present =>
    match s.calls.lookup call with
    | some (.manifest key id) =>
      some (if present then s.answer call (.ok ⟨id,.ready⟩) else s.moveTo call (.removeId id (.count key)))
    | _ => none
  | .create call id =>
    match s.calls.lookup call with
    | some (.insertId key) =>
      if (s.records.lookup id).isNone then
        some ({ s.setRecord id ⟨key,s.now + cfg.cleanupTtlSecs,.pending,false⟩ with byId := insert id s.byId }.moveTo
          call (.insertKey key id))
      else none
    | _ => none
  | .proceed call => (s.calls.lookup call).bind (proceed cfg s call)
  | .complete id error => (s.records.lookup id).bind fun r =>
      if r.state = .pending ∧ r.spawned = true then
        some (s.setRecord id (error.elim { r with expiresAt := s.now + cfg.cleanupTtlSecs, state := .ready }
          fun message => { r with state := .failed message }))
      else none
  | .tick => some { s with now := s.now + 1 }

end

def hlsSessions (cfg : SessionConfig) : System Registries SessionAction := ⟨sessionStep cfg⟩

/-! ### Agreement -/

/-- With no call in progress what is registered by key is registered by id;
removals found their own session only; a key has one pending session, and no more
jobs are pending than there are slots. -/
structure Registries.Agree (cfg : SessionConfig) (s : Registries) : Prop where
  registered : s.calls = ∅ → ∀ key id, s.byKey.lookup key = some id → id ∈ s.byId
  own : ∀ pair ∈ s.unregistered, pair.2 = pair.1
  single : ∀ id id' r r', s.records.lookup id = some r → s.records.lookup id' = some r' →
    r.state = .pending → r'.state = .pending → r.key = r'.key → id = id'
  bounded : s.pendingJobs ≤ cfg.maxConcurrentTasks

/-- What a call has found is still so when it acts on it: nothing is pending under
the key of a new session and a slot is free, and the key of a removed one is
registered to it or to none. -/
def Timely (cfg : SessionConfig) (s : Registries) : SessionAction → Prop
  | .create call _ => ∀ key, s.calls.lookup call = some (.insertId key) →
      (∀ id r, s.records.lookup id = some r → r.state = .pending → r.key ≠ key) ∧
        s.pendingJobs < cfg.maxConcurrentTasks
  | .proceed call => ∀ id after r, s.calls.lookup call = some (.removeKey id after) → s.records.lookup id = some r →
      ∀ other, s.byKey.lookup r.key = some other → other = id
  | .enter _ _ | .collect _ _ | .manifest _ _ | .complete _ _ | .tick => True

/-! ### What holds whatever the order -/

namespace Stage

/-- The session that is being removed or may be next. -/
def leaves : Stage → Option Nat
  | .manifest _ id | .removeId id _ => some id
  | _ => none

/-- The stages that concern the two registries stay apart from the others. -/
def plain : Stage → Bool
  | .manifest _ _ | .removeId _ _ | .removeKey _ _ | .insertKey _ _ => false
  | _ => true

theorem plain_leaves {stage : Stage} (plain : stage.plain = true) : stage.leaves = none := by
  cases stage with
  | manifest | removeId => cases plain
  | _ => rfl

end Stage

theorem After.stage_plain (after : After) : after.stage.plain = true := by
  cases after with
  | sweepFrom rest key => rfl
  | count key => rfl

namespace Registries

/-- A record whose job is over. -/
def Done (s : Registries) (id : Nat) : Prop := ∃ r, s.records.lookup id = some r ∧ r.state ≠ .pending

/-- A key is registered to a record that has it and that is registered by id,
unless a call is between the two removals; what is being removed is not pending,
and what is being registered is, with no job yet. -/
structure Sound (s : Registries) : Prop where
  known : ∀ key id, s.byKey.lookup key = some id → ∃ r, s.records.lookup id = some r ∧ r.key = key
  there : ∀ key id, s.byKey.lookup key = some id →
    id ∈ s.byId ∨ ∃ call after, s.calls.lookup call = some (.removeKey id after)
  leaving : ∀ call stage id, s.calls.lookup call = some stage → stage.leaves = some id → s.Done id
  coming : ∀ call key id, s.calls.lookup call = some (.insertKey key id) →
    id ∈ s.byId ∧ ∃ r, s.records.lookup id = some r ∧ r.key = key ∧ r.state = .pending ∧ r.spawned = false
  alone : ∀ call call' key key' id, s.calls.lookup call = some (.insertKey key id) →
    s.calls.lookup call' = some (.insertKey key' id) → call = call'

variable {s : Registries} {call : Nat} {stage : Stage}

theorem start_sound : start.Sound where
  known key id found := by cases found
  there key id found := by cases found
  leaving call stage id found := by cases found
  coming call key id found := by cases found
  alone call call' key key' id found := by cases found

/-- A call may go anywhere but to a registration, when no key is left to the
session it has half removed and the one it goes on to remove is done. -/
theorem Sound.calls (sound : s.Sound) (call : Nat) {calls : Store Nat Stage}
    (others : ∀ c, c ≠ call → calls.lookup c = s.calls.lookup c)
    (left : ∀ id after, s.calls.lookup call = some (.removeKey id after) → ∀ key, s.byKey.lookup key ≠ some id)
    (entered : ∀ stage, calls.lookup call = some stage →
      (∀ key id, stage ≠ .insertKey key id) ∧ ∀ id, stage.leaves = some id → s.Done id) : Sound { s with calls } := by
  have back {c id : Nat} {key : Text} (found : calls.lookup c = some (.insertKey key id)) :
      s.calls.lookup c = some (.insertKey key id) := by
    by_cases here : c = call
    · rw [here] at found
      exact absurd rfl ((entered _ found).1 key id)
    · rw [← others c here]
      exact found
  refine ⟨sound.known,?_,?_,?_,?_⟩
  · intro key id registered
    rcases sound.there key id registered with there | ⟨c,after,removing⟩
    · exact .inl there
    · refine .inr ⟨c,after,?_⟩
      have other : c ≠ call := by
        intro same
        rw [same] at removing
        exact left id after removing key registered
      rw [others c other]
      exact removing
  · intro c stage id found leaves
    by_cases here : c = call
    · rw [here] at found
      exact (entered stage found).2 id leaves
    · rw [others c here] at found
      exact sound.leaving c stage id found leaves
  · exact fun c key id found => sound.coming c key id (back found)
  · exact fun c c' key key' id found found' => sound.alone c c' key key' id (back found) (back found')

/-- From a stage that is not between the removals to one that registers nothing. -/
theorem Sound.turn (sound : s.Sound) (held : s.calls.lookup call = some stage)
    (left : ∀ id after, stage ≠ .removeKey id after) {next : Stage} (entered : ∀ key id, next ≠ .insertKey key id)
    (leaves : ∀ id, next.leaves = some id → s.Done id) : (s.moveTo call next).Sound := by
  apply sound.calls call
  · intro c other
    rw [Store.lookup_insert_eq,if_neg other]
  · intro id after removing
    rw [held] at removing
    exact absurd (Option.some.inj removing) (left id after)
  · intro stage' found
    rw [Store.lookup_insert_eq,if_pos rfl] at found
    cases found
    exact ⟨entered,leaves⟩

theorem Sound.moveTo (sound : s.Sound) (held : s.calls.lookup call = some stage) (left : stage.plain = true)
    {next : Stage} (plain : next.plain = true) : (s.moveTo call next).Sound := by
  apply sound.turn held
  · intro id after same
    rw [same] at left
    cases left
  · intro key id same
    rw [same] at plain
    cases plain
  · intro id leaves
    rw [Stage.plain_leaves plain] at leaves
    cases leaves

theorem Sound.answer (sound : s.Sound) (held : s.calls.lookup call = some stage)
    (left : ∀ id after, stage ≠ .removeKey id after) (answers : List (Nat × Except Text Snapshot)) :
    Sound { s with calls := s.calls.erase call, answers } := by
  have closed : Sound { s with calls := s.calls.erase call } := by
    apply sound.calls call
    · intro c other
      rw [Store.lookup_erase_eq,if_neg other]
    · intro id after removing
      rw [held] at removing
      exact absurd (Option.some.inj removing) (left id after)
    · intro stage' found
      rw [Store.lookup_erase_eq,if_pos rfl] at found
      cases found
  exact ⟨closed.known,closed.there,closed.leaving,closed.coming,closed.alone⟩

/-- A record may be touched, and its job may end. -/
theorem Sound.setRecord (sound : s.Sound) {id : Nat} {r r' : SessionRecord} (found : s.records.lookup id = some r)
    (key : r'.key = r.key) (left : r.state ≠ .pending → r'.state ≠ .pending)
    (waiting : r.state = .pending → r.spawned = false → r'.state = .pending ∧ r'.spawned = false) :
    (s.setRecord id r').Sound := by
  have here : (s.records.insert id r').lookup id = some r' := by rw [Store.lookup_insert_eq,if_pos rfl]
  have elsewhere {i : Nat} (other : i ≠ id) : (s.records.insert id r').lookup i = s.records.lookup i := by
    rw [Store.lookup_insert_eq,if_neg other]
  refine ⟨?_,sound.there,?_,?_,sound.alone⟩
  · intro k i registered
    obtain ⟨old,known,same⟩ := sound.known k i registered
    by_cases at_ : i = id
    · subst at_
      rw [found] at known
      cases known
      exact ⟨r',here,key.trans same⟩
    · exact ⟨old,(elsewhere at_).trans known,same⟩
  · intro c stage i held leaves
    obtain ⟨old,known,done⟩ := sound.leaving c stage i held leaves
    by_cases at_ : i = id
    · subst at_
      rw [found] at known
      cases known
      exact ⟨r',here,left done⟩
    · exact ⟨old,(elsewhere at_).trans known,done⟩
  · intro c k i inserting
    obtain ⟨there,old,known,same,pending,idle⟩ := sound.coming c k i inserting
    by_cases at_ : i = id
    · subst at_
      rw [found] at known
      cases known
      obtain ⟨pending',idle'⟩ := waiting pending idle
      exact ⟨there,r',here,key.trans same,pending',idle'⟩
    · exact ⟨there,old,(elsewhere at_).trans known,same,pending,idle⟩

/-- A call turns to a record whose job is over, to remove it perhaps. -/
theorem Sound.leave (sound : s.Sound) (held : s.calls.lookup call = some stage)
    (left : ∀ id after, stage ≠ .removeKey id after) {id : Nat} (done : s.Done id) {next : Stage}
    (leaves : next.leaves = some id) : (s.moveTo call next).Sound := by
  apply sound.turn held left
  · intro key id' same
    rw [same] at leaves
    cases leaves
  · intro id' leaves'
    rw [leaves] at leaves'
    cases leaves'
    exact done

theorem Sound.removeId (sound : s.Sound) {id : Nat} {after : After}
    (held : s.calls.lookup call = some (.removeId id after)) :
    ({ s with byId := s.byId.erase id }.moveTo call (.removeKey id after)).Sound := by
  obtain ⟨r,found,done⟩ := sound.leaving call _ id held rfl
  have turned : (s.moveTo call (.removeKey id after)).Sound := by
    apply sound.turn held
    · exact fun i after' same => by cases same
    · exact fun key i same => by cases same
    · exact fun i leaves => by cases leaves
  refine ⟨turned.known,?_,turned.leaving,?_,turned.alone⟩
  · intro key i registered
    by_cases at_ : i = id
    · refine .inr ⟨call,after,?_⟩
      rw [Registries.moveTo,Store.lookup_insert_eq,if_pos rfl,at_]
    · rcases turned.there key i registered with there | removing
      · exact .inl (Finset.mem_erase.mpr ⟨at_,there⟩)
      · exact .inr removing
  · intro c key i inserting
    obtain ⟨there,r',known,same,pending,idle⟩ := turned.coming c key i inserting
    refine ⟨Finset.mem_erase.mpr ⟨?_,there⟩,r',known,same,pending,idle⟩
    intro at_
    have known : s.records.lookup i = some r' := known
    rw [at_,found] at known
    cases known
    exact done pending

theorem Sound.removeKey (sound : s.Sound) {id : Nat} {after : After} {r : SessionRecord}
    (held : s.calls.lookup call = some (.removeKey id after)) (found : s.records.lookup id = some r) :
    ((s.unregister id r.key).moveTo call after.stage).Sound := by
  have kept {key : Text} {i : Nat} (registered : (s.byKey.erase r.key).lookup key = some i) :
      key ≠ r.key ∧ s.byKey.lookup key = some i := by
    rw [Store.lookup_erase_eq] at registered
    split at registered
    next => cases registered
    next other => exact ⟨other,registered⟩
  have unregistered : (s.unregister id r.key).Sound :=
    ⟨fun key i registered => sound.known key i (kept registered).2,
      fun key i registered => sound.there key i (kept registered).2,sound.leaving,sound.coming,sound.alone⟩
  apply unregistered.calls call
  · intro c other
    rw [Store.lookup_insert_eq,if_neg other]
  · intro i after' removing key registered
    have removing : s.calls.lookup call = some (.removeKey i after') := removing
    rw [held] at removing
    cases removing
    obtain ⟨other,registered⟩ := kept registered
    obtain ⟨r',known,same⟩ := sound.known key id registered
    rw [found] at known
    cases known
    exact other same.symm
  · intro stage entered
    rw [Store.lookup_insert_eq,if_pos rfl] at entered
    cases entered
    have plain := after.stage_plain
    refine ⟨?_,?_⟩
    · intro key i same
      rw [same] at plain
      cases plain
    · intro i leaves
      rw [Stage.plain_leaves plain] at leaves
      cases leaves

theorem Sound.create (sound : s.Sound) {key : Text} {id : Nat} (held : s.calls.lookup call = some (.insertId key))
    (fresh : s.records.lookup id = none) (expiresAt : Int) :
    ({ s.setRecord id ⟨key,expiresAt,.pending,false⟩ with byId := insert id s.byId }.moveTo call (.insertKey key id)).Sound := by
  have elsewhere {i : Nat} {r : SessionRecord} (known : s.records.lookup i = some r) :
      (s.records.insert id ⟨key,expiresAt,.pending,false⟩).lookup i = some r := by
    have other : i ≠ id := by
      intro same
      rw [same,fresh] at known
      cases known
    rw [Store.lookup_insert_eq,if_neg other]
    exact known
  have back {c : Nat} {stage : Stage} (other : c ≠ call)
      (moved : (s.calls.insert call (.insertKey key id)).lookup c = some stage) : s.calls.lookup c = some stage := by
    rw [Store.lookup_insert_eq,if_neg other] at moved
    exact moved
  refine ⟨?_,?_,?_,?_,?_⟩
  · intro k i registered
    obtain ⟨r,known,same⟩ := sound.known k i registered
    exact ⟨r,elsewhere known,same⟩
  · intro k i registered
    rcases sound.there k i registered with there | ⟨c,after,removing⟩
    · exact .inl (Finset.mem_insert_of_mem there)
    · refine .inr ⟨c,after,?_⟩
      have other : c ≠ call := by
        intro same
        rw [same,held] at removing
        cases removing
      rw [Registries.moveTo,Store.lookup_insert_eq,if_neg other]
      exact removing
  · intro c stage i moved leaves
    have other : c ≠ call := by
      intro same
      rw [Registries.moveTo,Store.lookup_insert_eq,if_pos same] at moved
      cases moved
      cases leaves
    obtain ⟨r,known,done⟩ := sound.leaving c stage i (back other moved) leaves
    exact ⟨r,elsewhere known,done⟩
  · intro c k i moved
    by_cases here : c = call
    · rw [Registries.moveTo,Store.lookup_insert_eq,if_pos here] at moved
      cases moved
      refine ⟨Finset.mem_insert_self _ _,⟨key,expiresAt,.pending,false⟩,?_,rfl,rfl,rfl⟩
      change (s.records.insert id _).lookup id = _
      rw [Store.lookup_insert_eq,if_pos rfl]
    · obtain ⟨there,r,known,rest⟩ := sound.coming c k i (back here moved)
      exact ⟨Finset.mem_insert_of_mem there,r,elsewhere known,rest⟩
  · have alien {c : Nat} {k : Text} (other : c ≠ call)
        (moved : (s.calls.insert call (.insertKey key id)).lookup c = some (.insertKey k id)) : False := by
      obtain ⟨-,r,known,-⟩ := sound.coming c k id (back other moved)
      rw [fresh] at known
      cases known
    intro c c' k k' i moved moved'
    by_cases here : c = call
    · by_cases here' : c' = call
      · rw [here,here']
      · rw [Registries.moveTo,Store.lookup_insert_eq,if_pos here] at moved
        cases moved
        exact (alien here' moved').elim
    · by_cases here' : c' = call
      · rw [Registries.moveTo,Store.lookup_insert_eq,if_pos here'] at moved'
        cases moved'
        exact (alien here moved).elim
      · exact sound.alone c c' k k' i (back here moved) (back here' moved')

theorem Sound.register (sound : s.Sound) {key : Text} {id : Nat} {r : SessionRecord}
    (held : s.calls.lookup call = some (.insertKey key id)) (found : s.records.lookup id = some r)
    (result : Except Text Snapshot) : ((s.register id r).answer call result).Sound := by
  obtain ⟨there,-⟩ := sound.coming call key id held
  have back {c : Nat} {stage : Stage} (moved : (s.calls.erase call).lookup c = some stage) :
      c ≠ call ∧ s.calls.lookup c = some stage := by
    rw [Store.lookup_erase_eq] at moved
    split at moved
    next => cases moved
    next other => exact ⟨other,moved⟩
  have here : (s.records.insert id { r with spawned := true }).lookup id = some { r with spawned := true } := by
    rw [Store.lookup_insert_eq,if_pos rfl]
  have elsewhere {i : Nat} (other : i ≠ id) :
      (s.records.insert id { r with spawned := true }).lookup i = s.records.lookup i := by
    rw [Store.lookup_insert_eq,if_neg other]
  refine ⟨?_,?_,?_,?_,?_⟩
  · intro k i registered
    have registered : (s.byKey.insert r.key id).lookup k = some i := registered
    rw [Store.lookup_insert_eq] at registered
    split at registered
    next same =>
      cases registered
      exact ⟨_,here,same.symm⟩
    next =>
      obtain ⟨old,known,same⟩ := sound.known k i registered
      by_cases at_ : i = id
      · subst at_
        rw [found] at known
        cases known
        exact ⟨_,here,same⟩
      · exact ⟨old,(elsewhere at_).trans known,same⟩
  · intro k i registered
    have registered : (s.byKey.insert r.key id).lookup k = some i := registered
    rw [Store.lookup_insert_eq] at registered
    split at registered
    next =>
      cases registered
      exact .inl there
    next =>
      rcases sound.there k i registered with there | ⟨c,after,removing⟩
      · exact .inl there
      · refine .inr ⟨c,after,?_⟩
        have other : c ≠ call := by
          intro same
          rw [same,held] at removing
          cases removing
        change (s.calls.erase call).lookup c = _
        rw [Store.lookup_erase_eq,if_neg other]
        exact removing
  · intro c stage i moved leaves
    obtain ⟨old,known,done⟩ := sound.leaving c stage i (back moved).2 leaves
    by_cases at_ : i = id
    · subst at_
      rw [found] at known
      cases known
      exact ⟨_,here,done⟩
    · exact ⟨old,(elsewhere at_).trans known,done⟩
  · intro c k i moved
    obtain ⟨other,moved⟩ := back moved
    obtain ⟨inside,old,known,rest⟩ := sound.coming c k i moved
    have at_ : i ≠ id := by
      intro same
      rw [same] at moved
      exact other (sound.alone c call k key id moved held)
    exact ⟨inside,old,(elsewhere at_).trans known,rest⟩
  · exact fun c c' k k' i moved moved' => sound.alone c c' k k' i (back moved).2 (back moved').2

/-- With no call in progress no removal is half done. -/
theorem Sound.registered (sound : s.Sound) (idle : s.calls = ∅) (key : Text) (id : Nat)
    (found : s.byKey.lookup key = some id) : id ∈ s.byId := by
  rcases sound.there key id found with there | ⟨call,after,removing⟩
  · exact there
  · rw [idle] at removing
    cases removing

/-! ### What a step does to the agreement -/

variable {cfg : SessionConfig}

/-- The parts of the agreement that a step may break. -/
structure Orderly (cfg : SessionConfig) (s : Registries) : Prop where
  own : ∀ pair ∈ s.unregistered, pair.2 = pair.1
  single : ∀ id id' r r', s.records.lookup id = some r → s.records.lookup id' = some r' →
    r.state = .pending → r'.state = .pending → r.key = r'.key → id = id'
  bounded : s.pendingJobs ≤ cfg.maxConcurrentTasks

theorem Sound.agree_iff (sound : s.Sound) : s.Agree cfg ↔ s.Orderly cfg :=
  ⟨fun agree => ⟨agree.own,agree.single,agree.bounded⟩,
    fun orderly => ⟨sound.registered,orderly.own,orderly.single,orderly.bounded⟩⟩

/-- Calls, the registry by id and the clock have no part in the order. -/
theorem Orderly.of_same {t : Registries} (orderly : s.Orderly cfg) (records : t.records = s.records)
    (unregistered : t.unregistered = s.unregistered) : t.Orderly cfg := by
  refine ⟨?_,?_,?_⟩
  · rw [unregistered]
    exact orderly.own
  · rw [records]
    exact orderly.single
  · rw [pendingJobs,records]
    exact orderly.bounded

/-- A change of one record that keeps its key and starts no job. -/
theorem Orderly.setRecord {id : Nat} {r r' : SessionRecord} (orderly : s.Orderly cfg)
    (found : s.records.lookup id = some r) (key : r'.key = r.key) (waits : r'.state = .pending → r.state = .pending) :
    (s.setRecord id r').Orderly cfg := by
  have before {i : Nat} {x : SessionRecord} (known : (s.records.insert id r').lookup i = some x)
      (pending : x.state = .pending) : ∃ y, s.records.lookup i = some y ∧ y.state = .pending ∧ y.key = x.key := by
    rw [Store.lookup_insert_eq] at known
    split at known
    next same =>
      cases known
      exact ⟨r,by rw [same]; exact found,waits pending,key.symm⟩
    next => exact ⟨x,known,pending,rfl⟩
  refine ⟨orderly.own,?_,?_⟩
  · intro i j x y known known' pending pending' same
    obtain ⟨x',old,waiting,same'⟩ := before known pending
    obtain ⟨y',old',waiting',same''⟩ := before known' pending'
    exact orderly.single i j x' y' old old' waiting waiting' (by rw [same',same'',same])
  · have bounded := orderly.bounded
    rw [pendingJobs] at bounded
    rw [pendingJobs,Registries.setRecord,Store.total_insert_found _ r' found]
    by_cases pending : r'.state = .pending
    · rw [if_pos pending,if_pos (waits pending)]
      omega
    · rw [if_neg pending]
      split
      next => omega
      next => omega

/-- A removal finds its own session exactly when the key is registered to that or
to none. -/
theorem orderly_unregister (id : Nat) (key : Text) : (s.unregister id key).Orderly cfg ↔
    s.Orderly cfg ∧ ∀ other, s.byKey.lookup key = some other → other = id := by
  constructor
  · intro orderly
    refine ⟨⟨fun pair member => orderly.own pair (List.mem_append_left _ member),orderly.single,orderly.bounded⟩,?_⟩
    intro other registered
    apply orderly.own (id,other)
    rw [Registries.unregister,registered]
    exact List.mem_append_right _ (List.mem_singleton_self _)
  · intro both
    obtain ⟨orderly,own⟩ := both
    refine ⟨?_,orderly.single,orderly.bounded⟩
    intro pair member
    rcases List.mem_append.mp member with before | now
    · exact orderly.own pair before
    · obtain ⟨other,found,rfl⟩ := List.mem_map.mp now
      exact own other (Option.mem_toList.mp found)

/-- A new session is in order exactly when nothing is pending under its key and a
slot is free. -/
theorem orderly_create (cfg : SessionConfig) (key : Text) {id : Nat} (fresh : s.records.lookup id = none) (expiresAt : Int) :
    (s.setRecord id ⟨key,expiresAt,.pending,false⟩).Orderly cfg ↔ s.Orderly cfg ∧
      (∀ i r, s.records.lookup i = some r → r.state = .pending → r.key ≠ key) ∧
        s.pendingJobs < cfg.maxConcurrentTasks := by
  have here : (s.records.insert id ⟨key,expiresAt,.pending,false⟩).lookup id =
      some ⟨key,expiresAt,.pending,false⟩ := by rw [Store.lookup_insert_eq,if_pos rfl]
  have elsewhere {i : Nat} {r : SessionRecord} (known : s.records.lookup i = some r) :
      i ≠ id ∧ (s.records.insert id ⟨key,expiresAt,.pending,false⟩).lookup i = some r := by
    have other : i ≠ id := by
      intro same
      rw [same,fresh] at known
      cases known
    rw [Store.lookup_insert_eq,if_neg other]
    exact ⟨other,known⟩
  have jobs : (s.setRecord id ⟨key,expiresAt,.pending,false⟩).pendingJobs = s.pendingJobs + 1 := by
    rw [pendingJobs,Registries.setRecord,Store.total_insert,Store.share_none _ fresh,pendingJobs]
    simp
  constructor
  · intro orderly
    have bounded := orderly.bounded
    rw [jobs] at bounded
    refine ⟨⟨orderly.own,?_,by omega⟩,?_,by omega⟩
    · intro i j x y known known' pending pending' same
      exact orderly.single i j x y (elsewhere known).2 (elsewhere known').2 pending pending' same
    · intro i r known pending same
      obtain ⟨other,kept⟩ := elsewhere known
      exact other (orderly.single i id r _ kept here pending rfl same)
  · intro all
    obtain ⟨orderly,vacant,room⟩ := all
    refine ⟨orderly.own,?_,by rw [jobs]; omega⟩
    intro i j x y known known' pending pending' same
    have known : (s.records.insert id ⟨key,expiresAt,.pending,false⟩).lookup i = some x := known
    have known' : (s.records.insert id ⟨key,expiresAt,.pending,false⟩).lookup j = some y := known'
    rw [Store.lookup_insert_eq] at known known'
    split at known
    next at_ =>
      split at known'
      next at' => exact at_.trans at'.symm
      next =>
        cases known
        exact absurd same.symm (vacant j y known' pending')
    next =>
      split at known'
      next =>
        cases known'
        exact absurd same (vacant i x known pending)
      next => exact orderly.single i j x y known known' pending pending' same

end Registries

/-! ### The whole run -/

section
variable {cfg : SessionConfig} {s next : Registries} {action : SessionAction}
open Registries

/-- The key of a session that is being removed is registered to it or to none. -/
def Removes (s : Registries) (stage : Stage) : Prop :=
  ∀ id after r, stage = .removeKey id after → s.records.lookup id = some r →
    ∀ other, s.byKey.lookup r.key = some other → other = id

/-- A step that is no removal by key keeps the order. -/
theorem removes_other {stage : Stage} {t : Registries} (other : ∀ id after, stage ≠ .removeKey id after)
    (kept : s.Orderly cfg → t.Orderly cfg) : s.Orderly cfg → (t.Orderly cfg ↔ Removes s stage) := by
  intro orderly
  apply iff_of_true (kept orderly)
  intro id after r same
  exact absurd same (other id after)

/-- What an operation of a call keeps. Only a removal by key may find another's
session. -/
theorem proceed_spec {call : Nat} {stage : Stage} (sound : s.Sound) (held : s.calls.lookup call = some stage)
    (stepped : proceed cfg s call stage = some next) :
    next.Sound ∧ (s.Orderly cfg → (next.Orderly cfg ↔ Removes s stage)) := by
  cases stage with
  | sweepFrom rest key =>
    have other : ∀ id after, Stage.sweepFrom rest key ≠ .removeKey id after := fun id after same => by cases same
    cases rest with
    | nil =>
      cases key with
      | none =>
        cases Option.some.inj stepped
        exact ⟨sound.answer held other _,removes_other other fun orderly => orderly.of_same rfl rfl⟩
      | some key =>
        cases Option.some.inj stepped
        exact ⟨sound.moveTo held rfl rfl,removes_other other fun orderly => orderly.of_same rfl rfl⟩
    | cons id rest =>
      obtain ⟨r,-,rfl⟩ := Option.map_eq_some_iff.mp stepped
      refine ⟨sound.moveTo held rfl ?_,removes_other other fun orderly => orderly.of_same rfl rfl⟩
      split
      next => rfl
      next => rfl
  | expired id rest key =>
    obtain ⟨r,found,rfl⟩ := Option.map_eq_some_iff.mp stepped
    refine ⟨?_,removes_other (fun i after same => by cases same) fun orderly => orderly.of_same rfl rfl⟩
    split
    next => exact sound.moveTo held rfl rfl
    next done => exact sound.leave held (fun i after same => by cases same) ⟨r,found,done⟩ rfl
  | lookUp key =>
    cases Option.some.inj stepped
    refine ⟨sound.moveTo held rfl ?_,
      removes_other (fun i after same => by cases same) fun orderly => orderly.of_same rfl rfl⟩
    cases s.byKey.lookup key with
    | none => rfl
    | some id => rfl
  | touch key id =>
    obtain ⟨r,found,rfl⟩ := Option.map_eq_some_iff.mp stepped
    have touched : (s.setRecord id { r with expiresAt := s.now + cfg.cleanupTtlSecs }).Sound :=
      sound.setRecord found rfl (fun done => done) (fun pending idle => ⟨pending,idle⟩)
    refine ⟨touched.moveTo held rfl rfl,removes_other (fun i after same => by cases same) fun orderly => ?_⟩
    have kept : (s.setRecord id { r with expiresAt := s.now + cfg.cleanupTtlSecs }).Orderly cfg :=
      orderly.setRecord found rfl fun pending => pending
    exact kept.of_same rfl rfl
  | read key id =>
    obtain ⟨r,found,stepped⟩ := Option.map_eq_some_iff.mp stepped
    have other : ∀ i after, Stage.read key id ≠ .removeKey i after := fun i after same => by cases same
    split at stepped
    next =>
      cases stepped
      exact ⟨sound.answer held other _,removes_other other fun orderly => orderly.of_same rfl rfl⟩
    next ready =>
      cases stepped
      have done : r.state ≠ .pending := by
        rw [ready]
        exact fun same => by cases same
      exact ⟨sound.leave held other ⟨r,found,done⟩ rfl,removes_other other fun orderly => orderly.of_same rfl rfl⟩
    next message failed =>
      cases stepped
      have done : r.state ≠ .pending := by
        rw [failed]
        exact fun same => by cases same
      exact ⟨sound.leave held other ⟨r,found,done⟩ rfl,removes_other other fun orderly => orderly.of_same rfl rfl⟩
  | removeId id after =>
    cases Option.some.inj stepped
    exact ⟨sound.removeId held,
      removes_other (fun i after same => by cases same) fun orderly => orderly.of_same rfl rfl⟩
  | removeKey id after =>
    obtain ⟨r,found,rfl⟩ := Option.map_eq_some_iff.mp stepped
    refine ⟨sound.removeKey held found,fun orderly => ?_⟩
    constructor
    · intro kept i after' r' same known
      cases same
      rw [found] at known
      cases known
      have kept : (s.unregister id r.key).Orderly cfg := kept.of_same rfl rfl
      exact ((orderly_unregister id r.key).mp kept).2
    · intro removes
      have kept := (orderly_unregister id r.key).mpr ⟨orderly,removes id after r rfl found⟩
      exact kept.of_same rfl rfl
  | countFrom rest found key =>
    have other : ∀ i after, Stage.countFrom rest found key ≠ .removeKey i after := fun i after same => by cases same
    cases rest with
    | nil =>
      cases Option.some.inj stepped
      split
      next => exact ⟨sound.answer held other _,removes_other other fun orderly => orderly.of_same rfl rfl⟩
      next => exact ⟨sound.moveTo held rfl rfl,removes_other other fun orderly => orderly.of_same rfl rfl⟩
    | cons id rest =>
      obtain ⟨r,-,rfl⟩ := Option.map_eq_some_iff.mp stepped
      exact ⟨sound.moveTo held rfl rfl,removes_other other fun orderly => orderly.of_same rfl rfl⟩
  | insertKey key id =>
    obtain ⟨r,found,rfl⟩ := Option.map_eq_some_iff.mp stepped
    refine ⟨sound.register held found _,removes_other (fun i after same => by cases same) fun orderly => ?_⟩
    have kept : (s.setRecord id { r with spawned := true }).Orderly cfg :=
      orderly.setRecord found rfl fun pending => pending
    exact kept.of_same rfl rfl
  | sweep | count | manifest | insertId => cases stepped

theorem sessionStep_spec (sound : s.Sound) (stepped : sessionStep cfg s action = some next) :
    next.Sound ∧ (s.Orderly cfg → (next.Orderly cfg ↔ Timely cfg s action)) := by
  cases action with
  | enter call key =>
    rw [sessionStep] at stepped
    split at stepped
    next free =>
      cases Option.some.inj stepped
      rw [Option.isNone_iff_eq_none] at free
      have entered : (s.moveTo call (.sweep key)).Sound := by
        apply sound.calls call
        · intro c other
          rw [Store.lookup_insert_eq,if_neg other]
        · intro id after held
          rw [free] at held
          cases held
        · intro stage held
          rw [Store.lookup_insert_eq,if_pos rfl] at held
          cases held
          exact ⟨fun i id same => (by cases same),fun id leaves => by cases leaves⟩
      exact ⟨entered,fun orderly => iff_of_true (orderly.of_same rfl rfl) trivial⟩
    next => cases stepped
  | collect call ids =>
    rw [sessionStep] at stepped
    split at stepped
    next =>
      split at stepped
      next key held =>
        cases Option.some.inj stepped
        exact ⟨sound.moveTo held rfl rfl,fun orderly => iff_of_true (orderly.of_same rfl rfl) trivial⟩
      next key held =>
        cases Option.some.inj stepped
        exact ⟨sound.moveTo held rfl rfl,fun orderly => iff_of_true (orderly.of_same rfl rfl) trivial⟩
      next => cases stepped
    next => cases stepped
  | manifest call present =>
    rw [sessionStep] at stepped
    split at stepped
    next key id held =>
      cases Option.some.inj stepped
      refine ⟨?_,fun orderly => iff_of_true ?_ trivial⟩
      · split
        next => exact sound.answer held (fun i after same => by cases same) _
        next =>
          have done := sound.leaving call _ id held rfl
          exact sound.leave held (fun i after same => by cases same) done rfl
      · split
        next => exact orderly.of_same rfl rfl
        next => exact orderly.of_same rfl rfl
    next => cases stepped
  | create call id =>
    rw [sessionStep] at stepped
    split at stepped
    next key held =>
      split at stepped
      next fresh =>
        cases Option.some.inj stepped
        rw [Option.isNone_iff_eq_none] at fresh
        refine ⟨sound.create held fresh _,fun orderly => ?_⟩
        have created := orderly_create cfg key fresh (s.now + cfg.cleanupTtlSecs)
        constructor
        · intro kept key' held'
          rw [held] at held'
          cases held'
          exact (created.mp (kept.of_same rfl rfl)).2
        · intro timely
          exact (created.mpr ⟨orderly,timely key held⟩).of_same rfl rfl
      next => cases stepped
    next => cases stepped
  | proceed call =>
    obtain ⟨stage,held,stepped⟩ := Option.bind_eq_some_iff.mp stepped
    obtain ⟨sound',decides⟩ := proceed_spec sound held stepped
    refine ⟨sound',fun orderly => (decides orderly).trans ?_⟩
    constructor
    · intro removes id after r held'
      rw [held] at held'
      cases held'
      exact removes id after r rfl
    · intro timely id after r same
      rw [same] at held
      exact timely id after r held
  | complete id error =>
    obtain ⟨r,found,stepped⟩ := Option.bind_eq_some_iff.mp stepped
    split at stepped
    next running =>
      cases Option.some.inj stepped
      have ended : (error.elim { r with expiresAt := s.now + cfg.cleanupTtlSecs, state := .ready }
          fun message => { r with state := .failed message }).state ≠ .pending := by
        cases error with
        | none => exact fun same => by cases same
        | some message => exact fun same => by cases same
      have key : (error.elim { r with expiresAt := s.now + cfg.cleanupTtlSecs, state := .ready }
          fun message => { r with state := .failed message }).key = r.key := by
        cases error with
        | none => rfl
        | some message => rfl
      refine ⟨?_,fun orderly => iff_of_true ?_ trivial⟩
      · apply sound.setRecord found key (fun _ => ended)
        intro _ idle
        rw [running.2] at idle
        cases idle
      · exact orderly.setRecord found key fun pending => absurd pending ended
    next => cases stepped
  | tick =>
    cases Option.some.inj stepped
    exact ⟨⟨sound.known,sound.there,sound.leaving,sound.coming,sound.alone⟩,
      fun orderly => iff_of_true (orderly.of_same rfl rfl) trivial⟩

theorem start_orderly : Registries.start.Orderly cfg where
  own pair member := absurd member List.not_mem_nil
  single id id' r r' found := by cases found
  bounded := Int.natCast_nonneg _

/-- The registries agree all along a run exactly when every step of it is timely. -/
theorem registries_agree_iff {actions : List SessionAction} (ran : (hlsSessions cfg).exec .start actions = some s) :
    (∀ done, done <+: actions → ∀ reached, (hlsSessions cfg).exec .start done = some reached → reached.Agree cfg) ↔
      (hlsSessions cfg).Run (Timely cfg) .start actions s := by
  apply System.exec_always_iff (I := Sound) (P := Agree cfg) _ _ start_sound _ ran
  · exact fun s action next sound stepped => (sessionStep_spec sound stepped).1
  · intro s action next sound agree stepped
    obtain ⟨sound',decides⟩ := sessionStep_spec sound stepped
    rw [sound'.agree_iff]
    exact decides (sound.agree_iff.mp agree)
  · exact start_sound.agree_iff.mpr start_orderly

end

/-! ### Two requests for one video -/

def oneSlot : SessionConfig := ⟨1,60⟩

/-- A request up to its insertion, when no session is there. -/
def requestAlone (call : Nat) (key : Text) : List SessionAction :=
  [.enter call (some key),.collect call [],.proceed call,.proceed call,.collect call [],.proceed call]

theorem one_request : ∃ s, (hlsSessions oneSlot).exec .start (requestAlone 0 ['k'] ++ [.create 0 7,.proceed 0]) = some s ∧
    ((∀ done, done <+: requestAlone 0 ['k'] ++ [.create 0 7,.proceed 0] → ∀ reached,
      (hlsSessions oneSlot).exec .start done = some reached → reached.Agree oneSlot) ↔
        (hlsSessions oneSlot).Run (Timely oneSlot) .start (requestAlone 0 ['k'] ++ [.create 0 7,.proceed 0]) s) := by
  have computed : ((hlsSessions oneSlot).exec .start (requestAlone 0 ['k'] ++ [.create 0 7,.proceed 0])).isSome = true := by
    decide +kernel
  obtain ⟨s,ran⟩ := Option.isSome_iff_exists.mp computed
  exact ⟨s,ran,registries_agree_iff ran⟩

/-- Two requests that look the key up before either inserts its session leave two
jobs pending where there is one slot, also when both have returned. -/
theorem two_sessions : ¬ ∀ (cfg : SessionConfig) (actions : List SessionAction) (s : Registries),
    (hlsSessions cfg).exec .start actions = some s → s.calls = ∅ → s.Agree cfg := by
  intro all
  have computed : ((hlsSessions oneSlot).exec .start (requestAlone 0 ['k'] ++ requestAlone 1 ['k'] ++
      [.create 0 7,.create 1 8,.proceed 0,.proceed 1])).any (fun s => decide (s.calls.entries = [] ∧ 1 < s.pendingJobs)) =
        true := by
    decide +kernel
  obtain ⟨s,ran,wrong⟩ := (Option.any_eq_true _ _).mp computed
  obtain ⟨idle,crowded⟩ := of_decide_eq_true wrong
  have bounded := (all oneSlot _ s ran (AList.ext idle)).bounded
  have slots : ((oneSlot.maxConcurrentTasks : Nat) : Int) = 1 := rfl
  omega

end StorageHub.Media
