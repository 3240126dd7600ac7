import StorageHub.WriteCache.Machine

/-! Reads and writes of the pool beside the write cache, every call of the
primary or of a cache one step, and when the read cache ends with stale bytes. -/
namespace StorageHub.WriteCache
open Library Paths

inductive ReadPhase
  | pendingRead
  | cacheGet
  | fetch
  | stat (data : Bytes)
  | fill (data : Bytes)
  | done (result : Option Bytes)
  deriving DecidableEq,Repr

inductive WritePhase
  | invalidate
  | write
  | stat
  | done (ok : Bool)
  deriving DecidableEq,Repr

/-- A running `VfsPool::read` or `VfsPool::write`. -/
inductive PoolCall
  | read (path : Text) (phase : ReadPhase)
  | write (path : Text) (data : Bytes) (phase : WritePhase)
  deriving DecidableEq

namespace Shared
variable (s : Shared)

/-- What is pending for a path; a blob file that cannot be read counts as
nothing. -/
def pendingRead (env : Env) (path : Text) : Option Bytes :=
  ((s.entries.lookup path).bind s.inner).bind fun inner =>
    match inner.blob with
    | .memory data => some data
    | .disk file => if env.ok then s.blobs.lookup file else none

/-- What the read cache has for a path. -/
def cached (m : WriteCacheManager) (path : Text) : Option Bytes :=
  if m.readCache.isSome then s.readCache.lookup path else none

end Shared

/-- A fetch that fails may be answered by the backup, which fills nothing. -/
def readStep (m : WriteCacheManager) (env : Env) (s : Shared) (path : Text) :
    ReadPhase → Option (Shared × ReadPhase)
  | .pendingRead =>
    match s.pendingRead env path with
    | some data => some (s,.done (some data))
    | none => some (s,.cacheGet)
  | .cacheGet =>
    -- an entry that has expired or cannot be read is dropped
    match s.cached m path with
    | some data => if env.ok then some (s,.done (some data)) else some (s.forgetRead m path,.fetch)
    | none => some (s,.fetch)
  | .fetch =>
    match (if env.ok then s.primary.lookup path else none) with
    | some data => some (s,.stat data)
    | none => some (s,.done none)
  | .stat data =>
    match s.stat env path with
    | some _ => some (s,.fill data)
    | none => some (s,.done none)
  | .fill data => some (s.putRead m env path data,.done (some data))
  | .done _ => none

def writeStep (m : WriteCacheManager) (env : Env) (s : Shared) (path : Text) (data : Bytes) :
    WritePhase → Option (Shared × WritePhase)
  | .invalidate => some (s.forgetRead m path,.write)
  | .write =>
    if env.ok then some ({ s with primary := s.primary.insert path data },.stat)
    else some (s,.done false)
  | .stat => some (s,.done (s.stat env path).isSome)
  | .done _ => none

def callStep (m : WriteCacheManager) (env : Env) (s : Shared) : PoolCall → Option (Shared × PoolCall)
  | .read path phase => (readStep m env s path phase).map fun out => (out.1,.read path out.2)
  | .write path data phase =>
    (writeStep m env s path data phase).map fun out => (out.1,.write path data out.2)

structure PoolState where
  cache : State
  calls : Store Nat PoolCall
  nextCall : Nat

inductive PoolAction
  | cache (action : Action)
  | read (path : Text)
  | write (path : Text) (data : Bytes)
  | advance (call : Nat) (env : Env)
  deriving DecidableEq

def PoolState.open_ (s : PoolState) (call : PoolCall) : PoolState :=
  { s with calls := s.calls.insert s.nextCall call, nextCall := s.nextCall + 1 }

def PoolState.resume (s : PoolState) (c : Nat) (shared : Shared) (call : PoolCall) : PoolState :=
  { s with cache := { s.cache with shared }, calls := s.calls.insert c call }

def poolStep (m : WriteCacheManager) (s : PoolState) : PoolAction → Option PoolState
  | .cache action => (cacheStep m s.cache action).map fun cache => { s with cache }
  | .read path => some (s.open_ (.read path .pendingRead))
  | .write path data => some (s.open_ (.write path data .invalidate))
  | .advance c env => (s.calls.lookup c).bind fun call =>
    (callStep m env s.cache.shared call).map fun out => s.resume c out.1 out.2

def pool (m : WriteCacheManager) : Transition.System PoolState PoolAction := ⟨poolStep m⟩

/-- A pool over some files, with nothing cached, pending or running. -/
def PoolState.fresh (primary : Store Text Bytes) : PoolState := ⟨.fresh primary,∅,0⟩

/-! ### Stale entries -/

/-- The read cache has nothing for the path or what the primary has. -/
def Fresh (m : WriteCacheManager) (path : Text) (s : Shared) : Prop :=
  ∀ data ∈ s.cached m path, s.primary.lookup path = some data

instance (m : WriteCacheManager) (path : Text) (s : Shared) : Decidable (Fresh m path s) :=
  inferInstanceAs (Decidable (∀ data ∈ s.cached m path, s.primary.lookup path = some data))

/-- A flush has written and is still to fill the read cache. -/
def FlushPhase.filling : FlushPhase → Bool
  | .statAfter .. | .check .. | .removeEntry .. | .putReadCache .. => true
  | _ => false

def Task.filling (path : Text) : Task → Bool
  | .flush f => f.target.path == path && f.phase.filling
  | _ => false

/-- Some flush of the path, other than the given task, is to fill the read cache. -/
def fillsBut (but : Option Nat) (path : Text) (s : State) : Bool :=
  s.tasks.entries.any fun cell => some cell.1 != but && cell.2.filling path

/-- Whether the read cache takes bytes of this size. -/
def WriteCacheManager.fills (m : WriteCacheManager) (path : Text) (data : Bytes) : Bool :=
  m.readCache.any fun admits => admits path data.length

section conditions
variable (m : WriteCacheManager) (path : Text) (s : State) (env : Env)

/-- A fill finds the bytes it puts still on the primary, or a flush is to fill
over it. -/
def ReadFits : ReadPhase → Prop
  | .fill data => m.fills path data = true → env.ok = true →
    s.shared.primary.lookup path = some data ∨ fillsBut none path s = true
  | _ => True

/-- A write finds no entry filled since its invalidation, or a flush is to fill
over it. -/
def WriteFits (data : Bytes) : WritePhase → Prop
  | .write => env.ok = true →
    (∀ old ∈ s.shared.cached m path, old = data) ∨ fillsBut none path s = true
  | _ => True

/-- A flush fills in what is still on the primary. One that ends without its
fill, for want of admission or overtaken by an update, leaves no stale entry. -/
def FlushFits (t : Nat) (record : RecordId) : FlushPhase → Prop
  | .putReadCache data _ =>
    if m.fills path data then
      env.ok = true → s.shared.primary.lookup path = some data ∨ fillsBut (some t) path s = true
    else Fresh m path s.shared ∨ fillsBut (some t) path s = true
  | .check taken _ _ _ => (∀ inner ∈ s.shared.inner record, inner.generation ≠ taken.generation) →
    Fresh m path s.shared ∨ fillsBut (some t) path s = true
  | _ => True

instance : DecidablePred (ReadFits m path s env)
  | .fill data => inferInstanceAs (Decidable (m.fills path data = true → env.ok = true →
    s.shared.primary.lookup path = some data ∨ fillsBut none path s = true))
  | .pendingRead | .cacheGet | .fetch | .stat _ | .done _ => isTrue trivial

instance (data : Bytes) : DecidablePred (WriteFits m path s env data)
  | .write => inferInstanceAs (Decidable (env.ok = true →
    (∀ old ∈ s.shared.cached m path, old = data) ∨ fillsBut none path s = true))
  | .invalidate | .stat | .done _ => isTrue trivial

instance (t : Nat) (record : RecordId) : DecidablePred (FlushFits m path s env t record)
  | .putReadCache data _ => inferInstanceAs (Decidable (if m.fills path data then
      env.ok = true → s.shared.primary.lookup path = some data ∨ fillsBut (some t) path s = true
    else Fresh m path s.shared ∨ fillsBut (some t) path s = true))
  | .check taken _ _ _ => inferInstanceAs (Decidable
    ((∀ inner ∈ s.shared.inner record, inner.generation ≠ taken.generation) →
      Fresh m path s.shared ∨ fillsBut (some t) path s = true))
  | .snapshot | .readBlob _ | .statBefore .. | .write .. | .noteFailure .. | .promoteRead ..
  | .promoteMark .. | .alreadyAbnormal _ | .promoteStageBlob .. | .promoteStageMeta ..
  | .promoteSwap .. | .promoteDiscardBlob .. | .promoteDiscardMeta .. | .promoted .. | .retireBlob _
  | .retireMeta _ | .finishFailure _ | .statAfter .. | .removeEntry .. | .indexSync _ | .quotaGet _
  | .quotaRemove | .quotaInsert _ | .done _ => isTrue trivial

def CallFits : PoolCall → Prop
  | .read q phase => q = path → ReadFits m path s env phase
  | .write q data phase => q = path → WriteFits m path s env data phase

instance : DecidablePred (CallFits m path s env)
  | .read q phase => inferInstanceAs (Decidable (q = path → ReadFits m path s env phase))
  | .write q data phase => inferInstanceAs (Decidable (q = path → WriteFits m path s env data phase))

def TaskFits (t : Nat) : Task → Prop
  | .flush f => f.target.path = path → FlushFits m path s env t f.record f.phase
  | _ => True

instance (t : Nat) : DecidablePred (TaskFits m path s env t)
  | .flush f => inferInstanceAs (Decidable
    (f.target.path = path → FlushFits m path s env t f.record f.phase))
  | .enqueue _ | .quotaSync _ => isTrue trivial

end conditions

/-- The step leaves no stale entry behind for the path: a fill puts what the
primary has, a write overwrites what is not cached, and a flush that does not
fill has nothing to fill over. -/
def FillClean (m : WriteCacheManager) (path : Text) (s : PoolState) : PoolAction → Prop
  | .advance c env => ∀ call ∈ s.calls.lookup c, CallFits m path s.cache env call
  | .cache (.advance t env) => ∀ task ∈ s.cache.tasks.lookup t, TaskFits m path s.cache env t task
  | _ => True

instance (m : WriteCacheManager) (path : Text) (s : PoolState) : DecidablePred (FillClean m path s)
  | .advance c env => inferInstanceAs
    (Decidable (∀ call ∈ s.calls.lookup c, CallFits m path s.cache env call))
  | .cache (.advance t env) => inferInstanceAs
    (Decidable (∀ task ∈ s.cache.tasks.lookup t, TaskFits m path s.cache env t task))
  | .cache (.enqueue ..) | .cache (.flush ..) | .cache (.takeQuota _) | .cache (.evict _) | .read _
  | .write .. => isTrue trivial

def Task.busy (path : Text) : Task → Bool
  | .flush f => f.target.path == path && match f.phase with
    | .done _ => false
    | _ => true
  | _ => false

def PoolCall.busy (path : Text) : PoolCall → Bool
  | .read p phase => p == path && match phase with
    | .done _ => false
    | _ => true
  | .write p _ phase => p == path && match phase with
    | .done _ => false
    | _ => true

/-- Every read, write and flush of the path has finished. -/
def Finished (path : Text) (s : PoolState) : Prop :=
  (∀ cell ∈ s.cache.tasks.entries, cell.2.busy path = false) ∧
    ∀ cell ∈ s.calls.entries, cell.2.busy path = false

instance (path : Text) (s : PoolState) : Decidable (Finished path s) :=
  inferInstanceAs (Decidable (_ ∧ _))

/-! ### What a step does to the two stores -/

section stores
variable {m : WriteCacheManager} {env : Env} {s s' : Shared} {path : Text}

theorem cached_forgetRead (q : Text) : (s.forgetRead m q).cached m path =
    if path = q then none else s.cached m path := by
  unfold Shared.cached Shared.forgetRead
  by_cases on : m.readCache.isSome = true
  · rw [if_pos on,if_pos on,if_pos on]
    exact Store.lookup_erase_eq _ _ _
  · rw [if_neg on,if_neg on,ite_self]

theorem cached_congr (same : s'.readCache = s.readCache) : s'.cached m path = s.cached m path := by
  rw [Shared.cached,Shared.cached,same]

/-- A fill puts the bytes of an admitted file, drops the entry when it fails and
leaves it when the file is not admitted. -/
theorem cached_putRead (q : Text) (data : Bytes) : (s.putRead m env q data).cached m path =
    if path = q ∧ m.fills q data = true then if env.ok then some data else none else s.cached m path := by
  unfold Shared.cached Shared.putRead WriteCacheManager.fills
  cases on : m.readCache with
  | none => simp
  | some admits =>
    simp only [Option.isSome_some,if_true,Option.any_some]
    by_cases admitted : admits q data.length = true
    · by_cases here : path = q
      · subst here
        cases ok : env.ok with
        | true => simp [admitted]
        | false => simp [admitted]
      · cases ok : env.ok with
        | true => simp [admitted,here]
        | false => simp [admitted,here]
    · simp [admitted]

theorem Fresh.of_same (fresh : Fresh m path s) (primary : s'.primary = s.primary)
    (readCache : s'.readCache = s.readCache) : Fresh m path s' := by
  intro data member
  rw [cached_congr readCache] at member
  rw [primary]
  exact fresh data member

theorem Fresh.forgetRead (fresh : Fresh m path s) (q : Text) : Fresh m path (s.forgetRead m q) := by
  intro data member
  rw [cached_forgetRead] at member
  split at member
  · cases member
  · exact fresh data member

theorem Fresh.putRead (fresh : Fresh m path s) {q : Text} {data : Bytes}
    (fits : q = path → m.fills path data = true → env.ok = true → s.primary.lookup path = some data) :
    Fresh m path (s.putRead m env q data) := by
  intro old member
  rw [cached_putRead] at member
  split at member
  next both =>
    obtain ⟨rfl,admitted⟩ := both
    split at member
    next ok =>
      cases member
      exact fits rfl admitted ok
    next => cases member
  next => exact fresh old member

theorem Fresh.write (fresh : Fresh m path s) {q : Text} {data : Bytes} (shared : s' = { s with
    primary := s.primary.insert q data }) (other : q ≠ path) : Fresh m path s' := by
  intro old member
  rw [shared]
  refine (AList.lookup_insert_ne other.symm).trans (fresh old ?_)
  rw [shared] at member
  exact member

/-- Only a flush's write changes the primary, and only its fill the read cache. -/
theorem flushStep_stores {f : FlushTask} {phase : FlushPhase} (stepped : flushStep m env s f = some (s',phase)) :
    (∃ data, s'.primary = s.primary.insert f.target.path data ∧ s'.readCache = s.readCache ∧
      phase.filling = true) ∨
    (∃ data delta, f.phase = .putReadCache data delta ∧ s' = s.putRead m env f.target.path data) ∨
    (s'.primary = s.primary ∧ s'.readCache = s.readCache ∧
      (f.phase.filling = true → phase.filling = true ∨ ∃ taken data previous info,
        f.phase = .check taken data previous info ∧
          ∀ inner ∈ s.inner f.record, inner.generation ≠ taken.generation)) := by
  obtain ⟨record,target,force,now⟩ := f
  unfold flushStep at stepped
  split at stepped
  next => cases stepped
  next inner found =>
    cases now with
    | write taken data previousSize =>
      dsimp only at stepped
      split at stepped
      next => cases stepped; exact .inl ⟨data,rfl,rfl,rfl⟩
      next =>
        cases stepped
        refine .inr (.inr ⟨rfl,rfl,?_⟩)
        intro impossible
        cases impossible
    | putReadCache data delta =>
      cases stepped
      exact .inr (.inl ⟨data,delta,rfl,rfl⟩)
    | check taken data previousSize infoSize =>
      dsimp only at stepped
      split at stepped
      next moved =>
        cases stepped
        refine .inr (.inr ⟨rfl,rfl,fun _ => .inr ⟨taken,data,previousSize,infoSize,rfl,?_⟩⟩)
        intro other member
        have same : other = inner := Option.some.inj (member.symm.trans found)
        rw [same]
        exact moved
      next =>
        cases stepped
        refine .inr (.inr ⟨?_,?_,fun _ => .inl rfl⟩)
        · cases inner.blob <;> rfl
        · cases inner.blob <;> rfl
    | statAfter taken data previousSize =>
      cases stepped
      exact .inr (.inr ⟨rfl,rfl,fun _ => .inl rfl⟩)
    | removeEntry data delta =>
      cases stepped
      exact .inr (.inr ⟨rfl,rfl,fun _ => .inl rfl⟩)
    | _ =>
      right
      right
      dsimp only at stepped
      repeat' split at stepped
      all_goals cases stepped
      all_goals exact ⟨rfl,rfl,fun impossible => by cases impossible⟩

theorem enqueueStep_stores {tick : Nat} {e e' : EnqueueTask}
    (stepped : enqueueStep m tick env s e = some (s',e')) :
    s' = s.forgetRead m e.target.path ∨ (s'.primary = s.primary ∧ s'.readCache = s.readCache) := by
  unfold enqueueStep at stepped
  cases phase : e.phase with
  | start =>
    rw [phase] at stepped
    dsimp only at stepped
    split at stepped
    next => cases stepped; exact .inl rfl
    next => cases stepped; exact .inr ⟨rfl,rfl⟩
  | _ =>
    right
    rw [phase] at stepped
    dsimp only at stepped
    repeat' split at stepped
    all_goals cases stepped
    all_goals exact ⟨rfl,rfl⟩

theorem quotaStep_stores {q : QuotaTask} {phase : QuotaPhase}
    (stepped : quotaStep m env s q = some (s',phase)) :
    s'.primary = s.primary ∧ s'.readCache = s.readCache := by
  unfold quotaStep at stepped
  repeat' split at stepped
  all_goals cases stepped
  all_goals exact ⟨rfl,rfl⟩

end stores

/-! ### Flushes that are to fill -/

section filling
variable {path : Text} {but : Option Nat}

theorem fillsBut_spawn {s : State} (numbered : Numbered s) (shared : Shared) (task : Task)
    (fills : fillsBut none path s = true) : fillsBut none path (s.spawn shared task) = true :=
  anyBut_spawned numbered fills

/-- The tasks other than the one that is resumed are as they were. -/
theorem fillsBut_others {s : State} {t : Nat} (shared : Shared) (task : Task)
    (fills : fillsBut (some t) path s = true) : fillsBut none path (s.resume t shared task) = true :=
  anyBut_resume_iff.mpr (.inl fills)

theorem fillsBut_resumed {s : State} {t : Nat} (shared : Shared) {task : Task}
    (filling : task.filling path = true) : fillsBut none path (s.resume t shared task) = true :=
  anyBut_resume_iff.mpr (.inr filling)

/-- A task that does not fill is not the one that does. -/
theorem fillsBut_of_idle {s : State} {t : Nat} {task : Task} (found : s.tasks.lookup t = some task)
    (idle : task.filling path = false) (fills : fillsBut none path s = true) :
    fillsBut (some t) path s = true := by
  rcases anyBut_split found fills with own | other
  · rw [idle] at own
    cases own
  · exact other

end filling

/-! ### The invariant -/

/-- What is cached for the path is what the primary has, or a flush is still to
fill it in. -/
structure Steady (m : WriteCacheManager) (path : Text) (s : PoolState) : Prop where
  numbered : Numbered s.cache
  kept : Fresh m path s.cache.shared ∨ fillsBut none path s.cache = true

section steps
variable {m : WriteCacheManager} {path : Text}

/-- One step of a flush. -/
theorem steady_flush {s : State} {t : Nat} {env : Env} {f : FlushTask} {shared : Shared} {phase : FlushPhase}
    (kept : Fresh m path s.shared ∨ fillsBut none path s = true)
    (found : s.tasks.lookup t = some (.flush f)) (stepped : flushStep m env s.shared f = some (shared,phase))
    (clean : TaskFits m path s env t (.flush f)) :
    Fresh m path shared ∨ fillsBut none path (s.resume t shared (.flush { f with phase })) = true := by
  have others (fills : fillsBut (some t) path s = true) := fillsBut_others shared (.flush { f with phase }) fills
  have idle (elsewhere : f.target.path ≠ path) : Task.filling path (.flush f) = false := by
    simp [Task.filling,elsewhere]
  rcases flushStep_stores stepped with ⟨data,primary,readCache,fills⟩ | ⟨data,delta,phase_eq,rfl⟩ |
    ⟨primary,readCache,goes⟩
  · by_cases here : f.target.path = path
    · -- what is stale now is to be overwritten by this flush
      right
      apply fillsBut_resumed
      simp [Task.filling,here,fills]
    · refine kept.imp (fun fresh => ?_) fun fills => others (fillsBut_of_idle found (idle here) fills)
      intro old member
      rw [cached_congr readCache] at member
      rw [primary,AList.lookup_insert_ne fun same => here same.symm]
      exact fresh old member
  · by_cases here : f.target.path = path
    · have fits := clean here
      rw [phase_eq,FlushFits] at fits
      by_cases admitted : m.fills path data = true
      · rw [if_pos admitted] at fits
        by_cases ok : env.ok = true
        · rcases fits ok with same | fills
          · left
            intro old member
            rw [here,cached_putRead,if_pos ⟨rfl,admitted⟩,if_pos ok] at member
            rw [← Option.some.inj member]
            exact same
          · exact .inr (others fills)
        · left
          intro old member
          rw [here,cached_putRead,if_pos ⟨rfl,admitted⟩,if_neg ok] at member
          cases member
      · rw [if_neg admitted] at fits
        refine fits.imp (fun fresh => ?_) others
        exact fresh.putRead fun _ admits => absurd admits admitted
    · exact kept.imp (fun fresh => fresh.putRead fun same => absurd same here)
        fun fills => others (fillsBut_of_idle found (idle here) fills)
  · rcases kept with fresh | fills
    · exact .inl (fresh.of_same primary readCache)
    · by_cases mine : Task.filling path (.flush f) = true
      · rw [Task.filling,Bool.and_eq_true,beq_iff_eq] at mine
        rcases goes mine.2 with still | ⟨taken,data,previous,info,phase_eq,overtaken⟩
        · right
          apply fillsBut_resumed
          simp [Task.filling,mine.1,still]
        · have settled := clean mine.1
          rw [phase_eq,FlushFits] at settled
          exact (settled overtaken).imp (fun fresh => fresh.of_same primary readCache) others
      · exact .inr (others (fillsBut_of_idle found (Bool.eq_false_iff.mpr mine) fills))

theorem steady_cache {s : PoolState} {cache : State} {action : Action} (steady : Steady m path s)
    (clean : FillClean m path s (.cache action)) (stepped : cacheStep m s.cache action = some cache) :
    Steady m path { s with cache } := by
  refine ⟨numbered_step steady.numbered stepped,?_⟩
  rcases cacheStep_cases stepped with ⟨target,data,rfl,rfl⟩ | ⟨r,force,record,rfl,-,rfl⟩ |
    ⟨userKey,task,rfl,-,rfl⟩ | ⟨t,env,task,shared,task',rfl,found,advanced,rfl⟩ | ⟨q,rfl,rfl⟩
  · exact steady.kept.imp (fun fresh => fresh) (fillsBut_spawn steady.numbered _ _)
  · exact steady.kept.imp (fun fresh => fresh) (fillsBut_spawn steady.numbered _ _)
  · exact steady.kept.imp (fun fresh => fresh.of_same rfl rfl) (fillsBut_spawn steady.numbered _ _)
  · have others (idle : Task.filling path task = false) (fills : fillsBut none path s.cache = true) :
        fillsBut none path (s.cache.resume t shared task') = true :=
      fillsBut_others shared task' (fillsBut_of_idle found idle fills)
    cases task with
    | enqueue e =>
      obtain ⟨⟨shared',e'⟩,made,same⟩ := Option.map_eq_some_iff.mp advanced
      cases same
      refine steady.kept.imp (fun fresh => ?_) (others rfl)
      rcases enqueueStep_stores made with forgot | ⟨primary,readCache⟩
      · rw [forgot]
        exact fresh.forgetRead _
      · exact fresh.of_same primary readCache
    | flush f =>
      obtain ⟨⟨shared',phase⟩,made,same⟩ := Option.map_eq_some_iff.mp advanced
      cases same
      exact steady_flush steady.kept found made (clean _ found)
    | quotaSync q =>
      obtain ⟨⟨shared',phase⟩,made,same⟩ := Option.map_eq_some_iff.mp advanced
      cases same
      obtain ⟨primary,readCache⟩ := quotaStep_stores made
      exact steady.kept.imp (fun fresh => fresh.of_same primary readCache) (others rfl)
  · refine steady.kept.imp (fun fresh => ?_) fun fills => fills
    intro data member
    apply fresh data
    unfold Shared.cached at member ⊢
    split
    next on =>
      rw [if_pos on,Option.mem_def,Store.lookup_erase_eq] at member
      split at member
      · cases member
      · exact member
    next off =>
      rw [if_neg off] at member
      cases member

theorem readStep_fresh {s shared : Shared} {env : Env} {q : Text} {phase phase' : ReadPhase}
    (stepped : readStep m env s q phase = some (shared,phase')) (fresh : Fresh m path s)
    (fits : ∀ data, phase = .fill data → q = path → m.fills path data = true → env.ok = true →
      s.primary.lookup path = some data) : Fresh m path shared := by
  cases phase with
  | fill data =>
    cases stepped
    exact fresh.putRead (fits data rfl)
  | cacheGet =>
    rw [readStep] at stepped
    split at stepped
    · split at stepped
      · cases stepped
        exact fresh
      · cases stepped
        exact fresh.forgetRead q
    · cases stepped
      exact fresh
  | _ =>
    unfold readStep at stepped
    dsimp only at stepped
    repeat' split at stepped
    all_goals cases stepped
    all_goals exact fresh

theorem steady_call {s : PoolState} {c : Nat} {env : Env} {call call' : PoolCall} {shared : Shared}
    (steady : Steady m path s) (found : s.calls.lookup c = some call)
    (clean : FillClean m path s (.advance c env))
    (stepped : callStep m env s.cache.shared call = some (shared,call')) :
    Steady m path (s.resume c shared call') := by
  refine ⟨steady.numbered,?_⟩
  by_cases fills : fillsBut none path s.cache = true
  · exact .inr fills
  · left
    have fresh := steady.kept.resolve_right fills
    have fits := clean call found
    cases call with
    | read q phase =>
      obtain ⟨⟨shared',phase'⟩,made,same⟩ := Option.map_eq_some_iff.mp stepped
      cases same
      apply readStep_fresh made fresh
      rintro data rfl here admitted ok
      exact (fits here admitted ok).resolve_right fills
    | write q data phase =>
      obtain ⟨⟨shared',phase'⟩,made,same⟩ := Option.map_eq_some_iff.mp stepped
      cases same
      cases phase with
      | invalidate =>
        cases made
        exact fresh.forgetRead q
      | write =>
        rw [writeStep] at made
        split at made
        next ok =>
          cases made
          by_cases here : q = path
          · subst here
            intro old member
            rw [(fits rfl ok).resolve_right fills old member]
            exact AList.lookup_insert _
          · exact fresh.write rfl here
        next =>
          cases made
          exact fresh
      | stat =>
        cases made
        exact fresh
      | done ok => cases made

theorem steady_step {s s' : PoolState} {action : PoolAction} (steady : Steady m path s)
    (clean : FillClean m path s action) (stepped : poolStep m s action = some s') : Steady m path s' := by
  cases action with
  | cache action =>
    obtain ⟨cache,made,rfl⟩ := Option.map_eq_some_iff.mp stepped
    exact steady_cache steady clean made
  | read q =>
    cases stepped
    exact ⟨steady.numbered,steady.kept⟩
  | write q data =>
    cases stepped
    exact ⟨steady.numbered,steady.kept⟩
  | advance c env =>
    obtain ⟨call,found,advanced⟩ := Option.bind_eq_some_iff.mp stepped
    obtain ⟨⟨shared,call'⟩,made,rfl⟩ := Option.map_eq_some_iff.mp advanced
    exact steady_call steady found clean made

/-- When every flush of the path has finished none is to fill. -/
theorem steady_finished {s : PoolState} (steady : Steady m path s) (finished : Finished path s) :
    Fresh m path s.cache.shared := by
  apply steady.kept.resolve_right
  intro fills
  obtain ⟨t,task,found,-,filling⟩ := anyBut_iff.mp fills
  have idle := finished.1 ⟨t,task⟩ (AList.mem_lookup_iff.mp found)
  cases task with
  | enqueue e => cases filling
  | quotaSync q => cases filling
  | flush f =>
    rw [Task.filling,Bool.and_eq_true] at filling
    rw [Task.busy,filling.1,Bool.true_and] at idle
    cases phase : f.phase with
    | done ok =>
      rw [phase] at filling
      cases filling.2
    | _ =>
      rw [phase] at idle
      cases idle

end steps

/-- Along every run of clean steps, whenever all reads, writes and flushes of the
path have finished the read cache holds nothing stale for it. -/
theorem finished_calls_leave_fresh {m : WriteCacheManager} {path : Text} {s final : PoolState}
    {actions : List PoolAction} (numbered : Numbered s.cache) (fresh : Fresh m path s.cache.shared)
    (run : (pool m).Run (FillClean m path) s actions final) (finished : Finished path final) :
    Fresh m path final.cache.shared :=
  steady_finished (run.invariant
    (fun _ _ _ steady clean stepped => steady_step steady clean stepped)
    ⟨numbered,.inl fresh⟩) finished

/-! ### Small executions -/

def cachingManager : WriteCacheManager := { memoryManager with readCache := some fun _ _ => true }

/-- Successful steps of one call of the pool. -/
def callAdvances (call steps : Nat) : List PoolAction := List.replicate steps (.advance call ⟨true,0⟩)

def storedA : PoolState := .fresh (AList.insert fileA.path [1] ∅)

/-- A read, then an enqueue and its flush, and a read after it. -/
def orderlyCalls : List PoolAction :=
  .read fileA.path :: callAdvances 0 5 ++ .cache (.enqueue fileA [2]) ::
    (advances 0 10).map .cache ++ .cache (.flush 0 true) :: (advances 1 10).map .cache ++
      .read fileA.path :: callAdvances 1 2

theorem orderly_calls_fresh : ∃ final,
    (pool cachingManager).Run (FillClean cachingManager fileA.path) storedA orderlyCalls final ∧
      Fresh cachingManager fileA.path final.cache.shared := by
  have computed : (((pool cachingManager).execAllowed (FillClean cachingManager fileA.path) storedA
      orderlyCalls).filter fun final => decide (Finished fileA.path final)).isSome = true := by
    decide +kernel
  obtain ⟨final,kept⟩ := Option.isSome_iff_exists.mp computed
  obtain ⟨reached,finished⟩ := Option.filter_eq_some_iff.mp kept
  have run := Transition.System.execAllowed_run reached
  exact ⟨final,run,finished_calls_leave_fresh (fun _ _ => rfl) (fun _ member => by cases member) run
    (of_decide_eq_true finished)⟩

/-- A read that has fetched the old bytes fills them in after a write. -/
def overtakenRead : List PoolAction :=
  .read fileA.path :: callAdvances 0 4 ++ .write fileA.path [2] :: callAdvances 1 3 ++ callAdvances 0 1

theorem overtaken_read_leaves_stale :
    ¬ ∀ actions final, (pool cachingManager).exec storedA actions = some final →
      Finished fileA.path final → Fresh cachingManager fileA.path final.cache.shared :=
  Transition.System.exec_refutes overtakenRead (by decide +kernel)

end StorageHub.WriteCache
