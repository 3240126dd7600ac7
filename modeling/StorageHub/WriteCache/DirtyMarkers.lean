import StorageHub.WriteCache.Retry

/-! The dirty markers of the cache beside the directory syncs that take them
away. `stat` and `list` trust the index wherever a marker is absent, so each path
whose file the index may not know yet needs one. -/
namespace StorageHub.WriteCache
open Library Paths

/-- A running `sync_directory_index`, each call of the primary, of the database
or of a map one step. -/
inductive DirSyncPhase
  | list
  | begin (listedAt : Nat) (rows : List Text)
  | upsert (listedAt : Nat) (rows : List Text)
  | finish (listedAt : Nat)
  | retryCheck
  | retryInsert
  | checkTask
  | clearDir
  | clearScan
  | clearPaths (keys : List Text)
  | done (ok : Bool)
  deriving DecidableEq

structure DirSync where
  taskKey : Text
  task : DirectoryIndexSyncTask
  phase : DirSyncPhase
  deriving DecidableEq

def DirectoryIndexSyncTask.retry (m : WriteCacheManager) (now : Int) (task : DirectoryIndexSyncTask) :
    DirectoryIndexSyncTask :=
  let retryCount := min (task.retryCount + 1) u32Max
  { task with nextSyncAt := now + m.retryDelaySecs retryCount false, retryCount }

namespace Shared
variable (s : Shared)

def isDirtyPath (physicalPath : Text) : Bool := (s.dirtyPaths.lookup physicalPath).isSome

def isDirtyDir (parentPhysicalPath : Text) : Bool := (s.dirtyDirs.lookup parentPhysicalPath).isSome

/-- The rows of a sync, by their logical paths. -/
def listedRows (m : WriteCacheManager) (task : DirectoryIndexSyncTask) : List Text :=
  (s.primary.keys.filter fun path => parentPath path == task.physicalParentPath).filterMap fun path =>
    (physicalToLogicalPath task.userId path).filter m.policy.allows

/-- The keys `clear_dirty_markers` collects. -/
def dirtyPathsOf (physicalParentPath : Text) : List Text :=
  s.dirtyPaths.keys.filter fun path => parentPath path == physicalParentPath

end Shared

/-- One step of a sync; the rows go to the database in chunks. -/
def dirSyncStep (m : WriteCacheManager) (chunkSize tick : Nat) (env : Env) (s : Shared) (d : DirSync) :
    Option (Shared × DirSyncPhase) :=
  match d.phase with
  | .list => if env.ok then some (s,.begin tick (s.listedRows m d.task)) else some (s,.done false)
  | .begin listedAt rows => if env.ok then some (s,.upsert listedAt rows) else some (s,.retryCheck)
  | .upsert listedAt rows =>
    if rows.isEmpty then some (s,.finish listedAt)
    else if env.ok then some (s,.upsert listedAt (rows.drop (max chunkSize 1)))
    else some (s,.retryCheck)
  | .finish _ => if env.ok then some (s,.checkTask) else some (s,.retryCheck)
  | .retryCheck =>
    if (s.indexSyncDirs.lookup d.taskKey).isSome then some (s,.done false) else some (s,.retryInsert)
  | .retryInsert =>
    let indexSyncDirs := s.indexSyncDirs.insert d.taskKey (d.task.retry m env.now)
    some ({ s with indexSyncDirs },.done false)
  | .checkTask =>
    -- an enqueue or a flush since the task was taken leaves another one behind
    if (s.indexSyncDirs.lookup d.taskKey).isSome then some (s,.done true) else some (s,.clearDir)
  | .clearDir =>
    some ({ s with dirtyDirs := s.dirtyDirs.erase d.task.physicalParentPath },.clearScan)
  | .clearScan => some (s,.clearPaths (s.dirtyPathsOf d.task.physicalParentPath))
  | .clearPaths keys =>
    match keys with
    | [] => some (s,.done true)
    | key::rest => some ({ s with dirtyPaths := s.dirtyPaths.erase key },.clearPaths rest)
  | .done _ => none

/-- The path at which a task is about to file a new entry. -/
def Task.files : Task → Option Text
  | .enqueue ⟨target,_,.insert _,_,_,_,_,_⟩ => some target.path
  | _ => none

/-- The path whose file a flush is about to write. -/
def Task.writes (env : Env) : Task → Option Text
  | .flush ⟨_,target,_,.write _ _ _⟩ => if env.ok then some target.path else none
  | _ => none

def State.files (s : State) : Action → Option Text
  | .advance t _ => (s.tasks.lookup t).bind Task.files
  | _ => none

def State.writes (s : State) : Action → Option Text
  | .advance t env => (s.tasks.lookup t).bind (Task.writes env)
  | _ => none

/-- The cache with its directory syncs. The last two fields are a history that no
step reads: when the file of a path was last flushed, and when the last committed
sync of a directory had listed it. -/
structure MarkerState where
  cache : State
  syncs : Store Nat DirSync
  nextSync : Nat
  tick : Nat
  flushedAt : Store Text Nat
  syncedAt : Store Text Nat

inductive MarkerAction
  | cache (action : Action)
  | takeSync (taskKey : Text)
  | advance (sync : Nat) (env : Env)
  deriving DecidableEq

namespace MarkerState

def afterCache (s : MarkerState) (cache : State) (flushed : Option Text) : MarkerState :=
  { s with
    cache
    tick := s.tick + 1
    flushedAt := flushed.elim s.flushedAt fun path => s.flushedAt.insert path s.tick }

def resume (s : MarkerState) (d : Nat) (shared : Shared) (sync : DirSync) (committed : Option Nat) :
    MarkerState :=
  { s with
    cache := { s.cache with shared }
    syncs := s.syncs.insert d sync
    tick := s.tick + 1
    syncedAt := committed.elim s.syncedAt fun listedAt =>
      s.syncedAt.insert sync.task.physicalParentPath listedAt }

end MarkerState

/-- The listing of the sync that a step commits. -/
def DirSyncPhase.commits (env : Env) : DirSyncPhase → Option Nat
  | .finish listedAt => if env.ok then some listedAt else none
  | _ => none

def markerStep (m : WriteCacheManager) (chunkSize : Nat) (s : MarkerState) : MarkerAction → Option MarkerState
  | .cache action => (cacheStep m s.cache action).map fun cache => s.afterCache cache (s.cache.writes action)
  | .takeSync taskKey => (s.cache.shared.indexSyncDirs.lookup taskKey).map fun task =>
    let indexSyncDirs := s.cache.shared.indexSyncDirs.erase taskKey
    { s with
      cache := { s.cache with shared := { s.cache.shared with indexSyncDirs } }
      syncs := s.syncs.insert s.nextSync ⟨taskKey,task,.list⟩
      nextSync := s.nextSync + 1
      tick := s.tick + 1 }
  | .advance d env => (s.syncs.lookup d).bind fun sync =>
    (dirSyncStep m chunkSize s.tick env s.cache.shared sync).map fun out =>
      s.resume d out.1 { sync with phase := out.2 } (sync.phase.commits env)

def markers (m : WriteCacheManager) (chunkSize : Nat) : Transition.System MarkerState MarkerAction :=
  ⟨markerStep m chunkSize⟩

/-! ### Covered paths -/

/-- Both markers of a path are set. -/
def Shared.Dirty (path : Text) (s : Shared) : Prop :=
  s.isDirtyPath path = true ∧ s.isDirtyDir (parentPath path) = true

namespace MarkerState
variable (s : MarkerState) (path : Text)

/-- The file has been flushed after the listing of the last committed sync. -/
def unsynced : Bool := (s.flushedAt.lookup path).any fun flushed =>
  (s.syncedAt.lookup (parentPath path)).all fun listed => decide (listed < flushed)

def pending : Bool := (s.cache.shared.entries.lookup path).isSome

end MarkerState

/-- Every path that is pending or not synced is marked. -/
def Covered (s : MarkerState) : Prop :=
  ∀ path, s.pending path = true ∨ s.unsynced path = true → s.cache.shared.Dirty path

theorem covered_iff {s : MarkerState} : Covered s ↔
    (∀ cell ∈ s.cache.shared.entries.entries, s.cache.shared.Dirty cell.1) ∧
      ∀ cell ∈ s.flushedAt.entries, s.unsynced cell.1 = true → s.cache.shared.Dirty cell.1 := by
  constructor
  · intro covered
    constructor
    · intro cell member
      have found : s.cache.shared.entries.lookup cell.1 = some cell.2 := AList.mem_lookup_iff.mpr member
      exact covered cell.1 (.inl (by simp [MarkerState.pending,found]))
    · intro cell _ open_
      exact covered cell.1 (.inr open_)
  · rintro ⟨entries,flushed⟩ path (pending | open_)
    · obtain ⟨r,found⟩ := Option.isSome_iff_exists.mp pending
      exact entries ⟨path,r⟩ (AList.mem_lookup_iff.mp found)
    · obtain ⟨at_,found,_⟩ := Option.any_eq_true _ _ |>.mp open_
      exact flushed ⟨path,at_⟩ (AList.mem_lookup_iff.mp found) open_

instance (path : Text) : DecidablePred (Shared.Dirty path) := fun s =>
  inferInstanceAs (Decidable (s.isDirtyPath path = true ∧ s.isDirtyDir (parentPath path) = true))

instance : DecidablePred Covered := fun _ => decidable_of_iff _ covered_iff.symm

/-- A step of the cache files an entry, or writes a file, where the markers are. -/
def CacheOrderly (s : State) (action : Action) : Prop :=
  (∀ path ∈ s.files action, s.shared.Dirty path) ∧ ∀ path ∈ s.writes action, s.shared.Dirty path

/-- A sync that commits leaves unmarked nothing flushed since its listing, and a
marker is taken away only where nothing is pending or flushed since. -/
def SyncOrderly (s : MarkerState) (env : Env) (task : DirectoryIndexSyncTask) : DirSyncPhase → Prop
  | .finish listedAt => env.ok = true → ∀ cell ∈ s.flushedAt.entries,
    parentPath cell.1 = task.physicalParentPath → listedAt < cell.2 → s.cache.shared.Dirty cell.1
  | .clearDir =>
    (∀ cell ∈ s.cache.shared.entries.entries, parentPath cell.1 ≠ task.physicalParentPath) ∧
      ∀ cell ∈ s.flushedAt.entries, s.unsynced cell.1 = true → parentPath cell.1 ≠ task.physicalParentPath
  | .clearPaths keys => ∀ key ∈ keys.head?, s.pending key = false ∧ s.unsynced key = false
  | _ => True

def MarkersKept (s : MarkerState) : MarkerAction → Prop
  | .cache action => CacheOrderly s.cache action
  | .takeSync _ => True
  | .advance d env => ∀ sync ∈ s.syncs.lookup d, SyncOrderly s env sync.task sync.phase

instance (s : State) : DecidablePred (CacheOrderly s) := fun action => inferInstanceAs (Decidable
  ((∀ path ∈ s.files action, s.shared.Dirty path) ∧ ∀ path ∈ s.writes action, s.shared.Dirty path))

instance (s : MarkerState) (env : Env) (task : DirectoryIndexSyncTask) : DecidablePred (SyncOrderly s env task)
  | .finish listedAt => inferInstanceAs (Decidable (env.ok = true → ∀ cell ∈ s.flushedAt.entries,
    parentPath cell.1 = task.physicalParentPath → listedAt < cell.2 → s.cache.shared.Dirty cell.1))
  | .clearDir => inferInstanceAs (Decidable
    ((∀ cell ∈ s.cache.shared.entries.entries, parentPath cell.1 ≠ task.physicalParentPath) ∧
      ∀ cell ∈ s.flushedAt.entries, s.unsynced cell.1 = true → parentPath cell.1 ≠ task.physicalParentPath))
  | .clearPaths keys => inferInstanceAs (Decidable
    (∀ key ∈ keys.head?, s.pending key = false ∧ s.unsynced key = false))
  | .list | .begin .. | .upsert .. | .retryCheck | .retryInsert | .checkTask | .clearScan | .done _ => isTrue trivial

instance : DecidableRel MarkersKept
  | s,.cache action => inferInstanceAs (Decidable (CacheOrderly s.cache action))
  | _,.takeSync _ => isTrue trivial
  | s,.advance d env => inferInstanceAs (Decidable
    (∀ sync ∈ s.syncs.lookup d, SyncOrderly s env sync.task sync.phase))

/-! ### Steps of the cache -/

/-- What a step of the cache does to markers and entries: markers are only set,
and where an entry is filed or a file written they stay as they are. -/
structure MarkerEffect (s s' : Shared) (filed written : Option Text) : Prop where
  dirty : ∀ path, s.Dirty path → s'.Dirty path
  entries : ∀ path, (s'.entries.lookup path).isSome = true →
    (s.entries.lookup path).isSome = true ∨ filed = some path
  filed : ∀ path ∈ filed, (s'.entries.lookup path).isSome = true ∧ (s'.Dirty path → s.Dirty path)
  written : ∀ path ∈ written, s'.Dirty path → s.Dirty path

section effects
variable {m : WriteCacheManager} {env : Env} {s s' : Shared}

theorem dirty_congr {path : Text} (paths : s'.dirtyPaths = s.dirtyPaths) (dirs : s'.dirtyDirs = s.dirtyDirs) :
    s'.Dirty path ↔ s.Dirty path := by
  unfold Shared.Dirty Shared.isDirtyPath Shared.isDirtyDir
  rw [paths,dirs]

theorem MarkerEffect.of_same {written : Option Text} (paths : s'.dirtyPaths = s.dirtyPaths)
    (dirs : s'.dirtyDirs = s.dirtyDirs)
    (entries : ∀ path, (s'.entries.lookup path).isSome = true → (s.entries.lookup path).isSome = true) :
    MarkerEffect s s' none written := by
  refine ⟨fun path => (dirty_congr paths dirs).mpr,fun path present => .inl (entries path present),?_,
    fun path _ => (dirty_congr paths dirs).mp⟩
  intro path impossible
  cases impossible

theorem isSome_insert {key other : Text} (cells : Store Text Unit)
    (held : (cells.lookup other).isSome = true) : ((cells.insert key ()).lookup other).isSome = true := by
  rw [Store.lookup_insert_eq]
  split
  · rfl
  · exact held

theorem enqueueStep_effect {tick : Nat} {e e' : EnqueueTask}
    (stepped : enqueueStep m tick env s e = some (s',e')) :
    MarkerEffect s s' (Task.files (.enqueue e)) none := by
  obtain ⟨target,data,phase,modifiedAt,deadlineAt,began,effectAt,endedAt⟩ := e
  unfold enqueueStep at stepped
  cases phase with
  | insert stored =>
    cases stepped
    refine ⟨fun _ dirty => dirty,?_,?_,?_⟩
    · intro path present
      simp only [Shared.insertRecord,Store.lookup_insert_eq] at present
      split at present
      next same => exact .inr (congrArg some same.symm)
      next => exact .inl present
    · rintro path ⟨⟩
      refine ⟨?_,fun dirty => dirty⟩
      simp [Shared.insertRecord,EnqueueTask.freshRecord]
    · intro path impossible
      cases impossible
  | markDirtyPath updated =>
    cases stepped
    refine ⟨?_,fun _ present => .inl present,?_,?_⟩
    · rintro path ⟨marked,dir⟩
      exact ⟨isSome_insert _ marked,dir⟩
    · intro path impossible
      cases impossible
    · intro path impossible
      cases impossible
  | markDirtyDir updated =>
    cases stepped
    refine ⟨?_,fun _ present => .inl present,?_,?_⟩
    · rintro path ⟨marked,dir⟩
      exact ⟨marked,isSome_insert _ dir⟩
    · intro path impossible
      cases impossible
    · intro path impossible
      cases impossible
  | _ =>
    dsimp only at stepped
    repeat' split at stepped
    all_goals cases stepped
    all_goals exact .of_same rfl rfl fun _ present => present

theorem flushStep_effect {f : FlushTask} {phase : FlushPhase} {written : Option Text}
    (stepped : flushStep m env s f = some (s',phase)) : MarkerEffect s s' none written := by
  have markers : s'.dirtyPaths = s.dirtyPaths ∧ s'.dirtyDirs = s.dirtyDirs := by
    unfold flushStep at stepped
    split at stepped
    next => cases stepped
    next inner found =>
      repeat' split at stepped
      all_goals cases stepped
      all_goals first
        | exact ⟨rfl,rfl⟩
        | (cases inner.blob <;> exact ⟨rfl,rfl⟩)
  apply MarkerEffect.of_same markers.1 markers.2
  intro path present
  rcases flushStep_entries stepped with same | erased
  · rw [← same]
    exact present
  · rw [erased,Store.lookup_erase_eq] at present
    split at present
    next => cases present
    next => exact present

theorem quotaStep_effect {q : QuotaTask} {phase : QuotaPhase}
    (stepped : quotaStep m env s q = some (s',phase)) : MarkerEffect s s' none none := by
  have same : s'.dirtyPaths = s.dirtyPaths ∧ s'.dirtyDirs = s.dirtyDirs ∧ s'.entries = s.entries := by
    unfold quotaStep at stepped
    repeat' split at stepped
    all_goals cases stepped
    all_goals exact ⟨rfl,rfl,rfl⟩
  apply MarkerEffect.of_same same.1 same.2.1
  intro path present
  rw [← same.2.2]
  exact present

theorem taskStep_effect {tick : Nat} {task task' : Task}
    (stepped : taskStep m tick env s task = some (s',task')) :
    MarkerEffect s s' task.files (task.writes env) := by
  cases task with
  | enqueue e =>
    obtain ⟨out,computed,same⟩ := Option.map_eq_some_iff.mp stepped
    cases same
    exact enqueueStep_effect computed
  | flush f =>
    obtain ⟨out,computed,same⟩ := Option.map_eq_some_iff.mp stepped
    cases same
    exact flushStep_effect computed
  | quotaSync q =>
    obtain ⟨out,computed,same⟩ := Option.map_eq_some_iff.mp stepped
    cases same
    exact quotaStep_effect computed

theorem cacheStep_effect {s s' : State} {action : Action} (stepped : cacheStep m s action = some s') :
    MarkerEffect s.shared s'.shared (s.files action) (s.writes action) := by
  rcases cacheStep_cases stepped with ⟨_,_,rfl,rfl⟩ | ⟨_,_,_,rfl,_,rfl⟩ | ⟨_,_,rfl,_,rfl⟩ |
    ⟨t,env,task,shared,task',rfl,found,computed,rfl⟩ | ⟨_,rfl,rfl⟩
  · exact .of_same rfl rfl fun _ present => present
  · exact .of_same rfl rfl fun _ present => present
  · exact .of_same rfl rfl fun _ present => present
  · simp only [State.files,State.writes,found,Option.bind_some]
    exact taskStep_effect computed
  · exact .of_same rfl rfl fun _ present => present

end effects

/-! ### Times -/

def DirSyncPhase.listedAt : DirSyncPhase → Option Nat
  | .begin listedAt _ | .upsert listedAt _ | .finish listedAt => some listedAt
  | _ => none

/-- Every listing lies in the past. -/
structure Timed (s : MarkerState) : Prop where
  listed : ∀ d sync, s.syncs.lookup d = some sync → ∀ listedAt ∈ sync.phase.listedAt, listedAt < s.tick
  synced : ∀ dir listedAt, s.syncedAt.lookup dir = some listedAt → listedAt < s.tick

section times
variable {m : WriteCacheManager} {chunkSize : Nat} {s next : MarkerState}

theorem dirSyncStep_listed {tick : Nat} {env : Env} {shared shared' : Shared} {sync : DirSync} {phase : DirSyncPhase}
    (stepped : dirSyncStep m chunkSize tick env shared sync = some (shared',phase)) :
    ∀ listedAt ∈ phase.listedAt, listedAt = tick ∨ listedAt ∈ sync.phase.listedAt := by
  obtain ⟨taskKey,task,now⟩ := sync
  unfold dirSyncStep at stepped
  intro listedAt member
  cases now with
  | list =>
    dsimp only at stepped
    split at stepped
    all_goals cases stepped
    · cases member
      exact .inl rfl
    · cases member
  | _ =>
    dsimp only at stepped
    repeat' split at stepped
    all_goals cases stepped
    all_goals first
      | exact .inr member
      | cases member

theorem timed_step {action : MarkerAction} (timed : Timed s)
    (stepped : markerStep m chunkSize s action = some next) : Timed next := by
  obtain ⟨listed,synced⟩ := timed
  have later {l : Nat} (earlier : l < s.tick) : l < s.tick + 1 := Nat.lt_succ_of_lt earlier
  cases action with
  | cache action =>
    obtain ⟨cache,_,rfl⟩ := Option.map_eq_some_iff.mp stepped
    exact ⟨fun d sync found l member => later (listed d sync found l member),
      fun dir l found => later (synced dir l found)⟩
  | takeSync taskKey =>
    obtain ⟨task,_,rfl⟩ := Option.map_eq_some_iff.mp stepped
    refine ⟨?_,fun dir l found => later (synced dir l found)⟩
    intro d sync found l member
    rw [Store.lookup_insert_eq] at found
    split at found
    next =>
      cases found
      cases member
    next => exact later (listed d sync found l member)
  | advance d env =>
    obtain ⟨sync,found,stepped⟩ := Option.bind_eq_some_iff.mp stepped
    obtain ⟨out,computed,rfl⟩ := Option.map_eq_some_iff.mp stepped
    constructor
    · intro e other present l member
      simp only [MarkerState.resume,Store.lookup_insert_eq] at present
      split at present
      next =>
        cases present
        rcases dirSyncStep_listed computed l member with rfl | before
        · exact Nat.lt_succ_self _
        · exact later (listed d sync found l before)
      next => exact later (listed e other present l member)
    · intro dir l present
      simp only [MarkerState.resume] at present
      cases committed : sync.phase.commits env with
      | none =>
        rw [committed] at present
        exact later (synced dir l present)
      | some at_ =>
        rw [committed,Option.elim_some,Store.lookup_insert_eq] at present
        split at present
        next =>
          cases present
          have finishing : l ∈ sync.phase.listedAt := by
            unfold DirSyncPhase.commits at committed
            split at committed
            next phase =>
              rw [phase]
              split at committed
              next => exact committed
              next => cases committed
            next => cases committed
          exact later (listed d sync found l finishing)
        next => exact later (synced dir l present)

end times

/-! ### When the markers cover -/

section covered
variable {m : WriteCacheManager} {chunkSize : Nat} {s : MarkerState}

/-- A file just written is not synced yet, whatever was listed before. -/
theorem unsynced_afterCache (timed : Timed s) (cache : State) (written : Option Text) (path : Text) :
    (s.afterCache cache written).unsynced path = true ↔ written = some path ∨ s.unsynced path = true := by
  cases written with
  | none => simp [MarkerState.afterCache,MarkerState.unsynced]
  | some q =>
    by_cases same : path = q
    · subst same
      have past : (s.syncedAt.lookup (parentPath path)).all (fun listed => decide (listed < s.tick)) = true := by
        cases found : s.syncedAt.lookup (parentPath path) with
        | none => rfl
        | some listed => simpa using timed.synced _ _ found
      simp [MarkerState.afterCache,MarkerState.unsynced,past]
    · have other : q ≠ path := Ne.symm same
      simp [MarkerState.afterCache,MarkerState.unsynced,same,other]

theorem covered_cache {cache : State} {action : Action} (timed : Timed s) (covered : Covered s)
    (stepped : cacheStep m s.cache action = some cache) :
    Covered (s.afterCache cache (s.cache.writes action)) ↔ CacheOrderly s.cache action := by
  obtain ⟨dirty,entries,filed,written⟩ := cacheStep_effect stepped
  have unsynced := unsynced_afterCache timed cache (s.cache.writes action)
  constructor
  · intro covered'
    constructor
    · intro path member
      obtain ⟨present,same⟩ := filed path member
      exact same (covered' path (.inl present))
    · intro path member
      exact written path member (covered' path (.inr ((unsynced path).mpr (.inl member))))
  · rintro ⟨files,writes⟩ path (pending | open_)
    · rcases entries path pending with before | new
      · exact dirty path (covered path (.inl before))
      · exact dirty path (files path new)
    · rcases (unsynced path).mp open_ with new | before
      · exact dirty path (writes path new)
      · exact dirty path (covered path (.inr before))

/-- A step that leaves markers, entries and the history alone. -/
theorem covered_still {s' : MarkerState} (covered : Covered s)
    (paths : s'.cache.shared.dirtyPaths = s.cache.shared.dirtyPaths)
    (dirs : s'.cache.shared.dirtyDirs = s.cache.shared.dirtyDirs)
    (entries : s'.cache.shared.entries = s.cache.shared.entries) (flushed : s'.flushedAt = s.flushedAt)
    (synced : s'.syncedAt = s.syncedAt) : Covered s' := by
  intro path needs
  apply (dirty_congr paths dirs).mpr
  apply covered path
  unfold MarkerState.pending MarkerState.unsynced at needs
  rw [entries,flushed,synced] at needs
  exact needs

theorem unsynced_commit {d listedAt : Nat} {shared : Shared} {sync : DirSync} (path : Text) :
    (s.resume d shared sync (some listedAt)).unsynced path =
      if parentPath path = sync.task.physicalParentPath then
        (s.flushedAt.lookup path).any fun flushed => decide (listedAt < flushed)
      else s.unsynced path := by
  simp only [MarkerState.unsynced,MarkerState.resume,Option.elim_some,Store.lookup_insert_eq]
  split
  · simp
  · rfl

/-- A commit leaves the paths flushed since its listing, and no others of its
directory, to be marked. -/
theorem covered_commit {d listedAt : Nat} {sync : DirSync} (covered : Covered s) :
    Covered (s.resume d s.cache.shared sync (some listedAt)) ↔
      ∀ cell ∈ s.flushedAt.entries, parentPath cell.1 = sync.task.physicalParentPath → listedAt < cell.2 →
        s.cache.shared.Dirty cell.1 := by
  constructor
  · intro covered' cell member inside since
    refine covered' cell.1 (.inr ?_)
    have found : s.flushedAt.lookup cell.1 = some cell.2 := AList.mem_lookup_iff.mpr member
    rw [unsynced_commit,if_pos inside,found]
    simpa using since
  · rintro marked path (pending | open_)
    · exact covered path (.inl pending)
    · rw [unsynced_commit] at open_
      split at open_
      next inside =>
        obtain ⟨flushed,found,since⟩ := Option.any_eq_true _ _ |>.mp open_
        exact marked ⟨path,flushed⟩ (AList.mem_lookup_iff.mp found) inside (of_decide_eq_true since)
      next => exact covered path (.inr open_)

theorem dirty_clearDir {shared : Shared} {dir path : Text} :
    Shared.Dirty path { shared with dirtyDirs := shared.dirtyDirs.erase dir } ↔
      shared.Dirty path ∧ parentPath path ≠ dir := by
  simp only [Shared.Dirty,Shared.isDirtyPath,Shared.isDirtyDir,Store.lookup_erase_eq]
  split
  next same => simp [same]
  next other => simp [other]

theorem dirty_clearPath {shared : Shared} {key path : Text} :
    Shared.Dirty path { shared with dirtyPaths := shared.dirtyPaths.erase key } ↔
      shared.Dirty path ∧ path ≠ key := by
  simp only [Shared.Dirty,Shared.isDirtyPath,Shared.isDirtyDir,Store.lookup_erase_eq]
  split
  next same => simp [same]
  next other => simp [other]

theorem covered_sync {d : Nat} {env : Env} {sync : DirSync} {shared : Shared} {phase : DirSyncPhase}
    (covered : Covered s)
    (stepped : dirSyncStep m chunkSize s.tick env s.cache.shared sync = some (shared,phase)) :
    Covered (s.resume d shared { sync with phase } (sync.phase.commits env)) ↔
      SyncOrderly s env sync.task sync.phase := by
  obtain ⟨taskKey,task,now⟩ := sync
  unfold dirSyncStep at stepped
  cases now with
  | finish listedAt =>
    dsimp only at stepped
    split at stepped
    next ok =>
      cases stepped
      simp only [DirSyncPhase.commits,ok,if_true,SyncOrderly,true_implies]
      exact covered_commit covered
    next failed =>
      cases stepped
      simp only [DirSyncPhase.commits,failed,SyncOrderly]
      exact iff_of_true (covered_still covered rfl rfl rfl rfl rfl) (fun impossible => by cases impossible)
  | clearDir =>
    cases stepped
    constructor
    · intro covered'
      constructor
      · intro cell member
        have found : s.cache.shared.entries.lookup cell.1 = some cell.2 := AList.mem_lookup_iff.mpr member
        have pending : s.pending cell.1 = true := by simp [MarkerState.pending,found]
        exact (dirty_clearDir.mp (covered' cell.1 (.inl pending))).2
      · intro cell _ open_
        exact (dirty_clearDir.mp (covered' cell.1 (.inr open_))).2
    · rintro ⟨entries,flushed⟩ path needs
      refine dirty_clearDir.mpr ⟨covered path needs,?_⟩
      rcases needs with pending | open_
      · obtain ⟨r,found⟩ := Option.isSome_iff_exists.mp pending
        exact entries ⟨path,r⟩ (AList.mem_lookup_iff.mp found)
      · obtain ⟨at_,found,_⟩ := Option.any_eq_true _ _ |>.mp open_
        exact flushed ⟨path,at_⟩ (AList.mem_lookup_iff.mp found) open_
  | clearPaths keys =>
    cases keys with
    | nil =>
      cases stepped
      exact iff_of_true (covered_still covered rfl rfl rfl rfl rfl) (fun key impossible => by cases impossible)
    | cons key rest =>
      cases stepped
      constructor
      · rintro covered' _ ⟨⟩
        constructor
        · rw [Bool.eq_false_iff]
          intro pending
          exact (dirty_clearPath.mp (covered' key (.inl pending))).2 rfl
        · rw [Bool.eq_false_iff]
          intro open_
          exact (dirty_clearPath.mp (covered' key (.inr open_))).2 rfl
      · intro clear path needs
        refine dirty_clearPath.mpr ⟨covered path needs,?_⟩
        rintro rfl
        obtain ⟨pending,open_⟩ := clear path rfl
        rcases needs with present | since
        · exact Bool.eq_false_iff.mp pending present
        · exact Bool.eq_false_iff.mp open_ since
  | _ =>
    dsimp only at stepped
    repeat' split at stepped
    all_goals cases stepped
    all_goals exact iff_of_true (covered_still covered rfl rfl rfl rfl rfl) trivial

end covered

/-- A cache, at whatever point, none of whose directories has been synced and all
of whose entries are marked. -/
structure MarkerStart (s : MarkerState) : Prop where
  syncs : s.syncs = ∅
  flushed : s.flushedAt = ∅
  synced : s.syncedAt = ∅
  covered : Covered s

theorem MarkerStart.timed {s : MarkerState} (start : MarkerStart s) : Timed s := by
  constructor
  · intro d sync found
    rw [start.syncs,AList.lookup_empty] at found
    cases found
  · intro dir listedAt found
    rw [start.synced,AList.lookup_empty] at found
    cases found

/-- Along an execution every pending or unsynced path is marked exactly when
entries are filed and files written under their markers, and no sync takes away
the markers of what is pending or flushed since its listing. -/
theorem dirty_markers_cover_iff {m : WriteCacheManager} {chunkSize : Nat} {s final : MarkerState}
    {actions : List MarkerAction} (start : MarkerStart s)
    (computed : (markers m chunkSize).exec s actions = some final) :
    (∀ done, done <+: actions → ∀ reached, (markers m chunkSize).exec s done = some reached →
      Covered reached) ↔ (markers m chunkSize).Run MarkersKept s actions final := by
  apply Transition.System.exec_always_iff (I := Timed)
  · intro s action next timed stepped
    exact timed_step timed stepped
  · intro s action next timed covered stepped
    cases action with
    | cache action =>
      obtain ⟨cache,moved,rfl⟩ := Option.map_eq_some_iff.mp stepped
      exact covered_cache timed covered moved
    | takeSync taskKey =>
      obtain ⟨task,_,rfl⟩ := Option.map_eq_some_iff.mp stepped
      exact iff_of_true (covered_still covered rfl rfl rfl rfl rfl) trivial
    | advance d env =>
      obtain ⟨sync,found,stepped⟩ := Option.bind_eq_some_iff.mp stepped
      obtain ⟨out,advanced,rfl⟩ := Option.map_eq_some_iff.mp stepped
      have one : MarkersKept s (.advance d env) ↔ SyncOrderly s env sync.task sync.phase := by
        simp [MarkersKept,found]
      rw [one]
      exact covered_sync covered advanced
  · exact start.timed
  · exact start.covered
  · exact computed

/-! ### Small executions -/

/-- A cache opened on the pending blob of one file. -/
def loadedA : State :=
  let record : PendingWriteRecord := ⟨fileA,freshPending (.disk (dataPath .queue fileA.path)) 1 0 60⟩
  let shared := ((State.fresh ∅).shared.insertRecord record).markIndexSync 0 fileA
  { State.fresh ∅ with
    shared := { shared with
      blobs := shared.blobs.insert (dataPath .queue fileA.path) [1]
      dirtyPaths := shared.dirtyPaths.insert fileA.path ()
      dirtyDirs := shared.dirtyDirs.insert (parentPath fileA.path) () } }

def MarkerState.opened (cache : State) : MarkerState := ⟨cache,∅,0,0,∅,∅⟩

def syncKeyA : Text := fileA.userId ++ '\n' :: parentPath fileA.logicalPath

def syncAdvances (sync steps : Nat) : List MarkerAction := List.replicate steps (.advance sync ⟨true,0⟩)

/-- The entry is flushed and its directory synced after that. -/
def flushThenSync : List MarkerAction :=
  (Action.flush 0 true :: advances 0 11).map .cache ++ .takeSync syncKeyA :: syncAdvances 0 10

theorem flush_then_sync_covered : ∃ final,
    (markers diskManager 1).exec (.opened loadedA) flushThenSync = some final ∧
      ((∀ done, done <+: flushThenSync → ∀ reached, (markers diskManager 1).exec (.opened loadedA) done =
          some reached → Covered reached) ↔
        (markers diskManager 1).Run MarkersKept (.opened loadedA) flushThenSync final) := by
  have runs : ((markers diskManager 1).exec (.opened loadedA) flushThenSync).isSome = true := by decide +kernel
  obtain ⟨final,computed⟩ := Option.isSome_iff_exists.mp runs
  have covered : Covered (.opened loadedA) := by decide +kernel
  exact ⟨final,computed,dirty_markers_cover_iff ⟨rfl,rfl,rfl,covered⟩ computed⟩

example : ((markers diskManager 1).execAllowed MarkersKept (.opened loadedA) flushThenSync).isSome = true := by
  decide +kernel

/-- A new file whose directory is synced before it is flushed. -/
def syncBeforeFlush : List MarkerAction :=
  (.enqueue fileA [1] :: advances 0 10).map .cache ++ .takeSync syncKeyA :: syncAdvances 0 9

/-- The sync takes away the markers of the entry, which is still pending. -/
theorem early_sync_unmarks : ¬ ∀ actions final,
    (markers memoryManager 1).exec (.opened (.fresh ∅)) actions = some final → Covered final :=
  Transition.System.exec_refutes syncBeforeFlush (by decide +kernel)

end StorageHub.WriteCache
