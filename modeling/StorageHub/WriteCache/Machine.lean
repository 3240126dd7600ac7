import StorageHub.Library.Transition
import StorageHub.WriteCache.Record

/-! The write cache as a transition system. One step is one lock section, one
operation on a shared map, or one operation on the primary backend or on a blob
file; the environment chooses the clock reading and whether the operation
succeeds. An operation that fails changes nothing. -/
namespace StorageHub.WriteCache
open Library Paths

abbrev RecordId := Nat

/-- What all running tasks share. -/
structure Shared where
  records : Store RecordId PendingWriteRecord
  nextRecord : RecordId
  entries : Store Text RecordId
  blobs : Store BlobFile Bytes
  metas : Store BlobFile PendingWriteDiskMeta
  nextUuid : Nat
  primary : Store Text Bytes
  readCache : Store Text Bytes
  accountedBytes : Nat
  dirtyPaths : Store Text Unit
  dirtyDirs : Store Text Unit
  indexSyncDirs : Store Text DirectoryIndexSyncTask
  quotaSyncUsers : Store Text UserQuotaSyncTask
  storageUsed : Text → Int

structure Env where
  ok : Bool
  now : Int
  deriving DecidableEq,Repr

namespace Shared
variable (s : Shared)

def inner (r : RecordId) : Option PendingWriteMutable := (s.records.lookup r).map (·.inner)

def setInner (r : RecordId) (inner : PendingWriteMutable) : Shared :=
  let records := match s.records.lookup r with
    | some record => s.records.insert r { record with inner }
    | none => s.records
  { s with records }

def insertRecord (record : PendingWriteRecord) : Shared :=
  { s with
    records := s.records.insert s.nextRecord record
    nextRecord := s.nextRecord + 1
    entries := s.entries.insert record.target.path s.nextRecord }

def content : PendingWriteBlob → Option Bytes
  | .memory data => some data
  | .disk file => s.blobs.lookup file

/-- The size a `stat` of the primary reports. -/
def stat (env : Env) (path : Text) : Option Int :=
  if env.ok then (s.primary.lookup path).map fun data => (data.length : Int) else none

def removeFile (env : Env) (file : BlobFile) : Shared :=
  { s with blobs := if env.ok then s.blobs.erase file else s.blobs }

def removeMetaFile (env : Env) (file : BlobFile) : Shared :=
  { s with metas := if env.ok then s.metas.erase file else s.metas }

def removeBlobFiles (env : Env) : PendingWriteBlob → Shared
  | .memory _ => s
  | .disk file => (s.removeFile env file).removeMetaFile env file

def forgetRead (m : WriteCacheManager) (path : Text) : Shared :=
  { s with readCache := if m.readCache.isSome then s.readCache.erase path else s.readCache }

/-- `ReadCacheManager::put`; the read cache may drop what it is given, for want
of room or because a file fails. -/
def putRead (m : WriteCacheManager) (env : Env) (path : Text) (data : Bytes) : Shared :=
  let readCache := match m.readCache with
    | none => s.readCache
    | some admits =>
      if admits path data.length then
        if env.ok then s.readCache.insert path data else s.readCache.erase path
      else s.readCache
  { s with readCache }

/-- The directory-index task an enqueue leaves behind, replacing an older one. -/
def markIndexSync (now : Int) (target : CacheTarget) : Shared :=
  let key := target.userId ++ '\n' :: parentPath target.logicalPath
  let task : DirectoryIndexSyncTask :=
    ⟨target.userId,parentPath target.logicalPath,parentPath target.path,now + 1,0⟩
  { s with indexSyncDirs := s.indexSyncDirs.insert key task }

def scheduleIndexSync (m : WriteCacheManager) (now : Int) (target : CacheTarget) : Shared :=
  let key := target.userId ++ '\n' :: parentPath target.logicalPath
  let task : DirectoryIndexSyncTask := match s.indexSyncDirs.lookup key with
    | some task => { task with nextSyncAt := now + 1, retryCount := 0 }
    | none => ⟨target.userId,parentPath target.logicalPath,parentPath target.path,now + 1,0⟩
  let indexSyncDirs :=
    if m.policy.allows target.logicalPath then s.indexSyncDirs.insert key task else s.indexSyncDirs
  { s with indexSyncDirs }

def updateStorageUsed (userId : Text) (delta : Int) : Shared :=
  { s with storageUsed := Function.update s.storageUsed userId (s.storageUsed userId + delta) }

def mergeQuota (userKey : Text) (task : UserQuotaSyncTask) : Shared :=
  { s with quotaSyncUsers := s.quotaSyncUsers.insert userKey task }

end Shared

def UserQuotaSyncTask.grow (now delta : Int) (task : UserQuotaSyncTask) : UserQuotaSyncTask :=
  { task with delta := task.delta + delta, nextSyncAt := now + 1, retryCount := 0 }

/-- A task put back after a failed database update, with `delta` added. -/
def UserQuotaSyncTask.retry (m : WriteCacheManager) (now delta : Int) (task : UserQuotaSyncTask) :
    UserQuotaSyncTask :=
  let retryCount := min (task.retryCount + 1) u32Max
  { task with
    delta := task.delta + delta
    nextSyncAt := now + m.retryDelaySecs retryCount false
    retryCount }

/-! ### Enqueue -/

inductive EnqueueOutcome
  | acknowledged
  | bypassed
  | failed
  deriving DecidableEq,Repr

inductive EnqueuePhase
  | start
  | admitLookup
  | admitLoad (existingAccounted : Nat)
  | lookup
  | bump (record : RecordId)
  | stageBlob (record : RecordId) (generation previous : Nat) (dir : BlobDir)
  | stageMeta (record : RecordId) (generation previous : Nat) (file : BlobFile)
  | swap (record : RecordId) (generation previous : Nat) (staged : Option BlobFile)
  | removeBlob (record : RecordId) (file : BlobFile)
  | removeMeta (record : RecordId) (file : BlobFile)
  | storeBlob
  | storeMeta
  | account (stored : Bool)
  | insert (stored : Bool)
  | markDirtyPath (updated : Option RecordId)
  | markDirtyDir (updated : Option RecordId)
  | markIndexSync (updated : Option RecordId)
  | readSize (record : RecordId)
  | done (outcome : EnqueueOutcome)
  deriving DecidableEq,Repr

/-- A running `enqueue`. The last three fields are a history that no step
reads: when the call began, when its data took effect and when it returned. -/
structure EnqueueTask where
  target : CacheTarget
  data : Bytes
  phase : EnqueuePhase
  modifiedAt : Int
  deadlineAt : Int
  began : Nat
  effectAt : Option Nat
  endedAt : Option Nat
  deriving DecidableEq

namespace EnqueueTask

def begin (target : CacheTarget) (data : Bytes) (tick : Nat) : EnqueueTask :=
  ⟨target,data,.start,0,0,tick,none,none⟩

def goto (e : EnqueueTask) (phase : EnqueuePhase) : EnqueueTask := { e with phase }

def stamp (m : WriteCacheManager) (now : Int) (e : EnqueueTask) : EnqueueTask :=
  { e with modifiedAt := now, deadlineAt := now + m.flushDeadlineSecs }

def bumped (e : EnqueueTask) (inner : PendingWriteMutable) : PendingWriteMutable :=
  beginUpdate e.data.length e.modifiedAt e.deadlineAt inner

def takeEffect (e : EnqueueTask) (tick : Nat) (phase : EnqueuePhase) : EnqueueTask :=
  { e with phase, effectAt := some tick }

def finish (e : EnqueueTask) (tick : Nat) (outcome : EnqueueOutcome) : EnqueueTask :=
  { e with phase := .done outcome, endedAt := some tick }

def diskMeta (e : EnqueueTask) (blobPath : Option BlobFile) (generation : Nat) (abnormal : Bool) :
    PendingWriteDiskMeta :=
  ⟨e.target.userId,e.target.logicalPath,e.target.path,blobPath,e.data.length,e.modifiedAt,
    e.deadlineAt,generation,abnormal⟩

end EnqueueTask

/-- The blob of an update: its data, or the file staged for it. -/
def EnqueueTask.stagedBlob (e : EnqueueTask) : Option BlobFile → PendingWriteBlob
  | none => .memory e.data
  | some file => .disk file

/-- The blob of a new entry: its data, or the queue file named after the path. -/
def EnqueueTask.storedBlob (e : EnqueueTask) (stored : Bool) : PendingWriteBlob :=
  if stored then .disk (dataPath .queue e.target.path) else .memory e.data

def EnqueueTask.freshRecord (e : EnqueueTask) (stored : Bool) : PendingWriteRecord :=
  ⟨e.target,freshPending (e.storedBlob stored) e.data.length e.modifiedAt e.deadlineAt⟩

/-- Where an update goes once its old or its superseded blob is known. -/
def discardPhase (record : RecordId) (blob : PendingWriteBlob) : EnqueuePhase :=
  match blob with
  | .memory _ => .markDirtyPath (some record)
  | .disk file => .removeBlob record file

def enqueueStep (m : WriteCacheManager) (tick : Nat) (env : Env) (s : Shared) (e : EnqueueTask) :
    Option (Shared × EnqueueTask) :=
  match e.phase with
  | .start =>
    if m.shouldCache e.target.logicalPath e.data.length then
      some (s.forgetRead m e.target.path,e.goto .admitLookup)
    else some (s,e.finish tick .bypassed)
  | .admitLookup =>
    -- the map entry stays borrowed while its lock is taken, so both are one step
    match s.entries.lookup e.target.path with
    | none => some (s,e.goto (.admitLoad 0))
    | some r =>
      match s.inner r with
      | none => none
      | some inner => some (s,e.goto (.admitLoad (m.accountedBytesForBlob inner)))
  | .admitLoad existingAccounted =>
    if m.admits s.accountedBytes existingAccounted e.data.length then some (s,e.goto .lookup)
    else some (s,e.finish tick .bypassed)
  | .lookup =>
    match s.entries.lookup e.target.path with
    | some r => some (s,(e.stamp m env.now).goto (.bump r))
    | none => some (s,(e.stamp m env.now).goto .storeBlob)
  | .bump r =>
    match s.inner r with
    | none => none
    | some inner =>
      match m.updatePlan inner.blob with
      | none =>
        some (s.setInner r (e.bumped inner),e.goto (.swap r (e.bumped inner).generation
          (m.accountedBytesForBlob inner) none))
      | some dir =>
        some (s.setInner r (e.bumped inner),e.goto (.stageBlob r (e.bumped inner).generation
          (m.accountedBytesForBlob inner) dir))
  | .stageBlob r generation previous dir =>
    if env.ok then
      let file := stagedPath dir e.target.path s.nextUuid
      some ({ s with blobs := s.blobs.insert file e.data, nextUuid := s.nextUuid + 1 },
        e.goto (.stageMeta r generation previous file))
    else some (s,e.finish tick .failed)
  | .stageMeta r generation previous file =>
    if env.ok then
      let abnormal := file.dir == .abnormal
      some ({ s with metas := s.metas.insert file (e.diskMeta (some file) generation abnormal) },
        e.goto (.swap r generation previous (some file)))
    else some (s,e.finish tick .failed)
  | .swap r generation previous staged =>
    match s.inner r with
    | none => none
    | some inner =>
      if inner.generation = generation then
        let current := { inner with blob := e.stagedBlob staged }
        let accountedBytes := reaccount s.accountedBytes previous (m.accountedBytesForBlob current)
        some ({ s.setInner r current with accountedBytes },
          e.takeEffect tick (discardPhase r inner.blob))
      else some (s,e.goto (discardPhase r (e.stagedBlob staged)))
  | .removeBlob r file => some (s.removeFile env file,e.goto (.removeMeta r file))
  | .removeMeta r file => some (s.removeMetaFile env file,e.goto (.markDirtyPath (some r)))
  | .storeBlob =>
    match m.backend with
    | .memory => some (s,e.goto (.account false))
    | .localDir =>
      if env.ok then
        let file := dataPath .queue e.target.path
        some ({ s with blobs := s.blobs.insert file e.data },e.goto .storeMeta)
      else some (s,e.finish tick .failed)
  | .storeMeta =>
    if env.ok then
      let file := dataPath .queue e.target.path
      some ({ s with metas := s.metas.insert file (e.diskMeta none 1 false) },e.goto (.account true))
    else some (s,e.finish tick .failed)
  | .account stored =>
    let accounted := m.accountedBytesForBlob (e.freshRecord stored).inner
    some ({ s with accountedBytes := fetchAdd s.accountedBytes accounted },e.goto (.insert stored))
  | .insert stored =>
    some (s.insertRecord (e.freshRecord stored),e.takeEffect tick (.markDirtyPath none))
  | .markDirtyPath updated =>
    some ({ s with dirtyPaths := s.dirtyPaths.insert e.target.path () },e.goto (.markDirtyDir updated))
  | .markDirtyDir updated =>
    some ({ s with dirtyDirs := s.dirtyDirs.insert (parentPath e.target.path) () },
      e.goto (.markIndexSync updated))
  | .markIndexSync updated =>
    match updated with
    | some r => some (s.markIndexSync env.now e.target,e.goto (.readSize r))
    | none => some (s.markIndexSync env.now e.target,e.finish tick .acknowledged)
  | .readSize r =>
    match s.inner r with
    | none => none
    | some _ => some (s,e.finish tick .acknowledged)
  | .done _ => none

/-! ### Flush -/

structure FlushSnapshot where
  blob : PendingWriteBlob
  generation : Nat
  size : Nat
  modifiedAt : Int
  deadlineAt : Int
  deriving DecidableEq,Repr

structure PromotionSnapshot where
  generation : Nat
  size : Nat
  modifiedAt : Int
  deadlineAt : Int
  previousAccounted : Nat
  deriving DecidableEq,Repr

inductive FlushPhase
  | snapshot
  | readBlob (taken : FlushSnapshot)
  | statBefore (taken : FlushSnapshot) (data : Bytes)
  | write (taken : FlushSnapshot) (data : Bytes) (previousSize : Int)
  | noteFailure (taken : FlushSnapshot) (data : Bytes)
  | promoteRead (taken : FlushSnapshot) (data : Bytes)
  | promoteMark (taken : FlushSnapshot) (generation : Nat)
  | alreadyAbnormal (taken : FlushSnapshot)
  | promoteStageBlob (taken : FlushSnapshot) (data : Bytes) (promo : PromotionSnapshot)
  | promoteStageMeta (taken : FlushSnapshot) (data : Bytes) (promo : PromotionSnapshot) (file : BlobFile)
  | promoteSwap (taken : FlushSnapshot) (data : Bytes) (promo : PromotionSnapshot) (file : BlobFile)
  | promoteDiscardBlob (taken : FlushSnapshot) (data : Bytes) (file : BlobFile)
  | promoteDiscardMeta (taken : FlushSnapshot) (file : BlobFile)
  | promoted (taken : FlushSnapshot) (oldBlob : PendingWriteBlob)
  | retireBlob (file : BlobFile)
  | retireMeta (file : BlobFile)
  | finishFailure (taken : FlushSnapshot)
  | statAfter (taken : FlushSnapshot) (data : Bytes) (previousSize : Int)
  | check (taken : FlushSnapshot) (data : Bytes) (previousSize infoSize : Int)
  | removeEntry (data : Bytes) (delta : Int)
  | putReadCache (data : Bytes) (delta : Int)
  | indexSync (delta : Int)
  | quotaGet (delta : Int)
  | quotaRemove
  | quotaInsert (delta : Int)
  | done (ok : Bool)
  deriving DecidableEq,Repr

structure FlushTask where
  record : RecordId
  target : CacheTarget
  force : Bool
  phase : FlushPhase
  deriving DecidableEq

/-- `schedule_quota_sync` has nothing to do for these paths. -/
def quotaExempt (logicalPath : Text) : Bool :=
  Text.contains "/.thumbs".toList logicalPath || Text.contains "/.thumbs_cache".toList logicalPath

def FlushTask.promotionMeta (f : FlushTask) (promo : PromotionSnapshot) (file : BlobFile) :
    PendingWriteDiskMeta :=
  ⟨f.target.userId,f.target.logicalPath,f.target.path,some file,promo.size,promo.modifiedAt,
    promo.deadlineAt,promo.generation,true⟩

def flushStep (m : WriteCacheManager) (env : Env) (s : Shared) (f : FlushTask) :
    Option (Shared × FlushPhase) :=
  -- the record outlives its flushes; its value is read only where the lock is held
  match s.inner f.record with
  | none => none
  | some inner =>
  match f.phase with
  | .snapshot =>
    if inner.state = .flushing ∨ (f.force = false ∧ env.now < inner.nextRetryAt) then
      some (s,.done true)
    else
      some (s.setInner f.record { inner with state := .flushing },.readBlob
        ⟨inner.blob,inner.generation,inner.size,inner.modifiedAt,inner.deadlineAt⟩)
  | .readBlob taken =>
    -- the bytes of a memory blob are at hand; only a file can fail to be read
    match taken.blob,(if env.ok then s.content taken.blob else none) with
    | .memory data,_ => some (s,.statBefore taken data)
    | .disk _,some data => some (s,.statBefore taken data)
    | .disk _,none => some (s,.done false)
  | .statBefore taken data =>
    some (s,.write taken data ((s.stat env f.target.path).getD 0))
  | .write taken data previousSize =>
    if env.ok then
      some ({ s with primary := s.primary.insert f.target.path data },
        .statAfter taken data previousSize)
    else some (s,.noteFailure taken data)
  | .noteFailure taken data =>
    if taken.deadlineAt < env.now then
      some (s.setInner f.record (m.noteFailure env.now inner),.promoteRead taken data)
    else some (s.setInner f.record (m.noteFailure env.now inner),.finishFailure taken)
  | .promoteRead taken data =>
    if inner.blob.isAbnormal then some (s,.promoteMark taken inner.generation)
    else some (s,.promoteStageBlob taken data ⟨inner.generation,inner.size,inner.modifiedAt,
      inner.deadlineAt,m.accountedBytesForBlob inner⟩)
  | .promoteMark taken generation =>
    if inner.generation = generation then
      some (s.setInner f.record { inner with state := .abnormal },.alreadyAbnormal taken)
    else some (s,.alreadyAbnormal taken)
  | .alreadyAbnormal taken =>
    some (s.setInner f.record { inner with state := .abnormal },.finishFailure taken)
  | .promoteStageBlob taken data promo =>
    if env.ok then
      let file := stagedPath .abnormal f.target.path s.nextUuid
      some ({ s with blobs := s.blobs.insert file data, nextUuid := s.nextUuid + 1 },
        .promoteStageMeta taken data promo file)
    else some (s,.finishFailure taken)
  | .promoteStageMeta taken data promo file =>
    if env.ok then
      some ({ s with metas := s.metas.insert file (f.promotionMeta promo file) },
        .promoteSwap taken data promo file)
    else some (s,.finishFailure taken)
  | .promoteSwap taken data promo file =>
    if inner.generation = promo.generation then
      let current := { inner with blob := .disk file, state := .abnormal }
      let accountedBytes :=
        reaccount s.accountedBytes promo.previousAccounted (m.accountedBytesForBlob current)
      some ({ s.setInner f.record current with accountedBytes },.promoted taken inner.blob)
    else some (s,.promoteDiscardBlob taken data file)
  | .promoteDiscardBlob taken _ file =>
    some (s.removeFile env file,.promoteDiscardMeta taken file)
  | .promoteDiscardMeta taken file =>
    some (s.removeMetaFile env file,.finishFailure taken)
  | .promoted taken oldBlob =>
    if inner.abnormalLogged then some (s,.finishFailure taken)
    else
      match oldBlob with
      | .memory _ => some (s.setInner f.record (m.logAbnormal env.now inner),.done false)
      | .disk file => some (s.setInner f.record (m.logAbnormal env.now inner),.retireBlob file)
  | .retireBlob file => some (s.removeFile env file,.retireMeta file)
  | .retireMeta file => some (s.removeMetaFile env file,.done false)
  | .finishFailure taken =>
    some (s.setInner f.record (m.finishFailure env.now taken.deadlineAt inner),.done false)
  | .statAfter taken data previousSize =>
    some (s,.check taken data previousSize ((s.stat env f.target.path).getD taken.size))
  | .check taken data previousSize infoSize =>
    if inner.generation ≠ taken.generation then
      some (s.setInner f.record { inner with state := .pending, nextRetryAt := env.now },
        .done true)
    else
      let accountedBytes := fetchSub s.accountedBytes (m.accountedBytesForBlob inner)
      some ({ s.removeBlobFiles env inner.blob with accountedBytes },
        .removeEntry data (infoSize - previousSize))
  | .removeEntry data delta =>
    some ({ s with entries := s.entries.erase f.target.path },.putReadCache data delta)
  | .putReadCache data delta =>
    some (s.putRead m env f.target.path data,.indexSync delta)
  | .indexSync delta => some (s.scheduleIndexSync m env.now f.target,.quotaGet delta)
  | .quotaGet delta =>
    if delta = 0 ∨ quotaExempt f.target.logicalPath then some (s,.done true)
    else
      match s.quotaSyncUsers.lookup f.target.userId with
      | some task =>
        if task.delta + delta = 0 then
          some (s.mergeQuota f.target.userId (task.grow env.now delta),.quotaRemove)
        else some (s.mergeQuota f.target.userId (task.grow env.now delta),.done true)
      | none => some (s,.quotaInsert delta)
  | .quotaRemove =>
    some ({ s with quotaSyncUsers := s.quotaSyncUsers.erase f.target.userId },.done true)
  | .quotaInsert delta =>
    some (s.mergeQuota f.target.userId ⟨f.target.userId,delta,env.now + 1,0⟩,.done true)
  | .done _ => none

/-! ### Quota synchronisation -/

inductive QuotaPhase
  | apply
  | reinsert
  | done (ok : Bool)
  deriving DecidableEq,Repr

structure QuotaTask where
  userKey : Text
  task : UserQuotaSyncTask
  phase : QuotaPhase
  deriving DecidableEq,Repr

def quotaStep (m : WriteCacheManager) (env : Env) (s : Shared) (q : QuotaTask) :
    Option (Shared × QuotaPhase) :=
  match q.phase with
  | .apply =>
    if q.task.delta = 0 then some (s,.done true)
    else if env.ok then
      some (s.updateStorageUsed q.task.userId q.task.delta,.done true)
    else some (s,.reinsert)
  | .reinsert =>
    match s.quotaSyncUsers.lookup q.userKey with
    | some current =>
      some (s.mergeQuota q.userKey (current.retry m env.now q.task.delta),.done false)
    | none => some (s.mergeQuota q.userKey (q.task.retry m env.now 0),.done false)
  | .done _ => none

/-! ### The system -/

inductive Task
  | enqueue (e : EnqueueTask)
  | flush (f : FlushTask)
  | quotaSync (q : QuotaTask)
  deriving DecidableEq

structure State where
  shared : Shared
  tasks : Store Nat Task
  nextTask : Nat
  clock : Nat

/-- A new call or background task, a step of a running one, or the read cache
letting an entry go. -/
inductive Action
  | enqueue (target : CacheTarget) (data : Bytes)
  | flush (record : RecordId) (force : Bool)
  | takeQuota (userKey : Text)
  | advance (task : Nat) (env : Env)
  | evict (path : Text)
  deriving DecidableEq

namespace State

def spawn (s : State) (shared : Shared) (task : Task) : State :=
  ⟨shared,s.tasks.insert s.nextTask task,s.nextTask + 1,s.clock + 1⟩

def resume (s : State) (t : Nat) (shared : Shared) (task : Task) : State :=
  { s with shared, tasks := s.tasks.insert t task, clock := s.clock + 1 }

end State

/-- A manager just created: nothing cached, nothing pending, nothing running. -/
def State.fresh (primary : Store Text Bytes) : State where
  shared :=
    { records := ∅
      nextRecord := 0
      entries := ∅
      blobs := ∅
      metas := ∅
      nextUuid := 0
      primary
      readCache := ∅
      accountedBytes := 0
      dirtyPaths := ∅
      dirtyDirs := ∅
      indexSyncDirs := ∅
      quotaSyncUsers := ∅
      storageUsed := fun _ => 0 }
  tasks := ∅
  nextTask := 0
  clock := 0

def taskStep (m : WriteCacheManager) (tick : Nat) (env : Env) (s : Shared) :
    Task → Option (Shared × Task)
  | .enqueue e => (enqueueStep m tick env s e).map fun out => (out.1,.enqueue out.2)
  | .flush f => (flushStep m env s f).map fun out => (out.1,.flush { f with phase := out.2 })
  | .quotaSync q => (quotaStep m env s q).map fun out => (out.1,.quotaSync { q with phase := out.2 })

def cacheStep (m : WriteCacheManager) (s : State) : Action → Option State
  | .enqueue target data =>
    some (s.spawn s.shared (.enqueue (.begin target data s.clock)))
  | .flush r force => (s.shared.records.lookup r).map fun record =>
    s.spawn s.shared (.flush ⟨r,record.target,force,.snapshot⟩)
  | .takeQuota userKey => (s.shared.quotaSyncUsers.lookup userKey).map fun task =>
    s.spawn { s.shared with quotaSyncUsers := s.shared.quotaSyncUsers.erase userKey }
      (.quotaSync ⟨userKey,task,.apply⟩)
  | .advance t env => (s.tasks.lookup t).bind fun task =>
    (taskStep m s.clock env s.shared task).map fun out => s.resume t out.1 out.2
  | .evict path =>
    let readCache := s.shared.readCache.erase path
    some { s with shared := { s.shared with readCache }, clock := s.clock + 1 }

def cache (m : WriteCacheManager) : Transition.System State Action := ⟨cacheStep m⟩

/-- Task numbers from `nextTask` on are unused. -/
def Numbered (s : State) : Prop := ∀ t, s.nextTask ≤ t → s.tasks.lookup t = none

/-- A step either starts a task under a fresh number, advances one, or touches
nothing but the read cache. -/
theorem cacheStep_cases {m : WriteCacheManager} {s s' : State} {action : Action}
    (stepped : cacheStep m s action = some s') :
    (∃ target data, action = .enqueue target data ∧
      s' = s.spawn s.shared (.enqueue (.begin target data s.clock))) ∨
    (∃ r force record, action = .flush r force ∧ s.shared.records.lookup r = some record ∧
      s' = s.spawn s.shared (.flush ⟨r,record.target,force,.snapshot⟩)) ∨
    (∃ userKey task, action = .takeQuota userKey ∧
      s.shared.quotaSyncUsers.lookup userKey = some task ∧
      s' = s.spawn { s.shared with quotaSyncUsers := s.shared.quotaSyncUsers.erase userKey }
        (.quotaSync ⟨userKey,task,.apply⟩)) ∨
    (∃ t env task shared task', action = .advance t env ∧ s.tasks.lookup t = some task ∧
      taskStep m s.clock env s.shared task = some (shared,task') ∧ s' = s.resume t shared task') ∨
    (∃ path, action = .evict path ∧
      s' = { s with
        shared := { s.shared with readCache := s.shared.readCache.erase path }
        clock := s.clock + 1 }) := by
  cases action with
  | enqueue target data => exact .inl ⟨target,data,rfl,(Option.some.inj stepped).symm⟩
  | flush r force =>
    obtain ⟨record,found,rfl⟩ := Option.map_eq_some_iff.mp stepped
    exact .inr (.inl ⟨r,force,record,rfl,found,rfl⟩)
  | takeQuota userKey =>
    obtain ⟨task,found,rfl⟩ := Option.map_eq_some_iff.mp stepped
    exact .inr (.inr (.inl ⟨userKey,task,rfl,found,rfl⟩))
  | advance t env =>
    obtain ⟨task,found,advanced⟩ := Option.bind_eq_some_iff.mp stepped
    obtain ⟨⟨shared,task'⟩,computed,rfl⟩ := Option.map_eq_some_iff.mp advanced
    exact .inr (.inr (.inr (.inl ⟨t,env,task,shared,task',rfl,found,computed,rfl⟩)))
  | evict path => exact .inr (.inr (.inr (.inr ⟨path,rfl,(Option.some.inj stepped).symm⟩)))

theorem numbered_spawn {s : State} (numbered : Numbered s) (shared : Shared) (task : Task) :
    Numbered (s.spawn shared task) := by
  intro t beyond
  have later : s.nextTask + 1 ≤ t := beyond
  change (s.tasks.insert s.nextTask task).lookup t = none
  rw [Store.lookup_insert_eq,if_neg (by omega)]
  exact numbered t (by omega)

theorem numbered_step {m : WriteCacheManager} {s s' : State} {action : Action}
    (numbered : Numbered s) (stepped : cacheStep m s action = some s') : Numbered s' := by
  rcases cacheStep_cases stepped with ⟨_,_,_,rfl⟩ | ⟨_,_,_,_,_,rfl⟩ | ⟨_,_,_,_,rfl⟩ |
    ⟨t,env,task,shared,task',-,found,-,rfl⟩ | ⟨_,_,rfl⟩
  · exact numbered_spawn numbered _ _
  · exact numbered_spawn numbered _ _
  · exact numbered_spawn numbered _ _
  · intro u beyond
    have absent := numbered u beyond
    have other : u ≠ t := by
      rintro rfl
      exact Option.some_ne_none _ (found.symm.trans absent)
    change (s.tasks.insert t task').lookup u = none
    rw [Store.lookup_insert_eq,if_neg other,absent]
  · exact numbered

/-! ### Some of the tasks -/

/-- Some task other than `but` is one that `holds` picks. -/
def State.anyBut (but : Option Nat) (holds : Task → Bool) (s : State) : Bool :=
  s.tasks.entries.any fun cell => some cell.1 != but && holds cell.2

section tasks
variable {s : State} {but : Option Nat} {holds : Task → Bool} {t : Nat} {shared : Shared} {task : Task}

theorem anyBut_iff : s.anyBut but holds = true ↔
    ∃ t task, s.tasks.lookup t = some task ∧ some t ≠ but ∧ holds task = true := by
  rw [State.anyBut,List.any_eq_true]
  constructor
  · rintro ⟨cell,member,picked⟩
    rw [Bool.and_eq_true,bne_iff_ne] at picked
    exact ⟨cell.1,cell.2,AList.mem_lookup_iff.mpr member,picked.1,picked.2⟩
  · rintro ⟨t,task,found,other,picked⟩
    refine ⟨⟨t,task⟩,AList.mem_lookup_iff.mp found,?_⟩
    rw [Bool.and_eq_true,bne_iff_ne]
    exact ⟨other,picked⟩

theorem anyBut_false : s.anyBut but holds = false ↔
    ∀ t task, s.tasks.lookup t = some task → some t ≠ but → holds task = false := by
  rw [← Bool.not_eq_true,anyBut_iff]
  simp

/-- A task that is picked goes on beside a new one. -/
theorem anyBut_spawned (numbered : Numbered s) (some_ : s.anyBut none holds = true) :
    (s.spawn shared task).anyBut none holds = true := by
  obtain ⟨t,task',found,other,picked⟩ := anyBut_iff.mp some_
  have differs : t ≠ s.nextTask := by
    rintro rfl
    rw [numbered s.nextTask (Nat.le_refl _)] at found
    cases found
  exact anyBut_iff.mpr ⟨t,task',(AList.lookup_insert_ne differs).trans found,other,picked⟩

/-- After a step of one task another is picked, or this one. -/
theorem anyBut_resume_iff : (s.resume t shared task).anyBut none holds = true ↔
    s.anyBut (some t) holds = true ∨ holds task = true := by
  rw [anyBut_iff,anyBut_iff]
  constructor
  · rintro ⟨u,found,present,_,picked⟩
    simp only [State.resume,Store.lookup_insert_eq] at present
    split at present
    next =>
      cases present
      exact .inr picked
    next other => exact .inl ⟨u,found,present,by simpa using other,picked⟩
  · rintro (⟨u,found,present,other,picked⟩ | picked)
    · have differs : u ≠ t := by simpa using other
      exact ⟨u,found,(AList.lookup_insert_ne differs).trans present,by simp,picked⟩
    · exact ⟨t,task,AList.lookup_insert _,by simp,picked⟩

/-- A task that is picked is this one or another. -/
theorem anyBut_split (found : s.tasks.lookup t = some task) (some_ : s.anyBut none holds = true) :
    holds task = true ∨ s.anyBut (some t) holds = true := by
  obtain ⟨u,other,present,_,picked⟩ := anyBut_iff.mp some_
  by_cases same : u = t
  · subst same
    obtain rfl : task = other := Option.some.inj (found.symm.trans present)
    exact .inl picked
  · exact .inr (anyBut_iff.mpr ⟨u,other,present,by simpa using same,picked⟩)

theorem anyBut_spawn (none_ : s.anyBut but holds = false) (not : holds task = false) :
    (s.spawn shared task).anyBut but holds = false := by
  rw [anyBut_false] at none_ ⊢
  intro u other found
  simp only [State.spawn,Store.lookup_insert_eq] at found
  split at found
  next =>
    cases found
    exact fun _ => not
  next => exact none_ u other found

theorem anyBut_resume (none_ : s.anyBut but holds = false) (not : holds task = false) :
    (s.resume t shared task).anyBut but holds = false := by
  rw [anyBut_false] at none_ ⊢
  intro u other found
  simp only [State.resume,Store.lookup_insert_eq] at found
  split at found
  next =>
    cases found
    exact fun _ => not
  next => exact none_ u other found

theorem anyBut_others : (s.resume t shared task).anyBut (some t) holds = s.anyBut (some t) holds := by
  rw [Bool.eq_iff_iff,← not_iff_not,Bool.not_eq_true,Bool.not_eq_true,anyBut_false,anyBut_false]
  have same (u : Nat) (other : some u ≠ some t) : (s.resume t shared task).tasks.lookup u = s.tasks.lookup u := by
    simp only [State.resume,Store.lookup_insert_eq]
    rw [if_neg (by simpa using other)]
  constructor
  · intro all u other found differs
    exact all u other ((same u differs).trans found) differs
  · intro all u other found differs
    exact all u other ((same u differs).symm.trans found) differs

theorem anyBut_weaken (none_ : s.anyBut none holds = false) : s.anyBut but holds = false := by
  rw [anyBut_false] at none_ ⊢
  intro t task found _
  exact none_ t task found (by simp)

/-- Where no other task is picked and the one that has moved is not, none is. -/
theorem anyBut_resumed (others : s.anyBut (some t) holds = false) (not : holds task = false) :
    (s.resume t shared task).anyBut none holds = false := by
  rw [anyBut_false] at others ⊢
  intro u other found _
  simp only [State.resume,Store.lookup_insert_eq] at found
  split at found
  next =>
    cases found
    exact not
  next differs => exact others u other found (by simpa using differs)

end tasks

/-! ### Small executions -/

def memoryManager : WriteCacheManager where
  enabled := true
  backend := .memory
  capacityBytes := 1000
  maxFileSizeBytes := 100
  flushIntervalMs := 1000
  flushDeadlineSecs := 60
  policy := .new true []
  readCache := none

def fileA : CacheTarget := ⟨"u".toList,"/a".toList,by decide,by decide⟩

def fileB : CacheTarget := ⟨"u".toList,"/b".toList,by decide,by decide⟩

/-- Successful steps of one task at time zero. -/
def advances (task steps : Nat) : List Action := List.replicate steps (.advance task ⟨true,0⟩)

end StorageHub.WriteCache
