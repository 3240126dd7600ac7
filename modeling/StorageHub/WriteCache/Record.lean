import StorageHub.Paths
import StorageHub.Library.Store
import StorageHub.WriteCache.Policy

/-! The pending writes of the cache: what a record holds behind its lock, the
blob files it refers to, and the bodies of the lock sections as functions of
the locked value. -/
namespace StorageHub.WriteCache
open Library Paths

abbrev Bytes := List UInt8

/-- The file an enqueue is for. The physical path is always the one derived
from the user and a validated logical path. -/
structure CacheTarget where
  userId : Text
  logicalPath : Text
  plainUser : '/' ∉ userId
  shaped : FileShaped logicalPath
  deriving DecidableEq

def CacheTarget.path (target : CacheTarget) : Text :=
  physicalPath target.userId target.logicalPath

inductive WriteCacheBackend
  | memory
  | localDir
  deriving DecidableEq,Repr

inductive PendingWriteState
  | pending
  | flushing
  | abnormal
  deriving DecidableEq,Repr

inductive BlobDir
  | queue
  | abnormal
  deriving DecidableEq,Repr

/-- A file `{hash}.bin` or `{hash}-{uuid}.bin` in one of the two directories.
Distinct paths are taken to have distinct hashes. -/
structure BlobFile where
  dir : BlobDir
  key : Text
  uuid : Option Nat
  deriving DecidableEq,Repr

def dataPath (dir : BlobDir) (key : Text) : BlobFile := ⟨dir,key,none⟩

def stagedPath (dir : BlobDir) (key : Text) (uuid : Nat) : BlobFile := ⟨dir,key,some uuid⟩

inductive PendingWriteBlob
  | memory (data : Bytes)
  | disk (file : BlobFile)
  deriving DecidableEq,Repr

/-- `path.starts_with(&self.abnormal_dir)` of a file blob. -/
def PendingWriteBlob.isAbnormal : PendingWriteBlob → Bool
  | .memory _ => false
  | .disk file => file.dir == .abnormal

structure PendingWriteDiskMeta where
  userId : Text
  logicalPath : Text
  physicalPath : Text
  blobPath : Option BlobFile
  size : Nat
  modifiedAt : Int
  deadlineAt : Int
  generation : Nat
  abnormal : Bool
  deriving DecidableEq,Repr

structure PendingWriteMutable where
  blob : PendingWriteBlob
  size : Nat
  modifiedAt : Int
  deadlineAt : Int
  nextRetryAt : Int
  generation : Nat
  retryCount : Nat
  state : PendingWriteState
  abnormalLogged : Bool
  deriving DecidableEq,Repr

structure PendingWriteRecord where
  target : CacheTarget
  inner : PendingWriteMutable
  deriving DecidableEq

structure DirectoryIndexSyncTask where
  userId : Text
  logicalParentPath : Text
  physicalParentPath : Text
  nextSyncAt : Int
  retryCount : Nat
  deriving DecidableEq,Repr

structure UserQuotaSyncTask where
  userId : Text
  delta : Int
  nextSyncAt : Int
  retryCount : Nat
  deriving DecidableEq,Repr

/-- The configuration of a manager; `readCache` is the read cache's own
admission test when there is one. -/
structure WriteCacheManager where
  enabled : Bool
  backend : WriteCacheBackend
  capacityBytes : Nat
  maxFileSizeBytes : Nat
  flushIntervalMs : Nat
  flushDeadlineSecs : Nat
  policy : CachePathPolicy
  readCache : Option (Text → Nat → Bool)

def u64Max : Nat := 2 ^ 64 - 1

def u32Max : Nat := 2 ^ 32 - 1

def fetchAdd (counter amount : Nat) : Nat := (counter + amount) % 2 ^ 64

def fetchSub (counter amount : Nat) : Nat := (counter + (2 ^ 64 - amount % 2 ^ 64)) % 2 ^ 64

namespace WriteCacheManager
variable (m : WriteCacheManager)

def shouldCache (logicalPath : Text) (size : Nat) : Bool :=
  m.enabled && m.policy.allows logicalPath && decide (0 < size) &&
    decide (size ≤ m.maxFileSizeBytes) && decide (size ≤ m.capacityBytes)

def accountedBytesForBlob (inner : PendingWriteMutable) : Nat :=
  match m.backend,inner.blob with
  | .memory,.memory _ => inner.size
  | .localDir,.disk _ => inner.size
  | _,_ => 0

def retryDelaySecs (retryCount : Nat) (abnormalLogged : Bool) : Int :=
  let base := max (m.flushIntervalMs / 1000) 1
  let delay := base * 2 ^ min (retryCount - 1) 6
  if abnormalLogged then min (max delay 5) 300 else min (max delay 1) 60

/-- Whether an update stages a file, and in which directory. -/
def updatePlan (blob : PendingWriteBlob) : Option BlobDir :=
  match m.backend,blob with
  | .memory,.memory _ => none
  | _,.disk file => some file.dir
  | .localDir,.memory _ => some .queue

def admits (accounted existingAccounted newSize : Nat) : Bool :=
  decide (min (accounted - existingAccounted + newSize) u64Max ≤ m.capacityBytes)

def noteFailure (now : Int) (inner : PendingWriteMutable) : PendingWriteMutable :=
  let retryCount := min (inner.retryCount + 1) u32Max
  { inner with
    retryCount
    nextRetryAt := now + m.retryDelaySecs retryCount inner.abnormalLogged }

def finishFailure (now deadlineAt : Int) (inner : PendingWriteMutable) : PendingWriteMutable :=
  { inner with
    nextRetryAt :=
      if deadlineAt < now then now + m.retryDelaySecs inner.retryCount true else inner.nextRetryAt
    state := if inner.abnormalLogged then .abnormal else .pending }

def logAbnormal (now : Int) (inner : PendingWriteMutable) : PendingWriteMutable :=
  { inner with
    abnormalLogged := true
    state := .abnormal
    nextRetryAt := now + m.retryDelaySecs inner.retryCount true }

end WriteCacheManager

def beginUpdate (size : Nat) (modifiedAt deadlineAt : Int) (inner : PendingWriteMutable) :
    PendingWriteMutable :=
  { inner with
    generation := min (inner.generation + 1) u64Max
    size
    modifiedAt
    deadlineAt
    nextRetryAt := modifiedAt
    state := if inner.abnormalLogged then .abnormal else .pending }

def freshPending (blob : PendingWriteBlob) (size : Nat) (modifiedAt deadlineAt : Int) :
    PendingWriteMutable :=
  { blob
    size
    modifiedAt
    deadlineAt
    nextRetryAt := modifiedAt
    generation := 1
    retryCount := 0
    state := .pending
    abnormalLogged := false }

/-- The change of the byte counter when a blob of `previous` accounted bytes is
replaced by one of `current`. -/
def reaccount (counter previous current : Nat) : Nat :=
  if previous ≤ current then fetchAdd counter (current - previous)
  else fetchSub counter (previous - current)

/-! ### Counter arithmetic -/

theorem fetchAdd_exact {counter amount : Nat} (fits : counter + amount < 2 ^ 64) :
    fetchAdd counter amount = counter + amount := Nat.mod_eq_of_lt fits

theorem fetchSub_exact {counter amount : Nat} (enough : amount ≤ counter) (bounded : counter < 2 ^ 64) :
    fetchSub counter amount = counter - amount := by
  have small : amount % 2 ^ 64 = amount := Nat.mod_eq_of_lt (by omega)
  have wrapped : counter + (2 ^ 64 - amount) = (counter - amount) + 2 ^ 64 := by omega
  rw [fetchSub,small,wrapped,Nat.add_mod_right,Nat.mod_eq_of_lt (by omega)]

theorem reaccount_exact {counter previous current : Nat} (enough : previous ≤ counter)
    (bounded : counter < 2 ^ 64) (fits : counter + (current - previous) < 2 ^ 64) :
    reaccount counter previous current = counter - previous + current := by
  unfold reaccount
  split
  next grows =>
    rw [fetchAdd_exact fits]
    omega
  next shrinks =>
    rw [fetchSub_exact (by omega) bounded]
    omega

end StorageHub.WriteCache
