import StorageHub.WriteCache.Filing

/-! The start of the write cache over what an earlier process left: the blob files
and their metadata. The directory is gone through in the order of its listing. -/
namespace StorageHub.WriteCache
open Library Paths

/-- How the calls on one file of the directory go. -/
structure LoadEnv where
  read : Bool
  stat : Bool
  remove : Bool
  now : Int
  deriving DecidableEq,Repr

/-- What a directory yields of its metadata files, each named by its blob file. -/
abbrev Listing := List (BlobFile × LoadEnv)

namespace PendingWriteDiskMeta
variable (disk : PendingWriteDiskMeta)

/-- The blob file, by its path or by the name that the physical path has in the directory. -/
def blobFile (dir : BlobDir) : BlobFile := disk.blobPath.getD (dataPath dir disk.physicalPath)

/-- What the metadata is of, where a manager has written it. -/
def target? : Option CacheTarget :=
  if fits : '/' ∉ disk.userId ∧ FileShaped disk.logicalPath then
    let target : CacheTarget := ⟨disk.userId,disk.logicalPath,fits.1,fits.2⟩
    if target.path = disk.physicalPath then some target else none
  else none

def loadedPending (dir : BlobDir) (abnormal : Bool) (now : Int) : PendingWriteMutable where
  blob := .disk (disk.blobFile dir)
  size := disk.size
  modifiedAt := disk.modifiedAt
  deadlineAt := disk.deadlineAt
  nextRetryAt := now
  generation := disk.generation
  retryCount := 0
  state := if abnormal then .abnormal else .pending
  abnormalLogged := abnormal

end PendingWriteDiskMeta

namespace Shared
variable (m : WriteCacheManager) (s : Shared)

def markDirty (now : Int) (target : CacheTarget) : Shared :=
  let dirtyPaths := s.dirtyPaths.insert target.path ()
  let dirtyDirs := s.dirtyDirs.insert (parentPath target.path) ()
  { s with dirtyPaths, dirtyDirs }.markIndexSync now target

/-- A record that is loaded. -/
def loadRecord (now : Int) (record : PendingWriteRecord) : Shared :=
  let accountedBytes := fetchAdd s.accountedBytes (m.accountedBytesForBlob record.inner)
  ({ s with accountedBytes }.insertRecord record).markDirty now record.target

/-- One file of the directory. Metadata that cannot be read is passed over; where
its blob is missing, or cannot be asked for, it is removed. -/
def loadEntry (abnormal : Bool) (found : BlobFile × LoadEnv) : Shared :=
  match s.metas.lookup found.1 with
  | none => s
  | some disk =>
    if found.2.read then
      if found.2.stat && (s.blobs.lookup (disk.blobFile found.1.dir)).isSome then
        match disk.target? with
        | none => s
        | some target => s.loadRecord m found.2.now ⟨target,disk.loadedPending found.1.dir abnormal found.2.now⟩
      else { s with metas := if found.2.remove then s.metas.erase found.1 else s.metas }
    else s

def loadEntriesFromDir (abnormal : Bool) (listing : Listing) : Shared :=
  listing.foldl (fun s found => s.loadEntry m abnormal found) s

def loadExistingEntries (queue abnormal : Listing) : Shared :=
  if m.enabled then
    match m.backend with
    | .localDir => (s.loadEntriesFromDir m false queue).loadEntriesFromDir m true abnormal
    | .memory => s.loadEntriesFromDir m true abnormal
  else s

/-- What is left when the process stops: the primary, the files and the database. The
read cache of the next process loads what it can by itself. -/
def stopped (readCache : Store Text Bytes) : Shared :=
  { s with
    records := ∅
    entries := ∅
    readCache
    accountedBytes := 0
    dirtyPaths := ∅
    dirtyDirs := ∅
    indexSyncDirs := ∅
    quotaSyncUsers := ∅ }

end Shared

/-- A call that has not returned fails with the process; the history of the calls stays. -/
def Task.atStop (tick : Nat) : Task → Option Task
  | .enqueue e =>
    match e.phase with
    | .done _ => some (.enqueue e)
    | _ => some (.enqueue (e.finish tick .failed))
  | .flush _ => none
  | .quotaSync _ => none

/-- A removal inside the check of a flush that the stop of the process cuts between its
two files. -/
def Shared.cutCheck (s : Shared) : Option Task → Shared
  | some (.flush f) =>
    match f.phase, s.inner f.record with
    | .check taken _ _ _, some inner =>
      match inner.blob with
      | .disk file => if inner.generation = taken.generation then s.removeFile ⟨true,0⟩ file else s
      | .memory _ => s
    | _, _ => s
  | _ => s

/-- The process stops, in the middle of a check where `cut` says so, and the next one loads
what the directories list. -/
def State.restart (m : WriteCacheManager) (s : State) (cut : Option Nat) (readCache : Store Text Bytes)
    (queue abnormal : Listing) : State where
  shared := ((s.shared.cutCheck (cut.bind s.tasks.lookup)).stopped readCache).loadExistingEntries m queue abnormal
  tasks := s.tasks.filterMap (Task.atStop s.clock)
  nextTask := s.nextTask
  clock := s.clock + 1

/-- A listing is of files of the directory that have metadata, each once. -/
def Shared.isListing (s : Shared) (dir : BlobDir) (listing : Listing) : Bool :=
  decide (listing.map (·.1)).Nodup && listing.all fun found => found.1.dir == dir && (s.metas.lookup found.1).isSome

inductive Event
  | act (action : Action)
  | restart (cut : Option Nat) (readCache : Store Text Bytes) (queue abnormal : Listing)

def restartingStep (m : WriteCacheManager) (s : State) : Event → Option State
  | .act action => cacheStep m s action
  | .restart cut readCache queue abnormal =>
    if s.shared.isListing .queue queue && s.shared.isListing .abnormal abnormal then
      some (s.restart m cut readCache queue abnormal)
    else none

/-- The cache with the processes that come one after the other. -/
def restarting (m : WriteCacheManager) : Transition.System State Event := ⟨restartingStep m⟩

end StorageHub.WriteCache
