import StorageHub.Scoped.ProtectedOps

/-! The writing side of an engine: `write`, `write_stream`, `write_at`,
`create_dir`, `delete`, `move_file` and `copy_file`. Paths are validated ones. -/
namespace StorageHub.Scoped
open Library WriteCache Paths Protected Vfs

def tempParent (path : Text) : Text :=
  match Text.rsplitOnce '/' path with
  | some (parent,_) => parent
  | none => []

/-- A call of the local file system under the user's temp directory. -/
def tempOperate (f : Disk → Option Disk) : Vfs Unit := call fun _ w =>
  match f w.temp with
  | some temp => (.ok (),{ w with temp })
  | none => (.error (.io .other),w)

/-- `remove_dir_all` of a directory, `remove_file` of anything else. -/
def tempRemove (path : Text) (d : Disk) : Option Disk :=
  if (d.dirs.lookup path).isSome then
    some ⟨(d.files.keys.filter (Text.within path)).foldl (fun s p => s.erase p) d.files,
      (d.dirs.keys.filter (Text.within path)).foldl (fun s p => s.erase p) d.dirs⟩
  else if (d.files.lookup path).isSome then some { d with files := d.files.erase path }
  else none

def tempAppend (path : Text) (data : Bytes) (d : Disk) : Option Disk :=
  (d.files.lookup path).map fun content =>
    { d with files := d.files.insert path (content ++ data) }

/-- A stream ends early with an error or runs to its end. -/
abbrev ByteStream := List (Except VfsError Bytes)

/-- What buffering a stream up to a limit comes to: its error, its bytes, or
nothing when the limit is passed. -/
def bufferStream (limit : Nat) : Nat → ByteStream → Except VfsError (Option Bytes)
  | _, [] => .ok (some [])
  | _, .error err::_ => .error err
  | buffered, .ok bytes::rest =>
    if limit < buffered + bytes.length then .ok none
    else (bufferStream limit (buffered + bytes.length) rest).map (Option.map (bytes ++ ·))

/-- `should_prune_stale_recycle_index`. -/
def shouldPruneStaleRecycleIndex (path : Text) (err : VfsError) : Bool :=
  if !inRecycleBin path then false
  else
    match err with
    | .notFound _ => true
    | .openDal kind => kind == .notFound || kind == .unexpected
    | .io kind => kind == .notFound || kind == .invalidInput
    | .internal message =>
      let lower := message.map Char.toLower
      Text.contains "not found".toList lower || Text.contains "no such file".toList lower ||
        Text.contains "invalid argument".toList lower ||
        Text.contains "unsupported file type".toList lower || Text.contains "unexpected".toList lower
    | _ => false

namespace Engine
variable (e : Engine)

def shouldUseWriteCache (path : Text) (size : Nat) : Bool :=
  if isTempPath path || isThumbnailCachePath path || inRecycleBin path then false
  else e.writeCache.any fun m => m.shouldCache path size

/-- An enqueue that fails counts as one that does not take the data. -/
def tryEnqueueWriteCache (path : Text) (data : Bytes) : Vfs (Option VfsFileInfo) :=
  if shaped : FileShaped path then
    if e.shouldUseWriteCache path data.length then do
      let target : CacheTarget := ⟨e.userId,path,e.plainUser,shaped⟩
      match ← (e.enqueueWriteCache target data).attempt with
      | .ok info => pure (info.map e.translateFileInfo)
      | .error _ => pure none
    else pure none
  else pure none

def flushPendingWriteCacheForPath (path : Text) : Vfs Unit :=
  if isTempPath path then pure () else e.flushWriteCache (e.getPhysicalPath path)

/-! ### Writes -/

/-- The growth of a write, checked against the quota. -/
def checkWriteGrowth (path : Text) (size : Nat) : Vfs Int := do
  if isThumbnailCachePath path then pure 0
  else do
    let currentSize ← e.getFileSize path
    let diff := (size : Int) - currentSize
    when (0 < diff) (e.checkQuota diff)
    pure diff

def settleWrite (walId : Option Nat) (path : Text) (diff : Int) : Vfs Unit := do
  completeWal walId
  when (!isThumbnailCachePath path ∧ diff ≠ 0) (regardless (e.updateQuota diff))

def writeTemp (walId : Option Nat) (path : Text) (data : Bytes) : Vfs VfsFileInfo := do
  tempOperate fun d => d.createDir (tempParent (tempPath path))
  tempOperate fun d => d.write (tempPath path) data
  markWalPhysicalDone walId
  orFailWal walId (e.statImpl path)

def writePrimary (walId : Option Nat) (path : Text) (data : Bytes) : Vfs VfsFileInfo := do
  let info ← orFailWal walId (e.poolWrite (e.getPhysicalPath path) data)
  markWalPhysicalDone walId
  let translated := e.translateFileInfo info
  orFailWal walId (e.upsertIndexHelper path translated)
  pure translated

def writeDirect (path : Text) (data : Bytes) : Vfs VfsFileInfo := do
  e.flushPendingWriteCacheForPath path
  let diff ← e.checkWriteGrowth path data.length
  let walId ← e.beginWal (.write path data.length none) (e.shouldSkipWalForWrite path data.length)
  let info ← if isTempPath path then e.writeTemp walId path data else e.writePrimary walId path data
  e.settleWrite walId path diff
  pure info

def writeImpl (path : Text) (data : Bytes) : Vfs VfsFileInfo := do
  checkMaintenance
  match ← e.getProtectedPlan path with
  | some plan => e.protectedWriteImpl path data plan
  | none =>
    if isRefreshTrigger path then e.statImpl path
    else
      match ← e.tryEnqueueWriteCache path data with
      | some info => pure info
      | none => e.writeDirect path data

/-- The used bytes a stream is checked against and the quota, when there is one. -/
def quotaProjection (path : Text) : Vfs (Option (Int × Int)) := do
  if isThumbnailCachePath path then pure none
  else do
    let w ← Effect.get
    let pendingDelta := e.pendingQuotaDelta w
    let used ← query fun w => w.shared.storageUsed e.userId
    pure (e.settings.bind fun settings =>
      if 0 < settings.storageQuota then some (used + pendingDelta,settings.storageQuota) else none)

/-- The stream is spooled to a file of its own before the target is touched. -/
def spoolStream (projection : Option (Int × Int)) (initialFileSize : Int) :
    Nat → ByteStream → Vfs Bytes
  | _, [] => pure []
  | _, .error err::_ => Effect.fail err
  | written, .ok data::rest =>
    let totalWritten := written + data.length
    let currentDiff := (totalWritten : Int) - initialFileSize
    if projection.any fun p => 0 < currentDiff && p.2 < p.1 + currentDiff then
      Effect.fail .quotaExceeded
    else do
      query fun _ => ()
      let later ← spoolStream projection initialFileSize totalWritten rest
      pure (data ++ later)

def appendStream (path : Text) : ByteStream → Vfs Unit
  | [] => pure ()
  | .error err::_ => Effect.fail err
  | .ok data::rest => do
    tempOperate (tempAppend path data)
    appendStream path rest

def writeStreamInternal (path : Text) (stream : ByteStream) : Vfs VfsFileInfo := do
  if isTempPath path then do
    tempOperate fun d => d.createDir (tempParent (tempPath path))
    tempOperate fun d => d.write (tempPath path) []
    appendStream (tempPath path) stream
    e.statImpl path
  else do
    query fun _ => ()
    let initialFileSize ← e.getFileSize path
    let projection ← e.quotaProjection path
    let data ← spoolStream projection initialFileSize 0 stream
    query fun _ => ()
    let physical := e.getPhysicalPath path
    let walId ← e.beginWal (.write path data.length none)
      (e.shouldSkipWalForWrite path data.length)
    let _ ← orFailWal walId (e.poolWriteStream physical data)
    markWalPhysicalDone walId
    let diff := (data.length : Int) - initialFileSize
    -- unlike the other writes this one counts thumbnails too
    when (diff ≠ 0) (regardless (e.updateQuota diff))
    let info ← e.poolStat physical
    let translated := e.translateFileInfo info
    orFailWal walId (e.upsertIndexHelper path translated)
    completeWal walId
    pure translated

def writeStreamImpl (path : Text) (stream : ByteStream) : Vfs VfsFileInfo := do
  checkMaintenance
  match ← e.getProtectedPlan path with
  | some plan => do
    let chunks ← Effect.ofExcept (stream.mapM id)
    e.protectedWriteStreamImpl path chunks plan
  | none =>
    if isRefreshTrigger path then do
      let parent := (stdParent path).getD ['/']
      e.syncIndexImpl parent
      e.statImpl parent
    else if e.shouldUseWriteCache path 1 then do
      let limit := (e.writeCache.map (·.maxFileSizeBytes)).getD 0
      match ← Effect.ofExcept (bufferStream limit 0 stream) with
      | some data => e.writeImpl path data
      | none => e.writeStreamInternal path stream
    else e.writeStreamInternal path stream

/-- The growth of a write at an offset, checked against the quota. -/
def checkWriteAtGrowth (path : Text) (newEnd : Nat) : Vfs Int := do
  if isThumbnailCachePath path then pure 0
  else do
    let currentSize ← e.getFileSize path
    let diff := max ((newEnd : Int) - currentSize) 0
    when (0 < diff) (e.checkQuota diff)
    pure diff

/-- `write_at` up to the read of the current content, which it may fail to read. -/
def writeAtRead (path : Text) (offset : Nat) (data : Bytes) :
    Vfs (Int × Option Nat × Except VfsError (Bytes × VfsFileInfo)) := do
  e.flushPendingWriteCacheForPath path
  let diff ← e.checkWriteAtGrowth path (patchEnd offset data)
  let walId ← e.beginWal (.write path data.length none)
    (e.shouldSkipWalForWrite path data.length)
  let current ← (e.poolRead (e.getPhysicalPath path)).attempt
  pure (diff,walId,current)

/-- What follows the read; content that was not read counts as empty. -/
def writeAtPut (path : Text) (offset : Nat) (data : Bytes) (diff : Int) (walId : Option Nat)
    (current : Except VfsError (Bytes × VfsFileInfo)) : Vfs VfsFileInfo := do
  let content := match current with
    | .ok read => read.1
    | .error _ => []
  match patchBytes content offset data with
  | none => Effect.fail (.internal "Buffer overflow in write_at".toList)
  | some patched => do
    let info ← orFailWal walId (e.poolWrite (e.getPhysicalPath path) patched)
    markWalPhysicalDone walId
    when (!isThumbnailCachePath path ∧ 0 < diff) (regardless (e.updateQuota diff))
    let translated := e.translateFileInfo info
    orFailWal walId (e.upsertIndexHelper path translated)
    completeWal walId
    pure translated

def writeAtImpl (path : Text) (offset : Nat) (data : Bytes) : Vfs VfsFileInfo := do
  checkMaintenance
  match ← e.getProtectedPlan path with
  | some plan => e.protectedWriteAtImpl path offset data plan
  | none =>
    if isRefreshTrigger path then e.writeImpl path data
    else if isTempPath path then Effect.fail (.internal "Not supported for temp".toList)
    else do
      let (diff,walId,current) ← e.writeAtRead path offset data
      e.writeAtPut path offset data diff walId current

def createDirImpl (path : Text) : Vfs VfsFileInfo := do
  checkMaintenance
  match ← e.getProtectedPlan path with
  | some _ => e.protectedCreateDirImpl path
  | none => do
    let walId ← e.beginWal (.createDir path) (e.shouldSkipWalForPath path)
    if isTempPath path then do
      tempOperate fun d => d.createDir (tempPath path)
      markWalPhysicalDone walId
      completeWal walId
      e.statImpl path
    else do
      let physical := e.getPhysicalPath path
      let _ ← orFailWal walId (e.poolCreateDir physical)
      markWalPhysicalDone walId
      let info ← e.poolStat physical
      let translated := e.translateFileInfo info
      orFailWal walId (e.upsertIndexHelper path translated)
      completeWal walId
      pure translated

/-! ### Deletion -/

def reclaimedSize (path : Text) (info : VfsFileInfo) : Vfs Int := do
  if info.isDir then do
    let entries ← e.listRecursiveImpl path
    pure ((entries.filter fun entry => !entry.isDir).map fun entry => (entry.size : Int)).sum
  else pure info.size

def deleteTemp (walId : Option Nat) (path : Text) : Vfs Unit := do
  tempOperate (tempRemove (tempPath path))
  markWalPhysicalDone walId
  completeWal walId

def deletePhysical (path : Text) (isDir : Bool) : Vfs Unit := do
  let physical := e.getPhysicalPath path
  if isDir then e.removeTree physical
  else do
    let _ ← e.poolDelete physical
    pure ()

def settleWal (walId : Option Nat) : Except VfsError Unit → Vfs Unit
  | .ok _ => completeWal walId
  | .error _ => failWal walId

/-- A failure to remove the index rows is recorded but not returned. -/
def settleDelete (walId : Option Nat) (path : Text) (reclaimed : Int) : Vfs Unit := do
  markWalPhysicalDone walId
  let synced ← if isThumbnailCachePath path then pure (.ok ())
    else (e.indexDeleteFile path).attempt
  settleWal walId synced
  when (!isThumbnailCachePath path ∧ reclaimed ≠ 0) (regardless (e.updateQuota (-reclaimed)))

def pruneStaleRecycleEntry (walId : Option Nat) (path : Text) : Vfs Unit := do
  match ← (e.indexDeleteFile path).attempt with
  | .ok _ => do
    markWalPhysicalDone walId
    completeWal walId
  | .error err => do
    failWal walId
    Effect.fail (.internal ("Delete failed for ".toList ++ path ++
      " and stale recycle entry cleanup also failed: ".toList ++ err.text))

def deleteImpl (path : Text) : Vfs VfsFileInfo := do
  checkMaintenance
  match ← e.getProtectedPlan path with
  | some _ => e.protectedDeleteImpl path
  | none => do
    e.flushPendingWriteCacheForPath path
    let info ← e.statImpl path
    let reclaimed ← e.reclaimedSize path info
    let walId ← e.beginWal (.delete path) (e.shouldSkipWalForPath path)
    if isTempPath path then do
      deleteTemp walId path
      pure info
    else
      match ← (e.deletePhysical path info.isDir).attempt with
      | .ok _ => do
        e.settleDelete walId path reclaimed
        pure info
      | .error err =>
        if shouldPruneStaleRecycleIndex path err then do
          e.pruneStaleRecycleEntry walId path
          pure info
        else do
          failWal walId
          Effect.fail err

/-! ### Moves and copies -/

def moveAcrossDomains (src dst : Text) : Vfs VfsFileInfo := do
  let srcInfo ← e.statImpl src
  if srcInfo.isDir then
    Effect.fail (.internal "Protected directory move is not implemented yet".toList)
  else do
    let (data,_) ← e.readImpl src
    let info ← e.writeImpl dst data
    let _ ← e.deleteImpl src
    pure info

/-- A failure to rewrite the index is recorded but not returned. -/
def moveMetadata (walId : Option Nat) (src dst : Text) : Vfs Bool := do
  if isThumbnailCachePath src || isThumbnailCachePath dst then pure true
  else
    match ← (e.indexMoveFile src dst).attempt with
    | .ok _ => pure true
    | .error _ => do
      failWal walId
      pure false

def movePrimary (walId : Option Nat) (src dst : Text) : Vfs VfsFileInfo := do
  let physicalSrc := e.getPhysicalPath src
  let physicalDst := e.getPhysicalPath dst
  let _ ← orFailWal walId (e.poolMoveFile physicalSrc physicalDst)
  markWalPhysicalDone walId
  e.invalidateReadCache physicalSrc
  e.invalidateReadCache physicalDst
  let metadataComplete ← e.moveMetadata walId src dst
  let info ← orFailWal walId (e.statImpl dst)
  when metadataComplete (completeWal walId)
  pure info

def moveTemp (walId : Option Nat) (src dst : Text) : Vfs VfsFileInfo := do
  tempOperate fun d => d.rename (tempPath src) (tempPath dst)
  markWalPhysicalDone walId
  let info ← orFailWal walId (e.statImpl dst)
  completeWal walId
  pure info

def moveRegular (src dst : Text) : Vfs VfsFileInfo := do
  e.flushPendingWriteCacheForPath src
  e.flushPendingWriteCacheForPath dst
  let walId ← e.beginWal (.move src dst) (e.shouldSkipWalForPath src)
  if isTempPath src = isTempPath dst then
    if isTempPath src then e.moveTemp walId src dst else e.movePrimary walId src dst
  else do
    let (data,_) ← e.readImpl src
    let info ← e.writeImpl dst data
    regardless (e.deleteImpl src)
    completeWal walId
    pure info

def moveFileImpl (src dst : Text) : Vfs VfsFileInfo := do
  checkMaintenance
  let srcPlan ← e.getProtectedPlan src
  let dstPlan ← e.getProtectedPlan dst
  match srcPlan,dstPlan with
  | none,none => e.moveRegular src dst
  | some srcPlan,some dstPlan =>
    if sameProtectedDomain srcPlan dstPlan then e.protectedMoveSameDomainImpl src dst
    else e.moveAcrossDomains src dst
  | _,_ => e.moveAcrossDomains src dst

def copyAcrossDomains (src dst : Text) : Vfs VfsFileInfo := do
  let srcInfo ← e.statImpl src
  if srcInfo.isDir then
    Effect.fail (.internal "Protected directory copy is not implemented yet".toList)
  else do
    let (data,_) ← e.readImpl src
    e.writeImpl dst data

def copyPrimary (walId : Option Nat) (src dst : Text) : Vfs VfsFileInfo := do
  let physicalDst := e.getPhysicalPath dst
  let _ ← orFailWal walId (e.poolCopyFile (e.getPhysicalPath src) physicalDst)
  markWalPhysicalDone walId
  let info ← e.poolStat physicalDst
  let translated := e.translateFileInfo info
  orFailWal walId (e.upsertIndexHelper dst translated)
  pure translated

def copyTemp (walId : Option Nat) (src dst : Text) : Vfs VfsFileInfo := do
  tempOperate fun d => d.copy (tempPath src) (tempPath dst)
  markWalPhysicalDone walId
  orFailWal walId (e.statImpl dst)

def copyMixed (walId : Option Nat) (src dst : Text) : Vfs VfsFileInfo := do
  let (data,_) ← e.readImpl src
  orFailWal walId (e.writeImpl dst data)

def copyRegular (src dst : Text) : Vfs VfsFileInfo := do
  e.flushPendingWriteCacheForPath src
  e.flushPendingWriteCacheForPath dst
  let srcInfo ← e.statImpl src
  -- the quota is asked for, and later charged, the whole size of the source
  let size : Int := srcInfo.size
  when (!isThumbnailCachePath dst) (e.checkQuota size)
  let walId ← e.beginWal (.copy src dst none) (e.shouldSkipWalForWrite dst srcInfo.size)
  let info ← if isTempPath src = isTempPath dst then
      if isTempPath src then e.copyTemp walId src dst else e.copyPrimary walId src dst
    else e.copyMixed walId src dst
  completeWal walId
  when (!isThumbnailCachePath dst) (regardless (e.updateQuota size))
  pure info

def copyFileImpl (src dst : Text) : Vfs VfsFileInfo := do
  checkMaintenance
  let srcPlan ← e.getProtectedPlan src
  let dstPlan ← e.getProtectedPlan dst
  match srcPlan,dstPlan with
  | none,none => e.copyRegular src dst
  | some srcPlan,some dstPlan =>
    if sameProtectedDomain srcPlan dstPlan then e.protectedCopySameDomainImpl src dst srcPlan
    else e.copyAcrossDomains src dst
  | _,_ => e.copyAcrossDomains src dst

end Engine
end StorageHub.Scoped
