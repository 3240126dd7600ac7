import StorageHub.Scoped.Trash

/-! Recovery of interrupted operations from the write-ahead log. The engine is
the one recovery makes for the user. -/
namespace StorageHub.Scoped
open Library Paths Protected Vfs

/-- Two paths of which exactly one should be there. -/
def ambiguous (operation first second : Text) (exist : Bool) : VfsError :=
  .internal (operation ++ " recovery ambiguous: both ".toList ++ first ++ " and ".toList ++ second ++
    if exist then " exist".toList else " are missing".toList)

def quoted (role path : Text) : Text := role ++ '\'' :: path ++ ['\'']

namespace Engine
variable (e : Engine)

def protectedRootForPath (path : Text) : Vfs (Option Text) := do
  let settings ← e.getUserSettings
  pure ((settings.bind (·.protectedRoot)).filter fun root => matchesRoot root path)

def isRootProtectedPath (path : Text) : Vfs Bool := do
  let root ← e.protectedRootForPath path
  pure (root == some ['/'])

def recoverySameProtectedDomain (src dst : Text) : Vfs Bool := do
  let srcRoot ← e.protectedRootForPath src
  let dstRoot ← e.protectedRootForPath dst
  pure (srcRoot.isSome && srcRoot == dstRoot)

def cleanupOrphanTemp (path : Text) : Vfs Unit := do
  let physical := e.getPhysicalPath path
  if ← e.poolExists physical then do
    let _ ← e.poolDelete physical
    pure ()
  else pure ()

def physicalMoveWithoutWal (src dst : Text) : Vfs Unit := do
  let _ ← e.poolMoveFile (e.getPhysicalPath src) (e.getPhysicalPath dst)
  pure ()

def syncIndexForPath (path : Text) : Vfs Unit := do
  let info ← e.statImpl path
  e.upsertFile path info

/-! ### Writes and deletions -/

/-- The row a protected write would have left, when its blob is there. -/
def rebuildProtectedWrite (path : Text) (size : Nat) (record : Option WalProtectedWriteMeta)
    (missing : Text) : Vfs Unit := do
  match record with
  | none => Effect.fail (.internal missing)
  | some record =>
    if ← e.poolExists record.backendKey then do
      let _ ← e.poolStat record.backendKey
      let info : VfsFileInfo := ⟨lastSegment path,path,false,size,0,none,none⟩
      e.upsertFileWithLocation path info ⟨some e.poolName,some e.backendType,some record.backendKey,
        some record.physicalSize,some record.protectedMeta⟩
    else Effect.fail (.internal missing)

def recoverProtectedWrite (path : Text) (size : Nat) (record : Option WalProtectedWriteMeta)
    (status : WalStatus) : Vfs Unit := do
  let indexRow ← e.getIndexMetadata path
  if status.hasMetadataDone then pure ()
  -- a row is taken for the row of this write, whatever write it is of
  else if indexRow.isSome then pure ()
  else if status.hasPhysicalDone then
    e.rebuildProtectedWrite path size record
      ("Protected write recovery requires manual backend_key repair " ++
        "because index metadata is missing").toList
  else
    e.rebuildProtectedWrite path size record
      ("Protected write recovery requires manual backend_key repair " ++
        "because WAL does not store blob locator").toList

def recoverRegularWrite (path : Text) (status : WalStatus) : Vfs Unit := do
  let tmpPath := path ++ ".tmp".toList
  let targetExists ← e.existsImpl path
  let tempExists ← e.existsImpl tmpPath
  if status.hasMetadataDone then pure ()
  else if status.hasPhysicalDone then
    if targetExists then e.syncIndexForPath path else e.indexDeleteFile path
  else do
    when tempExists (e.cleanupOrphanTemp tmpPath)
    if targetExists then e.syncIndexForPath path else e.indexDeleteFile path

def recoverWrite (path : Text) (size : Nat) (record : Option WalProtectedWriteMeta)
    (status : WalStatus) : Vfs Unit := do
  match ← e.protectedRootForPath path with
  | some _ => e.recoverProtectedWrite path size record status
  | none => e.recoverRegularWrite path status

def recoverDelete (path : Text) (status : WalStatus) : Vfs Unit := do
  if status.hasMetadataDone then pure ()
  else if status.hasPhysicalDone then e.indexDeleteFile path
  else
    if ← e.existsImpl path then do
      let _ ← e.poolDelete (e.getPhysicalPath path)
      e.indexDeleteFile path
    else e.indexDeleteFile path

def recoverCreateDir (path : Text) (status : WalStatus) : Vfs Unit := do
  if status.hasMetadataDone then pure ()
  else if status.hasPhysicalDone then e.syncIndexForPath path
  else
    if ← e.existsImpl path then e.syncIndexForPath path
    else do
      let _ ← e.poolCreateDir (e.getPhysicalPath path)
      e.syncIndexForPath path

/-! ### Copies -/

def copySourceRow (src dst : Text) : Vfs Unit := do
  match ← e.getIndexMetadata src with
  | some row => do
    let info : VfsFileInfo := ⟨lastSegment dst,dst,row.isDir,row.size.toNat,0,none,none⟩
    e.upsertFileWithLocation dst info
      ⟨row.storageId,row.backendType,row.backendKey,row.physicalSize,row.protectedMeta⟩
  | none => e.syncIndexForPath dst

def syncIndexForCopyTarget (src dst : Text) : Vfs Unit := do
  let row ← e.getIndexMetadata dst
  match (row.bind (·.backendKey)).filter (· ≠ []) with
  | none => e.copySourceRow src dst
  | some backendKey =>
    if ← e.poolExists backendKey then pure () else e.copySourceRow src dst

/-- The destinations whose blob is missing. -/
def missingBlobs : List WalCopyPlanEntry → Vfs (List Text)
  | [] => pure []
  | entry::rest =>
    if entry.isDir then missingBlobs rest
    else
      match entry.location.backendKey with
      | none => Effect.fail (.internal ("Protected copy WAL entry for ".toList ++
          quoted [] entry.dstPath ++ " is missing dst_backend_key".toList))
      | some backendKey => do
        let present ← e.poolExists backendKey
        let missing ← missingBlobs rest
        pure (if present then missing else entry.dstPath::missing)

def rebuildProtectedCopyIndex : List WalCopyPlanEntry → Vfs Unit
  | [] => pure ()
  | entry::rest => do
    let info : VfsFileInfo :=
      ⟨lastSegment entry.dstPath,entry.dstPath,entry.isDir,entry.size,0,none,none⟩
    e.upsertFileWithLocation entry.dstPath info entry.location
    rebuildProtectedCopyIndex rest

def cleanupProtectedCopyIndex : List WalCopyPlanEntry → Vfs Unit
  | [] => pure ()
  | entry::rest => do
    e.indexDeleteFile entry.dstPath
    cleanupProtectedCopyIndex rest

def recoverProtectedCopy (plan : WalCopyPlan) (status : WalStatus) : Vfs Unit := do
  if status.hasMetadataDone then pure ()
  else do
    let missing ← e.missingBlobs plan.entries
    if missing = [] then e.rebuildProtectedCopyIndex plan.entries
    else do
      e.cleanupProtectedCopyIndex plan.entries.reverse
      Effect.fail (.internal ("Protected copy recovery missing physical blobs for: ".toList ++
        ", ".toList.intercalate missing))

def recoverCopy (src dst : Text) (plan : Option WalCopyPlan) (status : WalStatus) : Vfs Unit := do
  match plan with
  | some plan => e.recoverProtectedCopy plan status
  | none =>
    if status.hasMetadataDone then pure ()
    else if status.hasPhysicalDone then e.syncIndexForCopyTarget src dst
    else if ← e.existsImpl dst then e.syncIndexForCopyTarget src dst
    else e.indexDeleteFile dst

/-! ### Moves -/

/-- What to do by which of two paths exist. -/
def byExistence (first second : Text) (onlyFirst onlySecond : Vfs Unit) (error : Bool → VfsError) :
    Vfs Unit := do
  let firstExists ← e.existsImpl first
  let secondExists ← e.existsImpl second
  match firstExists,secondExists with
  | true,false => onlyFirst
  | false,true => onlySecond
  | false,false => Effect.fail (error false)
  | true,true => Effect.fail (error true)

def recoverMove (src dst : Text) (status : WalStatus) : Vfs Unit := do
  let error (operation : String) := ambiguous operation.toList (quoted "source ".toList src)
    (quoted "destination ".toList dst)
  if ← e.recoverySameProtectedDomain src dst then
    if status.hasMetadataDone then pure ()
    else e.byExistence src dst (e.indexMoveFile src dst) (pure ()) (error "PROTECTED MOVE")
  else if status.hasMetadataDone then pure ()
  else if status.hasPhysicalDone then e.indexMoveFile src dst
  else
    -- the first branch leaves the index as it is
    e.byExistence src dst (e.physicalMoveWithoutWal src dst) (e.indexMoveFile src dst) (error "MOVE")

def recoverMoveToTrash (path trashPath : Text) (status : WalStatus) : Vfs Unit := do
  let error (operation : String) := ambiguous operation.toList (quoted "source ".toList path)
    (quoted "trash ".toList trashPath)
  if ← e.isRootProtectedPath path then
    if status.hasMetadataDone then pure ()
    else
      e.byExistence path trashPath (e.indexTrashFile path trashPath) (pure ())
        (error "PROTECTED MOVE_TO_TRASH")
  else if status.hasMetadataDone then pure ()
  else if status.hasPhysicalDone then e.indexTrashFile path trashPath
  else
    e.byExistence path trashPath
      (do
        e.physicalMoveWithoutWal path trashPath
        e.indexTrashFile path trashPath)
      (e.indexTrashFile path trashPath) (error "MOVE_TO_TRASH")

def recoverRestoreTrash (trashPath originalPath : Text) (status : WalStatus) : Vfs Unit := do
  let error (operation : String) := ambiguous operation.toList (quoted [] trashPath)
    (quoted [] originalPath)
  if ← e.isRootProtectedPath originalPath then
    if status.hasMetadataDone then pure ()
    else
      e.byExistence trashPath originalPath (e.indexRestoreFile trashPath originalPath) (pure ())
        (error "PROTECTED RESTORE_TRASH")
  else if status.hasMetadataDone then pure ()
  else if status.hasPhysicalDone then e.indexRestoreFile trashPath originalPath
  else
    e.byExistence trashPath originalPath
      (do
        e.physicalMoveWithoutWal trashPath originalPath
        e.indexRestoreFile trashPath originalPath)
      (e.indexRestoreFile trashPath originalPath) (error "RESTORE_TRASH")

/-! ### The log -/

def recoverOperation (operation : WalOperation) (status : WalStatus) : Vfs Unit :=
  match operation with
  | .write path size record => e.recoverWrite path size record status
  | .delete path => e.recoverDelete path status
  | .copy src dst plan => e.recoverCopy src dst plan status
  | .move src dst => e.recoverMove src dst status
  | .rename oldPath newPath => e.recoverMove oldPath newPath status
  | .moveToTrash path trashPath => e.recoverMoveToTrash path trashPath status
  | .createDir path => e.recoverCreateDir path status
  | .restoreTrash trashPath originalPath => e.recoverRestoreTrash trashPath originalPath status

/-- Making the recovery engine asks the database for the user's pool. -/
def createRecoveryEngine : Vfs Unit := query fun _ => ()

def recoverOne (row : WalRow) : Vfs Unit := do
  if !row.status.isActive then pure ()
  else do
    update (setStatus row.id .recovering)
    createRecoveryEngine
    match ← (e.recoverOperation row.operation row.status).attempt with
    | .ok _ => update (setStatus row.id .completed)
    | .error err => do
      regardless (update (setStatus row.id .failed))
      Effect.fail err

/-- Each row is recovered on its own; the result counts the failures. -/
def recoverRows : List WalRow → Vfs Nat
  | [] => pure 0
  | row::rest => do
    let result ← (e.recoverOne row).attempt
    let failed ← recoverRows rest
    match result with
    | .ok _ => pure failed
    | .error _ => pure (failed + 1)

def recalibrateStorageUsed : Vfs Unit := do
  createRecoveryEngine
  let totalUsed ← query fun w => Index.getTotalSize e.caseSensitiveLike e.userId ['/'] w.index
  update fun w =>
    let storageUsed := Function.update w.shared.storageUsed e.userId totalUsed
    { w with shared := { w.shared with storageUsed } }

def recoverAll : Vfs Nat := do
  let rows ← query fun w => w.wal.filter fun row => row.status ≠ .completed
  if rows = [] then pure 0
  else do
    Effect.modify fun w => { w with maintenance := true }
    let failed ← e.recoverRows rows
    when (failed = 0) (regardless e.recalibrateStorageUsed)
    Effect.modify fun w => { w with maintenance := false }
    pure failed

end Engine
end StorageHub.Scoped
