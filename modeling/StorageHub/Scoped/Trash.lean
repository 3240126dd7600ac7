import StorageHub.Scoped.Write

/-! The recycle bin. -/
namespace StorageHub.Scoped
open Library Protected Vfs

def trashPathOf (uuid : Nat) (name : Text) : Text :=
  "/.recycle_bin/".toList ++ (toString uuid).toList ++ '_' :: name

namespace Engine
variable (e : Engine)

def ensureRecycleBinInitialized : Vfs Unit := do
  let w ← Effect.get
  if w.recycleBinInitialized then pure ()
  else do
    let _ ← e.poolCreateDir (e.getPhysicalPath recycleBin)
    Effect.modify fun w => { w with recycleBinInitialized := true }

def moveRegularPathWithoutWal (src dst : Text) : Vfs VfsFileInfo := do
  if isTempPath src || isTempPath dst then
    Effect.fail (.internal "Recycle bin operations do not support temp paths".toList)
  else do
    e.flushPendingWriteCacheForPath src
    e.flushPendingWriteCacheForPath dst
    let _ ← e.poolMoveFile (e.getPhysicalPath src) (e.getPhysicalPath dst)
    e.statImpl dst

/-- The trash of a tree protected from its root on: only the index changes. -/
def trashProtected (path trashPath : Text) (info : VfsFileInfo) : Vfs VfsFileInfo := do
  let walId ← e.beginWal (.moveToTrash path trashPath) (e.shouldSkipWalForPath path)
  markWalPhysicalDone walId
  e.indexTrashFile path trashPath
  completeWal walId
  let now ← Effect.perform fun env w => (.ok env.now,w)
  pure { info with path := trashPath, originalPath := some path, trashedAt := some now }

def trashRegular (path trashPath : Text) : Vfs VfsFileInfo := do
  e.ensureRecycleBinInitialized
  let walId ← e.beginWal (.moveToTrash path trashPath) (e.shouldSkipWalForPath path)
  let info ← orFailWal walId (e.moveRegularPathWithoutWal path trashPath)
  markWalPhysicalDone walId
  orFailWal walId (e.indexTrashFile path trashPath)
  completeWal walId
  pure info

def moveToTrashImpl (path : Text) : Vfs VfsFileInfo := do
  checkMaintenance
  if ← e.isProtectedSubdirPath path then
    Effect.fail (.internal "Recycle bin is disabled for protected subdirectory storage".toList)
  else if inRecycleBin path then
    Effect.fail (.internal "Path is already inside recycle bin".toList)
  else do
    let info ← e.statImpl path
    let uuid ← freshUuid
    let trashPath := trashPathOf uuid info.name
    match ← e.getProtectedPlan path with
    | some plan =>
      if plan.root = ['/'] ∧ isHiddenStoragePath path = false then
        e.trashProtected path trashPath info
      else e.trashRegular path trashPath
    | none => e.trashRegular path trashPath

def restoreProtected (trashPath originalPath : Text) : Vfs VfsFileInfo := do
  let walId ← e.beginWal (.restoreTrash trashPath originalPath) (e.shouldSkipWalForPath trashPath)
  markWalPhysicalDone walId
  e.indexRestoreFile trashPath originalPath
  completeWal walId
  e.statImpl originalPath

def restoreRegular (trashPath originalPath : Text) : Vfs VfsFileInfo := do
  let walId ← e.beginWal (.restoreTrash trashPath originalPath) (e.shouldSkipWalForPath trashPath)
  let info ← orFailWal walId (e.moveRegularPathWithoutWal trashPath originalPath)
  markWalPhysicalDone walId
  orFailWal walId (e.indexRestoreFile trashPath originalPath)
  completeWal walId
  pure info

def restoreFromTrashImpl (path : Text) : Vfs VfsFileInfo := do
  checkMaintenance
  if !inRecycleBin path then Effect.fail (.internal "Path is not inside recycle bin".toList)
  else do
    let found ← (e.getIndexMetadata path).attempt
    match found.toOption.join.bind (·.originalPath) with
    | none => Effect.fail (.internal "Not in trash or original path lost".toList)
    | some originalPath =>
      match ← e.getProtectedPlan originalPath with
      | some plan =>
        if plan.root = ['/'] then e.restoreProtected path originalPath
        else e.restoreRegular path originalPath
      | none => e.restoreRegular path originalPath

end Engine
end StorageHub.Scoped
