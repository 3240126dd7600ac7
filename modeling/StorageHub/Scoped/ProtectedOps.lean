import StorageHub.Scoped.Read

/-! The operations on protected paths: the bytes of a file lie in a blob of an
opaque name, and only the index knows the logical paths. -/
namespace StorageHub.Scoped
open Library WriteCache Paths Protected Vfs

def sameProtectedDomain (src dst : ProtectedPathPlan) : Bool :=
  src.root == dst.root && src.mode == dst.mode && src.keySlotId == dst.keySlotId

/-- `map_subtree_path`, which slices the path after the length of the root. -/
def mapSubtreePath (srcRoot dstRoot current : Text) : Option Text :=
  if current = srcRoot then some dstRoot
  else (Text.dropBytes (Text.byteLength srcRoot) current).map (dstRoot ++ ·)

def fileInfoFromIndexWithPath (row : IndexRow) (path : Text) : VfsFileInfo :=
  { infoOfRow row with name := lastSegment path, path }

/-- The sum of the sizes of the files among some rows. -/
def filesSize (rows : List IndexRow) : Int :=
  ((rows.filter fun row => !row.isDir).map fun row => max row.size 0).sum

/-- Where bytes put at an offset end; the sum wraps. -/
def patchEnd (offset : Nat) (data : Bytes) : Nat := (offset + data.length) % 2 ^ 64

/-- `resize` with zeros, where the content is shorter. -/
def resizeTo (stop : Nat) (content : Bytes) : Bytes := content ++ List.replicate (stop - content.length) 0

/-- The resized content with the bytes put at the offset. A sum that wraps ends
before it starts, and there is no such slice. -/
def patchBytes (content : Bytes) (offset : Nat) (data : Bytes) : Option Bytes :=
  let resized := resizeTo (patchEnd offset data) content
  if offset + data.length < 2 ^ 64 then
    some (resized.take offset ++ data ++ resized.drop (offset + data.length))
  else none

namespace Engine
variable (e : Engine)

def nextBlobLogicalPath (keySlotId : Text) (blobId : Nat) : Text :=
  protectedStorageDir ++ '/' :: e.slotPrefix keySlotId ++ '/' :: (toString blobId).toList ++
    ".bin".toList

/-- The directory of the new blob is made as well as it can. -/
def nextProtectedBlobPhysicalPath (keySlotId : Text) : Vfs Text := do
  let blobId ← freshUuid
  let path := e.getPhysicalPath (e.nextBlobLogicalPath keySlotId blobId)
  regardless (e.poolCreateDir (parentPath path))
  pure path

def protectedWriteImpl (path : Text) (data : Bytes) (plan : ProtectedPathPlan) : Vfs VfsFileInfo := do
  checkMaintenance
  let existing ← e.getIndexMetadata path
  let currentSize := (existing.map fun row => max row.size 0).getD 0
  let diff := (data.length : Int) - currentSize
  when (0 < diff) (e.checkQuota diff)
  let fresh ← e.nextProtectedBlobPhysicalPath plan.keySlotId
  -- an overwrite goes to the blob the file already has
  let backendKey := (existing.bind (·.backendKey)).getD fresh
  let nonce ← freshUuid
  let encoded ← Effect.ofExcept (textError (encodePayload e.crypto e.userId plan (e.draw nonce) data))
  let physicalSize : Int := encoded.blob.length
  let walId ← e.beginWal (.write path data.length (some ⟨backendKey,physicalSize,encoded.metadata⟩))
    (e.shouldSkipWalForWrite path data.length)
  let _ ← orFailWal walId (e.poolWrite backendKey encoded.blob)
  markWalPhysicalDone walId
  let info : VfsFileInfo := ⟨lastSegment path,path,false,data.length,
    (existing.map (·.favoriteColor)).getD 0,none,none⟩
  e.upsertIndexHelperWithBackendKey path info (some backendKey) (some physicalSize)
    (some encoded.metadata)
  completeWal walId
  when (diff ≠ 0) (regardless (e.updateQuota diff))
  pure info

def protectedWriteStreamImpl (path : Text) (chunks : List Bytes) (plan : ProtectedPathPlan) :
    Vfs VfsFileInfo :=
  e.protectedWriteImpl path chunks.flatten plan

/-- Where there is no slice nothing is put, and the resized content is written. -/
def patchOrResize (content : Bytes) (offset : Nat) (data : Bytes) : Bytes :=
  (patchBytes content offset data).getD (resizeTo (patchEnd offset data) content)

def protectedWriteAtImpl (path : Text) (offset : Nat) (data : Bytes) (plan : ProtectedPathPlan) :
    Vfs VfsFileInfo := do
  let current ← (e.protectedReadAllImpl path plan).attempt
  match current with
  | .ok (bytes,_) => e.protectedWriteImpl path (patchOrResize bytes offset data) plan
  | .error (.notFound _) => e.protectedWriteImpl path (patchOrResize [] offset data) plan
  | .error err => Effect.fail err

/-- The row of a path and the rows a `LIKE` of the paths below it selects. -/
def subtreeRows (path : Text) : Vfs (List IndexRow) := query fun w =>
  w.index.filter fun row => Index.at_ e.userId path row ||
    Index.likeBelow e.caseSensitiveLike e.userId (Text.trimEnd '/' path) row

def protectedSubtreeRows (root : Text) : Vfs (List IndexRow) := do
  let rows ← e.subtreeRows root
  pure (rows.mergeSort fun a b => decide (Text.byteLength a.path ≤ Text.byteLength b.path))

/-- Each blob is deleted once. -/
def deleteBlobs : List IndexRow → List Text → Vfs Unit
  | [], _ => pure ()
  | item::rest, deleted =>
    match item.backendKey with
    | none => deleteBlobs rest deleted
    | some key =>
      if key ∈ deleted then deleteBlobs rest deleted
      else do
        let _ ← e.poolDelete key
        deleteBlobs rest (key::deleted)

def protectedDeleteImpl (path : Text) : Vfs VfsFileInfo := do
  checkMaintenance
  match ← e.getIndexMetadata path with
  | none => Effect.fail (.notFound path)
  | some row => do
    let descendants ← if row.isDir then e.subtreeRows path else pure [row]
    let reclaimedSize := filesSize descendants
    let walId ← e.beginWal (.delete path) (e.shouldSkipWalForPath path)
    e.deleteBlobs descendants []
    markWalPhysicalDone walId
    e.indexDeleteFile path
    completeWal walId
    when (0 < reclaimedSize) (regardless (e.updateQuota (-reclaimedSize)))
    pure (infoOfRow row)

def protectedCreateDirImpl (path : Text) : Vfs VfsFileInfo := do
  match ← e.getIndexMetadata path with
  | some row => pure (infoOfRow row)
  | none => do
    let info : VfsFileInfo := ⟨lastSegment path,path,true,0,0,none,none⟩
    e.upsertIndexHelperWithBackendKey path info none none none
    pure info

def protectedMoveSameDomainImpl (src dst : Text) : Vfs VfsFileInfo := do
  match ← e.getIndexMetadata dst with
  | some _ => Effect.fail (.internal "Protected move target already exists".toList)
  | none => do
    let walId ← e.beginWal (.move src dst) (e.shouldSkipWalForPath src)
    markWalPhysicalDone walId
    orFailWal walId (e.indexMoveFile src dst)
    completeWal walId
    e.statImpl dst

/-! ### Copies -/

def planEntry (row : IndexRow) (dstPath : Text) (dstBackendKey : Option Text) : WalCopyPlanEntry where
  srcPath := row.path
  dstPath
  isDir := row.isDir
  size := row.size.toNat
  location :=
    { storageId := row.storageId
      backendType := row.backendType
      backendKey := dstBackendKey
      physicalSize := row.physicalSize
      protectedMeta := row.protectedMeta }

def buildProtectedCopyPlan (src dst : Text) (plan : ProtectedPathPlan) :
    List IndexRow → Vfs (List WalCopyPlanEntry)
  | [] => pure []
  | row::rest =>
    match mapSubtreePath src dst row.path with
    | none => abort
    | some dstPath => do
      let key ← if row.isDir then pure none
        else some <$> e.nextProtectedBlobPhysicalPath plan.keySlotId
      let entries ← buildProtectedCopyPlan src dst plan rest
      pure (planEntry row dstPath key::entries)

def rollbackPaths : List Text → Vfs Unit
  | [] => pure ()
  | path::rest => do
    regardless (e.indexDeleteFile path)
    rollbackPaths rest

def rollbackBlobs : List Text → Vfs Unit
  | [] => pure ()
  | key::rest => do
    regardless (e.poolDelete key)
    rollbackBlobs rest

def rollbackProtectedCopyPartial (createdPaths createdBackendKeys : List Text) : Vfs Unit := do
  e.rollbackPaths createdPaths.reverse
  e.rollbackBlobs createdBackendKeys.reverse

def copyBlobs (walId : Option Nat) : List (IndexRow × WalCopyPlanEntry) → List Text → Vfs (List Text)
  | [], created => pure created
  | (row,entry)::rest, created =>
    if row.isDir then copyBlobs walId rest created
    else
      match row.backendKey,entry.location.backendKey with
      | none,_ => Effect.fail (.internal "Protected source backend key is missing".toList)
      | some _,none =>
        Effect.fail (.internal "Protected copy plan is missing dst backend key".toList)
      | some srcBackend,some dstBackend => do
        let copied ← (e.poolCopyFile srcBackend dstBackend).attempt
        match copied with
        | .ok _ => copyBlobs walId rest (created ++ [dstBackend])
        | .error err => do
          e.rollbackProtectedCopyPartial [] created
          failWal walId
          Effect.fail err

def upsertCopies (walId : Option Nat) (createdBackendKeys : List Text) :
    List (IndexRow × WalCopyPlanEntry) → List Text → Vfs Unit
  | [], _ => pure ()
  | (row,entry)::rest, createdPaths => do
    let info := fileInfoFromIndexWithPath row entry.dstPath
    let upserted ← (if row.isDir then
        e.upsertIndexHelperWithBackendKey entry.dstPath info none none none
      else
        e.upsertIndexHelperWithBackendKey entry.dstPath info entry.location.backendKey
          entry.location.physicalSize entry.location.protectedMeta).attempt
    match upserted with
    | .ok _ => upsertCopies walId createdBackendKeys rest (createdPaths ++ [entry.dstPath])
    | .error err => do
      e.rollbackProtectedCopyPartial createdPaths createdBackendKeys
      failWal walId
      Effect.fail err

def protectedCopySameDomainImpl (src dst : Text) (plan : ProtectedPathPlan) : Vfs VfsFileInfo := do
  match ← e.getIndexMetadata dst with
  | some _ => Effect.fail (.internal "Protected copy target already exists".toList)
  | none => do
    let rows ← e.protectedSubtreeRows src
    if rows = [] then Effect.fail (.notFound src)
    else do
      let totalSize := filesSize rows
      when (0 < totalSize) (e.checkQuota totalSize)
      let entries ← e.buildProtectedCopyPlan src dst plan rows
      let walId ← e.beginWal (.copy src dst (some ⟨entries⟩)) (e.shouldSkipWalForPath src)
      let created ← e.copyBlobs walId (rows.zip entries) []
      markWalPhysicalDone walId
      e.upsertCopies walId created (rows.zip entries) []
      when (0 < totalSize) (regardless (e.updateQuota totalSize))
      completeWal walId
      e.statImpl dst

end Engine
end StorageHub.Scoped
