import StorageHub.Scoped.Pool

/-! The reading side of an engine: existence, metadata and content by logical
path, the index lookups behind them, and the quota figures. Paths are validated
ones. -/
namespace StorageHub.Scoped
open Library WriteCache Protected Vfs

namespace Engine
variable (e : Engine)

def getProtectedPlan (path : Text) : Vfs (Option ProtectedPathPlan) := do
  let plan ← Effect.ofExcept e.resolveProtectedPlan
  pure (plan.filter fun plan => plan.matchesPath path)

def getIndexMetadata (path : Text) : Vfs (Option IndexRow) :=
  query fun w => Index.getFileMetadata e.userId path w.index

/-- The settings, when the database gives them. -/
def getUserSettings : Vfs (Option UserSettings) := query fun _ => e.settings

def isProtectedSubdirPath (path : Text) : Vfs Bool := do
  let settings ← e.getUserSettings
  match settings.bind (·.protectedRoot) with
  | none => pure false
  | some root => pure (root != ['/'] && matchesRoot root path)

def pendingStat (path : Text) : Vfs (Option VfsFileInfo) := do
  if isTempPath path then pure none
  else do
    let info ← e.poolPendingStat (e.getPhysicalPath path)
    pure (info.map e.translateFileInfo)

def tempStat (path : Text) : Vfs VfsFileInfo := call fun _ w =>
  match w.temp.stat (tempPath path) with
  | some m => (.ok (fileInfo path m),w)
  | none => (.error (.io .notFound),w)

/-- The row of a path the cache has not written since its last index sync. -/
def indexProbe (path : Text) : Vfs (Option IndexRow) := do
  let w ← Effect.get
  if e.isDirtyPath (e.getPhysicalPath path) w then pure none
  else do
    let result ← (e.getIndexMetadata path).attempt
    match result with
    | .ok row => pure row
    | .error _ => pure none

def statPhysical (path : Text) : Vfs VfsFileInfo := do
  match ← e.indexProbe path with
  | some row => do
    if ← e.poolExists (e.getPhysicalPath path) then pure (infoOfRow row)
    else Effect.fail (.notFound path)
  | none => do
    let info ← e.poolStat (e.getPhysicalPath path)
    pure (fileInfo path ⟨info.isDir,info.size⟩)

def statImpl (path : Text) : Vfs VfsFileInfo := do
  if isTempPath path then tempStat path
  else
    match ← e.pendingStat path with
    | some info => pure info
    | none =>
      match ← e.getProtectedPlan path with
      | none => e.statPhysical path
      | some plan =>
        match ← e.getIndexMetadata path with
        | some row => pure (infoOfRow row)
        | none =>
          if path ≠ plan.root then Effect.fail (.notFound path) else e.statPhysical path

def existsImpl (path : Text) : Vfs Bool := do
  match ← e.pendingStat path with
  | some _ => pure true
  | none =>
    if isTempPath path then do
      let w ← Effect.get
      pure (w.temp.exists_ (tempPath path))
    else
      match ← e.getIndexMetadata path with
      | some _ => e.poolExists (e.getPhysicalPath path)
      | none =>
        match ← e.getProtectedPlan path with
        | some plan =>
          if path = plan.root then pure true else e.poolExists (e.getPhysicalPath path)
        | none => e.poolExists (e.getPhysicalPath path)

/-! ### Protected content -/

structure ProtectedPayload where
  header : ProtectedHeader
  metadata : ProtectedMetaRecord
  payloadLogicalStart : Nat
  payload : Bytes
  macBytes : Option Bytes

def protectedReadPayloadRange (row : IndexRow) (start stop : Nat) : Vfs ProtectedPayload := do
  match row.backendKey with
  | none => Effect.fail (.internal "Protected file backend key is missing".toList)
  | some backendKey =>
    match row.protectedMeta with
    | none => Effect.fail (.internal "Protected metadata is missing".toList)
    | some metadata =>
      let header := metadata.intoHeader
      let physicalSize := (row.physicalSize.getD 0).toNat
      let logicalEnd := min stop header.logicalSize
      let aligned (unit : Nat) : Nat × Nat :=
        (start / unit * unit,min ((logicalEnd + (unit - 1)) / unit * unit) header.logicalSize)
      match header.mode with
      | .obfuscate => do
        let (alignedStart,clampedEnd) := aligned (max header.blockSize 1)
        let payload ← e.poolReadRange backendKey (protectedHeaderLen + alignedStart)
          (protectedHeaderLen + clampedEnd)
        pure ⟨header,metadata,alignedStart,payload,none⟩
      | .encrypt =>
        if metadata.integrity = .hmacSha256Chunked then do
          let chunkSize := metadata.integrityChunkSize.getD defaultEncryptIntegrityChunkSize
          let (alignedStart,clampedEnd) := aligned chunkSize
          let payload ← e.poolReadRange backendKey (protectedHeaderLen + alignedStart)
            (protectedHeaderLen + clampedEnd)
          let coveredChunks := integrityChunkCount (clampedEnd - alignedStart) chunkSize
          let macStart := protectedHeaderLen + header.logicalSize +
            alignedStart / chunkSize * protectedMacLen
          let macBytes ← e.poolReadRange backendKey macStart
            (min (macStart + coveredChunks * protectedMacLen) physicalSize)
          pure ⟨header,metadata,alignedStart,payload,some macBytes⟩
        else do
          let physicalEnd := min (protectedHeaderLen + logicalEnd) (max physicalSize protectedHeaderLen)
          let payload ← e.poolReadRange backendKey (protectedHeaderLen + start) physicalEnd
          pure ⟨header,metadata,start,payload,none⟩

def textError {α : Type} (result : Except Text α) : Except VfsError α :=
  match result with
  | .ok a => .ok a
  | .error message => .error (.internal message)

def verifyPayload (plan : ProtectedPathPlan) (read : ProtectedPayload) : Except VfsError Unit :=
  if read.header.mode = .encrypt ∧ read.metadata.integrity = .hmacSha256Chunked then
    match plan.encryptKey,read.macBytes with
    | none,_ => .error (.internal "Protected encrypt key is missing".toList)
    | some _,none => .error (.internal "Protected MAC bytes are missing".toList)
    | some key,some macBytes =>
      textError (verifyEncryptWindow e.crypto key
        (read.metadata.integrityChunkSize.getD defaultEncryptIntegrityChunkSize)
        read.payloadLogicalStart read.payload macBytes)
  else .ok ()

def protectedReadAllImpl (path : Text) (plan : ProtectedPathPlan) : Vfs (Bytes × VfsFileInfo) := do
  match ← e.getIndexMetadata path with
  | none => Effect.fail (.notFound path)
  | some row =>
    if row.isDir then
      Effect.fail (.internal "Protected directories cannot be read as files".toList)
    else do
      let read ← e.protectedReadPayloadRange row 0 row.size.toNat
      Effect.ofExcept (e.verifyPayload plan read)
      let data ← Effect.ofExcept (textError (decodeRange e.crypto e.userId plan.keySlotId
        plan.encryptKey read.header read.payload read.payloadLogicalStart 0 row.size.toNat))
      pure (data,infoOfRow row)

/-! ### Content and listings -/

def tempRead (path : Text) : Vfs Bytes := call fun _ w =>
  match w.temp.read (tempPath path) with
  | some data => (.ok data,w)
  | none => (.error (.io .notFound),w)

def readImpl (path : Text) : Vfs (Bytes × VfsFileInfo) := do
  if isTempPath path then do
    let info ← e.statImpl path
    let data ← tempRead path
    pure (data,info)
  else
    match ← e.getProtectedPlan path with
    | some plan => e.protectedReadAllImpl path plan
    | none =>
      match ← e.pendingStat path with
      | some info => do
        let (data,_) ← e.poolRead (e.getPhysicalPath path)
        pure (data,info)
      | none => do
        let info ← e.statImpl path
        let (data,_) ← e.poolRead (e.getPhysicalPath path)
        pure (data,info)

/-- `tokio::fs::read_dir` of a directory of the temp namespace. -/
def tempList (path : Text) : Vfs (List VfsFileInfo) := call fun _ w =>
  if (w.temp.dirs.lookup (tempPath path)).isSome then
    (.ok ((w.temp.listChildren (tempPath path)).map fun entry =>
      fileInfo (Text.trimEnd '/' path ++ '/' :: lastSegment entry.1) entry.2),w)
  else (.error (.io .notFound),w)

def entryInfo (entry : Text × Metadata) : VfsFileInfo := e.translateFileInfo (fileInfo entry.1 entry.2)

def listRecursivePhysical (path : Text) : Vfs (List VfsFileInfo) := do
  let physical := e.getPhysicalPath path
  let entries ← e.orBackup (query fun w => w.primary.listPrefix physical)
    fun backup => query fun _ => backup.listPrefix physical
  pure ((entries.map e.entryInfo).filter fun info => !isHiddenStoragePath info.path && info.path != path)

def listRecursiveImpl (path : Text) : Vfs (List VfsFileInfo) := do
  if isTempPath path then tempList path
  else
    match ← e.getProtectedPlan path with
    | some _ => do
      let rows ← query fun w => Index.listFilesRecursive e.caseSensitiveLike e.userId path w.index
      pure (rows.map infoOfRow)
    | none => do
      let w ← Effect.get
      if e.isDirtyDir (e.getPhysicalPath path) w then e.listRecursivePhysical path
      else do
        let rows ← query fun w => Index.listFilesRecursive e.caseSensitiveLike e.userId path w.index
        if rows = [] then e.listRecursivePhysical path else pure (rows.map infoOfRow)

/-! ### Index writes -/

def upsertFileWithLocation (path : Text) (info : VfsFileInfo) (location : Location) : Vfs Unit := do
  let id ← freshUuid
  transact fun now rows => Index.upsertFileWithLocation e.userId path info location id now rows

def upsertFile (path : Text) (info : VfsFileInfo) : Vfs Unit :=
  e.upsertFileWithLocation path info .unknown

def upsertIndexHelperWithBackendKey (path : Text) (info : VfsFileInfo) (backendKey : Option Text)
    (physicalSize : Option Int) (protectedMeta : Option ProtectedMetaRecord) : Vfs Unit := do
  if isProtectedBlobPath path then pure ()
  else do
    let skipped ← if isThumbnailCachePath path then do
        let plan ← e.getProtectedPlan path
        pure plan.isNone
      else pure false
    if skipped then pure ()
    else
      let location := ⟨some e.poolName,some e.backendType,backendKey,physicalSize,protectedMeta⟩
      e.upsertFileWithLocation path info location

def upsertIndexHelper (path : Text) (info : VfsFileInfo) : Vfs Unit :=
  e.upsertIndexHelperWithBackendKey path info (some (e.getPhysicalPath path)) none none

def indexDeleteFile (path : Text) : Vfs Unit := transact fun _ rows =>
  .ok (Index.deleteFile e.caseSensitiveLike e.userId path rows)

def indexMoveFile (src dst : Text) : Vfs Unit :=
  transact (Index.moveFile e.caseSensitiveLike e.userId src dst)

def indexTrashFile (path trashPath : Text) : Vfs Unit :=
  transact (Index.trashFile e.caseSensitiveLike e.userId path trashPath)

def indexRestoreFile (trashPath originalPath : Text) : Vfs Unit :=
  transact (Index.restoreFile e.caseSensitiveLike e.userId trashPath originalPath)

def syncedRow (path : Text) (now : Int) (id : Nat) (info : VfsFileInfo) (backendKey : Text) : IndexRow where
  id
  userId := e.userId
  parentPath := path
  name := info.name
  path := info.path
  isDir := info.isDir
  storageId := some e.poolName
  backendType := some e.backendType
  backendKey := some backendKey
  size := info.size
  physicalSize := none
  protectedMeta := none
  fileTrashedAt := none
  rowCreatedAt := now
  rowUpdatedAt := now
  favoriteColor := 0
  originalPath := none

/-- The rows a directory sync writes for the entries listed. -/
def syncRows (path : Text) (now : Int) (firstId : Nat) (entries : List (Text × Metadata)) :
    List IndexRow :=
  ((entries.map fun entry => (entry.1,e.entryInfo entry)).filter fun entry =>
    !isHiddenStoragePath entry.2.path && entry.2.path != path &&
      parentOf entry.2.path == path).zipIdx.map fun entry =>
    e.syncedRow path now (firstId + entry.2) entry.1.2 entry.1.1

def syncIndexImpl (path : Text) : Vfs Unit := do
  match ← e.getProtectedPlan path with
  | some _ => query fun _ => ()
  | none => do
    let physical := e.getPhysicalPath path
    let dir := normalizeEntryPath physical
    let entries ← e.orBackup (query fun w => w.primary.listChildren dir)
      fun backup => query fun _ => backup.listChildren dir
    let w ← Effect.get
    Effect.modify fun w => { w with nextUuid := w.nextUuid + entries.length }
    transact fun now rows =>
      let synced := (e.syncRows path now w.nextUuid entries).foldl
        (fun rows row => Index.upsertSynced row rows) rows
      .ok (Index.pruneDirectory e.userId path (now - 1) synced)

/-! ### Quota -/

def updateQuota (delta : Int) : Vfs Unit := update fun w =>
  { w with shared := w.shared.updateStorageUsed e.userId delta }

def checkQuota (additionalSize : Int) : Vfs Unit := do
  let w ← Effect.get
  let pendingDelta := e.pendingQuotaDelta w
  let used ← query fun w => w.shared.storageUsed e.userId
  match e.settings with
  | none => pure ()
  | some settings =>
    if 0 < settings.storageQuota ∧ settings.storageQuota < used + pendingDelta + additionalSize then
      Effect.fail .quotaExceeded
    else pure ()

def getFileSize (path : Text) : Vfs Int := do
  let result ← (e.statImpl path).attempt
  match result with
  | .ok info => pure info.size
  | .error _ => pure 0

end Engine
end StorageHub.Scoped
