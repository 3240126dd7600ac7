import StorageHub.Scoped.World

/-! The pool: the primary operator behind the read cache and the write cache,
with the backup operator for reads that fail. -/
namespace StorageHub.Scoped
open Library WriteCache Vfs

/-- The calls of one task of the write cache, in order, until it has returned. -/
def runSteps {τ : Type} (step : Env → World → τ → Option (World × τ)) (returned : τ → Bool) :
    Nat → τ → Vfs τ
  | 0, task => pure task
  | fuel + 1, task =>
    if returned task then pure task
    else do
      let task ← Effect.perform fun env w =>
        match step env.toEnv w task with
        | some (w',task') => (.ok task',w')
        | none => (.ok task,w)
      runSteps step returned fuel task

def enqueueReturned (task : EnqueueTask) : Bool :=
  match task.phase with
  | .done _ => true
  | _ => false

def enqueueWorldStep (m : WriteCacheManager) (env : Env) (w : World) (task : EnqueueTask) :
    Option (World × EnqueueTask) :=
  (enqueueStep m 0 env w.shared task).map fun out => ({ w with shared := out.1 },out.2)

def flushReturned (task : FlushTask) : Bool :=
  match task.phase with
  | .done _ => true
  | _ => false

def FlushTask.writing (task : FlushTask) : Bool :=
  match task.phase with
  | .write _ _ _ => true
  | _ => false

/-- The write of a flush is one to the primary: a directory in its place
refuses it, and missing directories above it are made. -/
def flushWorldStep (m : WriteCacheManager) (env : Env) (w : World) (task : FlushTask) :
    Option (World × FlushTask) :=
  let writing := FlushTask.writing task
  let ok := env.ok && (!writing || w.primary.accepts task.target.path)
  (flushStep m { env with ok } w.shared task).map fun out =>
    let dirs := if writing && ok then w.primary.makeAncestors task.target.path else w.dirs
    ({ w with shared := out.1, dirs },{ task with phase := out.2 })

/-- More than any of its tasks has steps. -/
def taskFuel : Nat := 24

def flushEntry (m : WriteCacheManager) (record : RecordId) (force : Bool) : Vfs Unit := do
  let w ← Effect.get
  match w.shared.records.lookup record with
  | none => pure ()
  | some found => do
    let task ← runSteps (flushWorldStep m) flushReturned taskFuel
      ⟨record,found.target,force,.snapshot⟩
    match task.phase with
    | .done true => pure ()
    | _ => Effect.fail (.internal "write cache flush failed".toList)

namespace Engine
variable (e : Engine)

/-! ### Write cache -/

def pendingRecord (path : Text) (w : World) : Option PendingWriteMutable :=
  e.writeCache.bind fun _ => (w.shared.entries.lookup path).bind w.shared.inner

def poolPendingStat (path : Text) : Vfs (Option VfsFileInfo) := do
  let w ← Effect.get
  pure ((e.pendingRecord path w).map fun inner => fileInfo path ⟨false,inner.size⟩)

/-- A blob file that cannot be read counts as no pending data. -/
def poolPendingRead (path : Text) : Vfs (Option (Bytes × VfsFileInfo)) :=
  Effect.perform fun env w =>
    let hit := (e.pendingRecord path w).bind fun inner =>
      let data := match inner.blob with
        | .memory data => some data
        | .disk file => if env.ok then w.shared.blobs.lookup file else none
      data.map fun data => (data,fileInfo path ⟨false,inner.size⟩)
    (.ok hit,w)

def isDirtyPath (path : Text) (w : World) : Bool :=
  e.writeCache.isSome && (w.shared.dirtyPaths.lookup path).isSome

def isDirtyDir (path : Text) (w : World) : Bool :=
  e.writeCache.isSome && (w.shared.dirtyDirs.lookup path).isSome

def pendingQuotaDelta (w : World) : Int :=
  match e.writeCache with
  | none => 0
  | some _ => ((w.shared.quotaSyncUsers.lookup e.userId).map (·.delta)).getD 0

def flushWriteCache (path : Text) : Vfs Unit := do
  match e.writeCache with
  | none => pure ()
  | some m =>
    let w ← Effect.get
    match w.shared.entries.lookup path with
    | none => pure ()
    | some record => flushEntry m record true

/-- `enqueue_write_cache`: an info when the data was taken, an error when it
could not be staged. -/
def enqueueWriteCache (target : CacheTarget) (data : Bytes) : Vfs (Option VfsFileInfo) := do
  match e.writeCache with
  | none => pure none
  | some m =>
    let task ← runSteps (enqueueWorldStep m) enqueueReturned taskFuel (.begin target data 0)
    match task.phase with
    | .done .acknowledged => pure (some (fileInfo target.path ⟨false,data.length⟩))
    | .done .bypassed => pure none
    | _ => Effect.fail (.internal "write cache enqueue failed".toList)

/-! ### Read cache -/

def invalidateReadCache (path : Text) : Vfs Unit := Effect.modify fun w =>
  let readCache := if e.readCache.isSome then w.shared.readCache.erase path else w.shared.readCache
  { w with shared := { w.shared with readCache } }

/-- An entry may have expired or been dropped. -/
def readCacheGet (path : Text) : Vfs (Option Bytes) := Effect.perform fun env w =>
  (.ok (if e.readCache.isSome && env.ok then w.shared.readCache.lookup path else none),w)

def readCachePut (path : Text) (data : Bytes) : Vfs Unit := Effect.perform fun env w =>
  let readCache := match e.readCache with
    | none => w.shared.readCache
    | some admits =>
      if admits path data.length then
        if env.ok then w.shared.readCache.insert path data else w.shared.readCache.erase path
      else w.shared.readCache
  (.ok (),{ w with shared := { w.shared with readCache } })

/-! ### Operators -/

def primaryStat (path : Text) : Vfs VfsFileInfo := call fun _ w =>
  match w.primary.stat path with
  | some m => (.ok (fileInfo path m),w)
  | none => (.error (.notFound path),w)

def backupStat (backup : Disk) (path : Text) : Vfs VfsFileInfo := call fun _ w =>
  match backup.stat path with
  | some m => (.ok (fileInfo path m),w)
  | none => (.error (.notFound path),w)

def primaryRead (path : Text) : Vfs Bytes := call fun _ w =>
  match w.primary.read path with
  | some data => (.ok data,w)
  | none => (.error (.notFound path),w)

def backupRead (backup : Disk) (path : Text) : Vfs Bytes := call fun _ w =>
  match backup.read path with
  | some data => (.ok data,w)
  | none => (.error (.notFound path),w)

def primaryDelete (path : Text) : Vfs Unit := operate .other fun w =>
  (w.primary.delete path).map w.setPrimary

/-! ### Pool -/

def orBackup {α : Type} (primary : Vfs α) (fallback : Disk → Vfs α) : Vfs α := do
  let result ← primary.attempt
  match result with
  | .ok a => pure a
  | .error err =>
    match e.backup with
    | none => Effect.fail err
    | some backup => fallback backup

def poolStat (path : Text) : Vfs VfsFileInfo := do
  match ← e.poolPendingStat path with
  | some info => pure info
  | none => e.orBackup (primaryStat path) fun backup => backupStat backup path

def poolExists (path : Text) : Vfs Bool := do
  match ← e.poolPendingStat path with
  | some _ => pure true
  | none => do
    let result ← (query fun w => w.primary.exists_ path).attempt
    match result,e.backup with
    | .ok true,_ => pure true
    | .ok false,none => pure false
    | .ok false,some backup => query fun _ => backup.exists_ path
    | .error err,none => Effect.fail err
    | .error _,some backup => query fun _ => backup.exists_ path

def poolRead (path : Text) : Vfs (Bytes × VfsFileInfo) := do
  match ← e.poolPendingRead path with
  | some hit => pure hit
  | none =>
    match ← e.readCacheGet path with
    | some data => pure (data,fileInfo path ⟨false,data.length⟩)
    | none => do
      let result ← (primaryRead path).attempt
      match result with
      | .ok data => do
        let info ← primaryStat path
        e.readCachePut path data
        pure (data,info)
      | .error err =>
        match e.backup with
        | none => Effect.fail err
        | some backup => do
          let data ← backupRead backup path
          let info ← backupStat backup path
          pure (data,info)

def sliceBytes (data : Bytes) (start stop : Nat) : Bytes :=
  let start := min start data.length
  let stop := min stop data.length
  if stop ≤ start then [] else (data.take stop).drop start

/-- The bytes from `start` up to `stop`, as far as the file has them. -/
def poolReadRange (path : Text) (start stop : Nat) : Vfs Bytes := do
  match ← e.poolPendingRead path with
  | some hit => pure (sliceBytes hit.1 start stop)
  | none =>
    match ← e.readCacheGet path with
    | some data => pure (sliceBytes data start stop)
    | none => do
      let result ← (primaryStat path).attempt
      match result with
      | .ok _ => do
        let data ← primaryRead path
        pure (sliceBytes data start stop)
      | .error err =>
        match e.backup with
        | none => Effect.fail err
        | some backup => do
          let _ ← backupStat backup path
          let data ← backupRead backup path
          pure (sliceBytes data start stop)

def poolWrite (path : Text) (data : Bytes) : Vfs VfsFileInfo := do
  e.invalidateReadCache path
  operate .other fun w => (w.primary.write path data).map w.setPrimary
  e.poolStat path

/-- The stream goes to a temporary file beside the target, which then takes the
target's name. -/
def poolWriteStream (path : Text) (data : Bytes) : Vfs VfsFileInfo := do
  e.invalidateReadCache path
  let tempPath := path ++ ".tmp".toList
  operate .other fun w => (w.primary.write tempPath data).map w.setPrimary
  operate .other fun w => (w.primary.rename tempPath path).map w.setPrimary
  e.poolStat path

def removeEntries : List (Text × Metadata) → Vfs Unit
  | [] => pure ()
  | entry::rest => do
    let path := if entry.2.isDir then entry.1 ++ ['/'] else entry.1
    e.invalidateReadCache path
    primaryDelete path
    removeEntries rest

/-- The entries below a directory, deepest first, then the directory. -/
def removeTree (path : Text) : Vfs Unit := do
  let normalized := normalizeEntryPath path
  let listPath := if normalized = ['/'] then ['/'] else Text.trimEnd '/' normalized ++ ['/']
  let entries ← e.orBackup (query fun w => w.primary.listRecursive normalized)
    fun backup => query fun _ => backup.listRecursive normalized
  let sorted := entries.mergeSort fun a b =>
    decide (Text.byteLength a.1 ≤ Text.byteLength b.1)
  e.removeEntries sorted.reverse
  e.invalidateReadCache normalized
  primaryDelete listPath

def poolDelete (path : Text) : Vfs VfsFileInfo := do
  let info ← e.poolStat path
  e.invalidateReadCache path
  if info.isDir then do
    e.removeTree path
    pure info
  else do
    primaryDelete path
    pure info

def poolCreateDir (path : Text) : Vfs VfsFileInfo := do
  let dirPath := if hasTrailingSlash path then path else path ++ ['/']
  e.invalidateReadCache dirPath
  operate .other fun w => (w.primary.createDir dirPath).map w.setPrimary
  e.poolStat dirPath

def poolMoveFile (src dst : Text) : Vfs VfsFileInfo := do
  e.invalidateReadCache src
  e.invalidateReadCache dst
  operate .other fun w => (w.primary.rename src dst).map w.setPrimary
  e.poolStat dst

def poolCopyFile (src dst : Text) : Vfs VfsFileInfo := do
  e.invalidateReadCache src
  e.invalidateReadCache dst
  operate .other fun w => (w.primary.copy src dst).map w.setPrimary
  e.poolStat dst

end Engine
end StorageHub.Scoped
