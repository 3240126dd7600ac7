import StorageHub.Library.Effect
import StorageHub.Scoped.Disk
import StorageHub.Scoped.FileIndex
import StorageHub.WriteCache.Machine

/-! What an engine of one user works on, and its effects: calls of the storage
operator and of the database, each of which may fail, and the memory of the
process. -/
namespace StorageHub.Scoped
open Library WriteCache Protected

inductive ErrorKind
  | notFound
  | unexpected
  | invalidInput
  | other
  deriving DecidableEq,Repr

inductive VfsError
  | openDal (kind : ErrorKind)
  | internal (message : Text)
  | notFound (path : Text)
  | permissionDenied (message : Text)
  | quotaExceeded
  | maintenanceMode
  | io (kind : ErrorKind)
  deriving DecidableEq,Repr

/-- How an error is shown. -/
def VfsError.text : VfsError → Text
  | .openDal _ => "Storage error: ".toList
  | .internal message => "VFS logical error: ".toList ++ message
  | .notFound path => "Path not found: ".toList ++ path
  | .permissionDenied message => "Permission denied: ".toList ++ message
  | .quotaExceeded => "Storage quota exceeded".toList
  | .maintenanceMode =>
    "System maintenance in progress (WAL recovery), please try again later".toList
  | .io _ => "IO error: ".toList

/-! ### Write-ahead log -/

inductive WalStatus
  | pending
  | recovering
  | physicalDone
  | metadataDone
  | completed
  | failed
  deriving DecidableEq,Repr

namespace WalStatus

def isActive (status : WalStatus) : Bool := status != .completed

def hasPhysicalDone : WalStatus → Bool
  | .physicalDone | .metadataDone | .completed => true
  | _ => false

def hasMetadataDone : WalStatus → Bool
  | .metadataDone | .completed => true
  | _ => false

end WalStatus

structure WalProtectedWriteMeta where
  backendKey : Text
  physicalSize : Int
  protectedMeta : ProtectedMetaRecord
  deriving DecidableEq,Repr

structure WalCopyPlanEntry where
  srcPath : Text
  dstPath : Text
  isDir : Bool
  size : Nat
  location : Location
  deriving DecidableEq,Repr

structure WalCopyPlan where
  entries : List WalCopyPlanEntry
  deriving DecidableEq,Repr

inductive WalOperation
  | write (path : Text) (size : Nat) (protectedMeta : Option WalProtectedWriteMeta)
  | delete (path : Text)
  | copy (src dst : Text) (plan : Option WalCopyPlan)
  | move (src dst : Text)
  | rename (oldPath newPath : Text)
  | moveToTrash (path trashPath : Text)
  | createDir (path : Text)
  | restoreTrash (trashPath originalPath : Text)
  deriving DecidableEq,Repr

structure WalRow where
  id : Nat
  operation : WalOperation
  status : WalStatus
  deriving DecidableEq,Repr

/-! ### State and environment -/

/-- `shared` holds the caches, the files of the primary and the used bytes. -/
structure World where
  shared : Shared
  dirs : Store Text Unit
  temp : Disk
  index : Index
  wal : List WalRow
  nextWal : Nat
  nextUuid : Nat
  maintenance : Bool
  recycleBinInitialized : Bool

/-- How a call goes: whether it succeeds, when, and what its failure reports. -/
structure EngineEnv extends Env where
  error : VfsError
  deriving DecidableEq

instance : Inhabited EngineEnv := ⟨⟨⟨true,0⟩,.internal []⟩⟩

abbrev Vfs (α : Type) : Type := Effect World EngineEnv VfsError α

structure UserSettings where
  storageQuota : Int
  protectedRoot : Option Text
  deriving DecidableEq,Repr

/-- An engine of one user. `protectedDomain` is what checking the user's
protection settings gives, `draw` the random draws in their order, and
`caseSensitiveLike` the database's LIKE. -/
structure Engine where
  userId : Text
  plainUser : '/' ∉ userId
  portableUser : '\\' ∉ userId
  readCache : Option (Text → Nat → Bool)
  writeCache : Option WriteCacheManager
  sharedReadCache : ∀ m ∈ writeCache, m.readCache = readCache
  backup : Option Disk
  poolName : Text
  backendType : Text
  caseSensitiveLike : Bool
  walEnabled : Bool
  walSkipTempPath : Bool
  walMinSizeBytes : Nat
  settings : Option UserSettings
  protectedDomain : Except VfsError ProtectedDomain
  crypto : Crypto
  draw : Nat → Nonce
  slotPrefix : Text → Text

def World.primary (w : World) : Disk := ⟨w.shared.primary,w.dirs⟩

def World.setPrimary (w : World) (d : Disk) : World :=
  { w with shared := { w.shared with primary := d.files }, dirs := d.dirs }

/-- The plan of the user's protected root, when there is one. -/
def Engine.resolveProtectedPlan (e : Engine) : Except VfsError (Option ProtectedPathPlan) :=
  match e.settings.bind (·.protectedRoot) with
  | none => .ok none
  | some root => e.protectedDomain.map fun domain => some ⟨domain,root⟩

namespace Vfs

/-- A call that reads the state and may change it when it succeeds. -/
def call {α : Type} (f : EngineEnv → World → Except VfsError α × World) : Vfs α :=
  Effect.perform fun env w => if env.ok then f env w else (.error env.error,w)

def query {α : Type} (f : World → α) : Vfs α := call fun _ w => (.ok (f w),w)

def update (f : World → World) : Vfs Unit := call fun _ w => (.ok (),f w)

/-- An operation of the storage operator that is refused with `kind`. -/
def operate (kind : ErrorKind) (f : World → Option World) : Vfs Unit := call fun _ w =>
  match f w with
  | some w' => (.ok (),w')
  | none => (.error (.openDal kind),w)

def when (c : Prop) [Decidable c] (m : Vfs Unit) : Vfs Unit := if c then m else pure ()

/-- The program goes on whether or not `m` fails. -/
def regardless {α : Type} (m : Vfs α) : Vfs Unit := do
  let _ ← m.attempt
  pure ()

/-- The program stops there, as when it panics. -/
def abort {α : Type} : Vfs α := fun s _ => .crashed s

/-- A transaction on the index. A slice inside a character is a panic. -/
def transact (f : Int → Index → Except IndexError Index) : Vfs Unit := do
  let refused ← call fun env w =>
    match f env.now w.index with
    | .ok index => (.ok none,{ w with index })
    | .error e => (.ok (some e),w)
  match refused with
  | none => pure ()
  | some .charBoundary => abort
  | some .uniqueUserPath => Effect.fail (.internal "UNIQUE constraint failed".toList)

end Vfs

/-! ### Log rows -/

open Vfs

def setStatus (id : Nat) (status : WalStatus) (w : World) : World :=
  { w with wal := w.wal.map fun row => if row.id = id then { row with status } else row }

def logOperation (operation : WalOperation) : Vfs Nat := call fun _ w =>
  (.ok w.nextWal,
    { w with wal := w.wal ++ [⟨w.nextWal,operation,.pending⟩], nextWal := w.nextWal + 1 })

def Engine.beginWal (e : Engine) (operation : WalOperation) (skip : Bool) : Vfs (Option Nat) :=
  if skip || !e.walEnabled then pure none else some <$> logOperation operation

/-- A failure to record a status is only logged. -/
def markWal (walId : Option Nat) (status : WalStatus) : Vfs Unit :=
  match walId with
  | none => pure ()
  | some id => regardless (update (setStatus id status))

def markWalPhysicalDone (walId : Option Nat) : Vfs Unit := markWal walId .physicalDone

def completeWal (walId : Option Nat) : Vfs Unit := markWal walId .completed

def failWal (walId : Option Nat) : Vfs Unit := markWal walId .failed

/-- An error is recorded in the log row and passed on. -/
def orFailWal {α : Type} (walId : Option Nat) (m : Vfs α) : Vfs α := do
  match ← m.attempt with
  | .ok a => pure a
  | .error err => do
    failWal walId
    Effect.fail err

def freshUuid : Vfs Nat := do
  let w ← Effect.get
  Effect.modify fun w => { w with nextUuid := w.nextUuid + 1 }
  pure w.nextUuid

def checkMaintenance : Vfs Unit := do
  let w ← Effect.get
  if w.maintenance then Effect.fail .maintenanceMode else pure ()

/-! ### Paths -/

def logicalTempPrefix : Text := "/.virtual/tmp".toList

def protectedStorageDir : Text := "/.protected".toList

def Engine.getPhysicalPath (e : Engine) (path : Text) : Text := Paths.physicalPath e.userId path

def isTempPath (path : Text) : Bool := Text.startsWith logicalTempPrefix path

/-- Relative to the temp namespace, as a path below the user's temp directory. -/
def tempPath (path : Text) : Text :=
  match Text.stripPrefix logicalTempPrefix path with
  | some rest => Text.trimStart '/' rest
  | none => Text.trimStart '/' path

def isThumbnailCachePath (path : Text) : Bool :=
  let normalized := Text.trimEnd '/' path
  normalized == "/.fileuni-thumbnail".toList || normalized == "/.thumbs".toList ||
    normalized == "/.thumbs_cache".toList ||
    Text.contains "/.fileuni-thumbnail/".toList normalized ||
    Text.contains "/.thumbs/".toList normalized ||
    Text.startsWith "/.thumbs_cache/".toList normalized

def isProtectedBlobPath (path : Text) : Bool :=
  Text.within protectedStorageDir (Text.trimEnd '/' path)

def isHiddenStoragePath (path : Text) : Bool := isThumbnailCachePath path || isProtectedBlobPath path

def isRefreshTrigger (path : Text) : Bool := Text.endsWith "/._refresh_here_.txt".toList path

def inRecycleBin (path : Text) : Bool := Text.startsWith "/.recycle_bin/".toList path

def Engine.shouldSkipWalForPath (e : Engine) (path : Text) : Bool :=
  (e.walSkipTempPath && isTempPath path) || isThumbnailCachePath path

def Engine.shouldSkipWalForWrite (e : Engine) (path : Text) (size : Nat) : Bool :=
  (e.walSkipTempPath && isTempPath path) || isThumbnailCachePath path ||
    decide (size < e.walMinSizeBytes)

/-- Backslashes of a listed path count as slashes. -/
def withSlashes (path : Text) : Text := path.map fun c => if c = '\\' then '/' else c

/-- The path of a listed entry as the user sees it. -/
def Engine.translatePath (e : Engine) (raw : Text) : Text :=
  let normalized := withSlashes raw
  let userPrefix := e.userId ++ ['/']
  let rooted (s : Text) : Text := '/' :: Text.trimEnd '/' (Text.trimStart '/' s)
  match Text.stripPrefix userPrefix normalized with
  | some logical => rooted logical
  | none =>
    if normalized = e.userId ∨ normalized = userPrefix ∨ normalized = ['.'] ∨ normalized = ['.','/'] then
      ['/']
    else
      match Text.afterFirst ('/' :: userPrefix) normalized with
      | some logical => rooted logical
      | none => rooted normalized

def Engine.translateFileInfo (e : Engine) (info : VfsFileInfo) : VfsFileInfo :=
  { info with path := e.translatePath info.path }

def fileInfo (path : Text) (m : Metadata) : VfsFileInfo :=
  ⟨lastSegment path,path,m.isDir,m.size,0,none,none⟩

def infoOfRow (row : IndexRow) : VfsFileInfo :=
  ⟨row.name,row.path,row.isDir,row.size.toNat,row.favoriteColor,row.fileTrashedAt,row.originalPath⟩

/-! ### Small instances -/

/-- An engine without caches, backup, quota and protection. -/
def plainEngine : Engine where
  userId := "u".toList
  plainUser := fileA.plainUser
  portableUser := by decide
  readCache := none
  writeCache := none
  sharedReadCache := nofun
  backup := none
  poolName := "main".toList
  backendType := "fs".toList
  caseSensitiveLike := true
  walEnabled := true
  walSkipTempPath := true
  walMinSizeBytes := 0
  settings := none
  protectedDomain := .error (.internal [])
  crypto := ⟨fun _ _ _ _ => [],fun _ _ => [],id,fun _ _ => List.replicate 32 0,fun _ _ => List.length_replicate⟩
  draw := fun _ => ⟨List.replicate 16 0,List.length_replicate⟩
  slotPrefix := id

/-- Files and directories of the primary, index rows, and nothing else. -/
def worldOf (files : List (Text × Bytes)) (dirs : List Text) (index : Index) : World where
  shared := (State.fresh (files.foldr (fun cell store => store.insert cell.1 cell.2) ∅)).shared
  dirs := dirs.foldr (fun dir store => store.insert dir ()) ∅
  temp := Disk.empty
  index
  wal := []
  nextWal := 1
  nextUuid := 0
  maintenance := false
  recycleBinInitialized := true

end StorageHub.Scoped
