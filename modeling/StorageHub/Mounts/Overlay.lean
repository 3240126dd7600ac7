import StorageHub.Scoped.Sandbox

/-! The storage of a user with remote storages mounted into it. A path goes to
the mount whose directory is the longest above it, or to the base storage. -/
namespace StorageHub.Mounts
open Library WriteCache Paths Scoped

/-! ### Paths -/

def normalizeLogicalPath (path : Text) : Text :=
  if Text.startsWith ['/'] path then path else '/'::path

def normalizeDirPath (path : Text) : Text :=
  if path = ['/'] then ['/'] else Text.trimEnd '/' (normalizeLogicalPath path)

def isPathWithin (path dir : Text) : Bool := dir == ['/'] || Text.within dir path

def joinLogicalPath (base child : Text) : Text :=
  if child = [] then base
  else if base = ['/'] then '/' :: Text.trimStart '/' child
  else Text.trimEnd '/' base ++ '/' :: Text.trimStart '/' child

def parentSegments : VfsError :=
  .internal "Security violation: parent path segments are not allowed".toList

/-- A path with a leading slash and no backslashes. -/
def spelled (path : Text) : Text := withSlashes (normalizeLogicalPath path)

def validatePath (path : Text) : Except VfsError Text :=
  if path.any isControl then .error controlCharacters
  else if Text.contains "..".toList (spelled path) then .error parentSegments
  else .ok (spelled path)

/-! ### Storages -/

/-- An entry of a storage with the time of its last change. -/
structure FileInfo extends VfsFileInfo where
  modified : Option Int
  deriving DecidableEq,Repr

/-- The operations of a storage that the overlay and the mount sync call; a
stream is the data it delivers. -/
structure VfsStorage (σ ω : Type) where
  read : Text → Effect σ ω VfsError (Bytes × FileInfo)
  write : Text → Bytes → Effect σ ω VfsError FileInfo
  readStream : Text → Effect σ ω VfsError (Bytes × FileInfo)
  writeStream : Text → Bytes → Effect σ ω VfsError FileInfo
  exists_ : Text → Effect σ ω VfsError Bool
  stat : Text → Effect σ ω VfsError FileInfo
  list : Text → Effect σ ω VfsError (List FileInfo)
  listRecursive : Text → Effect σ ω VfsError (List FileInfo)
  createDirAll : Text → Effect σ ω VfsError FileInfo
  delete : Text → Effect σ ω VfsError FileInfo
  moveFile : Text → Text → Effect σ ω VfsError FileInfo

structure RemoteMount where
  id : Text
  mountDir : Text
  lastSyncAt : Option Int
  updatedAt : Int
  deriving DecidableEq,Repr

structure MountRuntime (σ ω : Type) where
  model : RemoteMount
  storage : VfsStorage σ ω

structure StorageEndpoint (σ ω : Type) where
  storage : VfsStorage σ ω
  path : Text
  mountId : Option Text
  isMountRoot : Bool

structure MountedUserStorage (σ ω : Type) where
  base : VfsStorage σ ω
  mounts : List (MountRuntime σ ω)

/-! ### Copies and deletions across storages -/

section trees
variable {σ ω : Type}

def stdParentOrRoot (path : Text) : Text := (stdParent path).getD ['/']

def ensureParentDir (storage : VfsStorage σ ω) (path : Text) : Effect σ ω VfsError Unit := do
  let parent := stdParentOrRoot path
  if parent = ['/'] then pure ()
  else if ← storage.exists_ parent then pure ()
  else do
    let _ ← storage.createDirAll parent
    pure ()

/-- A loop over entries; its body has the fuel that is left. -/
def forEach {α : Type} (body : α → Effect σ ω VfsError Unit) : List α → Effect σ ω VfsError Unit
  | [] => pure ()
  | entry::rest => do
    body entry
    forEach body rest

def outOfFuel : VfsError := .internal "recursion limit".toList

def copyPathBetween (src dst : VfsStorage σ ω) : Nat → Text → Text → Effect σ ω VfsError Unit
  | 0, _, _ => Effect.fail outOfFuel
  | fuel + 1, srcPath, dstPath => do
    let info ← src.stat srcPath
    if info.isDir then do
      let _ ← dst.createDirAll dstPath
      let entries ← src.list srcPath
      forEach (fun entry => copyPathBetween src dst fuel entry.path (joinLogicalPath dstPath entry.name)) entries
    else do
      ensureParentDir dst dstPath
      let (data,_) ← src.readStream srcPath
      let _ ← dst.writeStream dstPath data
      pure ()

def deletePathRecursive (storage : VfsStorage σ ω) : Nat → Text → Effect σ ω VfsError Unit
  | 0, _ => Effect.fail outOfFuel
  | fuel + 1, path => do
    let info ← storage.stat path
    if info.isDir then do
      let entries ← storage.list path
      forEach (fun entry => deletePathRecursive storage fuel entry.path) entries
    else pure ()
    let _ ← storage.delete path
    pure ()

end trees

/-! ### The overlay -/

namespace MountRuntime
variable {σ ω : Type} (runtime : MountRuntime σ ω)

def mountRootInfo : FileInfo where
  name := if runtime.model.mountDir = ['/'] then ['/'] else lastSegment runtime.model.mountDir
  path := runtime.model.mountDir
  isDir := true
  size := 0
  favoriteColor := 0
  trashedAt := none
  originalPath := none
  modified := runtime.model.lastSyncAt.or (some runtime.model.updatedAt)

def mapRuntimePath (remotePath : Text) : Text :=
  if remotePath = ['/'] ∨ remotePath = [] then runtime.model.mountDir
  else joinLogicalPath runtime.model.mountDir (Text.trimStart '/' remotePath)

def mapRemoteInfo (info : FileInfo) : FileInfo :=
  let mapped := runtime.mapRuntimePath info.path
  { info with
    path := mapped
    name := if mapped = runtime.model.mountDir then lastSegment mapped else info.name }

/-- The path below the mount, for a path at or below its directory. -/
def remotePath (normalized : Text) : Option Text :=
  if runtime.model.mountDir = ['/'] then some normalized
  else if normalized = runtime.model.mountDir then some ['/']
  else ((Text.stripPrefix runtime.model.mountDir normalized).filter (Text.startsWith ['/'])).map
    normalizeLogicalPath

end MountRuntime

namespace MountedUserStorage
variable {σ ω : Type} (s : MountedUserStorage σ ω)

/-- The longest mount directories come first. -/
def new (base : VfsStorage σ ω) (mounts : List (MountRuntime σ ω)) : MountedUserStorage σ ω :=
  ⟨base,mounts.mergeSort fun left right =>
    decide (Text.byteLength right.model.mountDir ≤ Text.byteLength left.model.mountDir)⟩

def resolveRuntime (path : Text) : Option (MountRuntime σ ω × Text) :=
  s.mounts.findSome? fun runtime => (runtime.remotePath (normalizeDirPath path)).map fun rest => (runtime,rest)

def directMountChildren (parentPath : Text) : List (MountRuntime σ ω) :=
  s.mounts.filter fun runtime => runtime.model.mountDir != ['/'] &&
    normalizeDirPath (stdParentOrRoot runtime.model.mountDir) == normalizeDirPath parentPath

def descendantMounts (rootPath : Text) : List (MountRuntime σ ω) :=
  s.mounts.filter fun runtime => isPathWithin runtime.model.mountDir (normalizeDirPath rootPath)

def resolveEndpoint (path : Text) : Except VfsError (StorageEndpoint σ ω) := do
  let normalized ← validatePath path
  match s.resolveRuntime normalized with
  | some (runtime,remote) => pure ⟨runtime.storage,remote,some runtime.model.id,remote == ['/']⟩
  | none => pure ⟨s.base,normalized,none,false⟩

/-- The information of an entry as the overlay shows it. -/
def shownInfo (mountId : Option Text) (info : FileInfo) : FileInfo :=
  match mountId.bind fun id => s.mounts.find? fun runtime => runtime.model.id == id with
  | some runtime => runtime.mapRemoteInfo info
  | none => info

def read (path : Text) : Effect σ ω VfsError (Bytes × FileInfo) := do
  let endpoint ← Effect.ofExcept (s.resolveEndpoint path)
  if endpoint.isMountRoot then Effect.fail (.internal "Cannot read a mount root directory".toList)
  else do
    let (data,info) ← endpoint.storage.read endpoint.path
    pure (data,s.shownInfo endpoint.mountId info)

def write (path : Text) (data : Bytes) : Effect σ ω VfsError FileInfo := do
  let endpoint ← Effect.ofExcept (s.resolveEndpoint path)
  if endpoint.isMountRoot then Effect.fail (.permissionDenied "Cannot overwrite a mount root".toList)
  else do
    let info ← endpoint.storage.write endpoint.path data
    pure (s.shownInfo endpoint.mountId info)

def delete (path : Text) : Effect σ ω VfsError FileInfo := do
  let endpoint ← Effect.ofExcept (s.resolveEndpoint path)
  if endpoint.isMountRoot then
    Effect.fail (.permissionDenied "Use mount management to remove a mounted directory".toList)
  else do
    let info ← endpoint.storage.delete endpoint.path
    pure (s.shownInfo endpoint.mountId info)

def exists_ (path : Text) : Effect σ ω VfsError Bool := do
  let endpoint ← Effect.ofExcept (s.resolveEndpoint path)
  if endpoint.isMountRoot then pure true else endpoint.storage.exists_ endpoint.path

def stat (path : Text) : Effect σ ω VfsError FileInfo := do
  let endpoint ← Effect.ofExcept (s.resolveEndpoint path)
  match endpoint.mountId.bind fun id => s.mounts.find? fun runtime => runtime.model.id == id with
  | some runtime =>
    if endpoint.isMountRoot then pure runtime.mountRootInfo
    else runtime.mapRemoteInfo <$> endpoint.storage.stat endpoint.path
  | none => endpoint.storage.stat endpoint.path

def nameLe (left right : FileInfo) : Bool := (compare left.name right.name).isLE

/-- An answer of the base, or its default for a failure. -/
def orDefault {α : Type} (m : Effect σ ω VfsError (List α)) : Effect σ ω VfsError (List α) := do
  match ← m.attempt with
  | .ok entries => pure entries
  | .error _ => pure []

def mergeLocalListing (path : Text) : Effect σ ω VfsError (List FileInfo) := do
  let entries ← orDefault (s.base.list path)
  pure ((entries ++ (s.directMountChildren path).map (·.mountRootInfo)).mergeSort nameLe)

def list (path : Text) : Effect σ ω VfsError (List FileInfo) := do
  let normalized ← Effect.ofExcept (validatePath path)
  match s.resolveRuntime normalized with
  | some (runtime,remote) => do
    let entries ← runtime.storage.list remote
    pure (entries.map runtime.mapRemoteInfo)
  | none => s.mergeLocalListing normalized

/-- The roots of some mounts, each with all that is mounted there. -/
def listMounts : List (MountRuntime σ ω) → Effect σ ω VfsError (List FileInfo)
  | [] => pure []
  | runtime::rest => do
    let remote ← runtime.storage.listRecursive ['/']
    let others ← listMounts rest
    pure (runtime.mountRootInfo :: remote.map runtime.mapRemoteInfo ++ others)

def listRecursive (path : Text) : Effect σ ω VfsError (List FileInfo) := do
  let normalized ← Effect.ofExcept (validatePath path)
  match s.resolveRuntime normalized with
  | some (runtime,remote) => do
    let entries ← runtime.storage.listRecursive remote
    pure (entries.map runtime.mapRemoteInfo)
  | none => do
    let entries ← orDefault (s.base.listRecursive normalized)
    let mounted ← listMounts (s.descendantMounts normalized)
    pure (entries ++ mounted)

def genericMoveOrCopy (fuel : Nat) (src dst : Text) (deleteSource : Bool) : Effect σ ω VfsError FileInfo := do
  let srcEndpoint ← Effect.ofExcept (s.resolveEndpoint src)
  let dstEndpoint ← Effect.ofExcept (s.resolveEndpoint dst)
  if srcEndpoint.isMountRoot || dstEndpoint.isMountRoot then
    Effect.fail (.permissionDenied "Moving or copying a mount root is not supported".toList)
  else do
    copyPathBetween srcEndpoint.storage dstEndpoint.storage fuel srcEndpoint.path dstEndpoint.path
    if deleteSource then deletePathRecursive srcEndpoint.storage fuel srcEndpoint.path else pure ()
    s.stat dst

def moveFile (fuel : Nat) (src dst : Text) : Effect σ ω VfsError FileInfo := do
  let srcEndpoint ← Effect.ofExcept (s.resolveEndpoint src)
  let dstEndpoint ← Effect.ofExcept (s.resolveEndpoint dst)
  if srcEndpoint.mountId.isNone && dstEndpoint.mountId.isNone then s.base.moveFile src dst
  else if srcEndpoint.mountId == dstEndpoint.mountId && srcEndpoint.mountId.isSome &&
      !srcEndpoint.isMountRoot && !dstEndpoint.isMountRoot then do
    let info ← srcEndpoint.storage.moveFile srcEndpoint.path dstEndpoint.path
    pure (s.shownInfo srcEndpoint.mountId info)
  else s.genericMoveOrCopy fuel src dst true

end MountedUserStorage
end StorageHub.Mounts
