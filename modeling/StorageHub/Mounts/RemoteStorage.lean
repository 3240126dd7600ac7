import StorageHub.Mounts.Overlay

/-! The storage behind a mount: a pool without caches and without a backup, over
an operator that keeps objects by key. Directories are the parts of keys, and
the markers that creating one leaves. -/
namespace StorageHub.Mounts
open Library WriteCache Scoped

/-! ### The operator -/

structure Object where
  data : Bytes
  modified : Int
  deriving DecidableEq,Repr

structure Bucket where
  objects : Store Text Object
  markers : Store Text Unit
  clock : Int

/-- What the operator reports of a path. -/
structure ObjectMetadata where
  isDir : Bool
  size : Nat
  modified : Option Int
  deriving DecidableEq,Repr

/-- A path without its leading slashes. -/
def canonical (path : Text) : Text := Text.trimStart '/' path

/-- The key of a path, with or without a slash at the end. -/
def objectKey (path : Text) : Text := canonical (normalizeEntryPath path)

namespace Bucket
variable (b : Bucket)

def empty : Bucket := ⟨∅,∅,0⟩

def metadata (object : Object) : ObjectMetadata := ⟨false,object.data.length,some object.modified⟩

def directory : ObjectMetadata := ⟨true,0,none⟩

def isDirectory (key : Text) : Bool :=
  key.isEmpty || (b.markers.lookup key).isSome || b.objects.keys.any (Text.below key) || b.markers.keys.any (Text.below key)

def stat (path : Text) : Option ObjectMetadata :=
  match b.objects.lookup (objectKey path), hasTrailingSlash path with
  | some object, false => some (metadata object)
  | _, _ => if b.isDirectory (objectKey path) then some directory else none

def read (path : Text) : Option Bytes := (b.objects.lookup (objectKey path)).map (·.data)

def write (path : Text) (data : Bytes) : Bucket :=
  { b with
    objects := b.objects.insert (objectKey path) ⟨data,b.clock + 1⟩
    clock := b.clock + 1 }

/-- Removing what is not there succeeds; a path with a slash at its end is that
of a marker. -/
def delete (path : Text) : Bucket :=
  if hasTrailingSlash path then { b with markers := b.markers.erase (objectKey path) }
  else { b with objects := b.objects.erase (objectKey path) }

def createDir (path : Text) : Bucket := { b with markers := b.markers.insert (objectKey path) () }

def rename (src dst : Text) : Option Bucket :=
  (b.objects.lookup (objectKey src)).map fun object =>
    { b with objects := (b.objects.erase (objectKey src)).insert (objectKey dst) object }

/-- The entries below a directory: objects and markers. -/
def listRecursive (path : Text) : List (Text × ObjectMetadata) :=
  let inside := fun key => (objectKey path).isEmpty || Text.below (objectKey path) key
  (b.objects.entries.filterMap fun cell =>
      if inside cell.1 then some (cell.1,metadata cell.2) else none) ++
    b.markers.entries.filterMap fun cell => if inside cell.1 then some (cell.1,directory) else none

/-- The part of a key down to the child of a directory, and whether the key
goes on below it. -/
def childOf (dir key : Text) : Text × Bool :=
  let start := if dir = [] then [] else dir ++ ['/']
  let rest := key.drop start.length
  (start ++ rest.takeWhile (· != '/'),rest.contains '/')

def list (path : Text) : List (Text × ObjectMetadata) :=
  let dir := objectKey path
  let entries := b.listRecursive path
  (entries.filter fun entry => !(childOf dir entry.1).2 && !entry.2.isDir) ++
    ((entries.filter fun entry => (childOf dir entry.1).2 || entry.2.isDir).map fun entry =>
      (childOf dir entry.1).1).dedup.map fun key => (key,directory)

end Bucket

/-! ### The pool -/

/-- An answer of the operator, unless the environment has the call fail. -/
abbrev Remote (α : Type) : Type := Effect Bucket (Option ErrorKind) VfsError α

namespace Remote

def call {α : Type} (f : Bucket → Except VfsError (α × Bucket)) : Remote α :=
  Effect.perform fun refused b =>
    match refused with
    | some kind => (.error (.openDal kind),b)
    | none =>
      match f b with
      | .ok (a,b') => (.ok a,b')
      | .error e => (.error e,b)

def ask {α : Type} (f : Bucket → Option α) : Remote α := call fun b =>
  match f b with
  | some a => .ok (a,b)
  | none => .error (.openDal .notFound)

def operate (f : Bucket → Option Bucket) : Remote Unit := call fun b =>
  match f b with
  | some b' => .ok ((),b')
  | none => .error (.openDal .notFound)

end Remote

/-- `to_vfs_file_info` of a path and its metadata. -/
def toFileInfo (path : Text) (meta_ : ObjectMetadata) : FileInfo where
  name := lastSegment path
  path := path
  isDir := meta_.isDir
  size := meta_.size
  favoriteColor := 0
  trashedAt := none
  originalPath := none
  modified := meta_.modified

namespace RemotePool
open Remote

def stat (path : Text) : Remote FileInfo := toFileInfo path <$> ask fun b => b.stat path

def read (path : Text) : Remote (Bytes × FileInfo) := do
  let data ← ask fun b => b.read path
  let info ← stat path
  pure (data,info)

def write (path : Text) (data : Bytes) : Remote FileInfo := do
  operate fun b => some (b.write path data)
  stat path

def writeStream (path : Text) (data : Bytes) : Remote FileInfo := do
  operate fun b => some (b.write (path ++ ".tmp".toList) data)
  operate fun b => b.rename (path ++ ".tmp".toList) path
  stat path

def exists_ (path : Text) : Remote Bool := ask fun b => some (b.stat path).isSome

def entryInfo (entry : Text × ObjectMetadata) : FileInfo := toFileInfo (normalizeEntryPath entry.1) entry.2

def list (path : Text) : Remote (List FileInfo) := List.map entryInfo <$> ask fun b => some (b.list path)

def listRecursive (path : Text) : Remote (List FileInfo) :=
  List.map entryInfo <$> ask fun b => some (b.listRecursive path)

def createDirAll (path : Text) : Remote FileInfo := do
  let dirPath := if hasTrailingSlash path then path else path ++ ['/']
  operate fun b => some (b.createDir dirPath)
  stat dirPath

def removeEntries : List FileInfo → Remote Unit
  | [] => pure ()
  | entry::rest => do
    let path := if entry.isDir && !hasTrailingSlash entry.path then entry.path ++ ['/'] else entry.path
    operate fun b => some (b.delete path)
    removeEntries rest

def removeTree (path : Text) : Remote Unit := do
  let normalized := normalizeEntryPath path
  let listPath := if normalized = ['/'] then ['/'] else Text.trimEnd '/' normalized ++ ['/']
  let entries ← listRecursive listPath
  let sorted := (entries.filter fun entry => normalizeEntryPath entry.path != normalized).mergeSort
    fun a b => decide (Text.byteLength a.path ≤ Text.byteLength b.path)
  removeEntries sorted.reverse
  operate fun b => some (b.delete listPath)

def delete (path : Text) : Remote FileInfo := do
  let info ← stat path
  if info.isDir then do
    removeTree path
    pure info
  else do
    operate fun b => some (b.delete path)
    pure info

def moveFile (src dst : Text) : Remote FileInfo := do
  operate fun b => b.rename src dst
  stat dst

end RemotePool

/-- `build_remote_storage`. -/
def remoteStorage : VfsStorage Bucket (Option ErrorKind) where
  read := RemotePool.read
  write := RemotePool.write
  readStream := RemotePool.read
  writeStream := RemotePool.writeStream
  exists_ := RemotePool.exists_
  stat := RemotePool.stat
  list := RemotePool.list
  listRecursive := RemotePool.listRecursive
  createDirAll := RemotePool.createDirAll
  delete := RemotePool.delete
  moveFile := RemotePool.moveFile

end StorageHub.Mounts
