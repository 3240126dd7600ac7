import StorageHub.Library.LinkTree
import StorageHub.Mounts.Overlay

/-! Unpacking an archive into a user's storage. The archive is unpacked into a
fresh directory of the host, its size is taken there, and what lies there is
uploaded. Taking the size sees links, uploading follows them. -/
namespace StorageHub.Compression
open Library LinkTree WriteCache Scoped Mounts

/-! ### The host's files -/

abbrev HostNode := Node Text Bytes Text

abbrev HostPath := List Text

def parseTarget (text : Text) : Target Text where
  absolute := text.head? == some '/'
  steps := (text.splitOn '/').map fun part =>
    if part = [] ∨ part = ['.'] then .here else if part = ['.','.'] then .up else .enter part

/-- How many links the system follows in one path, and in which order it lists a
directory. -/
structure Os where
  maxLinks : Nat
  order : HostPath → List Text → List Text
  order_perm : ∀ path names, (order path names).Perm names

namespace Os
variable (os : Os) (host : HostNode)

def resolved (path : HostPath) : Option HostPath :=
  resolve parseTarget host.kindAt os.maxLinks [] (path.map .enter)

/-- `Path::is_dir`. -/
def isDir (path : HostPath) : Bool := (os.resolved host path).bind host.kindAt == some .dir

def readDir (path : HostPath) : Option (List Text) :=
  match (os.resolved host path).bind host.find with
  | some (.dir names _) => some (os.order path names)
  | _ => none

/-- `File::open` and what is then read. -/
def openFile (path : HostPath) : Option Bytes :=
  match (os.resolved host path).bind host.find with
  | some (.file data) => some data
  | _ => none

/-- An entry of a directory as `DirEntry::metadata` sees it, a link as a link. -/
def entry (dir : HostPath) (name : Text) : Option HostNode :=
  (os.resolved host dir).bind fun path => host.find (path ++ [name])

end Os

/-! ### The task -/

inductive TaskError
  | vfs (error : VfsError)
  | message (text : Text)
  deriving DecidableEq

structure UserEngine (σ ω : Type) extends VfsStorage σ ω where
  checkQuota : Int → Effect σ ω VfsError Unit

structure FileCompressConfig where
  decompressionFormats : List Text
  maxDecompressArchiveSizeMb : Nat
  maxExtractSizeGb : Nat

structure DecompressionOptions where
  overwrite : Bool
  deleteArchive : Bool

/-- What the library calls and the system contribute: the order of directories,
lower case, and what unpacking an archive leaves in an empty directory. -/
structure Platform where
  os : Os
  lower : Text → Text
  unpack : Bytes → Except TaskError (List Text × (Text → HostNode))

section upload
variable {σ ω : Type} (os : Os) (host : HostNode)

def ioError : VfsError := .io .other

def ensureDir (engine : VfsStorage σ ω) (path : Text) : Effect σ ω VfsError Unit := do
  if ← engine.exists_ path then pure ()
  else do
    let _ ← engine.createDirAll path
    pure ()

/-- Without leave to overwrite a file that is there stays. -/
def keepsPresent (engine : VfsStorage σ ω) (overwrite : Bool) (path : Text) : Effect σ ω VfsError Bool :=
  if overwrite then pure false else engine.exists_ path

def copyFromLocalTemp (engine : VfsStorage σ ω) (overwrite : Bool) :
    Nat → HostPath → Text → Effect σ ω VfsError Unit
  | 0, _, _ => Effect.fail outOfFuel
  | fuel + 1, src, dst =>
    if os.isDir host src then do
      ensureDir engine dst
      match os.readDir host src with
      | none => Effect.fail ioError
      | some names =>
        forEach (fun name => copyFromLocalTemp engine overwrite fuel (src ++ [name])
          (Text.trimEnd '/' dst ++ '/' :: name)) names
    else do
      if ← keepsPresent engine overwrite dst then pure ()
      else
        match os.openFile host src with
        | none => Effect.fail ioError
        | some data => do
          let _ ← engine.writeStream dst data
          pure ()

/-- The length that an entry's metadata reports: a link has that of its text. -/
def metadataLen : HostNode → Nat
  | .file data => data.length
  | .link text => Text.byteLength text
  | .dir _ _ => 0

def exceedsLimit : TaskError := .message "Extraction failed: output size exceeds limit".toList

/-- The entries of a directory: directories join the queue, the others count. -/
def sumEntries (maxTotalSize : Nat) (dir : HostPath) :
    List Text → List HostPath → Nat → Except TaskError (List HostPath × Nat)
  | [], queue, total => .ok (queue,total)
  | name::rest, queue, total =>
    match os.entry host dir name with
    | none => .error (.vfs ioError)
    | some (.dir _ _) => sumEntries maxTotalSize dir rest ((dir ++ [name])::queue) total
    | some other =>
      if maxTotalSize < total + metadataLen other then .error exceedsLimit
      else sumEntries maxTotalSize dir rest queue (total + metadataLen other)

/-- The loop over the queue of directories, last in first out. -/
def extractedSize (maxTotalSize : Nat) : Nat → List HostPath → Nat → Except TaskError Nat
  | _, [], total => .ok total
  | 0, _::_, _ => .error (.vfs outOfFuel)
  | fuel + 1, dir::queue, total =>
    match os.readDir host dir with
    | none => .error (.vfs ioError)
    | some names => do
      let (queue,total) ← sumEntries os host maxTotalSize dir names queue total
      extractedSize maxTotalSize fuel queue total

/-- A failure to delete the archive is ignored. -/
def discardArchive (engine : UserEngine σ ω) (src : Text) (opts : DecompressionOptions) : Effect σ ω TaskError Unit :=
  if opts.deleteArchive then do
    let _ ← (engine.delete src).attempt.mapError .vfs
    pure ()
  else pure ()

variable (engine : UserEngine σ ω)

def quotaError (pre : Text) (error : VfsError) : TaskError := .message (pre ++ error.text)

/-- The end of the task, from the unpacked archive on. -/
def storeExtracted (fuel maxTotalSize : Nat) (output : HostPath) (src dst : Text)
    (opts : DecompressionOptions) : Effect σ ω TaskError FileInfo := do
  let total ← Effect.ofExcept (extractedSize os host maxTotalSize fuel [output] 0)
  (engine.checkQuota total).mapError (quotaError "Quota check failed after extraction: ".toList)
  (copyFromLocalTemp os host engine.toVfsStorage opts.overwrite fuel output dst).mapError .vfs
  discardArchive engine src opts
  (engine.stat dst).mapError .vfs

end upload

def isExtensionAllowed (lower : Text → Text) (path : Text) (formats : List Text) : Bool :=
  formats.any fun format => Text.endsWith ('.' :: lower format) (lower path)

/-- The task goes on only under a condition. -/
def require {σ ω : Type} (condition : Prop) [Decidable condition] (error : TaskError) : Effect σ ω TaskError Unit :=
  if condition then pure () else Effect.fail error

section task
variable {σ ω : Type} (platform : Platform) (config : FileCompressConfig) (engine : UserEngine σ ω)

/-- `decompress_task` for a `.tar.gz` without an external program. `tempDir` is
the fresh directory of the task in `host`. -/
def decompressTask (fuel : Nat) (host : HostNode) (tempDir : HostPath) (src dst : Text)
    (opts : DecompressionOptions) : Effect σ ω TaskError FileInfo := do
  require (isExtensionAllowed platform.lower src config.decompressionFormats)
    (.message ("Decompression format not supported for: ".toList ++ src))
  (engine.checkQuota 0).mapError (quotaError "Quota check failed: ".toList)
  let info ← (engine.stat src).mapError .vfs
  require (info.size ≤ config.maxDecompressArchiveSizeMb * 1024 * 1024)
    (.message "Decompression aborted: archive size exceeds limit".toList)
  let (archive,_) ← (engine.readStream src).mapError .vfs
  let (names,child) ← Effect.ofExcept (platform.unpack archive)
  let output := tempDir ++ ["output".toList]
  let received := Node.graft (.file archive) (tempDir ++ [lastSegment src]) host
  let host := Node.graft (.dir names child) output received
  storeExtracted platform.os host engine fuel (config.maxExtractSizeGb * 1024 * 1024 * 1024) output src dst opts

end task
end StorageHub.Compression
