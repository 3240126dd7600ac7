import StorageHub.Compression.Sizes
import StorageHub.Library.StdPath
import StorageHub.Library.Steady
import StorageHub.Library.TreeViews

/-! The compression tasks where no external program is configured. A source is
copied to the host, packed there and uploaded; an archive is copied to the host,
unpacked there and uploaded. -/
namespace StorageHub.Compression.Native
open Library LinkTree WriteCache Scoped Mounts

/-! ### Formats and options -/

inductive CompressionFormat
  | zip
  | sevenZip
  | tar
  | gzip
  | tarGz
  deriving DecidableEq

namespace CompressionFormat

def fromPath (lower : Text → Text) (path : Text) : Option CompressionFormat :=
  let pathLower := lower path
  if Text.endsWith ".zip".toList pathLower then some zip
  else if Text.endsWith ".7z".toList pathLower then some sevenZip
  else if Text.endsWith ".tar.gz".toList pathLower then some tarGz
  else if Text.endsWith ".tar".toList pathLower then some tar
  else if Text.endsWith ".gz".toList pathLower then some gzip
  else none

def extension : CompressionFormat → Text
  | zip => "zip".toList
  | sevenZip => "7z".toList
  | tar => "tar".toList
  | gzip => "gz".toList
  | tarGz => "tar.gz".toList

/-- How an error shows a format. -/
def shown : CompressionFormat → Text
  | zip => "Zip".toList
  | sevenZip => "SevenZip".toList
  | tar => "Tar".toList
  | gzip => "Gzip".toList
  | tarGz => "TarGz".toList

end CompressionFormat

structure CompressionOptions where
  format : CompressionFormat
  password : Option Text
  compressionLevel : Nat

structure CompressConfig extends FileCompressConfig where
  enabled : Bool
  maxCompressItems : Nat
  maxCompressTotalSizeMb : Nat

/-- An entry of a zip archive; that of a directory ends in a slash. -/
structure ZipEntry where
  name : Text
  data : Bytes
  deriving DecidableEq

namespace ZipEntry

def isDir (entry : ZipEntry) : Bool := Text.endsWith ['/'] entry.name

/-- `add_directory`. -/
def directory (name : Text) : ZipEntry := ⟨if Text.endsWith ['/'] name then name else name ++ ['/'],[]⟩

end ZipEntry

/-- What the archive crates and the system contribute. The system may refuse to
write at a path. -/
structure Codecs extends Platform where
  refuses : HostNode → HostPath → Bool
  zipWrite : Option Text → List ZipEntry → Except TaskError Bytes
  zipRead : Option Text → Bytes → Except TaskError (List ZipEntry)
  enclosedName : Text → Option HostPath
  tarDirAll : Nat → HostNode → Except TaskError Bytes
  gzip : Nat → Bytes → Bytes
  gunzip : Bytes → Except TaskError Bytes

/-! ### Local files -/

/-- The storage beside the files of the host. -/
abbrev Local (σ : Type) := σ × HostNode

section host
variable {σ ω : Type} (codecs : Codecs)

def changeHost (path : HostPath) (change : HostNode → Option HostNode) : Effect (Local σ) ω VfsError Unit := do
  let s ← Effect.get
  match if codecs.refuses s.2 path then none else change s.2 with
  | none => Effect.fail ioError
  | some host => Effect.modify fun s => (s.1,host)

def makeDir (path : HostPath) : Effect (Local σ) ω VfsError Unit :=
  changeHost codecs path fun host => host.createDirAll path

def makeFile (path : HostPath) (data : Bytes) : Effect (Local σ) ω VfsError Unit :=
  changeHost codecs path fun host => host.createFile path data

def copyToLocalTemp (engine : VfsStorage σ ω) : Nat → Text → HostPath → Effect (Local σ) ω VfsError Unit
  | 0, _, _ => Effect.fail outOfFuel
  | fuel + 1, src, dst => do
    let info ← (engine.stat src).onFirst
    if info.isDir then do
      makeDir codecs dst
      let entries ← (engine.list src).onFirst
      forEach (fun entry => copyToLocalTemp engine fuel (Text.trimEnd '/' src ++ '/' :: entry.name)
        (dst ++ [entry.name])) entries
    else do
      let read ← (engine.readStream src).onFirst
      makeFile codecs dst read.1

end host

/-! ### Walks -/

section walk
variable (os : Os) (host : HostNode) {β : Type}

/-- The entries of a directory, each told whether it is a directory and what it
gives. Directories join the queue. -/
def visitEntries (visit : HostPath → Text → Except TaskError (Bool × β)) (dir : HostPath) :
    List Text → List HostPath → Except TaskError (List HostPath × List β)
  | [], queue => .ok (queue,[])
  | name::rest, queue => do
    let seen ← visit dir name
    let later ← visitEntries visit dir rest (if seen.1 then (dir ++ [name])::queue else queue)
    .ok (later.1,seen.2::later.2)

/-- The loop over a queue of directories, last in first out. -/
def walk (visit : HostPath → Text → Except TaskError (Bool × β)) :
    Nat → List HostPath → Except TaskError (List β)
  | _, [] => .ok []
  | 0, _::_ => .error (.vfs outOfFuel)
  | fuel + 1, dir::queue =>
    match os.readDir host dir with
    | none => .error (.vfs ioError)
    | some names => do
      let found ← visitEntries visit dir names queue
      let later ← walk visit fuel found.1
      .ok (found.2 ++ later)

/-- The size an entry's metadata has, a link not being followed. -/
def visitSize (dir : HostPath) (name : Text) : Except TaskError (Bool × Nat) :=
  match os.entry host dir name with
  | none => .error (.vfs ioError)
  | some (.dir _ _) => .ok (true,0)
  | some other => .ok (false,metadataLen other)

/-- How many items, and how many bytes. -/
def summarizeLocalPath (fuel : Nat) (path : HostPath) : Except TaskError (Nat × Nat) :=
  if os.isDir host path then do
    let sizes ← walk os host (visitSize os host) fuel [path]
    .ok (sizes.length,sizes.sum)
  else
    match os.openFile host path with
    | none => .error (.vfs ioError)
    | some data => .ok (1,data.length)

def zipName (srcDir path : HostPath) : Text := withSlashes (['/'].intercalate (path.drop srcDir.length))

def visitZip (srcDir dir : HostPath) (name : Text) : Except TaskError (Bool × ZipEntry) :=
  let path := dir ++ [name]
  if os.isDir host path then .ok (true,.directory (zipName srcDir path))
  else
    match os.openFile host path with
    | none => .error (.vfs ioError)
    | some data => .ok (false,⟨zipName srcDir path,data⟩)

end walk

/-! ### Packing -/

section pack
variable (codecs : Codecs) (host : HostNode) (fuel : Nat) (opts : CompressionOptions)

def compressZipNative (srcDir : HostPath) : Except TaskError Bytes := do
  let entries ← walk codecs.os host (visitZip codecs.os host srcDir) fuel [srcDir]
  codecs.zipWrite opts.password entries

def compressTarGzNative (srcDir : HostPath) : Except TaskError Bytes :=
  match (codecs.os.resolved host srcDir).bind host.find with
  | none => .error (.vfs ioError)
  | some node => codecs.tarDirAll opts.compressionLevel node

def compressGzNative (srcFile : HostPath) : Except TaskError Bytes :=
  match codecs.os.openFile host srcFile with
  | none => .error (.vfs ioError)
  | some data => .ok (codecs.gzip opts.compressionLevel data)

def needsExecutable : TaskError := .message "7z format requires 7z executable to be configured.".toList

def compressNative (input : HostPath) : Except TaskError Bytes :=
  match opts.format with
  | .zip => compressZipNative codecs host fuel opts input
  | .tarGz => compressTarGzNative codecs host opts input
  | .gzip =>
    if codecs.os.isDir host input then
      .error (.message "Gzip format only supports single file compression.".toList)
    else compressGzNative codecs host opts input
  | .sevenZip => .error needsExecutable
  | .tar => .error (.message ("Native compression for ".toList ++ opts.format.shown ++
      " is not supported without 7z.".toList))

end pack

section compress
variable {σ ω : Type} (codecs : Codecs) (config : CompressConfig) (engine : UserEngine σ ω)

def tooManyItems (items limit : Nat) : TaskError :=
  .message ("Compression aborted: too many items (".toList ++ (toString items).toList ++
    "), limit is ".toList ++ (toString limit).toList)

def tooLarge (size limitMb : Nat) : TaskError :=
  .message ("Compression aborted: source total size (".toList ++ (toString (size / 1024 / 1024)).toList ++
    " MB) exceeds limit (".toList ++ (toString limitMb).toList ++ " MB)".toList)

/-- The limits on the number of items and on their bytes. -/
def checkLimits (total : Nat × Nat) : Effect (Local σ) ω TaskError Unit := do
  require (total.1 ≤ config.maxCompressItems) (tooManyItems total.1 config.maxCompressItems)
  require (total.2 ≤ config.maxCompressTotalSizeMb * 1024 * 1024)
    (tooLarge total.2 config.maxCompressTotalSizeMb)

def disabled : TaskError := .message "Compression is disabled".toList

/-- `tempDir` is the fresh directory of the packing. -/
def compressLocalSourceToVfs (fuel : Nat) (tempDir localInput : HostPath) (dst : Text)
    (opts : CompressionOptions) : Effect (Local σ) ω TaskError FileInfo := do
  require (config.enabled = true) disabled
  ((engine.checkQuota 0).onFirst).mapError (quotaError "Quota check failed: ".toList)
  let s ← Effect.get
  let total ← Effect.ofExcept (summarizeLocalPath codecs.os s.2 fuel localInput)
  checkLimits config total
  (makeDir codecs tempDir).mapError .vfs
  let localOutput := tempDir ++ ["output.".toList ++ opts.format.extension]
  let s ← Effect.get
  let archive ← Effect.ofExcept (compressNative codecs s.2 fuel opts localInput)
  (makeFile codecs localOutput archive).mapError .vfs
  let s ← Effect.get
  ((copyFromLocalTemp codecs.os s.2 engine.toVfsStorage true fuel localOutput dst).onFirst).mapError .vfs
  ((engine.stat dst).onFirst).mapError .vfs

/-- What the storage says there is to compress. -/
def sourceTotal (src : Text) (info : FileInfo) : Effect (Local σ) ω TaskError (Nat × Nat) :=
  if info.isDir then do
    let entries ← ((engine.listRecursive src).onFirst).mapError .vfs
    pure (entries.length,(entries.map fun entry => entry.size).sum)
  else pure (1,info.size)

/-- A failure to delete the source is ignored. -/
def discardSource (src : Text) (deleteSource : Bool) : Effect (Local σ) ω TaskError Unit :=
  if deleteSource then do
    let _ ← ((engine.delete src).attempt.onFirst).mapError .vfs
    pure ()
  else pure ()

/-- `stageDir` and `packDir` are the fresh directories of the task. -/
def compressTask (fuel : Nat) (stageDir packDir : HostPath) (src dst : Text) (opts : CompressionOptions)
    (deleteSource : Bool) : Effect (Local σ) ω TaskError FileInfo := do
  require (config.enabled = true) disabled
  let info ← ((engine.stat src).onFirst).mapError .vfs
  let total ← sourceTotal engine src info
  checkLimits config total
  (makeDir codecs stageDir).mapError .vfs
  let localInput := stageDir ++ ["input".toList]
  (copyToLocalTemp codecs engine.toVfsStorage fuel src localInput).mapError .vfs
  let info ← compressLocalSourceToVfs codecs config engine fuel packDir localInput dst opts
  discardSource engine src deleteSource
  pure info

end compress

/-! ### Unpacking -/

section unpack
variable {σ ω : Type} (codecs : Codecs)

/-- The archive as the local copy has it. -/
def openArchive (path : HostPath) : Effect (Local σ) ω TaskError Bytes := do
  let s ← Effect.get
  match codecs.os.openFile s.2 path with
  | none => Effect.fail (.vfs ioError)
  | some data => pure data

/-- Names the crate does not vouch for are passed over. -/
def extractEntry (dstDir : HostPath) (entry : ZipEntry) : Effect (Local σ) ω VfsError Unit :=
  match codecs.enclosedName entry.name with
  | none => pure ()
  | some path =>
    let outpath := dstDir ++ path
    if entry.isDir then makeDir codecs outpath
    else do
      let s ← Effect.get
      if (s.2.look outpath.dropLast).isSome then pure () else makeDir codecs outpath.dropLast
      makeFile codecs outpath entry.data

def decompressZipNative (srcFile dstDir : HostPath) (password : Option Text) :
    Effect (Local σ) ω TaskError Unit := do
  let archive ← openArchive codecs srcFile
  let entries ← Effect.ofExcept (codecs.zipRead password archive)
  (forEach (extractEntry codecs dstDir) entries).mapError .vfs

def decompressTarGzNative (srcFile dstDir : HostPath) : Effect (Local σ) ω TaskError Unit := do
  let archive ← openArchive codecs srcFile
  let unpacked ← Effect.ofExcept (codecs.unpack archive)
  Effect.modify fun s => (s.1,Node.graft (.dir unpacked.1 unpacked.2) dstDir s.2)

/-- A name of dots leads to a directory that is there. -/
def decompressGzNative (srcFile dstDir : HostPath) (name : Text) : Effect (Local σ) ω TaskError Unit := do
  let archive ← openArchive codecs srcFile
  let data ← Effect.ofExcept (codecs.gunzip archive)
  if name = ['.'] ∨ name = ['.','.'] then Effect.fail (.vfs ioError)
  else (makeFile codecs (dstDir ++ [name]) data).mapError .vfs

def decompressNative (format : CompressionFormat) (srcFile dstDir : HostPath) (src : Text)
    (password : Option Text) : Effect (Local σ) ω TaskError Unit :=
  match format with
  | .zip => decompressZipNative codecs srcFile dstDir password
  | .tarGz => decompressTarGzNative codecs srcFile dstDir
  | .gzip =>
    match Text.fileStem src with
    | none => Effect.fail (.message ("Invalid gzip source path without file stem: ".toList ++ src))
    | some name => decompressGzNative codecs srcFile dstDir name
  | .sevenZip => Effect.fail needsExecutable
  | .tar => Effect.fail (.message ("Native decompression for ".toList ++ format.shown ++
      " is not supported without 7z.".toList))

def unsupported : TaskError := .message "Unsupported format".toList

variable (config : FileCompressConfig) (engine : UserEngine σ ω)

/-- `tempDir` is the fresh directory of the task. -/
def decompressTask (fuel : Nat) (tempDir : HostPath) (src dst : Text) (opts : DecompressionOptions)
    (password : Option Text) : Effect (Local σ) ω TaskError FileInfo := do
  require (isExtensionAllowed codecs.lower src config.decompressionFormats)
    (.message ("Decompression format not supported for: ".toList ++ src))
  ((engine.checkQuota 0).onFirst).mapError (quotaError "Quota check failed: ".toList)
  let info ← ((engine.stat src).onFirst).mapError .vfs
  require (info.size ≤ config.maxDecompressArchiveSizeMb * 1024 * 1024)
    (.message "Decompression aborted: archive size exceeds limit".toList)
  (makeDir codecs tempDir).mapError .vfs
  let localArchive := tempDir ++ [(Text.fileName src).getD "input.archive".toList]
  let localOutputDir := tempDir ++ ["output".toList]
  (makeDir codecs localOutputDir).mapError .vfs
  (copyToLocalTemp codecs engine.toVfsStorage fuel src localArchive).mapError .vfs
  match CompressionFormat.fromPath codecs.lower src with
  | none => Effect.fail unsupported
  | some format => do
    decompressNative codecs format localArchive localOutputDir src password
    let s ← Effect.get
    (storeExtracted codecs.os s.2 engine fuel (config.maxExtractSizeGb * 1024 * 1024 * 1024) localOutputDir
      src dst opts).onFirst

end unpack
end StorageHub.Compression.Native
