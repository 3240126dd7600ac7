import StorageHub.Mounts.Overlay

/-! The synchronisation of a mount with a directory beside it. Two trees are listed
first, and what differs in the listings is copied. -/
namespace StorageHub.Mounts
open Library WriteCache Paths Scoped

/-! ### Relative paths -/

def pathDepth (path : Text) : Nat := ((path.splitOn '/').filter fun segment => segment ≠ []).length

def relativePath (root path : Text) : Text :=
  if root = ['/'] then Text.trimStart '/' path
  else Text.trimStart '/' ((Text.stripPrefix root path).getD path)

def joinRoot (root child : Text) : Text :=
  if child = [] then root
  else if root = ['/'] then '/' :: Text.trimStart '/' child
  else Text.trimEnd '/' root ++ '/' :: Text.trimStart '/' child

def compareModified : Option Int → Option Int → Ordering
  | some left, some right => compare left right
  | some _, none => .gt
  | none, some _ => .lt
  | none, none => .eq

/-! ### Listings -/

/-- A listing by relative paths, each once. -/
abbrev TreeMap := List (Text × FileInfo)

/-- How the entries of a map come when it is gone through. -/
structure Hashing where
  order : TreeMap → TreeMap
  order_perm : ∀ tree, (order tree).Perm tree

namespace TreeMap

/-- The later of two entries with one key stays. -/
def insert (tree : TreeMap) (key : Text) (info : FileInfo) : TreeMap :=
  tree.filter (fun entry => entry.1 ≠ key) ++ [(key,info)]

def get? (tree : TreeMap) (key : Text) : Option FileInfo := (tree.find? fun entry => entry.1 = key).map fun entry => entry.2

def keys (tree : TreeMap) : List Text := tree.map fun entry => entry.1

end TreeMap

section storage
variable {σ ω : Type}

def ensureDirectoryExists (storage : VfsStorage σ ω) (path : Text) : Effect σ ω VfsError Unit :=
  if path = ['/'] then pure ()
  else do
    if ← storage.exists_ path then pure ()
    else do
      let _ ← storage.createDirAll path
      pure ()

def asTree (root : Text) (entries : List FileInfo) : TreeMap :=
  entries.foldl (fun tree entry => tree.insert (relativePath root entry.path) entry) []

def collectTree (storage : VfsStorage σ ω) (root : Text) : Effect σ ω VfsError TreeMap := do
  if root = ['/'] then do
    let entries ← storage.listRecursive root
    pure (asTree root entries)
  else do
    if ← storage.exists_ root then do
      let entries ← storage.listRecursive root
      pure (asTree root entries)
    else pure []

def copyFileBetween (srcStorage : VfsStorage σ ω) (srcPath : Text) (dstStorage : VfsStorage σ ω) (dstPath : Text) :
    Effect σ ω VfsError Unit := do
  ensureDirectoryExists dstStorage (stdParentOrRoot dstPath)
  let (data,_) ← srcStorage.readStream srcPath
  let _ ← dstStorage.writeStream dstPath data
  pure ()

/-! ### One way -/

/-- An error told after what was being done. -/
def whileDoing (doing : Text) (error : VfsError) : VfsError := .internal (doing ++ ": ".toList ++ error.text)

def debugTreeEntries (tree : TreeMap) : List Text :=
  (tree.map fun entry => entry.1 ++ " => ".toList ++ entry.2.path ++ " [".toList ++
    (if entry.2.isDir then "dir".toList else "file".toList) ++ "]".toList).mergeSort fun a b => (compare a b).isLE

/-- What an error of a mirror run tells. `debugList` is how a list of texts is shown. -/
def mirrorStep (debugList : List Text → Text) (step srcRoot dstRoot : Text) (relative : Option Text)
    (sourceMap dstMap : TreeMap) : Text :=
  "Mirror sync ".toList ++ step ++ " failed src_root='".toList ++ srcRoot ++ "' dst_root='".toList ++ dstRoot ++
    (relative.elim "'".toList fun relative => "' relative='".toList ++ relative ++ "'".toList) ++
    " src=".toList ++ debugList (debugTreeEntries sourceMap) ++ " dst=".toList ++ debugList (debugTreeEntries dstMap)

def isExtra (dstRoot : Text) (sourceMap : TreeMap) (key : Text) : Bool :=
  let root := Text.trimEnd '/' dstRoot
  let joined := Text.trimEnd '/' (joinRoot dstRoot key)
  key ≠ [] && key ≠ ['.'] && key ≠ ['.','/'] && (sourceMap.get? key).isNone &&
    joined ≠ root && joined ≠ root ++ ['/','.'] && pathDepth root < pathDepth joined

/-- The paths of the destination that the source does not list, deepest first. -/
def extraPaths (hashing : Hashing) (dstRoot : Text) (sourceMap dstMap : TreeMap) : List Text :=
  ((((hashing.order dstMap).map fun entry => entry.1).filter (isExtra dstRoot sourceMap)).map (joinRoot dstRoot)).mergeSort
    fun a b => decide (pathDepth b ≤ pathDepth a)

def deleteExtraPaths (hashing : Hashing) (fuel : Nat) (dstStorage : VfsStorage σ ω) (dstRoot : Text)
    (sourceMap dstMap : TreeMap) : Effect σ ω VfsError Unit :=
  forEach (fun path => (deletePathRecursive dstStorage fuel path).mapError
    (whileDoing ("Failed to delete mirror extra path '".toList ++ path ++ "'".toList)))
    (extraPaths hashing dstRoot sourceMap dstMap)

/-- Whether a file of the source is copied, by what the destination lists at its path. -/
def shouldCopy (srcInfo : FileInfo) : Option FileInfo → Bool
  | none => true
  | some info => info.isDir || compareModified srcInfo.modified info.modified == .gt || srcInfo.size ≠ info.size

def sourceMissing (srcRoot : Text) : VfsError :=
  .notFound ("Source directory '".toList ++ srcRoot ++ "' does not exist".toList)

/-- The directories that are listed, those further up first. -/
def dirEntries (hashing : Hashing) (sourceMap : TreeMap) : TreeMap :=
  ((hashing.order sourceMap).filter fun entry => entry.2.isDir).mergeSort fun a b => decide (pathDepth a.1 ≤ pathDepth b.1)

def fileEntries (hashing : Hashing) (sourceMap : TreeMap) : TreeMap :=
  ((hashing.order sourceMap).filter fun entry => !entry.2.isDir).mergeSort fun a b => decide (pathDepth a.1 ≤ pathDepth b.1)

def requireSource (srcStorage : VfsStorage σ ω) (srcRoot : Text) : Effect σ ω VfsError Unit :=
  if srcRoot = ['/'] then pure ()
  else do
    if ← srcStorage.exists_ srcRoot then pure ()
    else Effect.fail (sourceMissing srcRoot)

def syncUnidirectional (hashing : Hashing) (debugList : List Text → Text) (fuel : Nat) (srcStorage : VfsStorage σ ω)
    (srcRoot : Text) (dstStorage : VfsStorage σ ω) (dstRoot : Text) (deleteExtras : Bool) :
    Effect σ ω VfsError Unit := do
  requireSource srcStorage srcRoot
  ensureDirectoryExists dstStorage dstRoot
  let sourceMap ← collectTree srcStorage srcRoot
  let dstMap ← collectTree dstStorage dstRoot
  let failed (step : Text) (relative : Option Text) :=
    whileDoing (mirrorStep debugList step srcRoot dstRoot relative sourceMap dstMap)
  forEach (fun entry => (do
      let _ ← dstStorage.createDirAll (joinRoot dstRoot entry.1)
      pure ()).mapError (failed "create_dir".toList (some entry.1)))
    (dirEntries hashing sourceMap)
  forEach (fun entry =>
      if shouldCopy entry.2 (dstMap.get? entry.1) then
        (copyFileBetween srcStorage entry.2.path dstStorage (joinRoot dstRoot entry.1)).mapError
          (failed "copy_file".toList (some entry.1))
      else pure ())
    (fileEntries hashing sourceMap)
  if deleteExtras then
    (deleteExtraPaths hashing fuel dstStorage dstRoot sourceMap dstMap).mapError
      (failed "delete_extras".toList none)
  else pure ()

/-! ### Both ways -/

def conflict (relative : Text) : VfsError :=
  .internal ("Path '".toList ++ relative ++ "' conflicts between file and directory across sync targets".toList)

/-- What is done for a path that one side lists or both. -/
def syncPath (leftStorage : VfsStorage σ ω) (leftRoot : Text) (rightStorage : VfsStorage σ ω) (rightRoot : Text)
    (leftMap rightMap : TreeMap) (relative : Text) : Effect σ ω VfsError Unit :=
  let copyRight (info : FileInfo) :=
    copyFileBetween leftStorage info.path rightStorage (joinRoot rightRoot relative)
  let copyLeft (info : FileInfo) :=
    copyFileBetween rightStorage info.path leftStorage (joinRoot leftRoot relative)
  match leftMap.get? relative, rightMap.get? relative with
  | some info, none =>
    if info.isDir then do
      let _ ← rightStorage.createDirAll (joinRoot rightRoot relative)
      pure ()
    else copyRight info
  | none, some info =>
    if info.isDir then do
      let _ ← leftStorage.createDirAll (joinRoot leftRoot relative)
      pure ()
    else copyLeft info
  | some leftInfo, some rightInfo =>
    if leftInfo.isDir && rightInfo.isDir then pure ()
    else if leftInfo.isDir || rightInfo.isDir then Effect.fail (conflict relative)
    else
      match compareModified leftInfo.modified rightInfo.modified with
      | .gt => copyRight leftInfo
      | .lt => copyLeft rightInfo
      | .eq => if leftInfo.size ≠ rightInfo.size then copyRight leftInfo else pure ()
  | none, none => pure ()

/-- The relative paths of both listings in their order, each once. -/
def allPaths (leftMap rightMap : TreeMap) : List Text :=
  (leftMap.keys ++ rightMap.keys).dedup.mergeSort fun a b => (compare a b).isLE

def syncBidirectionalKeep (leftStorage : VfsStorage σ ω) (leftRoot : Text) (rightStorage : VfsStorage σ ω)
    (rightRoot : Text) : Effect σ ω VfsError Unit := do
  let leftExists ← leftStorage.exists_ leftRoot
  let rightExists ← rightStorage.exists_ rightRoot
  (if leftExists then ensureDirectoryExists rightStorage rightRoot else pure ())
  (if rightExists then ensureDirectoryExists leftStorage leftRoot else pure ())
  let leftMap ← collectTree leftStorage leftRoot
  let rightMap ← collectTree rightStorage rightRoot
  forEach (syncPath leftStorage leftRoot rightStorage rightRoot leftMap rightMap) (allPaths leftMap rightMap)

end storage
end StorageHub.Mounts
