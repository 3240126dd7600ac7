import StorageHub.Library.Like
import StorageHub.Paths
import StorageHub.Protected.Codec

/-! The file index: the rows of the table and the operations of the index
service on them. Every operation is one transaction: it yields the new rows or
leaves the old ones. -/
namespace StorageHub.Scoped
open Library Paths Protected

structure VfsFileInfo where
  name : Text
  path : Text
  isDir : Bool
  size : Nat
  favoriteColor : Int
  trashedAt : Option Int
  originalPath : Option Text
  deriving DecidableEq,Repr

structure IndexRow where
  id : Nat
  userId : Text
  parentPath : Text
  name : Text
  path : Text
  isDir : Bool
  storageId : Option Text
  backendType : Option Text
  backendKey : Option Text
  size : Int
  physicalSize : Option Int
  protectedMeta : Option ProtectedMetaRecord
  fileTrashedAt : Option Int
  rowCreatedAt : Int
  rowUpdatedAt : Int
  favoriteColor : Int
  originalPath : Option Text
  deriving DecidableEq,Repr

/-- A refused statement, or a slice of a text inside a character. -/
inductive IndexError
  | uniqueUserPath
  | charBoundary
  deriving DecidableEq,Repr

/-- Where a file is stored, as the caller of an upsert knows it. -/
structure Location where
  storageId : Option Text
  backendType : Option Text
  backendKey : Option Text
  physicalSize : Option Int
  protectedMeta : Option ProtectedMetaRecord
  deriving DecidableEq,Repr

def Location.unknown : Location := ⟨none,none,none,none,none⟩

abbrev Index := List IndexRow

def lastSegment (path : Text) : Text := Text.afterLast '/' path

def recycleBin : Text := "/.recycle_bin".toList

/-- The part before the last slash, the root for none or an empty one. -/
def parentOf (path : Text) : Text :=
  match Text.rsplitOnce '/' path with
  | some (parent,_) => if parent = [] then ['/'] else parent
  | none => ['/']

namespace Index

def at_ (userId path : Text) (row : IndexRow) : Bool := row.userId == userId && row.path == path

def getFileMetadata (userId path : Text) (rows : Index) : Option IndexRow :=
  rows.find? (at_ userId path)

def occupied (row : IndexRow) (rows : Index) : Bool :=
  rows.any fun other => other.id != row.id && at_ row.userId row.path other

/-- `update` of an active model. -/
def save (row : IndexRow) (rows : Index) : Except IndexError Index :=
  if occupied row rows then .error .uniqueUserPath
  else .ok (rows.map fun other => if other.id = row.id then row else other)

def insert (row : IndexRow) (rows : Index) : Except IndexError Index :=
  if occupied row rows then .error .uniqueUserPath else .ok (rows ++ [row])

def saveAll : List IndexRow → Index → Except IndexError Index
  | [], rows => .ok rows
  | row::rest, rows => save row rows >>= saveAll rest

def addOrUpdateEntry (entry : IndexRow) (rows : Index) : Except IndexError Index :=
  match getFileMetadata entry.userId entry.path rows with
  | some existing =>
    save
      { existing with
        parentPath := entry.parentPath
        name := entry.name
        isDir := entry.isDir
        storageId := entry.storageId
        backendType := entry.backendType
        backendKey := entry.backendKey
        size := entry.size
        physicalSize := entry.physicalSize
        protectedMeta := entry.protectedMeta
        rowUpdatedAt := entry.rowUpdatedAt
        fileTrashedAt := none
        originalPath := none } rows
  | none => insert { entry with fileTrashedAt := none, originalPath := none } rows

def upsertFileWithLocation (userId logicalPath : Text) (info : VfsFileInfo) (location : Location)
    (id : Nat) (now : Int) (rows : Index) : Except IndexError Index :=
  let normalizedPath := if logicalPath = ['/'] then ['/'] else Text.trimEnd '/' logicalPath
  let parent := match stdParent normalizedPath with
    | some parent => if Text.trimEnd '/' parent = [] then ['/'] else Text.trimEnd '/' parent
    | none => ['/']
  addOrUpdateEntry
    { id
      userId
      parentPath := parent
      name := info.name
      path := normalizedPath
      isDir := info.isDir
      storageId := location.storageId
      backendType := location.backendType
      backendKey := location.backendKey
      size := info.size
      physicalSize := location.physicalSize
      protectedMeta := location.protectedMeta
      fileTrashedAt := none
      rowCreatedAt := now
      rowUpdatedAt := now
      favoriteColor := 0
      originalPath := none } rows

/-- `INSERT … ON CONFLICT (user_id, path) DO UPDATE` of a synchronised entry. -/
def upsertSynced (entry : IndexRow) (rows : Index) : Index :=
  if rows.any (at_ entry.userId entry.path) then
    rows.map fun row =>
      if at_ entry.userId entry.path row then
        { row with
          parentPath := entry.parentPath
          name := entry.name
          isDir := entry.isDir
          size := entry.size
          rowUpdatedAt := entry.rowUpdatedAt }
      else row
  else rows ++ [entry]

/-- What `finish_directory_sync_txn` leaves of a directory's rows. -/
def pruneDirectory (userId parentPath : Text) (syncStart : Int) (rows : Index) : Index :=
  rows.filter fun row => !(row.userId == userId && row.parentPath == parentPath &&
    decide (row.rowUpdatedAt < syncStart))

section like
variable (sensitive : Bool)

/-- The rows a `LIKE 'dir/%'` selects. -/
def likeBelow (userId dir : Text) (row : IndexRow) : Bool :=
  row.userId == userId && Text.like sensitive (dir ++ ['/','%']) row.path

def listFilesRecursive (userId parentPath : Text) (rows : Index) : List IndexRow :=
  rows.filter fun row => row.userId == userId && row.fileTrashedAt.isNone &&
    (parentPath == ['/'] || at_ userId parentPath row ||
      likeBelow sensitive userId (Text.trimEnd '/' parentPath) row)

def getTotalSize (userId pathPrefix : Text) (rows : Index) : Int :=
  ((rows.filter fun row => (at_ userId pathPrefix row || likeBelow sensitive userId pathPrefix row) &&
    row.fileTrashedAt.isNone).map (·.size)).sum

/-- No two rows of one user have the same path. -/
def uniqueUserPath (rows : Index) : Bool := rows.all fun row => !occupied row rows

def trashFile (userId oldPath newPath : Text) (now : Int) (rows : Index) :
    Except IndexError Index :=
  let top := rows.map fun row =>
    if at_ userId oldPath row then
      { row with
        path := newPath
        name := lastSegment newPath
        parentPath := recycleBin
        fileTrashedAt := some now
        originalPath := some oldPath
        rowUpdatedAt := now }
    else row
  let all := top.map fun row =>
    if likeBelow sensitive userId oldPath row then
      { row with
        originalPath := some row.path
        path := Text.replace oldPath newPath row.path
        parentPath := Text.replace oldPath newPath row.parentPath
        fileTrashedAt := some now
        rowUpdatedAt := now }
    else row
  if uniqueUserPath top && uniqueUserPath all then .ok all else .error .uniqueUserPath

/-- A row with its path cut after `oldPath` and put below `newPath`. -/
def rebased (oldPath newPath : Text) (row : IndexRow) : Except IndexError Text :=
  if row.path = oldPath then .ok newPath
  else
    match Text.dropBytes (Text.byteLength oldPath) row.path with
    | some rest => .ok (newPath ++ rest)
    | none => .error .charBoundary

def restoreEach (trashPath restoredPath : Text) (now : Int) :
    List IndexRow → Index → Except IndexError Index
  | [], rows => .ok rows
  | row::rest, rows => do
    let target ← rebased trashPath restoredPath row
    let rows ← save
      { row with
        path := target
        name := lastSegment target
        parentPath := parentOf target
        fileTrashedAt := none
        originalPath := none
        rowUpdatedAt := now } rows
    restoreEach trashPath restoredPath now rest rows

def restoreFile (userId trashPath restoredPath : Text) (now : Int) (rows : Index) :
    Except IndexError Index :=
  let selected := rows.filter fun row =>
    at_ userId trashPath row || likeBelow sensitive userId trashPath row
  let sorted := selected.mergeSort fun a b =>
    decide (Text.byteLength a.path ≤ Text.byteLength b.path)
  restoreEach trashPath restoredPath now sorted rows

def deleteFile (userId path : Text) (rows : Index) : Index :=
  let originalPrefixes := (rows.filter (at_ userId path)).filterMap fun row =>
    row.originalPath.map (Text.trimEnd '/')
  let kept := rows.filter fun row => !(at_ userId path row || likeBelow sensitive userId path row)
  originalPrefixes.foldl (fun rows dir =>
    rows.filter fun row => !(row.userId == userId &&
      row.originalPath.any (Text.like sensitive (dir ++ ['/','%'])))) kept

def moveEach (srcPath dstPath : Text) (now : Int) : List IndexRow → Index → Except IndexError Index
  | [], rows => .ok rows
  | child::rest, rows => do
    let newPath ← match Text.dropBytes (Text.byteLength srcPath) child.path with
      | some rest => .ok (dstPath ++ rest)
      | none => .error .charBoundary
    let binned := Text.startsWith recycleBin dstPath
    let rows ← save
      { child with
        path := newPath
        parentPath := parentOf newPath
        rowUpdatedAt := now
        fileTrashedAt := if binned then child.fileTrashedAt else none
        originalPath := if binned then child.originalPath else none } rows
    moveEach srcPath dstPath now rest rows

def moveTop (dstPath : Text) (now : Int) (top : Option IndexRow) (rows : Index) :
    Except IndexError Index :=
  match top with
  | none => .ok rows
  | some top =>
    let binned := Text.startsWith recycleBin dstPath
    save
      { top with
        path := dstPath
        name := lastSegment dstPath
        parentPath := parentOf dstPath
        rowUpdatedAt := now
        fileTrashedAt := if binned then top.fileTrashedAt else none
        originalPath := if binned then top.originalPath else none } rows

def moveFile (userId srcPath dstPath : Text) (now : Int) (rows : Index) : Except IndexError Index := do
  let children := rows.filter (likeBelow sensitive userId srcPath)
  let moved ← moveTop dstPath now (getFileMetadata userId srcPath rows) rows
  moveEach srcPath dstPath now children moved

end like
end Index
end StorageHub.Scoped
