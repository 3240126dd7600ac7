import StorageHub.Scoped.ReadSpec

/-! The listings of a directory: what the index or the storage has, and the
pending writes merged into it. Paths are validated ones. -/
namespace StorageHub.Scoped
open Library WriteCache Protected Vfs

/-- What a listing depends on besides the engine: the configured index refresh
and page size, the orders a hash map gives its values in and a table the rows that a
query does not sort, the time order of entries and the lower case of a text. -/
structure ListConfig where
  mode : Int
  streamPageSize : Nat
  shuffle : List VfsFileInfo → List VfsFileInfo
  shuffled : ∀ all, (shuffle all).Perm all
  heap : List IndexRow → List IndexRow
  heaped : ∀ rows, (heap rows).Perm rows
  byTime : VfsFileInfo → VfsFileInfo → Ordering
  timed : Std.TransCmp byTime
  lower : Text → Text

structure VfsPaginationParams where
  page : Int
  pageSize : Int
  sortBy : Option Text
  order : Option Text
  keyword : Option Text
  deriving DecidableEq,Repr

/-- `skip` and `take` of a page of a listing in memory. -/
def pageOf {α : Type} (page pageSize : Int) (all : List α) : List α :=
  (all.drop ((page - 1) * pageSize).toNat).take pageSize.toNat

/-- A number cast to 64 bits without a sign. -/
def asU64 (n : Int) : Nat := (n % 2 ^ 64).toNat

def nameLe (a b : VfsFileInfo) : Bool := (compare a.name b.name).isLE

namespace Index

def listFiles (userId parentPath : Text) (rows : Index) : List IndexRow :=
  rows.filter fun row => row.userId == userId && row.parentPath == parentPath &&
    row.fileTrashedAt.isNone

/-- Directories first, then by a column. -/
def rowLe (cmp : IndexRow → IndexRow → Ordering) (a b : IndexRow) : Bool :=
  ((compare b.isDir a.isDir).then (cmp a b)).isLE

/-- `ORDER BY`, `LIMIT` and `OFFSET` of a query for a page. -/
def selectPage (cmp : IndexRow → IndexRow → Ordering) (page pageSize : Int) (rows : List IndexRow) :
    List IndexRow :=
  ((rows.mergeSort (rowLe cmp)).drop (asU64 ((page - 1) * pageSize))).take (asU64 pageSize)

def byName (a b : IndexRow) : Ordering := compare a.name b.name

def matchesFilter (sensitive : Bool) (keyword : Option Text) (row : IndexRow) : Bool :=
  match keyword with
  | some (c::cs) =>
    Text.like sensitive ('%'::c::cs ++ ['%']) row.name ||
      Text.like sensitive ('%'::c::cs ++ ['%']) row.path
  | _ => true

end Index

namespace Engine
variable (e : Engine) (config : ListConfig)

/-! ### Entries -/

def poolList (physical : Text) : Vfs (List (Text × Metadata)) :=
  let dir := normalizeEntryPath physical
  e.orBackup (query fun w => w.primary.listChildren dir)
    fun backup => query fun _ => backup.listChildren dir

/-- `pending_children` of the write cache. -/
def poolPendingChildren (parentPhysicalPath : Text) (w : World) : List VfsFileInfo :=
  match e.writeCache with
  | none => []
  | some _ =>
    ((w.shared.entries.entries.filterMap fun cell => w.shared.records.lookup cell.2).filter
      fun record => Paths.parentPath record.target.path == parentPhysicalPath).map
        fun record => fileInfo record.target.path ⟨false,record.inner.size⟩

def pendingChildren (path : Text) : Vfs (List VfsFileInfo) :=
  if isTempPath path then pure []
  else do
    let w ← Effect.get
    pure ((e.poolPendingChildren (e.getPhysicalPath path) w).map e.translateFileInfo)

/-- Whether a listing of `dir` keeps an entry: a visible one directly in it. -/
def keepsEntry (dir : Text) (info : VfsFileInfo) : Bool :=
  !isHiddenStoragePath info.path && info.path != dir &&
    !(dir != ['/'] && info.path == dir ++ ['/']) &&
      match Text.rsplitOnce '/' info.path with
      | some (parent,_) => (if parent = [] then ['/'] else parent) == dir
      | none => false

def physicalListing (path : Text) : Vfs (List VfsFileInfo) := do
  let entries ← e.poolList (e.getPhysicalPath path)
  pure ((entries.map e.entryInfo).filter (keepsEntry path))

def indexListing (path : Text) : Vfs (List VfsFileInfo) := do
  let rows ← query fun w => Index.listFiles e.userId path w.index
  pure ((rows.filter fun row => !isHiddenStoragePath row.path).map infoOfRow)

/-! ### Index refresh -/

/-- `sync_index_internal` with the entries it lists. -/
def syncIndexEntries (path : Text) : Vfs (List VfsFileInfo) := do
  match ← e.getProtectedPlan path with
  | some _ => e.indexListing path
  | none => do
    let entries ← e.poolList (e.getPhysicalPath path)
    let w ← Effect.get
    Effect.modify fun w => { w with nextUuid := w.nextUuid + entries.length }
    transact fun now rows =>
      let synced := (e.syncRows path now w.nextUuid entries).foldl
        (fun rows row => Index.upsertSynced row rows) rows
      .ok (Index.pruneDirectory e.userId path (now - 1) synced)
    pure (((entries.map e.entryInfo).filter (keepsEntry path)).mergeSort nameLe)

/-- A refresh in the background has no part in the listing that starts it. -/
def executeSyncDecision (path : Text) : Vfs (Option (List VfsFileInfo)) := do
  match ← e.getProtectedPlan path with
  | some _ => pure none
  | none => if config.mode = 2 then some <$> e.syncIndexEntries path else pure none

/-! ### Listings -/

/-- A later entry takes the place of one with the same path. -/
def mergeEntries (entries : List VfsFileInfo) : Store Text VfsFileInfo :=
  entries.foldl (fun merged entry => merged.insert entry.path entry) ∅

def storedListing (path : Text) : Vfs (List VfsFileInfo) := do
  let w ← Effect.get
  if e.isDirtyDir (e.getPhysicalPath path) w then e.physicalListing path
  else do
    let _ ← e.executeSyncDecision config path
    let rows ← query fun w => Index.listFiles e.userId path w.index
    if rows = [] then e.physicalListing path
    else pure ((rows.map infoOfRow).filter (keepsEntry path))

def listImpl (path : Text) : Vfs (List VfsFileInfo) := do
  if isTempPath path then tempList path
  else
    match ← e.getProtectedPlan path with
    | some _ => e.indexListing path
    | none => do
      let results ← e.storedListing config path
      let pending ← e.pendingChildren path
      if pending = [] then pure results
      else
        let merged := (mergeEntries (results ++ pending)).entries.map (·.2)
        pure ((config.shuffle merged).mergeSort nameLe)

/-- The pages of the index until one is not full. -/
def listFilesStream (path : Text) : Nat → Int → Vfs (List IndexRow)
  | 0, _ => pure []
  | fuel + 1, page => do
    let pageSize := max config.streamPageSize 1
    let items ← query fun w =>
      Index.selectPage Index.byName page pageSize (config.heap (Index.listFiles e.userId path w.index))
    if items.length = pageSize then do
      let rest ← listFilesStream path fuel (page + 1)
      pure (items ++ rest)
    else pure items

def listStreamImpl (path : Text) : Vfs (List VfsFileInfo) := do
  if isTempPath path then e.listImpl config path
  else
    match ← e.getProtectedPlan path with
    | some _ => e.listImpl config path
    | none => do
      let pending ← e.pendingChildren path
      let w ← Effect.get
      if pending ≠ [] ∨ e.isDirtyDir (e.getPhysicalPath path) w = true then e.listImpl config path
      else
        match ← e.executeSyncDecision config path with
        | some fresh => pure fresh
        | none => do
          let w ← Effect.get
          let rows ← e.listFilesStream config path (w.index.length + 1) 1
          pure (rows.map infoOfRow)

/-- A page of the listing in memory, and the length of the whole. -/
def listedPage (path : Text) (page pageSize : Int) : Vfs (List VfsFileInfo × Int) := do
  let all ← e.listImpl config path
  pure (pageOf page pageSize all,all.length)

def indexPage (path : Text) (page pageSize : Int) : Vfs (List IndexRow × Int) := do
  let rows ← query fun w =>
    Index.selectPage Index.byName page pageSize (config.heap (Index.listFiles e.userId path w.index))
  let total ← query fun w => ((Index.listFiles e.userId path w.index).length : Int)
  pure (rows,total)

def listFilesPaginatedImpl (path : Text) (page pageSize : Int) : Vfs (List VfsFileInfo × Int) := do
  let visible (rows : List IndexRow) : List VfsFileInfo :=
    (rows.filter fun row => !isHiddenStoragePath row.path).map infoOfRow
  match ← e.getProtectedPlan path with
  | some _ => do
    let (rows,total) ← e.indexPage config path page pageSize
    pure (visible rows,total)
  | none => do
    let pending ← e.pendingChildren path
    let w ← Effect.get
    if pending ≠ [] ∨ e.isDirtyDir (e.getPhysicalPath path) w = true then
      e.listedPage config path page pageSize
    else do
      let _ ← e.executeSyncDecision config path
      let (rows,total) ← e.indexPage config path page pageSize
      if 0 < total then pure (visible rows,total) else e.listedPage config path page pageSize

/-! ### Sorted pages -/

def descending (params : VfsPaginationParams) (order : Ordering) : Ordering :=
  if params.order = some "desc".toList then order.swap else order

def sortedBy (params : VfsPaginationParams) (a b : VfsFileInfo) : Ordering :=
  if params.sortBy = some "size".toList then compare a.size b.size
  else if params.sortBy = some "modified".toList then config.byTime a b
  else if params.sortBy = some "path".toList then compare a.path b.path
  else if params.sortBy = some "created_at".toList then config.byTime a b
  else compare a.name b.name

def rowsSortedBy (params : VfsPaginationParams) (a b : IndexRow) : Ordering :=
  if params.sortBy = some "size".toList then compare a.size b.size
  else if params.sortBy = some "modified".toList then config.byTime (infoOfRow a) (infoOfRow b)
  else if params.sortBy = some "path".toList then compare a.path b.path
  else if params.sortBy = some "created_at".toList then compare a.rowUpdatedAt b.rowUpdatedAt
  else compare a.name b.name

def matchesKeyword (params : VfsPaginationParams) (info : VfsFileInfo) : Bool :=
  match params.keyword with
  | some (c::cs) => Text.contains (config.lower (c::cs)) (config.lower info.name) ||
      Text.contains (config.lower (c::cs)) (config.lower info.path)
  | _ => true

def sortedListing (params : VfsPaginationParams) (all : List VfsFileInfo) : List VfsFileInfo :=
  (all.filter (matchesKeyword config params)).mergeSort fun a b =>
    ((compare b.isDir a.isDir).then (descending params (sortedBy config params a b))).isLE

def paginateWithSortInMemory (params : VfsPaginationParams) (all : List VfsFileInfo) :
    List VfsFileInfo × Int :=
  (pageOf params.page params.pageSize (sortedListing config params all),
    (sortedListing config params all).length)

def indexPageWithSort (path : Text) (params : VfsPaginationParams) : Vfs (List IndexRow × Int) := do
  let select (w : World) : List IndexRow := (Index.listFiles e.userId path w.index).filter
    (Index.matchesFilter e.caseSensitiveLike params.keyword)
  let rows ← query fun w => Index.selectPage (fun a b => descending params (rowsSortedBy config params a b))
    params.page params.pageSize (config.heap (select w))
  let total ← query fun w => ((select w).length : Int)
  pure (rows,total)

def listFilesPaginatedWithSortImpl (path : Text) (params : VfsPaginationParams) :
    Vfs (List VfsFileInfo × Int) := do
  match ← e.getProtectedPlan path with
  | some _ => do
    let (rows,total) ← e.indexPageWithSort config path params
    pure (rows.map infoOfRow,total)
  | none => do
    let pending ← e.pendingChildren path
    let w ← Effect.get
    if pending ≠ [] ∨ e.isDirtyDir (e.getPhysicalPath path) w = true then
      paginateWithSortInMemory config params <$> e.listImpl config path
    else
      match ← e.executeSyncDecision config path with
      | some fresh => pure (paginateWithSortInMemory config params fresh)
      | none => do
        let result ← (e.indexPageWithSort config path params).attempt
        match result with
        | .ok (rows,total) =>
          if 0 < total then pure (rows.map infoOfRow,total)
          else paginateWithSortInMemory config params <$> e.listImpl config path
        | .error _ => paginateWithSortInMemory config params <$> e.listImpl config path

end Engine
end StorageHub.Scoped
