import StorageHub.Scoped.DirectorySync
import StorageHub.Scoped.PendingListed

/-! A directory sync while files are written to the directory. The writers do
not take the guard of the sync, and the sync deletes the rows whose stamp is
older than the start it captured. -/
namespace StorageHub.Scoped
open Library WriteCache Protected Vfs Paths

/-- A write stores its file, then captures the stamp of its row, then upserts it. -/
inductive WritePhase
  | stored
  | stamped (now : Int)
  | indexed
  deriving DecidableEq,Repr

structure FileWrite where
  path : Text
  size : Nat
  phase : WritePhase
  deriving DecidableEq,Repr

inductive SyncPhase
  | guarded
  | listed (entries : List (Text × Metadata))
  | stamped (chunk : List IndexRow)
  | began (syncStart : Int) (chunk : List IndexRow)
  | committed
  deriving DecidableEq,Repr

/-- The rows still to be upserted. -/
def SyncPhase.pending : SyncPhase → List IndexRow
  | .stamped chunk => chunk
  | .began _ chunk => chunk
  | _ => []

structure SyncState where
  clock : Int
  disk : Disk
  index : Index
  sync : SyncPhase
  writes : List FileWrite
  /-- The rows written since the guard was taken with their stamps, the latest first. -/
  rowWrites : List (Text × Int)

/-- What the sync, the writers and the clock do. -/
inductive SyncAction
  | tick (d : Nat)
  | list (entries : List (Text × Metadata))
  | stamp (firstId : Nat)
  | beginTxn
  | upsertChunk (n : Nat)
  | commit
  | store (path : Text) (data : Bytes)
  | stampWrite (i : Nat)
  | upsertRow (i id : Nat)

def SyncAction.ofWriter : SyncAction → Bool
  | .store _ _ => true
  | .stampWrite _ => true
  | .upsertRow _ _ => true
  | _ => false

def lastWrite (rowWrites : List (Text × Int)) (p : Text) : Option Int :=
  (rowWrites.find? fun written => written.1 == p).map (·.2)

namespace Engine
variable (e : Engine) (dir : Text) (second : Int)

/-- A write of a file directly in `dir` that has a row of its own. -/
def WritesInto (path : Text) : Prop :=
  FileShaped path ∧ parentOf path = dir ∧ isHiddenStoragePath path = false

instance (path : Text) : Decidable (WritesInto dir path) := inferInstanceAs (Decidable (_ ∧ _))

/-- The upsert of a written file's row. -/
def rowUpsert (w : FileWrite) (id : Nat) (now : Int) : Index.Upkeep :=
  .upsertFileWithLocation e.userId w.path (fileInfo w.path ⟨false,w.size⟩)
    ⟨some e.poolName,some e.backendType,some (e.getPhysicalPath w.path),none,none⟩ id now

def syncStep (s : SyncState) : SyncAction → Option SyncState
  | .tick d => some { s with clock := s.clock + d }
  | .list entries =>
    -- a refused listing falls back on the backup
    if s.sync = .guarded ∧ (e.backup.isSome = true ∨
        entries = s.disk.listChildren (normalizeEntryPath (e.getPhysicalPath dir))) then
      some { s with sync := .listed entries }
    else none
  | .stamp firstId =>
    match s.sync with
    | .listed entries => some { s with sync := .stamped (e.syncRows dir s.clock firstId entries) }
    | _ => none
  | .beginTxn =>
    match s.sync with
    | .stamped chunk => some { s with sync := .began (s.clock - second) chunk }
    | _ => none
  | .upsertChunk n =>
    match s.sync with
    | .began syncStart chunk =>
      ((Index.upkeep e.caseSensitiveLike).step s.index (.upsertDirectoryChunk (chunk.take n))).map fun index =>
        { s with
          index
          sync := .began syncStart (chunk.drop n)
          rowWrites := (chunk.take n).reverse.map (fun row => (row.path,row.rowUpdatedAt)) ++ s.rowWrites }
    | _ => none
  | .commit =>
    match s.sync with
    | .began syncStart [] =>
      some { s with index := Index.pruneDirectory e.userId dir syncStart s.index, sync := .committed }
    | _ => none
  | .store path data =>
    if WritesInto dir path then
      some
        { s with
          disk := { s.disk with files := s.disk.files.insert (e.getPhysicalPath path) data }
          writes := s.writes ++ [⟨path,data.length,.stored⟩] }
    else none
  | .stampWrite i =>
    match s.writes[i]? with
    | some w =>
      if w.phase = .stored then some { s with writes := s.writes.set i { w with phase := .stamped s.clock } }
      else none
    | none => none
  | .upsertRow i id =>
    match s.writes[i]? with
    | some w =>
      match w.phase with
      | .stamped now => ((Index.upkeep e.caseSensitiveLike).step s.index (e.rowUpsert w id now)).map fun index =>
        { s with
          index
          writes := s.writes.set i { w with phase := .indexed }
          rowWrites := (w.path,now) :: s.rowWrites }
      | _ => none
    | none => none

def syncRace : Transition.System SyncState SyncAction where
  step := e.syncStep dir second

/-- The sync has taken its guard. -/
def guarded (clock : Int) (disk : Disk) (index : Index) : SyncState :=
  ⟨clock,disk,index,.guarded,[],[]⟩

/-! ### The rows of the writes -/

section invariant
variable {e : Engine} {dir : Text} {second : Int}

/-- What holds until the sync commits. The row of an indexed write is a live
one of the directory, and its stamp is that of the last row written there. -/
structure SyncInv (e : Engine) (dir : Text) (s : SyncState) : Prop where
  keyed : Index.Keyed s.index
  pending : ∀ row ∈ s.sync.pending, row.userId = e.userId ∧ row.parentPath = dir
  placed : ∀ w ∈ s.writes, WritesInto dir w.path
  indexed : s.sync ≠ .committed → ∀ w ∈ s.writes, w.phase = .indexed → ∃ t row,
    lastWrite s.rowWrites w.path = some t ∧ Index.getFileMetadata e.userId w.path s.index = some row ∧
      row.parentPath = dir ∧ row.fileTrashedAt = none ∧ row.rowUpdatedAt = t

theorem lastWrite_chunk (chunk : List IndexRow) (rowWrites : List (Text × Int)) (p : Text) :
    lastWrite (chunk.reverse.map (fun row => (row.path,row.rowUpdatedAt)) ++ rowWrites) p =
      ((Index.lastAt chunk p).map (·.rowUpdatedAt)).or (lastWrite rowWrites p) := by
  rw [lastWrite,List.find?_append,List.find?_map,lastWrite,Index.lastAt]
  have same : ((fun written : Text × Int => written.1 == p) ∘ fun row : IndexRow => (row.path,row.rowUpdatedAt)) =
      fun row => row.path == p := rfl
  rw [same]
  cases chunk.reverse.find? fun row => row.path == p with
  | none => rfl
  | some row => rfl

theorem lastWrite_cons (p q : Text) (t : Int) (rowWrites : List (Text × Int)) :
    lastWrite ((q,t) :: rowWrites) p = if q = p then some t else lastWrite rowWrites p := by
  by_cases here : q = p
  · simp [lastWrite,here]
  · simp [lastWrite,here]

/-- The entry of a file written to `dir` is one of the directory. -/
theorem upsertFile_filed {path : Text} (valid : dir = ['/'] ∨ FileShaped dir) (placed : WritesInto dir path)
    (userId : Text) (info : VfsFileInfo) (location : Location) (id : Nat) (now : Int) (rows : Index) :
    ∃ entry : IndexRow, Index.upsertFileWithLocation userId path info location id now rows =
        Index.addOrUpdateEntry entry rows ∧
      entry.userId = userId ∧ entry.path = path ∧ entry.parentPath = dir ∧ entry.rowUpdatedAt = now := by
  obtain ⟨shaped,parent,-⟩ := placed
  have above : parentPath path = dir := by
    rcases valid with rfl | shaped'
    · exact parentPath_top shaped parent
    · have physical := parentPath_physicalPath [] shaped shaped' parent
      rw [physicalPath_fileShaped [] shaped,physicalPath_fileShaped [] shaped'] at physical
      exact physical
  have plain : (if path = ['/'] then ['/'] else Text.trimEnd '/' path) = path := by
    split
    next root => exact root.symm
    next => exact trimEnd_plain shaped.2.2.1
  have whole : (if Text.trimEnd '/' dir = [] then ['/'] else Text.trimEnd '/' dir) = dir := by
    rcases valid with rfl | shaped'
    · rfl
    · rw [trimEnd_plain shaped'.2.2.1,if_neg]
      rintro rfl
      cases shaped'.1
  refine ⟨_,rfl,rfl,plain,?_,rfl⟩
  dsimp only
  rw [plain]
  rw [parentPath] at above
  cases found : stdParent path with
  | none =>
    rw [found] at above
    exact above
  | some p =>
    rw [found] at above
    cases p with
    | nil => exact above
    | cons c rest =>
      dsimp only at above ⊢
      rw [above]
      exact whole

theorem rowUpsert_lookup {w : FileWrite} {id : Nat} {now : Int} {rows out : Index} (valid : dir = ['/'] ∨ FileShaped dir)
    (placed : WritesInto dir w.path) (keyed : Index.Keyed rows)
    (made : (Index.upkeep e.caseSensitiveLike).step rows (e.rowUpsert w id now) = some out) :
    (∃ row, Index.getFileMetadata e.userId w.path out = some row ∧ row.parentPath = dir ∧
        row.fileTrashedAt = none ∧ row.rowUpdatedAt = now) ∧
      ∀ p, p ≠ w.path → Index.getFileMetadata e.userId p out = Index.getFileMetadata e.userId p rows := by
  obtain ⟨entry,same,user,path,parent,stamped⟩ := upsertFile_filed valid placed e.userId
    (fileInfo w.path ⟨false,w.size⟩)
    ⟨some e.poolName,some e.backendType,some (e.getPhysicalPath w.path),none,none⟩ id now rows
  have returned := Index.upkeep_ok made
  have lookup := Index.addOrUpdateEntry_lookup keyed (same.symm.trans returned)
  rw [user,path,parent,stamped] at lookup
  exact lookup

theorem upsertChunk_indexed {s : SyncState} {chunk : List IndexRow} {index : Index} {w : FileWrite}
    (filed : ∀ row ∈ chunk, row.userId = e.userId ∧ row.parentPath = dir)
    (made : (Index.upkeep e.caseSensitiveLike).step s.index (.upsertDirectoryChunk chunk) = some index)
    (before : ∃ t row, lastWrite s.rowWrites w.path = some t ∧
      Index.getFileMetadata e.userId w.path s.index = some row ∧ row.parentPath = dir ∧
        row.fileTrashedAt = none ∧ row.rowUpdatedAt = t) :
    ∃ t row, lastWrite (chunk.reverse.map (fun row => (row.path,row.rowUpdatedAt)) ++ s.rowWrites) w.path = some t ∧
      Index.getFileMetadata e.userId w.path index = some row ∧ row.parentPath = dir ∧
        row.fileTrashedAt = none ∧ row.rowUpdatedAt = t := by
  obtain ⟨t,row,written,found,parent,live,stamped⟩ := before
  have returned := Index.upkeep_ok made
  cases returned
  have synced := Index.upsertChunk_existing chunk (fun row member => (filed row member).1) found
  obtain ⟨-,-,path⟩ := Index.getFileMetadata_some found
  obtain ⟨-,-,trashed⟩ := Index.overlaid_kept chunk row
  rw [lastWrite_chunk]
  cases listed : Index.lastAt chunk w.path with
  | none =>
    rw [Index.overlaid_unlisted (path ▸ listed)] at synced
    exact ⟨t,row,written,synced,parent,live,stamped⟩
  | some last =>
    refine ⟨last.rowUpdatedAt,_,rfl,synced,?_,trashed.trans live,?_⟩
    all_goals rw [Index.overlaid_listed (path ▸ listed)]
    · exact (filed last (Index.lastAt_some listed).1).2
    · rfl

theorem list_inv {s next : SyncState} {entries : List (Text × Metadata)} (inv : SyncInv e dir s)
    (stepped : e.syncStep dir second s (.list entries) = some next) : SyncInv e dir next := by
  simp only [syncStep] at stepped
  split at stepped
  next permitted =>
    cases stepped
    refine ⟨inv.keyed,fun _ member => (List.not_mem_nil member).elim,inv.placed,fun _ => inv.indexed ?_⟩
    rw [permitted.1]
    exact nofun
  next => cases stepped

theorem stamp_inv {s next : SyncState} {firstId : Nat} (inv : SyncInv e dir s)
    (stepped : e.syncStep dir second s (.stamp firstId) = some next) : SyncInv e dir next := by
  simp only [syncStep] at stepped
  split at stepped
  next entries phase =>
    cases stepped
    refine ⟨inv.keyed,?_,inv.placed,fun _ => inv.indexed ?_⟩
    · intro row member
      obtain ⟨entry,-,id,made,-⟩ := mem_syncRows member
      rw [made]
      exact ⟨rfl,rfl⟩
    · rw [phase]
      exact nofun
  next => cases stepped

theorem beginTxn_inv {s next : SyncState} (inv : SyncInv e dir s)
    (stepped : e.syncStep dir second s .beginTxn = some next) : SyncInv e dir next := by
  simp only [syncStep] at stepped
  split at stepped
  next chunk phase =>
    cases stepped
    have pending := inv.pending
    rw [phase] at pending
    refine ⟨inv.keyed,pending,inv.placed,fun _ => inv.indexed ?_⟩
    rw [phase]
    exact nofun
  next => cases stepped

theorem upsertChunk_inv {s next : SyncState} {n : Nat} (inv : SyncInv e dir s)
    (stepped : e.syncStep dir second s (.upsertChunk n) = some next) : SyncInv e dir next := by
  simp only [syncStep] at stepped
  split at stepped
  next syncStart chunk phase =>
    obtain ⟨index,made,rfl⟩ := Option.map_eq_some_iff.mp stepped
    have pending := inv.pending
    rw [phase] at pending
    refine ⟨(Index.upkeep_step inv.keyed made).1,?_,inv.placed,fun _ w member done => ?_⟩
    · exact fun row member => pending row (List.mem_of_mem_drop member)
    · apply upsertChunk_indexed (fun row member => pending row (List.mem_of_mem_take member)) made
      refine inv.indexed ?_ w member done
      rw [phase]
      exact nofun
  next => cases stepped

theorem commit_inv {s next : SyncState} (inv : SyncInv e dir s)
    (stepped : e.syncStep dir second s .commit = some next) : SyncInv e dir next := by
  simp only [syncStep] at stepped
  split at stepped
  next syncStart phase =>
    cases stepped
    refine ⟨⟨?_,?_⟩,fun _ member => (List.not_mem_nil member).elim,inv.placed,fun before => absurd rfl before⟩
    · exact inv.keyed.ids.sublist (List.filter_sublist.map _)
    · exact inv.keyed.paths.sublist (List.filter_sublist.map _)
  next => cases stepped

theorem store_inv {s next : SyncState} {path : Text} {data : Bytes} (inv : SyncInv e dir s)
    (stepped : e.syncStep dir second s (.store path data) = some next) : SyncInv e dir next := by
  simp only [syncStep] at stepped
  split at stepped
  next placed =>
    cases stepped
    refine ⟨inv.keyed,inv.pending,?_,fun before w member done => ?_⟩
    · intro w member
      rcases List.mem_append.mp member with old | new
      · exact inv.placed w old
      · rw [List.mem_singleton.mp new]
        exact placed
    · rcases List.mem_append.mp member with old | new
      · exact inv.indexed before w old done
      · rw [List.mem_singleton.mp new] at done
        cases done
  next => cases stepped

theorem stampWrite_inv {s next : SyncState} {i : Nat} (inv : SyncInv e dir s)
    (stepped : e.syncStep dir second s (.stampWrite i) = some next) : SyncInv e dir next := by
  simp only [syncStep] at stepped
  split at stepped
  next w found =>
    split at stepped
    next =>
      cases stepped
      have known := List.mem_of_getElem? found
      refine ⟨inv.keyed,inv.pending,?_,fun before other member done => ?_⟩
      · intro other member
        rcases List.mem_or_eq_of_mem_set member with old | new
        · exact inv.placed other old
        · rw [new]
          exact inv.placed w known
      · rcases List.mem_or_eq_of_mem_set member with old | new
        · exact inv.indexed before other old done
        · rw [new] at done
          cases done
    next => cases stepped
  next => cases stepped

theorem upsertRow_inv {s next : SyncState} {i id : Nat} (valid : dir = ['/'] ∨ FileShaped dir) (inv : SyncInv e dir s)
    (stepped : e.syncStep dir second s (.upsertRow i id) = some next) : SyncInv e dir next := by
  simp only [syncStep] at stepped
  split at stepped
  next w found =>
    split at stepped
    next now phase =>
      obtain ⟨index,made,rfl⟩ := Option.map_eq_some_iff.mp stepped
      have known := List.mem_of_getElem? found
      have placed := inv.placed w known
      obtain ⟨here,elsewhere⟩ := rowUpsert_lookup valid placed inv.keyed made
      refine ⟨(Index.upkeep_step inv.keyed made).1,inv.pending,?_,fun before other member done => ?_⟩
      · intro other member
        rcases List.mem_or_eq_of_mem_set member with old | new
        · exact inv.placed other old
        · rw [new]
          exact placed
      · by_cases same : w.path = other.path
        · obtain ⟨row,shown,parent,live,stamped⟩ := here
          refine ⟨now,row,?_,same ▸ shown,parent,live,stamped⟩
          rw [lastWrite_cons,if_pos same]
        · rcases List.mem_or_eq_of_mem_set member with old | new
          · obtain ⟨t,row,written,shown,rest⟩ := inv.indexed before other old done
            refine ⟨t,row,?_,(elsewhere other.path fun equal => same equal.symm).trans shown,rest⟩
            rw [lastWrite_cons,if_neg same]
            exact written
          · rw [new] at same
            exact absurd rfl same
    next => cases stepped
  next => cases stepped

theorem syncStep_inv (valid : dir = ['/'] ∨ FileShaped dir) {s next : SyncState} {action : SyncAction}
    (inv : SyncInv e dir s) (stepped : e.syncStep dir second s action = some next) : SyncInv e dir next := by
  cases action with
  | tick d =>
    cases stepped
    exact ⟨inv.keyed,inv.pending,inv.placed,inv.indexed⟩
  | list entries => exact list_inv inv stepped
  | stamp firstId => exact stamp_inv inv stepped
  | beginTxn => exact beginTxn_inv inv stepped
  | upsertChunk n => exact upsertChunk_inv inv stepped
  | commit => exact commit_inv inv stepped
  | store path data => exact store_inv inv stepped
  | stampWrite i => exact stampWrite_inv inv stepped
  | upsertRow i id => exact upsertRow_inv valid inv stepped

theorem guarded_inv (clock : Int) (disk : Disk) {index : Index} (keyed : Index.Keyed index) :
    SyncInv e dir (guarded clock disk index) where
  keyed := keyed
  pending _ member := (List.not_mem_nil member).elim
  placed _ member := (List.not_mem_nil member).elim
  indexed _ _ member := (List.not_mem_nil member).elim

theorem syncRace_inv (valid : dir = ['/'] ∨ FileShaped dir) {clock : Int} {disk : Disk} {index : Index}
    (keyed : Index.Keyed index) {actions : List SyncAction} {s : SyncState}
    (run : (e.syncRace dir second).Run (fun _ _ => True) (guarded clock disk index) actions s) :
    SyncInv e dir s :=
  Transition.System.Run.invariant (I := SyncInv e dir)
    (fun _ _ _ inv _ stepped => syncStep_inv valid inv stepped) run (guarded_inv clock disk keyed)

end invariant

/-! ### A sync without writers -/

section alone
variable {e : Engine} {dir : Text} {second : Int} {before : Index}

/-- The index while the sync runs by itself. -/
def Alone (e : Engine) (dir : Text) (before : Index) (s : SyncState) : Prop :=
  match s.sync with
  | .guarded => s.index = before
  | .listed _ => s.index = before
  | .stamped chunk => s.index = before ∧
      ∃ stamp firstId entries, chunk = e.syncRows dir stamp firstId entries
  | .began _ chunk => ∃ upserted stamp firstId entries,
      upserted ++ chunk = e.syncRows dir stamp firstId entries ∧ s.index = Index.upsertChunk upserted before
  | .committed => ∃ stamp syncStart firstId entries,
      s.index = Index.syncDirectory e.userId dir syncStart (e.syncRows dir stamp firstId entries) before

theorem syncStep_alone {s next : SyncState} {action : SyncAction} (alone : Alone e dir before s)
    (own : action.ofWriter = false) (stepped : e.syncStep dir second s action = some next) :
    Alone e dir before next := by
  cases action with
  | tick d =>
    cases stepped
    exact alone
  | list entries =>
    simp only [syncStep] at stepped
    split at stepped
    next permitted =>
      cases stepped
      rw [Alone,permitted.1] at alone
      exact alone
    next => cases stepped
  | stamp firstId =>
    simp only [syncStep] at stepped
    split at stepped
    next entries phase =>
      cases stepped
      rw [Alone,phase] at alone
      exact ⟨alone,s.clock,firstId,entries,rfl⟩
    next => cases stepped
  | beginTxn =>
    simp only [syncStep] at stepped
    split at stepped
    next chunk phase =>
      cases stepped
      rw [Alone,phase] at alone
      obtain ⟨same,stamp,firstId,entries,rfl⟩ := alone
      exact ⟨[],stamp,firstId,entries,rfl,same⟩
    next => cases stepped
  | upsertChunk n =>
    simp only [syncStep] at stepped
    split at stepped
    next syncStart chunk phase =>
      obtain ⟨index,made,rfl⟩ := Option.map_eq_some_iff.mp stepped
      have returned := Index.upkeep_ok made
      cases returned
      rw [Alone,phase] at alone
      obtain ⟨upserted,stamp,firstId,entries,whole,index⟩ := alone
      refine ⟨upserted ++ chunk.take n,stamp,firstId,entries,?_,?_⟩
      · rw [List.append_assoc,List.take_append_drop]
        exact whole
      · rw [Index.upsertChunk_append,← index]
        rfl
    next => cases stepped
  | commit =>
    simp only [syncStep] at stepped
    split at stepped
    next syncStart phase =>
      cases stepped
      rw [Alone,phase] at alone
      obtain ⟨upserted,stamp,firstId,entries,whole,index⟩ := alone
      rw [List.append_nil] at whole
      refine ⟨stamp,syncStart,firstId,entries,?_⟩
      rw [Index.syncDirectory,← whole,← index]
    next => cases stepped
  | store path data => cases own
  | stampWrite i => cases own
  | upsertRow i id => cases own

/-- Without writers the steps make the index of one sync, however it is cut
into chunks. -/
theorem syncRace_alone {clock : Int} {disk : Disk} {actions : List SyncAction} {final : SyncState}
    (run : (e.syncRace dir second).Run (fun _ action => action.ofWriter = false)
      (guarded clock disk before) actions final) (committed : final.sync = .committed) :
    ∃ stamp syncStart firstId entries, final.index =
      Index.syncDirectory e.userId dir syncStart (e.syncRows dir stamp firstId entries) before := by
  have alone : Alone e dir before final := Transition.System.Run.invariant (I := Alone e dir before)
    (fun _ _ _ alone own stepped => syncStep_alone alone own stepped) run rfl
  rw [Alone,committed] at alone
  exact alone

end alone

/-- For every way in which writes and a sync run together: each file written
and indexed meanwhile has its live row after the commit exactly when, for each,
the last row written at its path is not older than the start of the sync. -/
theorem sync_keeps_writes_iff {e : Engine} {dir : Text} {second clock syncStart : Int} {disk : Disk}
    {index : Index} {actions : List SyncAction} {s final : SyncState} (keyed : Index.Keyed index)
    (valid : dir = ['/'] ∨ FileShaped dir)
    (run : (e.syncRace dir second).Run (fun _ _ => True) (guarded clock disk index) actions s)
    (began : s.sync = .began syncStart [])
    (committed : (e.syncRace dir second).step s .commit = some final) :
    (∀ w ∈ final.writes, w.phase = .indexed →
        ∃ row ∈ final.index, row.userId = e.userId ∧ row.path = w.path ∧ row.fileTrashedAt = none) ↔
      ∀ w ∈ s.writes, w.phase = .indexed → ∃ t ∈ lastWrite s.rowWrites w.path, syncStart ≤ t := by
  have inv := syncRace_inv valid keyed run
  have open_ : s.sync ≠ .committed := by
    rw [began]
    exact nofun
  simp only [syncRace,syncStep,began] at committed
  cases committed
  have kept : Index.UniquePaths (Index.pruneDirectory e.userId dir syncStart s.index) :=
    inv.keyed.paths.sublist (List.filter_sublist.map _)
  apply forall₃_congr
  intro w member done
  obtain ⟨t,row,written,found,parent,live,stamped⟩ := inv.indexed open_ w member done
  have pruned : Index.getFileMetadata e.userId w.path (Index.pruneDirectory e.userId dir syncStart s.index) =
      if syncStart ≤ t then some row else none := by
    rw [Index.prune_lookup inv.keyed.paths,found]
    simp [Option.filter,parent,stamped]
  rw [written]
  constructor
  · rintro ⟨after,inside,user,path,-⟩
    have shown := (Index.getFileMetadata_iff kept).mpr ⟨inside,user,path⟩
    rw [pruned] at shown
    split at shown
    next recent => exact ⟨t,rfl,recent⟩
    next => cases shown
  · rintro ⟨t',same,recent⟩
    cases same
    rw [if_pos recent,Index.getFileMetadata_iff kept] at pruned
    exact ⟨row,pruned.1,pruned.2.1,pruned.2.2,live⟩

/-- Storage with the directory of a user and nothing in it. -/
def emptyDir : Disk := (worldOf [] ["u/d".toList] []).primary

/-- The sync of `/d` in milliseconds. -/
def raceInDir : Transition.System SyncState SyncAction := plainEngine.syncRace "/d".toList 1000

/-- Where a list of steps leads from an empty directory. -/
def raced (actions : List SyncAction) : SyncState :=
  (raceInDir.exec (guarded 0 emptyDir []) actions).getD (guarded 0 emptyDir [])

theorem raced_exec {actions : List SyncAction}
    (ran : (raceInDir.exec (guarded 0 emptyDir []) actions).isSome = true) :
    raceInDir.exec (guarded 0 emptyDir []) actions = some (raced actions) := by
  obtain ⟨s,made⟩ := Option.isSome_iff_exists.mp ran
  rw [raced,made]
  rfl

/-- The steps of a write before the listing, and of the sync up to its commit. -/
def writtenFirst : List SyncAction :=
  [.store "/d/a".toList [1],.stampWrite 0,.upsertRow 0 7,.list [("u/d/a".toList,⟨false,1⟩)],.tick 5000,
    .stamp 10,.beginTxn,.upsertChunk 1]

/-- A file written before the listing is still indexed after the sync. -/
theorem sync_keeps_listed_write : ∃ final : SyncState,
    raceInDir.step (raced writtenFirst) .commit = some final ∧
      final.writes = [⟨"/d/a".toList,1,.indexed⟩] ∧
      ∀ w ∈ final.writes, w.phase = .indexed → ∃ row ∈ final.index,
        row.userId = "u".toList ∧ row.path = w.path ∧ row.fileTrashedAt = none := by
  have empty : Index.Keyed [] := ⟨List.nodup_nil,List.nodup_nil⟩
  have ran : (raceInDir.exec (guarded 0 emptyDir []) writtenFirst).isSome = true := by decide +kernel
  have run := Transition.System.exec_run (raced_exec ran)
  have began : (raced writtenFirst).sync = .began 4000 [] := by decide +kernel
  have committed : raceInDir.step (raced writtenFirst) .commit =
      some
        { raced writtenFirst with
          index := Index.pruneDirectory "u".toList "/d".toList 4000 (raced writtenFirst).index
          sync := .committed } := by
    simp only [raceInDir,syncRace,syncStep,began]
    rfl
  refine ⟨_,committed,by decide +kernel,?_⟩
  exact (sync_keeps_writes_iff empty (.inr (by decide)) run began committed).mpr (by decide +kernel)

/-- The steps of a listing, of a write after it and of the rest of the sync,
which begins its transaction a second later. -/
def writtenBetween : List SyncAction :=
  [.list [],.store "/d/a".toList [1],.stampWrite 0,.upsertRow 0 7,.tick 1001,.stamp 10,.beginTxn,
    .upsertChunk 1]

/-- The file is there and was indexed, and the sync deletes its row. -/
theorem sync_drops_written_row : ∃ final : SyncState,
    raceInDir.exec (guarded 0 emptyDir []) (writtenBetween ++ [.commit]) = some final ∧
      final.writes = [⟨"/d/a".toList,1,.indexed⟩] ∧
      (final.disk.files.lookup "u/d/a".toList).isSome = true ∧
      Index.getFileMetadata "u".toList "/d/a".toList (raced writtenBetween).index ≠ none ∧
      Index.getFileMetadata "u".toList "/d/a".toList final.index = none :=
  ⟨_,raced_exec (by decide +kernel),by decide +kernel,by decide +kernel,by decide +kernel,by decide +kernel⟩

end Engine
end StorageHub.Scoped
