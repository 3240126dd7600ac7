import StorageHub.Scoped.Presence
import StorageHub.Scoped.WriteAt
import StorageHub.Scoped.ReadCache
import StorageHub.WriteCache.Barrier
import StorageHub.WriteCache.DirtyMarkers
import StorageHub.WriteCache.ReadFill

/-! What a pool with a backup says of a path that was deleted or moved away, as long
as nothing is written there. -/
namespace StorageHub.Scoped
open Library WriteCache Vfs Effect

/-! ### Places where nothing is -/

namespace Disk
variable {d d' : Disk} {place path src dst : Text}

/-- Neither a file nor a directory. -/
def Vacant (d : Disk) (place : Text) : Prop := d.files.lookup place = none ∧ d.dirs.lookup place = none

theorem Vacant.stat (vacant : d.Vacant (normalizeEntryPath path)) : d.stat path = none := by
  unfold Disk.stat
  dsimp only
  rw [vacant.1,vacant.2]
  rfl

theorem Vacant.read (vacant : d.Vacant (normalizeEntryPath path)) : d.read path = none := by
  rw [Disk.read]
  split
  next => rfl
  next plain =>
    have last : path.getLast? ≠ some '/' := fun same => plain (beq_iff_eq.mpr same)
    have kept : normalizeEntryPath path = path := by rw [normalizeEntryPath,if_neg last,ite_self]
    rw [← kept]
    exact vacant.1

theorem dirs_none {cells : Store Text Unit} (absent : (cells.lookup place).isSome = false) :
    cells.lookup place = none := Option.isNone_iff_eq_none.mp (Option.isSome_eq_false_iff.mp absent)

theorem not_ancestor (outside : Text.within place path = false) : place ∉ ancestors path := by
  intro above
  rw [Text.within,(mem_ancestors.mp above).2,Bool.or_true] at outside
  cases outside

/-- New directories above a path are none at a place that the path is not within. -/
theorem ancestors_vacant {dirs : Store Text Unit} (outside : Text.within place path = false)
    (vacant : dirs.lookup place = none) :
    ((ancestors path).foldl (fun dirs dir => dirs.insert dir ()) dirs).lookup place = none := by
  apply dirs_none
  rw [lookup_insertAll,decide_eq_false (not_ancestor outside),vacant]
  rfl

theorem ne_of_outside (outside : Text.within place path = false) : place ≠ path := by
  rintro rfl
  rw [Text.within_self] at outside
  cases outside

theorem vacant_write {data : Bytes} (outside : Text.within place path = false) (vacant : d.Vacant place)
    (written : d.write path data = some d') : d'.Vacant place := by
  rw [write] at written
  split at written
  next =>
    cases written
    constructor
    · exact (AList.lookup_insert_ne (ne_of_outside outside)).trans vacant.1
    · exact ancestors_vacant outside vacant.2
  next => cases written

theorem vacant_copy (outside : Text.within place dst = false) (vacant : d.Vacant place)
    (copied : d.copy src dst = some d') : d'.Vacant place := by
  obtain ⟨data,-,rfl⟩ := copy_cases copied
  constructor
  · exact (AList.lookup_insert_ne (ne_of_outside outside)).trans vacant.1
  · exact ancestors_vacant outside vacant.2

theorem vacant_createDir (outside : Text.within place (normalizeEntryPath path) = false)
    (vacant : d.Vacant place) (made : d.createDir path = some d') : d'.Vacant place := by
  rw [createDir] at made
  split at made
  next =>
    cases made
    refine ⟨vacant.1,?_⟩
    exact (AList.lookup_insert_ne (ne_of_outside outside)).trans (ancestors_vacant outside vacant.2)
  next => cases made

/-- What a deletion leaves was there before. -/
theorem delete_shrinks (deleted : d.delete path = some d') (place : Text) :
    (d'.files.lookup place = none ∨ d'.files.lookup place = d.files.lookup place) ∧
      (d'.dirs.lookup place = none ∨ d'.dirs.lookup place = d.dirs.lookup place) := by
  have erased {ν : Type} (cells : Store Text ν) (key : Text) :
      (cells.erase key).lookup place = none ∨ (cells.erase key).lookup place = cells.lookup place := by
    rw [Store.lookup_erase_eq]
    split
    next => exact .inl rfl
    next => exact .inr rfl
  unfold Disk.delete at deleted
  dsimp only at deleted
  split at deleted
  next =>
    split at deleted
    next => cases deleted
    next =>
      cases deleted
      exact ⟨erased d.files _,.inr rfl⟩
  next =>
    split at deleted
    next => cases deleted; exact ⟨.inr rfl,.inr rfl⟩
    next =>
      split at deleted
      next => cases deleted
      next =>
        cases deleted
        exact ⟨.inr rfl,erased d.dirs _⟩

theorem vacant_delete (vacant : d.Vacant place) (deleted : d.delete path = some d') : d'.Vacant place := by
  obtain ⟨files,dirs⟩ := delete_shrinks deleted place
  rw [vacant.1] at files
  rw [vacant.2] at dirs
  exact ⟨files.elim id id,dirs.elim id id⟩

/-- A place is not both a file and a directory, and nothing has an empty path or one
that ends in a slash. -/
def ProperAt (d : Disk) (place : Text) : Prop :=
  (d.files.lookup place = none ∨ d.dirs.lookup place = none) ∧
    (place = [] ∨ hasTrailingSlash place = true → d.Vacant place)

theorem properAt_delete (proper : d.ProperAt place) (deleted : d.delete path = some d') : d'.ProperAt place := by
  obtain ⟨files,dirs⟩ := delete_shrinks deleted place
  constructor
  · rcases proper.1 with absent | absent
    · left
      rw [absent] at files
      exact files.elim id id
    · right
      rw [absent] at dirs
      exact dirs.elim id id
  · exact fun odd => vacant_delete (proper.2 odd) deleted

theorem delete_vacates (proper : d.ProperAt (normalizeEntryPath path)) (deleted : d.delete path = some d') :
    d'.Vacant (normalizeEntryPath path) := by
  unfold Disk.delete at deleted
  dsimp only at deleted
  split at deleted
  next data found =>
    split at deleted
    next => cases deleted
    next =>
      cases deleted
      refine ⟨AList.lookup_erase _ _,?_⟩
      rcases proper.1 with absent | absent
      · rw [absent] at found
        cases found
      · exact absent
  next absent =>
    split at deleted
    next nothing =>
      cases deleted
      exact ⟨absent,Option.isNone_iff_eq_none.mp nothing⟩
    next =>
      split at deleted
      next => cases deleted
      next => cases deleted; exact ⟨absent,AList.lookup_erase _ _⟩

theorem properAt_of_entries
    (files : ∀ cell ∈ d.files.entries, d.dirs.lookup cell.1 = none ∧ cell.1 ≠ [] ∧ hasTrailingSlash cell.1 = false)
    (dirs : ∀ cell ∈ d.dirs.entries, cell.1 ≠ [] ∧ hasTrailingSlash cell.1 = false) (place : Text) :
    d.ProperAt place := by
  constructor
  · cases found : d.files.lookup place with
    | none => exact .inl rfl
    | some data => exact .inr (files ⟨place,data⟩ (AList.mem_lookup_iff.mp found)).1
  · intro odd
    have impossible (named : place ≠ [] ∧ hasTrailingSlash place = false) : False := by
      rcases odd with empty | trailing
      · exact named.1 empty
      · rw [named.2] at trailing
        cases trailing
    constructor
    · cases found : d.files.lookup place with
      | none => rfl
      | some data => exact (impossible (files ⟨place,data⟩ (AList.mem_lookup_iff.mp found)).2).elim
    · cases found : d.dirs.lookup place with
      | none => rfl
      | some u => exact (impossible (dirs ⟨place,u⟩ (AList.mem_lookup_iff.mp found))).elim

/-! ### Renames -/

/-- Nothing comes to a place that is not moved to when what is there, if it stays,
is nothing. -/
theorem lookup_moveTree_none {ν : Type} {cells : Store Text ν} (free : Store.anyWithin dst cells = false)
    (apart : Text.within dst place = false) (absent : Text.within src place = false → cells.lookup place = none) :
    (Store.moveTree src dst cells).lookup place = none := by
  cases found : (Store.moveTree src dst cells).lookup place with
  | none => rfl
  | some v =>
    obtain ⟨p,present,moved⟩ := (Store.lookup_moveTree free place v).mp found
    cases inside : Text.within src p with
    | true =>
      obtain ⟨rest,-,-,there⟩ := Text.relocate_within dst inside
      rw [moved,apart] at there
      cases there
    | false =>
      rw [Text.relocate_outside dst inside] at moved
      rw [moved] at present inside
      rw [absent inside] at present
      cases present

theorem vacant_rename (outside : Text.within place dst = false) (apart : Text.within dst place = false)
    (vacant : d.Vacant place) (renamed : d.rename src dst = some d') : d'.Vacant place := by
  rcases rename_cases renamed with ⟨data,found,-,-,rfl⟩ | ⟨-,-,-,free,files,dirs,rfl⟩
  · constructor
    · refine (AList.lookup_insert_ne (ne_of_outside outside)).trans ?_
      rw [Store.lookup_erase_eq,vacant.1,ite_self]
    · exact ancestors_vacant outside vacant.2
  · constructor
    · exact lookup_moveTree_none (anyWithin_of_below free files) apart fun _ => vacant.1
    · apply ancestors_vacant outside
      apply lookup_moveTree_none (lookup_erase_below d.dirs dirs) apart
      intro _
      rw [Store.lookup_erase_eq,vacant.2,ite_self]

theorem rename_vacates (proper : d.ProperAt src) (renamed : d.rename src dst = some d') : d'.Vacant src := by
  rcases rename_cases renamed with ⟨data,found,differ,accepted,rfl⟩ | ⟨-,present,outside,free,files,dirs,rfl⟩
  · have other : d.dirs.lookup src = none := by
      rcases proper.1 with absent | absent
      · rw [absent] at found
        cases found
      · exact absent
    have above : src ∉ ancestors dst := by
      intro above
      rw [(accepts_iff.mp accepted).2.2 src above] at found
      cases found
    constructor
    · exact (AList.lookup_insert_ne differ).trans (AList.lookup_erase _ _)
    · apply dirs_none
      rw [lookup_makeAncestors,decide_eq_false above,other]
      rfl
  · have apart : Text.within dst src = false := by
      rw [Bool.eq_false_iff,Text.within,Ne,Bool.or_eq_true,beq_iff_eq]
      rintro (same | under)
      · rw [same,Text.within_self] at outside
        cases outside
      · rw [List.any_eq_false] at dirs
        exact dirs src (AList.mem_keys.mp (AList.lookup_isSome.mp present)) under
    constructor
    · apply lookup_moveTree_none (anyWithin_of_below free files) apart
      intro away
      rw [Text.within_self] at away
      cases away
    · apply ancestors_vacant outside
      apply lookup_moveTree_none (lookup_erase_below d.dirs dirs) apart
      intro away
      rw [Text.within_self] at away
      cases away

/-- What is moved is named without a trailing slash. -/
theorem rename_named (proper : d.ProperAt src) (renamed : d.rename src dst = some d') :
    normalizeEntryPath src = src := by
  have plain : hasTrailingSlash src ≠ true := by
    intro trailing
    have vacant := proper.2 (.inr trailing)
    rcases rename_cases renamed with ⟨data,found,-⟩ | ⟨-,present,-⟩
    · rw [vacant.1] at found
      cases found
    · rw [vacant.2] at present
      cases present
  have last : src.getLast? ≠ some '/' := fun same => plain (beq_iff_eq.mpr same)
  rw [normalizeEntryPath,if_neg last,ite_self]

end Disk

/-- A step that says the same whatever happens. -/
theorem Answers.perform {α : Type} {f : EngineEnv → World → Except VfsError α × World} {w : World}
    {r : Except VfsError α} (steady : ∀ env, f env w = (r,w)) : Answers (Effect.perform f) w r := by
  intro cs calm
  unfold Effect.perform
  cases cs with
  | nil =>
    refine ⟨[],calm,?_⟩
    dsimp only
    rw [steady]
    cases r with
    | ok a => rfl
    | error err => rfl
  | cons c later =>
    obtain ⟨env,rfl,-⟩ := calm c List.mem_cons_self
    refine ⟨later,fun c member => calm c (List.mem_cons_of_mem _ member),?_⟩
    dsimp only
    rw [steady]
    cases r with
    | ok a => rfl
    | error err => rfl

/-! ### Calls of a pool -/

/-- The calls a pool takes: those that read, those that change, and what the write
cache does on its own account. -/
inductive PoolCall
  | read (path : Text)
  | readRange (path : Text) (start stop : Nat)
  | exists_ (path : Text)
  | stat (path : Text)
  | list (path : Text)
  | listRecursive (path : Text)
  | change (op : PoolOp)
  | createDir (path : Text)
  | enqueue (target : CacheTarget) (data : Bytes)
  | flush (path : Text)
  | expire (key : Text)

def dirPathOf (path : Text) : Text := if hasTrailingSlash path then path else path ++ ['/']

/-- Something is put at a place: at or below it, or a move to somewhere above it. A
flush puts only what was enqueued before. -/
def PoolCall.WritesTo (place : Text) : PoolCall → Prop
  | change (.write path _) => Text.within place path = true
  | change (.writeStream _ path _) => Text.within place path = true ∨ Text.within place (tempPathOf path) = true
  | change (.moveFile _ dst) => Text.within place dst = true ∨ Text.within dst place = true
  | change (.copyFile _ dst) => Text.within place dst = true
  | createDir path => Text.within place (normalizeEntryPath (dirPathOf path)) = true
  | enqueue target _ => Text.within place target.path = true
  | _ => False

/-- `delete` and `move_file`, which take a path away. -/
inductive Deletion
  | delete (path : Text)
  | moveFile (src dst : Text)

def Deletion.path : Deletion → Text
  | delete path => path
  | moveFile src _ => src

namespace Engine
variable (e : Engine)

def runDeletion : Deletion → Vfs VfsFileInfo
  | .delete path => e.poolDelete path
  | .moveFile src dst => e.poolMoveFile src dst

def runChange : PoolOp → Vfs Unit
  | .write path data => e.poolWrite path data >>= fun _ => pure ()
  | .writeStream kind path stream => e.poolWriteChunks kind path stream >>= fun _ => pure ()
  | .moveFile src dst => e.poolMoveFile src dst >>= fun _ => pure ()
  | .copyFile src dst => e.poolCopyFile src dst >>= fun _ => pure ()
  | .delete path => e.poolDelete path >>= fun _ => pure ()
  | .removeTree path => e.removeTree path

def runCall : PoolCall → Vfs Unit
  | .read path => e.poolRead path >>= fun _ => pure ()
  | .readRange path start stop => e.poolReadRange path start stop >>= fun _ => pure ()
  | .exists_ path => e.poolExists path >>= fun _ => pure ()
  | .stat path => e.poolStat path >>= fun _ => pure ()
  | .list path => e.orBackup (query fun w => w.primary.listChildren (normalizeEntryPath path))
      (fun backup => query fun _ => backup.listChildren (normalizeEntryPath path)) >>= fun _ => pure ()
  | .listRecursive path => e.orBackup (query fun w => w.primary.listRecursive (normalizeEntryPath path))
      (fun backup => query fun _ => backup.listRecursive (normalizeEntryPath path)) >>= fun _ => pure ()
  | .change op => e.runChange op
  | .createDir path => e.poolCreateDir path >>= fun _ => pure ()
  | .enqueue target data => e.enqueueWriteCache target data >>= fun _ => pure ()
  | .flush path => e.flushWriteCache path
  | .expire key => e.invalidateReadCache key

/-- The state some calls leave, each with how its own calls go. -/
def afterCalls : List (PoolCall × List (Choice EngineEnv)) → World → World
  | [], w => w
  | call::calls, w => afterCalls calls (e.runCall call.1 w call.2).state

/-- The backup has something at a path. -/
def kept (path : Text) : Bool := e.backup.any fun backup => backup.exists_ path

/-- What the pool says of a path that it has given up: what the backup has of it. -/
structure AnswersGone (path : Text) (w : World) : Prop where
  exists_ : Answers (e.poolExists path) w (.ok (e.kept path))
  stat : ∃ r, Answers (e.poolStat path) w r ∧ Tells (e.kept path) r
  read : e.kept path = false → ∃ err, Answers (e.poolRead path) w (.error err) ∧ err.isNotFound = true

/-! ### What stays gone -/

/-- Nothing is at a path of the pool but what the backup has: nothing on the primary,
nothing cached, and nothing awaited there. -/
structure Gone (path : Text) (w : World) : Prop where
  vacant : w.primary.Vacant (normalizeEntryPath path)
  unawaited : ∀ q, Text.within (normalizeEntryPath path) q = true → w.shared.entries.lookup q = none
  filed : RecordsFiled w.shared
  uncached : e.cached w path = none

variable {e} {path other : Text} {w w' : World}

/-- It stays so while the map and the records stay. -/
theorem Gone.moved (gone : e.Gone path w) (vacant : w'.primary.Vacant (normalizeEntryPath path))
    (entries : w'.shared.entries = w.shared.entries) (records : w'.shared.records = w.shared.records)
    (next : w'.shared.nextRecord = w.shared.nextRecord) (uncached : e.cached w' path = none) : e.Gone path w' where
  vacant := vacant
  unawaited q inside := by
    rw [entries]
    exact gone.unawaited q inside
  filed := RecordChange.filed_records gone.filed (.still records entries next)
  uncached := uncached

theorem within_normalized (path : Text) : Text.within (normalizeEntryPath path) path = true := by
  rw [normalizeEntryPath]
  split
  next => exact Text.within_self path
  next =>
    split
    next last =>
      obtain ⟨init,split⟩ : ∃ init, path = init ++ ['/'] := by
        rcases List.eq_nil_or_concat path with rfl | ⟨init,c,rfl⟩
        · cases last
        · rw [List.concat_eq_append] at last ⊢
          rw [List.getLast?_concat,Option.some.injEq] at last
          exact ⟨init,by rw [last]⟩
      rw [split,List.dropLast_concat]
      exact Text.within_append
    next => exact Text.within_self path

theorem Gone.idle (gone : e.Gone path w) : e.pendingRecord path w = none := by
  rw [pendingRecord,gone.unawaited path (within_normalized path)]
  cases e.writeCache with
  | none => rfl
  | some m => rfl

theorem Gone.present (gone : e.Gone path w) : e.poolPresent w path = e.kept path := by
  rw [poolPresent,gone.idle,Disk.exists_,gone.vacant.stat]
  rfl

theorem Gone.read_answers (gone : e.Gone path w) (unkept : e.kept path = false) :
    ∃ err, Answers (e.poolRead path) w (.error err) ∧ err.isNotFound = true := by
  have pending : Answers (e.poolPendingRead path) w (.ok none) := by
    apply Answers.perform
    intro env
    rw [gone.idle]
    rfl
  have missed : Answers (e.readCacheGet path) w (.ok none) := by
    apply Answers.perform
    intro env
    have nothing := gone.uncached
    unfold cached at nothing
    split
    next both =>
      rw [Bool.and_eq_true] at both
      rw [if_pos both.1] at nothing
      rw [nothing]
    next => rfl
  have asked : Answers (primaryRead path) w (.error (.notFound path)) :=
    Answers.call fun _ => by rw [gone.vacant.read]
  refine ⟨.notFound path,?_,rfl⟩
  rw [poolRead]
  apply pending.bind
  apply missed.bind
  apply asked.attempt.bind
  cases replica : e.backup with
  | none => exact Answers.fail _ w
  | some backup =>
    have absent : backup.read path = none := by
      cases found : backup.read path with
      | none => rfl
      | some data =>
        rw [kept,replica,Option.any_some,Disk.exists_,stat_of_read found] at unkept
        cases unkept
    apply Answers.bind_error
    exact Answers.call fun _ => by rw [absent]

/-- What the pool says where nothing but the backup has the path. -/
theorem Gone.answers (gone : e.Gone path w) : e.AnswersGone path w where
  exists_ := by
    rw [← gone.present]
    exact e.poolExists_answers w path
  stat := by
    rw [← gone.present]
    exact e.poolStat_answers w path
  read := gone.read_answers

/-! ### Calls that write elsewhere -/

theorem gone_operate {kind : ErrorKind} {f : Disk → Option Disk}
    (vacant : ∀ d d' : Disk, d.Vacant (normalizeEntryPath path) → f d = some d' →
      d'.Vacant (normalizeEntryPath path)) :
    Keeps (e.Gone path) (operate kind fun w => (f w.primary).map w.setPrimary) := by
  apply meets_operate
  · intro w w' gone made
    obtain ⟨d',changed,rfl⟩ := Option.map_eq_some_iff.mp made
    exact gone.moved (vacant _ _ gone.vacant changed) rfl rfl rfl gone.uncached
  · exact fun _ _ gone => gone
  · exact fun _ gone => gone

theorem gone_invalidate (key : Text) : Keeps (e.Gone path) (e.invalidateReadCache key) := by
  apply Keeps.modify
  intro w gone
  refine gone.moved gone.vacant rfl rfl rfl ?_
  refine (e.cached_dropCached w key path).trans ?_
  rw [gone.uncached,ite_self]

theorem gone_primaryDelete (target : Text) : Keeps (e.Gone path) (primaryDelete target) :=
  gone_operate fun _ _ => Disk.vacant_delete

theorem gone_removeEntries (entries : List (Text × Metadata)) : Keeps (e.Gone path) (e.removeEntries entries) := by
  induction entries with
  | nil => exact Keeps.pure ()
  | cons entry rest ih =>
    apply (gone_invalidate _).bind
    intro _
    apply (gone_primaryDelete _).bind
    exact fun _ => ih

theorem gone_removeTree (target : Text) : Keeps (e.Gone path) (e.removeTree target) := by
  apply ((e.orBackup_readOnly (query_readOnly _) fun _ => query_readOnly _).keeps _).bind
  intro entries
  apply (gone_removeEntries _).bind
  intro _
  apply (gone_invalidate _).bind
  exact fun _ => gone_primaryDelete _

theorem gone_delete (target : Text) : Keeps (e.Gone path) (e.poolDelete target) := by
  apply ((e.poolStat_readOnly target).keeps _).bind
  intro info
  apply (gone_invalidate target).bind
  intro _
  split
  · exact (gone_removeTree target).bind fun _ => Keeps.pure info
  · exact (gone_primaryDelete target).bind fun _ => Keeps.pure info

theorem gone_write (data : Bytes) (outside : Text.within (normalizeEntryPath path) other = false) :
    Keeps (e.Gone path) (e.poolWrite other data) := by
  apply (gone_invalidate other).bind
  intro _
  apply (gone_operate fun _ _ vacant written => Disk.vacant_write outside vacant written).bind
  exact fun _ => (e.poolStat_readOnly other).keeps _

theorem gone_copy (src : Text) (outside : Text.within (normalizeEntryPath path) other = false) :
    Keeps (e.Gone path) (e.poolCopyFile src other) := by
  apply (gone_invalidate src).bind
  intro _
  apply (gone_invalidate other).bind
  intro _
  apply (gone_operate fun _ _ vacant copied => Disk.vacant_copy outside vacant copied).bind
  exact fun _ => (e.poolStat_readOnly other).keeps _

theorem gone_move (src : Text) (outside : Text.within (normalizeEntryPath path) other = false)
    (apart : Text.within other (normalizeEntryPath path) = false) :
    Keeps (e.Gone path) (e.poolMoveFile src other) := by
  apply (gone_invalidate src).bind
  intro _
  apply (gone_invalidate other).bind
  intro _
  apply (gone_operate fun _ _ vacant renamed => Disk.vacant_rename outside apart vacant renamed).bind
  exact fun _ => (e.poolStat_readOnly other).keeps _

theorem gone_createDir (outside : Text.within (normalizeEntryPath path) (normalizeEntryPath (dirPathOf other)) = false) :
    Keeps (e.Gone path) (e.poolCreateDir other) := by
  apply (gone_invalidate _).bind
  intro _
  apply (gone_operate fun _ _ vacant made => Disk.vacant_createDir outside vacant made).bind
  exact fun _ => (e.poolStat_readOnly _).keeps _

/-! ### Streamed writes -/

section streams
variable (kind : WriterKind) (outside : Text.within (normalizeEntryPath path) other = false)
  (outside' : Text.within (normalizeEntryPath path) (tempPathOf other) = false)
include outside'

theorem gone_openWriter : Meets (e.Gone path) (openWriter kind (tempPathOf other))
    (fun _ w => e.Gone path w ∧ NoTempDir other w) (fun _ => e.Gone path) (e.Gone path) := by
  apply meets_operate
  · intro w w' gone made
    split at made
    next accepted =>
      cases kind with
      | inPlace =>
        obtain ⟨d',written,rfl⟩ := Option.map_eq_some_iff.mp made
        have vacant := Disk.vacant_write outside' gone.vacant written
        exact ⟨gone.moved vacant rfl rfl rfl gone.uncached,noTempDir_write written⟩
      | onClose =>
        cases made
        exact ⟨gone,(Disk.accepts_iff.mp accepted).2.1⟩
    next => cases made
  · exact fun _ _ gone => gone
  · exact fun _ gone => gone

theorem gone_writeChunks (stream : ByteStream) (taken : Bytes) :
    Meets (fun w => e.Gone path w ∧ NoTempDir other w) (writeChunks kind (tempPathOf other) taken stream)
      (fun _ w => e.Gone path w ∧ NoTempDir other w) (fun _ => e.Gone path) (e.Gone path) := by
  induction stream generalizing taken with
  | nil => exact Meets.pure fun _ both => both
  | cons item rest ih =>
    cases item with
    | error err => exact Meets.fail fun _ both => both.1
    | ok chunk =>
      apply Meets.bind (Q := fun _ w => e.Gone path w ∧ NoTempDir other w)
      · apply meets_update
        · rintro w ⟨gone,free⟩
          cases kind with
          | onClose => exact ⟨gone,free⟩
          | inPlace =>
            refine ⟨gone.moved ⟨?_,gone.vacant.2⟩ rfl rfl rfl gone.uncached,free⟩
            exact (AList.lookup_insert_ne (Disk.ne_of_outside outside')).trans gone.vacant.1
        · exact fun _ _ both => both.1
        · exact fun _ both => both.1
      · exact fun _ => ih _

theorem gone_closeWriter (taken : Bytes) :
    Meets (fun w => e.Gone path w ∧ NoTempDir other w) (closeWriter kind (tempPathOf other) taken)
      (fun _ w => e.Gone path w ∧ NoTempDir other w) (fun _ => e.Gone path) (e.Gone path) := by
  apply meets_operate
  · rintro w w' ⟨gone,free⟩ made
    cases kind with
    | inPlace =>
      cases made
      exact ⟨gone,free⟩
    | onClose =>
      obtain ⟨d',written,rfl⟩ := Option.map_eq_some_iff.mp made
      have vacant := Disk.vacant_write outside' gone.vacant written
      exact ⟨gone.moved vacant rfl rfl rfl gone.uncached,noTempDir_write written⟩
  · exact fun _ _ both => both.1
  · exact fun _ both => both.1

include outside

/-- The temporary name that is renamed is that of a file. -/
theorem gone_writeStream (stream : ByteStream) : Keeps (e.Gone path) (e.poolWriteChunks kind other stream) := by
  have renamed : Meets (fun w => e.Gone path w ∧ NoTempDir other w)
      (operate .other fun w => (w.primary.rename (tempPathOf other) other).map w.setPrimary)
      (fun _ => e.Gone path) (fun _ => e.Gone path) (e.Gone path) := by
    apply meets_operate
    · rintro w w' ⟨gone,free⟩ made
      obtain ⟨d',moved,rfl⟩ := Option.map_eq_some_iff.mp made
      refine gone.moved ?_ rfl rfl rfl gone.uncached
      rcases Disk.rename_cases moved with ⟨data,-,-,-,rfl⟩ | ⟨-,dir,-⟩
      · constructor
        · refine (AList.lookup_insert_ne (Disk.ne_of_outside outside)).trans ?_
          rw [Store.lookup_erase_eq,gone.vacant.1,ite_self]
        · exact Disk.ancestors_vacant outside gone.vacant.2
      · rw [free] at dir
        cases dir
    · exact fun _ _ both => both.1
    · exact fun _ both => both.1
  apply (gone_invalidate other).bind
  intro _
  apply (gone_openWriter kind outside').bind
  intro _
  apply (gone_writeChunks kind outside' stream []).bind
  intro taken
  apply (gone_closeWriter kind outside' taken).bind
  intro _
  apply renamed.bind
  exact fun _ => (e.poolStat_readOnly other).keeps _

end streams

/-! ### Reads -/

/-- What is read comes from the primary, which has nothing at the path. -/
theorem gone_read (key : Text) : Keeps (e.Gone path) (e.poolRead key) := by
  apply ((e.poolPendingRead_readOnly key).keeps _).bind
  intro hit
  split
  · exact Keeps.pure _
  · apply ((e.readCacheGet_readOnly key).keeps _).bind
    intro found
    split
    · exact Keeps.pure _
    · apply Meets.bind (Q := fun result w => e.Gone path w ∧ ∀ data, result = .ok data → path ≠ key)
      · apply Meets.attempt
        apply meets_call
        · intro env w data w' gone _ result
          split at result
          next content found =>
            cases result
            refine ⟨gone,?_⟩
            rintro _ _ rfl
            rw [gone.vacant.read] at found
            cases found
          next => cases result
        · intro env w err w' gone result
          split at result
          next => cases result
          next =>
            cases result
            exact ⟨gone,fun _ impossible => by cases impossible⟩
        · exact fun err w gone => ⟨gone,fun _ impossible => by cases impossible⟩
        · exact fun w gone => gone
      · intro result
        split
        next data =>
          apply Meets.bind (Q := fun _ w => e.Gone path w ∧ path ≠ key)
          · apply Meets.consequence ((primaryStat_readOnly key).keeps fun w => e.Gone path w ∧ path ≠ key)
            · exact fun w both => ⟨both.1,both.2 data rfl⟩
            · exact fun _ _ both => both
            · exact fun _ _ both => both.1
            · exact fun _ both => both.1
          · intro info
            apply Meets.bind (Q := fun _ => e.Gone path)
            · apply Meets.perform
              · rintro env w _ w' ⟨gone,differ⟩ result
                cases result
                refine gone.moved gone.vacant rfl rfl rfl ?_
                have nothing := gone.uncached
                unfold cached at nothing ⊢
                split
                next on =>
                  rw [if_pos on] at nothing
                  dsimp only
                  split
                  · exact nothing
                  · split
                    · split
                      · exact (AList.lookup_insert_ne differ).trans nothing
                      · rw [Store.lookup_erase_eq,nothing,ite_self]
                    · exact nothing
                next => rfl
              · rintro env w err w' both result
                cases result
              · exact fun _ both => both.1
            · exact fun _ => Keeps.pure _
        next err =>
          split
          · exact Meets.fail fun _ both => both.1
          · apply Meets.consequence (P := e.Gone path) (Q := fun _ => e.Gone path) (E := fun _ => e.Gone path)
              (C := e.Gone path)
            · apply ((backupRead_readOnly _ key).keeps _).bind
              intro data
              apply ((backupStat_readOnly _ key).keeps _).bind
              intro info
              exact Keeps.pure _
            · exact fun _ both => both.1
            · exact fun _ _ gone => gone
            · exact fun _ _ gone => gone
            · exact fun _ gone => gone

/-! ### The write cache -/

/-- The calls of a task that keeps its target. -/
theorem runSteps_meets {τ : Type} {step : Env → World → τ → Option (World × τ)} {returned : τ → Bool}
    {I : World → Prop} {J : τ → Prop}
    (kept : ∀ env w task w' task', step env w task = some (w',task') → J task → I w → I w' ∧ J task') :
    ∀ fuel task, J task → Keeps I (runSteps step returned fuel task)
  | 0, task, _ => Keeps.pure task
  | fuel + 1, task, own => by
    unfold runSteps
    split
    · exact Keeps.pure task
    · apply Meets.bind (Q := fun task' w => I w ∧ J task')
      · apply Meets.perform
        · intro env w task' w' holds result
          split at result
          next w'' task'' stepped =>
            cases result
            exact kept env.toEnv w task _ _ stepped own holds
          next =>
            cases result
            exact ⟨holds,own⟩
        · intro env w err w' holds result
          split at result
          next => cases result
          next => cases result
        · exact fun _ holds => holds
      · intro task' w cs both
        exact runSteps_meets kept fuel task' both.2 w cs both.1

theorem gone_enqueueStep {m : WriteCacheManager} {env : Env} {task task' : EnqueueTask}
    (outside : Text.within (normalizeEntryPath path) task.target.path = false)
    (stepped : enqueueWorldStep m env w task = some (w',task')) (gone : e.Gone path w) :
    e.Gone path w' ∧ task'.target = task.target := by
  obtain ⟨⟨shared,after⟩,made,same⟩ := Option.map_eq_some_iff.mp stepped
  obtain ⟨rfl,rfl⟩ := Prod.mk.inj same
  refine ⟨?_,enqueueStep_target made⟩
  have stores := enqueueStep_stores made
  have primary : shared.primary = w.shared.primary := by
    rcases stores with same | ⟨same,-⟩
    · rw [same]
      rfl
    · exact same
  constructor
  · rw [Disk.Vacant,World.primary,primary]
    exact gone.vacant
  · intro q inside
    cases found : shared.entries.lookup q with
    | none => rfl
    | some record =>
      have there : (shared.entries.lookup q).isSome = true := by rw [found]; rfl
      rcases (enqueueStep_effect made).entries q there with before | filed
      · rw [gone.unawaited q inside] at before
        cases before
      · have target : task.target.path = q := by
          obtain ⟨target,data,phase,modifiedAt,deadlineAt,began,effectAt,endedAt⟩ := task
          cases phase with
          | insert stored => exact Option.some.inj filed
          | _ => cases filed
        rw [target,inside] at outside
        cases outside
  · exact (enqueueStep_change made).filed_records gone.filed
  · have nothing := gone.uncached
    unfold cached at nothing ⊢
    split
    next on =>
      rw [if_pos on] at nothing
      rcases stores with same | ⟨-,same⟩
      · rw [same,Shared.forgetRead]
        dsimp only
        split
        · rw [Store.lookup_erase_eq,nothing,ite_self]
        · exact nothing
      · rw [same]
        exact nothing
    next => rfl

theorem gone_enqueue {target : CacheTarget} (data : Bytes)
    (outside : Text.within (normalizeEntryPath path) target.path = false) :
    Keeps (e.Gone path) (e.enqueueWriteCache target data) := by
  unfold enqueueWriteCache
  split
  · exact Keeps.pure _
  next m _ =>
    have steps : Keeps (e.Gone path) (runSteps (enqueueWorldStep m) enqueueReturned taskFuel
        (.begin target data 0)) := by
      apply runSteps_meets (J := fun task => task.target = target)
      · intro env w task w' task' stepped own gone
        rw [← own] at outside
        obtain ⟨after,same⟩ := gone_enqueueStep outside stepped gone
        exact ⟨after,same.trans own⟩
      · rfl
    apply steps.bind
    intro task
    split
    · exact Keeps.pure _
    · exact Keeps.pure _
    · exact Keeps.fail _

theorem gone_flushStep {m : WriteCacheManager} {env : Env} {task task' : FlushTask}
    (outside : Text.within (normalizeEntryPath path) task.target.path = false)
    (stepped : flushWorldStep m env w task = some (w',task')) (gone : e.Gone path w) :
    e.Gone path w' ∧ task'.target = task.target := by
  have effect := flushWorldStep_cases stepped
  obtain ⟨⟨shared,phase⟩,made,same⟩ := Option.map_eq_some_iff.mp stepped
  obtain ⟨rfl,rfl⟩ := Prod.mk.inj same
  refine ⟨?_,rfl⟩
  constructor
  · rcases effect.2 with same | ⟨-,data,same⟩
    · rw [same]
      exact gone.vacant
    · rw [same]
      constructor
      · exact (AList.lookup_insert_ne (Disk.ne_of_outside outside)).trans gone.vacant.1
      · exact Disk.ancestors_vacant outside gone.vacant.2
  · intro q inside
    have before := gone.unawaited q inside
    rcases flushStep_entries made with same | same
    · exact (congrArg (AList.lookup q) same).trans before
    · refine (congrArg (AList.lookup q) same).trans ?_
      rw [Store.lookup_erase_eq,before,ite_self]
  · exact (flushStep_change made).filed_records gone.filed
  · have differ : path ≠ task.target.path := by
      intro same
      rw [← same,within_normalized] at outside
      cases outside
    have nothing := gone.uncached
    unfold cached at nothing ⊢
    split
    next on =>
      rw [if_pos on] at nothing
      rcases flushStep_stores made with ⟨_,-,same,-⟩ | ⟨data,delta,-,same⟩ | ⟨-,same,-⟩
      · exact (congrArg (AList.lookup path) same).trans nothing
      · dsimp only at same ⊢
        rw [same,Shared.putRead]
        dsimp only
        split
        · exact nothing
        · split
          · split
            · exact (AList.lookup_insert_ne differ).trans nothing
            · rw [Store.lookup_erase_eq,nothing,ite_self]
          · exact nothing
      · exact (congrArg (AList.lookup path) same).trans nothing
    next => rfl

/-- What is awaited elsewhere is flushed there. -/
theorem gone_flush (target : Text) : Keeps (e.Gone path) (e.flushWriteCache target) := by
  unfold flushWriteCache
  split
  · exact Keeps.pure ()
  next m _ =>
    apply Meets.bind (Q := fun w₀ w => w₀ = w ∧ e.Gone path w)
    · exact Meets.get fun w gone => ⟨rfl,gone⟩
    intro w₀
    split
    · exact Meets.pure fun w both => both.2
    next record entry =>
      unfold flushEntry
      apply Meets.bind (Q := fun w₁ w => w₁ = w ∧ w₀ = w ∧ e.Gone path w)
      · exact Meets.get fun w both => ⟨rfl,both⟩
      intro w₁
      split
      · exact Meets.pure fun w both => both.2.2
      next found present =>
        rintro w cs ⟨rfl,rfl,gone⟩
        have outside : Text.within (normalizeEntryPath path) found.target.path = false := by
          obtain ⟨filed,held,place⟩ := gone.filed.mapped target record entry
          rw [held] at present
          cases present
          rw [place,Bool.eq_false_iff]
          intro inside
          rw [gone.unawaited target inside] at entry
          cases entry
        have steps : Keeps (e.Gone path) (runSteps (flushWorldStep m) flushReturned taskFuel
            ⟨record,found.target,true,.snapshot⟩) := by
          apply runSteps_meets (J := fun task => task.target = found.target)
          · intro env w task w' task' stepped own gone
            rw [← own] at outside
            obtain ⟨after,same⟩ := gone_flushStep outside stepped gone
            exact ⟨after,same.trans own⟩
          · rfl
        refine (steps.bind ?_) _ cs gone
        intro task
        split
        · exact Keeps.pure ()
        · exact Keeps.fail _

/-! ### Runs -/

theorem gone_call {call : PoolCall} (unwritten : ¬call.WritesTo (normalizeEntryPath path)) :
    Keeps (e.Gone path) (e.runCall call) := by
  have outside {target : Text} (differs : ¬Text.within (normalizeEntryPath path) target = true) :
      Text.within (normalizeEntryPath path) target = false := Bool.eq_false_iff.mpr differs
  have ended {α : Type} {m : Vfs α} (kept : Keeps (e.Gone path) m) :
      Keeps (e.Gone path) (m >>= fun _ => pure ()) := kept.bind fun _ => Keeps.pure ()
  cases call with
  | read key => exact ended (gone_read key)
  | readRange key start stop => exact ended ((poolReadRange_readOnly e key start stop).keeps _)
  | exists_ key => exact ended ((e.poolExists_readOnly key).keeps _)
  | stat key => exact ended ((e.poolStat_readOnly key).keeps _)
  | list key => exact ended ((e.orBackup_readOnly (query_readOnly _) fun _ => query_readOnly _).keeps _)
  | listRecursive key => exact ended ((e.orBackup_readOnly (query_readOnly _) fun _ => query_readOnly _).keeps _)
  | createDir key => exact ended (gone_createDir (outside unwritten))
  | enqueue target data => exact ended (gone_enqueue data (outside unwritten))
  | flush key => exact gone_flush key
  | expire key => exact gone_invalidate key
  | change op =>
    cases op with
    | write key data => exact ended (gone_write data (outside unwritten))
    | writeStream kind key stream =>
      obtain ⟨here,temporary⟩ := not_or.mp unwritten
      exact ended (gone_writeStream kind (outside here) (outside temporary) stream)
    | moveFile src dst =>
      obtain ⟨here,above⟩ := not_or.mp unwritten
      exact ended (gone_move src (outside here) (Bool.eq_false_iff.mpr above))
    | copyFile src dst => exact ended (gone_copy src (outside unwritten))
    | delete key => exact ended (gone_delete key)
    | removeTree key => exact gone_removeTree key

theorem gone_calls (calls : List (PoolCall × List (Choice EngineEnv)))
    (unwritten : ∀ call ∈ calls, ¬call.1.WritesTo (normalizeEntryPath path)) (gone : e.Gone path w) :
    e.Gone path (e.afterCalls calls w) := by
  induction calls generalizing w with
  | nil => exact gone
  | cons call rest ih =>
    have after := (gone_call (unwritten call List.mem_cons_self)).state call.2 gone
    exact ih (fun other later => unwritten other (List.mem_cons_of_mem _ later)) after

/-! ### The deletion itself -/

/-- A path that is being taken away: nothing is awaited there, and nothing cached. -/
structure Leaving (e : Engine) (path : Text) (w : World) : Prop where
  proper : w.primary.ProperAt (normalizeEntryPath path)
  unawaited : ∀ q, Text.within (normalizeEntryPath path) q = true → w.shared.entries.lookup q = none
  filed : RecordsFiled w.shared
  uncached : e.cached w path = none

theorem Leaving.vacated (leaving : e.Leaving path w) {d : Disk} (vacant : d.Vacant (normalizeEntryPath path)) :
    e.Gone path (w.setPrimary d) where
  vacant := vacant
  unawaited := leaving.unawaited
  filed := RecordChange.filed_records leaving.filed (.still rfl rfl rfl)
  uncached := leaving.uncached

theorem leaving_delete (target : Text) : Keeps (Leaving e path) (primaryDelete target) := by
  apply meets_operate
  · intro w w' leaving made
    obtain ⟨d',deleted,rfl⟩ := Option.map_eq_some_iff.mp made
    have proper := Disk.properAt_delete leaving.proper deleted
    exact ⟨proper,leaving.unawaited,RecordChange.filed_records leaving.filed (.still rfl rfl rfl),leaving.uncached⟩
  · exact fun _ _ leaving => leaving
  · exact fun _ leaving => leaving

theorem leaving_invalidate (key : Text) : Keeps (Leaving e path) (e.invalidateReadCache key) := by
  apply Keeps.modify
  intro w leaving
  refine ⟨leaving.proper,leaving.unawaited,RecordChange.filed_records leaving.filed (.still rfl rfl rfl),?_⟩
  refine (e.cached_dropCached w key path).trans ?_
  rw [leaving.uncached,ite_self]

theorem leaving_removeEntries (entries : List (Text × Metadata)) :
    Keeps (Leaving e path) (e.removeEntries entries) := by
  induction entries with
  | nil => exact Keeps.pure ()
  | cons entry rest ih =>
    apply (leaving_invalidate _).bind
    intro _
    apply (leaving_delete _).bind
    exact fun _ => ih

/-- A deletion of the path, by any spelling of it as a directory or a file. -/
theorem delete_gone {target : Text} (vacates : ∀ d d' : Disk, d.ProperAt (normalizeEntryPath path) →
    d.delete target = some d' → d'.Vacant (normalizeEntryPath path)) :
    Ensures (Leaving e path) (primaryDelete target) fun _ => e.Gone path := by
  apply meets_operate
  · intro w w' leaving made
    obtain ⟨d',deleted,rfl⟩ := Option.map_eq_some_iff.mp made
    exact leaving.vacated (vacates _ _ leaving.proper deleted)
  · exact fun _ _ _ => trivial
  · exact fun _ _ => trivial

theorem keeps_ensures {α : Type} {I : World → Prop} {m : Vfs α} (kept : Keeps I m) : Ensures I m fun _ => I :=
  Meets.weaken kept (fun _ _ _ => trivial) fun _ _ => trivial

theorem treeRemoved_gone : Ensures (Leaving e path) (e.removeTree path) fun _ => e.Gone path := by
  have listed := (e.orBackup_readOnly (query_readOnly fun w => w.primary.listRecursive (normalizeEntryPath path))
    fun backup => query_readOnly fun _ => backup.listRecursive (normalizeEntryPath path)).keeps (Leaving e path)
  apply (keeps_ensures listed).bind
  intro entries
  apply (keeps_ensures (leaving_removeEntries _)).bind
  intro _
  apply (keeps_ensures (leaving_invalidate _)).bind
  intro _
  apply delete_gone
  intro d d' proper deleted
  by_cases odd : normalizeEntryPath path = [] ∨ hasTrailingSlash (normalizeEntryPath path) = true
  · exact Disk.vacant_delete (proper.2 odd) deleted
  · obtain ⟨given,plain⟩ := not_or.mp odd
    have last : (normalizeEntryPath path).getLast? ≠ some '/' := fun same => plain (beq_iff_eq.mpr same)
    have top : normalizeEntryPath path ≠ ['/'] := fun same => last (by rw [same]; rfl)
    have longer : normalizeEntryPath path ++ ['/'] ≠ ['/'] := by
      intro same
      have lengths := congrArg List.length same
      have filled := List.length_pos_iff.mpr given
      simp only [List.length_append,List.length_cons,List.length_nil] at lengths
      omega
    have spelled : normalizeEntryPath (normalizeEntryPath path ++ ['/']) = normalizeEntryPath path := by
      rw [normalizeEntryPath,if_neg longer,List.getLast?_concat,if_pos rfl,List.dropLast_concat]
    rw [if_neg top,Paths.trimEnd_plain last] at deleted
    have vacant := Disk.delete_vacates (by rw [spelled]; exact proper) deleted
    rw [spelled] at vacant
    exact vacant

/-- What a path is before it is taken away: at most one thing, and not awaited. -/
structure Deletable (path : Text) (w : World) : Prop where
  proper : ∀ place, w.primary.ProperAt place
  filed : RecordsFiled w.shared
  unawaited : ∀ q, Text.within (normalizeEntryPath path) q = true → w.shared.entries.lookup q = none

theorem invalidate_leaving : Ensures (Deletable path) (e.invalidateReadCache path) fun _ w =>
    Leaving e path w ∧ w.primary.ProperAt path := by
  apply Meets.modify
  intro w deletable
  refine ⟨⟨deletable.proper _,deletable.unawaited,RecordChange.filed_records deletable.filed (.still rfl rfl rfl),?_⟩,
    deletable.proper path⟩
  refine (e.cached_dropCached w path path).trans ?_
  rw [if_pos rfl]

theorem delete_ensures : Ensures (Deletable path) (e.poolDelete path) fun _ => e.Gone path := by
  apply (keeps_ensures ((e.poolStat_readOnly path).keeps _)).bind
  intro info
  apply invalidate_leaving.bind
  intro _
  apply Meets.consequence (P := Leaving e path) (Q := fun _ => e.Gone path) (E := fun _ _ => True)
    (C := fun _ => True)
  · split
    · apply treeRemoved_gone.bind
      exact fun _ => Meets.pure fun _ gone => gone
    · have vacates : Ensures (Leaving e path) (primaryDelete path) fun _ => e.Gone path :=
        delete_gone fun _ _ => Disk.delete_vacates
      apply vacates.bind
      exact fun _ => Meets.pure fun _ gone => gone
  · exact fun _ both => both.1
  · exact fun _ _ gone => gone
  · exact fun _ _ same => same
  · exact fun _ same => same

theorem move_ensures (dst : Text) : Ensures (Deletable path) (e.poolMoveFile path dst) fun _ => e.Gone path := by
  apply invalidate_leaving.bind
  intro _
  apply Meets.bind (Q := fun _ w => Leaving e path w ∧ w.primary.ProperAt path)
  · apply Meets.modify
    rintro w ⟨leaving,proper⟩
    refine ⟨⟨leaving.proper,leaving.unawaited,RecordChange.filed_records leaving.filed (.still rfl rfl rfl),?_⟩,proper⟩
    refine (e.cached_dropCached w dst path).trans ?_
    rw [leaving.uncached,ite_self]
  intro _
  apply Meets.bind (Q := fun _ => e.Gone path)
  · apply meets_operate
    · rintro w w' ⟨leaving,proper⟩ made
      obtain ⟨d',renamed,rfl⟩ := Option.map_eq_some_iff.mp made
      apply leaving.vacated
      rw [Disk.rename_named proper renamed]
      exact Disk.rename_vacates proper renamed
    · exact fun _ _ _ => trivial
    · exact fun _ _ => trivial
  · exact fun _ => keeps_ensures ((e.poolStat_readOnly dst).keeps _)

theorem deletion_ensures (deletion : Deletion) :
    Ensures (Deletable deletion.path) (e.runDeletion deletion) fun _ => e.Gone deletion.path := by
  cases deletion with
  | delete path => exact delete_ensures
  | moveFile src dst => exact move_ensures dst

/-- After a deletion or a move has returned, and until something is put at the path
again, the pool says of it what the backup has: where the backup has nothing, that
nothing is there. -/
theorem deletion_answers (e : Engine) (deletion : Deletion) {w w' : World} {cs rest : List (Choice EngineEnv)}
    {info : VfsFileInfo} (deletable : Deletable deletion.path w)
    (done : e.runDeletion deletion w cs = .done info w' rest)
    (calls : List (PoolCall × List (Choice EngineEnv)))
    (unwritten : ∀ call ∈ calls, ¬call.1.WritesTo (normalizeEntryPath deletion.path)) :
    e.AnswersGone deletion.path (e.afterCalls calls w') := by
  have gone := (deletion_ensures deletion).of_done deletable done
  exact (gone_calls calls unwritten gone).answers

/-- A pool whose backup has a file. -/
def backedEngine : Engine where
  __ := plainEngine
  sharedReadCache := plainEngine.sharedReadCache
  backup := some (worldOf [("u/a".toList,[1])] ["u".toList] []).primary

def backedWorld : World := worldOf [("u/a".toList,[1]),("u/b".toList,[2])] ["u".toList] []

/-- A file that the backup lacks is deleted, another one written, and the first is gone. -/
theorem deletion_answers_file : backedEngine.AnswersGone "u/b".toList
    (backedEngine.afterCalls [(.change (.write "u/c".toList [3]),[]),(.read "u/b".toList,[])]
      (backedEngine.poolDelete "u/b".toList backedWorld []).state) := by
  have deletable : Deletable "u/b".toList backedWorld := by
    refine ⟨Disk.properAt_of_entries (by decide) (by decide),⟨?_,?_⟩,fun _ _ => rfl⟩
    · intro r record found
      cases found
    · intro path r found
      cases found
  have done : ∃ info w', backedEngine.poolDelete "u/b".toList backedWorld [] = .done info w' [] := by
    have value : (backedEngine.poolDelete "u/b".toList backedWorld []).value?.isSome = true := by decide +kernel
    have choices : (backedEngine.poolDelete "u/b".toList backedWorld []).rest = [] := by decide +kernel
    obtain ⟨info,w',rest,done⟩ := Outcome.done_of_value value
    rw [done] at choices
    exact ⟨info,w',by rw [done]; exact congrArg _ choices⟩
  obtain ⟨info,w',done⟩ := done
  rw [done]
  apply deletion_answers backedEngine (.delete "u/b".toList) deletable done
  intro call member written
  rcases List.mem_cons.mp member with rfl | later
  · have apart : Text.within (normalizeEntryPath "u/b".toList) "u/c".toList = false := by decide
    rw [PoolCall.WritesTo,Deletion.path,apart] at written
    cases written
  · rw [List.mem_singleton.mp later] at written
    exact written

/-- A file that the backup has is deleted, and is there as before. -/
theorem deleted_file_answers :
    (backedEngine.poolDelete "u/a".toList backedWorld []).value?.isSome = true ∧
    (backedEngine.poolExists "u/a".toList (backedEngine.poolDelete "u/a".toList backedWorld []).state []).value? =
      some true ∧
    ((backedEngine.poolRead "u/a".toList (backedEngine.poolDelete "u/a".toList backedWorld []).state []).value?.map
      (·.1)) = some [1] := by decide +kernel

end Engine
end StorageHub.Scoped
