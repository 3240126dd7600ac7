import StorageHub.Scoped.StreamWrite

/-! The read cache before the primary: what it holds is what the primary has,
and a pool with it reads as a pool without it. -/
namespace StorageHub.Scoped
open Library WriteCache Vfs Effect

namespace Engine

/-- The same engine with the read cache disabled. -/
def withoutReadCache (e : Engine) (direct : e.writeCache = none) : Engine :=
  { e with readCache := none, sharedReadCache := by simp [direct] }

variable (e : Engine)

/-- Every entry has the bytes the primary has at its key. -/
def CacheSound (w : World) : Prop :=
  ∀ key data, e.cached w key = some data → w.primary.read key = some data

/-- Nothing is cached for some keys. -/
def Uncached (keys : List Text) (w : World) : Prop := ∀ key ∈ keys, e.cached w key = none

/-- The state an invalidation leaves. -/
def dropCached (path : Text) (w : World) : World :=
  { w with shared := { w.shared with readCache :=
    (if e.readCache.isSome then w.shared.readCache.erase path else w.shared.readCache) } }

theorem cached_dropCached (w : World) (path key : Text) :
    e.cached (e.dropCached path w) key = if key = path then none else e.cached w key := by
  unfold cached dropCached
  by_cases on : e.readCache.isSome = true
  · rw [if_pos on,if_pos on,if_pos on]
    exact Store.lookup_erase_eq _ _ _
  · rw [if_neg on,if_neg on,ite_self]

/-- What the primary has at other paths may be cached. -/
theorem CacheSound.of_frame {w w' : World} (paths : List Text) (sound : e.CacheSound w)
    (kept : ∀ key data, e.cached w' key = some data → e.cached w key = some data)
    (uncached : e.Uncached paths w') (files : ∀ q, q ∉ paths → e.cached w' q ≠ none →
      w'.primary.files.lookup q = w.primary.files.lookup q) : e.CacheSound w' := by
  intro key data found
  have before := sound key data (kept key data found)
  have outside : key ∉ paths := by
    intro inside
    rw [uncached key inside] at found
    cases found
  have same := files key outside (by rw [found]; exact Option.some_ne_none data)
  unfold Disk.read at before ⊢
  rw [same]
  exact before

/-- An invalidation keeps the cache sound and drops its key. -/
theorem invalidate_sound (path : Text) (keys : List Text) :
    Meets (fun w => e.CacheSound w ∧ e.Uncached keys w) (e.invalidateReadCache path)
      (fun _ w => e.CacheSound w ∧ e.Uncached (path::keys) w) (fun _ => e.CacheSound) e.CacheSound := by
  apply Meets.modify
  rintro w ⟨sound,uncached⟩
  constructor
  · intro key data found
    have entry := (e.cached_dropCached w path key).symm.trans found
    split at entry
    · cases entry
    · exact sound key data entry
  · intro key member
    refine (e.cached_dropCached w path key).trans ?_
    split
    · rfl
    · next other =>
      rcases List.mem_cons.mp member with here | later
      · exact absurd here other
      · exact uncached key later

theorem invalidate_first (path : Text) : Meets e.CacheSound (e.invalidateReadCache path)
    (fun _ w => e.CacheSound w ∧ e.Uncached [path] w) (fun _ => e.CacheSound) e.CacheSound :=
  (e.invalidate_sound path []).consequence
    (fun _ sound => ⟨sound,fun _ member => absurd member List.not_mem_nil⟩) (fun _ _ both => both)
    (fun _ _ sound => sound) fun _ sound => sound

/-- A change of the primary at paths that are not cached. -/
theorem operate_sound {kind : ErrorKind} {f : World → Option World} {paths : List Text}
    (frame : ∀ w w', e.CacheSound w → e.Uncached paths w → f w = some w' →
      w'.shared.readCache = w.shared.readCache ∧ ∀ q, q ∉ paths → e.cached w q ≠ none →
        w'.primary.files.lookup q = w.primary.files.lookup q) :
    Meets (fun w => e.CacheSound w ∧ e.Uncached paths w) (operate kind f) (fun _ => e.CacheSound)
      (fun _ => e.CacheSound) e.CacheSound := by
  apply meets_operate
  · rintro w w' ⟨sound,uncached⟩ made
    obtain ⟨same,files⟩ := frame w w' sound uncached made
    have entries (key : Text) : e.cached w' key = e.cached w key := by
      unfold cached
      rw [same]
    apply sound.of_frame e paths (fun key data found => (entries key).symm.trans found)
      (fun key member => (entries key).trans (uncached key member))
    intro q outside present
    rw [entries q] at present
    exact files q outside present
  · exact fun _ _ both => both.1
  · exact fun _ both => both.1

theorem poolWrite_sound (path : Text) (data : Bytes) : Keeps e.CacheSound (e.poolWrite path data) := by
  apply Meets.bind (e.invalidate_first path)
  intro _
  apply Meets.bind
  · apply e.operate_sound
    intro w w' _ _ made
    obtain ⟨d',written,rfl⟩ := Option.map_eq_some_iff.mp made
    refine ⟨rfl,?_⟩
    intro q outside _
    rw [Disk.write] at written
    split at written
    · cases written
      exact AList.lookup_insert_ne fun same => outside (same ▸ List.mem_cons_self)
    · cases written
  · exact fun _ => (e.poolStat_readOnly path).keeps _

theorem poolCopyFile_sound (src dst : Text) : Keeps e.CacheSound (e.poolCopyFile src dst) := by
  apply Meets.bind (e.invalidate_first src)
  intro _
  apply Meets.bind (e.invalidate_sound dst [src])
  intro _
  apply Meets.bind
  · apply e.operate_sound
    intro w w' _ _ made
    obtain ⟨d',copied,rfl⟩ := Option.map_eq_some_iff.mp made
    obtain ⟨data,-,rfl⟩ := Disk.copy_cases copied
    refine ⟨rfl,?_⟩
    intro q outside _
    exact AList.lookup_insert_ne fun same => outside (same ▸ List.mem_cons_self)
  · exact fun _ => (e.poolStat_readOnly dst).keeps _

theorem deleteInvalidated_sound (path : Text) :
    Keeps e.CacheSound (e.invalidateReadCache path >>= fun _ => primaryDelete path) := by
  apply Meets.bind (e.invalidate_first path)
  intro _
  apply e.operate_sound
  intro w w' _ _ made
  obtain ⟨d',deleted,rfl⟩ := Option.map_eq_some_iff.mp made
  refine ⟨rfl,?_⟩
  intro q outside _
  rcases Disk.delete_files deleted with same | ⟨-,same⟩
  · exact congrArg (AList.lookup q) same
  · refine (congrArg (AList.lookup q) same).trans ?_
    exact AList.lookup_erase_ne fun here => outside (here ▸ List.mem_cons_self)

theorem removeEntries_sound (entries : List (Text × Metadata)) :
    Keeps e.CacheSound (e.removeEntries entries) := by
  induction entries with
  | nil => exact Keeps.pure ()
  | cons entry rest ih =>
    have split : e.removeEntries (entry::rest) = (e.invalidateReadCache
        (if entry.2.isDir then entry.1 ++ ['/'] else entry.1) >>= fun _ =>
          primaryDelete (if entry.2.isDir then entry.1 ++ ['/'] else entry.1)) >>= fun _ =>
            e.removeEntries rest := rfl
    rw [split]
    exact (e.deleteInvalidated_sound _).bind fun _ => ih

/-- The last deletion of a tree is by a path that is spelled as a directory. -/
theorem removeTree_sound (path : Text) : Keeps e.CacheSound (e.removeTree path) := by
  have last : Keeps e.CacheSound (primaryDelete (if normalizeEntryPath path = ['/'] then ['/']
      else Text.trimEnd '/' (normalizeEntryPath path) ++ ['/'])) := by
    have slashed : hasTrailingSlash (if normalizeEntryPath path = ['/'] then ['/']
        else Text.trimEnd '/' (normalizeEntryPath path) ++ ['/']) = true := by
      split
      · rfl
      · simp [hasTrailingSlash]
    apply meets_operate
    · intro w w' sound made
      obtain ⟨d',deleted,rfl⟩ := Option.map_eq_some_iff.mp made
      rcases Disk.delete_files deleted with same | ⟨plain,-⟩
      · intro key data found
        have before := sound key data found
        unfold Disk.read at before ⊢
        exact (congrArg (fun files => if hasTrailingSlash key then none else AList.lookup key files) same).trans
          before
      · rw [slashed] at plain
        cases plain
    · exact fun _ _ sound => sound
    · exact fun _ sound => sound
  have listing : Keeps e.CacheSound (e.orBackup
      (query fun w => w.primary.listRecursive (normalizeEntryPath path))
      fun backup => query fun _ => backup.listRecursive (normalizeEntryPath path)) :=
    (e.orBackup_readOnly (query_readOnly _) fun _ => query_readOnly _).keeps _
  have dropped : Keeps e.CacheSound (e.invalidateReadCache (normalizeEntryPath path)) :=
    (e.invalidate_first _).consequence (fun _ sound => sound) (fun _ _ both => both.1)
      (fun _ _ sound => sound) fun _ sound => sound
  apply listing.bind
  intro entries
  apply (e.removeEntries_sound _).bind
  intro _
  apply dropped.bind
  exact fun _ => last

theorem poolDelete_sound (path : Text) : Keeps e.CacheSound (e.poolDelete path) := by
  have dropped : Keeps e.CacheSound (e.invalidateReadCache path) :=
    (e.invalidate_first _).consequence (fun _ sound => sound) (fun _ _ both => both.1)
      (fun _ _ sound => sound) fun _ sound => sound
  apply ((e.poolStat_readOnly path).keeps _).bind
  intro info
  by_cases dir : info.isDir = true
  · rw [if_pos dir]
    exact dropped.bind fun _ => (e.removeTree_sound path).bind fun _ => Keeps.pure info
  · rw [if_neg dir,← bind_assoc]
    exact (e.deleteInvalidated_sound path).bind fun _ => Keeps.pure info

/-! ### Moves -/

/-- A directory that is moved has nothing cached below it. -/
def MoveClean (w : World) (src dst : Text) (cs : List (Choice EngineEnv)) : Prop :=
  Granted cs → (w.primary.rename src dst).isSome = true → w.primary.files.lookup src = none →
    ∀ key, Text.below src key = true → e.cached w key = none

theorem rename_sound {w : World} {d' : Disk} {src dst : Text} (sound : e.CacheSound w)
    (uncached : e.Uncached [dst,src] w) (renamed : w.primary.rename src dst = some d')
    (below : w.primary.files.lookup src = none → ∀ key, Text.below src key = true → e.cached w key = none) :
    e.CacheSound (w.setPrimary d') := by
  have entries (key : Text) : e.cached (w.setPrimary d') key = e.cached w key := rfl
  apply sound.of_frame e [dst,src] (fun key data found => (entries key).symm.trans found)
    fun key member => (entries key).trans (uncached key member)
  intro q outside present
  have notDst : q ≠ dst := fun same => outside (same ▸ List.mem_cons_self)
  have notSrc : q ≠ src := fun same => outside (same ▸ List.mem_cons_of_mem dst List.mem_cons_self)
  rcases Disk.rename_cases renamed with ⟨data,-,-,-,rfl⟩ | ⟨file,-,-,free,vacant,-,rfl⟩
  · exact (AList.lookup_insert_ne notDst).trans (AList.lookup_erase_ne notSrc)
  · -- a path that stays has nothing renamed onto it
    have apart : Text.within src q = false := by
      rw [Bool.eq_false_iff,Text.within,Ne,Bool.or_eq_true,beq_iff_eq]
      rintro (here | under)
      · exact notSrc here
      · exact present (below file q under)
    have moved (data : Bytes) : (Store.moveTree src dst w.primary.files).lookup q = some data ↔
        ∃ p, w.primary.files.lookup p = some data ∧ Text.relocate src dst p = q :=
      Store.lookup_moveTree (Disk.anyWithin_of_below free vacant) q data
    cases found : w.primary.files.lookup q with
    | some data => exact (moved data).mpr ⟨q,found,Text.relocate_outside dst apart⟩
    | none =>
      have entry := present
      rw [Option.ne_none_iff_exists'] at entry
      obtain ⟨data,hit⟩ := entry
      have there := sound q data hit
      rw [Disk.read,found,ite_self] at there
      cases there

theorem poolMoveFile_sound {w : World} {src dst : Text} {cs : List (Choice EngineEnv)}
    (sound : e.CacheSound w) (clean : e.MoveClean w src dst cs) :
    e.CacheSound (e.poolMoveFile src dst w cs).state := by
  obtain ⟨w₀,start,sound₀,uncached,primary,fewer⟩ : ∃ w₀, e.poolMoveFile src dst w cs =
      (operate .other (fun w => (w.primary.rename src dst).map w.setPrimary) >>= fun _ =>
        e.poolStat dst) w₀ cs ∧ e.CacheSound w₀ ∧ e.Uncached [dst,src] w₀ ∧ w₀.primary = w.primary ∧
          ∀ key, e.cached w key = none → e.cached w₀ key = none := by
    have first := e.invalidate_first src w cs sound
    have second := e.invalidate_sound dst [src] (e.dropCached src w) cs first
    refine ⟨e.dropCached dst (e.dropCached src w),rfl,second.1,second.2,rfl,?_⟩
    intro key absent
    rw [cached_dropCached,cached_dropCached,absent,ite_self,ite_self]
  rw [start]
  by_cases granted : Granted cs
  · cases renamed : w₀.primary.rename src dst with
    | none =>
      rw [state_of_refused cs (by rw [renamed]; rfl)]
      exact sound₀
    | some d' =>
      have made : (w₀.primary.rename src dst).map w₀.setPrimary = some (w₀.setPrimary d') := by
        rw [renamed]
        rfl
      rw [bind_run (operate_run granted made),
        readOnly_state (e.poolStat_readOnly dst)]
      apply e.rename_sound sound₀ uncached renamed
      intro file key under
      rw [primary] at file renamed
      exact fewer key (clean granted (by rw [renamed]; rfl) file key under)
  · rw [state_of_denied granted]
    exact sound₀

/-! ### Streamed writes -/

/-- Files differ from given ones at some paths only, and the read cache is a
given one. -/
structure ChangedAt (paths : List Text) (files : Store Text Bytes) (readCache : Store Text Bytes)
    (w : World) : Prop where
  files : ∀ q, q ∉ paths → w.primary.files.lookup q = files.lookup q
  readCache : w.shared.readCache = readCache

section streams
variable {path : Text} {files readCache : Store Text Bytes}

/-- No directory at the temporary name. -/
def NoTempDir (path : Text) (w : World) : Prop := w.primary.dirs.lookup (tempPathOf path) = none

theorem temp_outside {q : Text} (outside : q ∉ [tempPathOf path,path]) : q ≠ tempPathOf path ∧ q ≠ path :=
  ⟨fun same => outside (same ▸ List.mem_cons_self),
    fun same => outside (same ▸ List.mem_cons_of_mem _ List.mem_cons_self)⟩

theorem noTempDir_write {w : World} {data : Bytes} {d' : Disk}
    (written : w.primary.write (tempPathOf path) data = some d') : NoTempDir path (w.setPrimary d') := by
  rw [Disk.write] at written
  split at written
  next accepted =>
    cases written
    have free := (Disk.accepts_iff.mp accepted).2.1
    have self : tempPathOf path ∉ ancestors (tempPathOf path) := by
      rw [ancestors_tempPathOf]
      exact temp_not_above path
    have present := Disk.lookup_makeAncestors w.primary (tempPathOf path) (tempPathOf path)
    rw [decide_eq_false self,free,Option.isSome_none,Bool.or_self] at present
    exact Option.isNone_iff_eq_none.mp (Option.isSome_eq_false_iff.mp present)
  next => cases written

theorem changedAt_write {w : World} {data : Bytes} {d' : Disk}
    (changed : ChangedAt [tempPathOf path,path] files readCache w)
    (written : w.primary.write (tempPathOf path) data = some d') :
    ChangedAt [tempPathOf path,path] files readCache (w.setPrimary d') := by
  rw [Disk.write] at written
  split at written
  next =>
    cases written
    refine ⟨fun q outside => ?_,changed.readCache⟩
    exact (AList.lookup_insert_ne (temp_outside outside).1).trans (changed.files q outside)
  next => cases written

variable (kind : WriterKind)

theorem openWriter_changedAt : Meets (ChangedAt [tempPathOf path,path] files readCache)
    (openWriter kind (tempPathOf path))
    (fun _ w => ChangedAt [tempPathOf path,path] files readCache w ∧ NoTempDir path w)
    (fun _ => ChangedAt [tempPathOf path,path] files readCache)
    (ChangedAt [tempPathOf path,path] files readCache) := by
  apply meets_operate
  · intro w w' changed made
    split at made
    next accepted =>
      cases kind with
      | inPlace =>
        obtain ⟨d',written,rfl⟩ := Option.map_eq_some_iff.mp made
        exact ⟨changedAt_write changed written,noTempDir_write written⟩
      | onClose =>
        cases made
        exact ⟨changed,(Disk.accepts_iff.mp accepted).2.1⟩
    next => cases made
  · exact fun _ _ changed => changed
  · exact fun _ changed => changed

theorem writeChunks_changedAt (stream : ByteStream) (taken : Bytes) :
    Meets (fun w => ChangedAt [tempPathOf path,path] files readCache w ∧ NoTempDir path w)
      (writeChunks kind (tempPathOf path) taken stream)
      (fun _ w => ChangedAt [tempPathOf path,path] files readCache w ∧ NoTempDir path w)
      (fun _ => ChangedAt [tempPathOf path,path] files readCache)
      (ChangedAt [tempPathOf path,path] files readCache) := by
  induction stream generalizing taken with
  | nil => exact Meets.pure fun _ both => both
  | cons item rest ih =>
    cases item with
    | error err => exact Meets.fail fun _ both => both.1
    | ok chunk =>
      apply Meets.bind (Q := fun _ w => ChangedAt [tempPathOf path,path] files readCache w ∧ NoTempDir path w)
      · apply meets_update
        · rintro w ⟨changed,free⟩
          cases kind with
          | onClose => exact ⟨changed,free⟩
          | inPlace =>
            refine ⟨⟨fun q outside => ?_,changed.readCache⟩,free⟩
            exact (AList.lookup_insert_ne (temp_outside outside).1).trans (changed.files q outside)
        · exact fun _ _ both => both.1
        · exact fun _ both => both.1
      · exact fun _ => ih _

theorem closeWriter_changedAt (taken : Bytes) :
    Meets (fun w => ChangedAt [tempPathOf path,path] files readCache w ∧ NoTempDir path w)
      (closeWriter kind (tempPathOf path) taken)
      (fun _ w => ChangedAt [tempPathOf path,path] files readCache w ∧ NoTempDir path w)
      (fun _ => ChangedAt [tempPathOf path,path] files readCache)
      (ChangedAt [tempPathOf path,path] files readCache) := by
  apply meets_operate
  · rintro w w' ⟨changed,free⟩ made
    cases kind with
    | inPlace =>
      cases made
      exact ⟨changed,free⟩
    | onClose =>
      obtain ⟨d',written,rfl⟩ := Option.map_eq_some_iff.mp made
      exact ⟨changedAt_write changed written,noTempDir_write written⟩
  · exact fun _ _ both => both.1
  · exact fun _ both => both.1

/-- However a streamed write ends, it has changed files at its two names only. -/
theorem poolWriteChunks_changedAt (w : World) (stream : ByteStream) (cs : List (Choice EngineEnv)) :
    ChangedAt [tempPathOf path,path] w.primary.files (e.dropCached path w).shared.readCache
      (e.poolWriteChunks kind path stream w cs).state := by
  have renamed : Meets (fun w' => ChangedAt [tempPathOf path,path] w.primary.files
        (e.dropCached path w).shared.readCache w' ∧ NoTempDir path w')
      (operate .other fun w => (w.primary.rename (tempPathOf path) path).map w.setPrimary)
      (fun _ => ChangedAt [tempPathOf path,path] w.primary.files (e.dropCached path w).shared.readCache)
      (fun _ => ChangedAt [tempPathOf path,path] w.primary.files (e.dropCached path w).shared.readCache)
      (ChangedAt [tempPathOf path,path] w.primary.files (e.dropCached path w).shared.readCache) := by
    apply meets_operate
    · rintro w₁ w₂ ⟨changed,free⟩ made
      obtain ⟨d',moved,rfl⟩ := Option.map_eq_some_iff.mp made
      refine ⟨fun q outside => ?_,changed.readCache⟩
      obtain ⟨notTemp,notPath⟩ := temp_outside outside
      rcases Disk.rename_cases moved with ⟨data,-,-,-,rfl⟩ | ⟨-,dir,-⟩
      · exact ((AList.lookup_insert_ne notPath).trans (AList.lookup_erase_ne notTemp)).trans
          (changed.files q outside)
      · rw [free] at dir
        cases dir
    · exact fun _ _ both => both.1
    · exact fun _ both => both.1
  have ended := ((openWriter_changedAt kind).bind fun _ => (writeChunks_changedAt kind stream []).bind
    fun taken => (closeWriter_changedAt kind taken).bind fun _ => renamed.bind fun _ =>
      (e.poolStat_readOnly path).keeps _) (e.dropCached path w) cs ⟨fun _ _ => rfl,rfl⟩
  have start : e.poolWriteChunks kind path stream w cs = (openWriter kind (tempPathOf path) >>= fun _ =>
      writeChunks kind (tempPathOf path) [] stream >>= fun taken =>
        closeWriter kind (tempPathOf path) taken >>= fun _ =>
          operate .other (fun w => (w.primary.rename (tempPathOf path) path).map w.setPrimary) >>= fun _ =>
            e.poolStat path) (e.dropCached path w) cs := rfl
  rw [← start] at ended
  cases outcome : e.poolWriteChunks kind path stream w cs with
  | done info after rest => rw [outcome] at ended; exact ended
  | failed err after rest => rw [outcome] at ended; exact ended
  | crashed after => rw [outcome] at ended; exact ended

/-- Nothing is cached at the temporary name, or the stream leaves that alone. -/
def StreamUnseen (w : World) (kind : WriterKind) (path : Text) (stream : ByteStream)
    (cs : List (Choice EngineEnv)) : Prop :=
  e.cached w (tempPathOf path) = none ∨ StreamClean kind w.primary path stream cs

theorem poolWriteChunks_sound {w : World} {stream : ByteStream} {cs : List (Choice EngineEnv)}
    (sound : e.CacheSound w) (clean : e.StreamUnseen w kind path stream cs) :
    e.CacheSound (e.poolWriteChunks kind path stream w cs).state := by
  have changed := @poolWriteChunks_changedAt e path kind w stream cs
  have entries (key : Text) : e.cached (e.poolWriteChunks kind path stream w cs).state key =
      if key = path then none else e.cached w key := by
    rw [← e.cached_dropCached,cached,cached,changed.readCache]
  have fewer (key : Text) (data : Bytes)
      (found : e.cached (e.poolWriteChunks kind path stream w cs).state key = some data) :
      e.cached w key = some data := by
    rw [entries] at found
    split at found
    · cases found
    · exact found
  have dropped : e.cached (e.poolWriteChunks kind path stream w cs).state path = none := by
    rw [entries,if_pos rfl]
  rcases clean with absent | clean
  · apply sound.of_frame e [tempPathOf path,path] fewer
    · intro key member
      rcases List.mem_cons.mp member with rfl | rest
      · rw [entries,absent,ite_self]
      · rw [List.mem_singleton.mp rest]
        exact dropped
    · exact fun q outside _ => changed.files q outside
  · have kept := (poolWriteChunks_kept_iff e kind w path stream cs).mpr clean
    apply sound.of_frame e [path] fewer
    · intro key member
      rw [List.mem_singleton.mp member]
      exact dropped
    · exact fun q outside _ => kept.files q fun same => outside (same ▸ List.mem_cons_self)

end streams

/-! ### With and without the read cache -/

/-- The same state but for the read cache. -/
def SameStored (w w' : World) : Prop :=
  w' = { w with shared := { w.shared with readCache := w'.shared.readCache } }

theorem SameStored.primary {w w' : World} (same : SameStored w w') : w'.primary = w.primary := by
  rw [same]
  rfl

theorem SameStored.setPrimary {w w' : World} (same : SameStored w w') (d : Disk) :
    SameStored (w.setPrimary d) (w'.setPrimary d) := by
  rw [same]
  rfl

theorem SameStored.dropCached {w w' : World} (same : SameStored w w') (e e' : Engine) (path : Text) :
    SameStored (e.dropCached path w) (e'.dropCached path w') := by
  rw [same]
  rfl

theorem call_simulates {α : Type} {f : EngineEnv → World → Except VfsError α × World}
    (alike : ∀ env w w', SameStored w w' →
      (f env w).1 = (f env w').1 ∧ SameStored (f env w).2 (f env w').2) :
    Simulates SameStored (call f) (call f) := by
  unfold call
  apply Simulates.perform
  intro env w w' same
  by_cases ok : env.ok = true
  · rw [if_pos ok,if_pos ok]
    exact alike env w w' same
  · rw [if_neg ok,if_neg ok]
    exact ⟨rfl,same⟩

/-- An operation of the operator goes by the stored state alone. -/
theorem operate_simulates (kind : ErrorKind) (f : Disk → Option Disk) :
    Simulates SameStored (operate kind fun w => (f w.primary).map w.setPrimary)
      (operate kind fun w => (f w.primary).map w.setPrimary) := by
  apply call_simulates
  intro env w w' same
  dsimp only
  rw [same.primary]
  cases f w.primary with
  | none => exact ⟨rfl,same⟩
  | some d => exact ⟨rfl,same.setPrimary d⟩

theorem query_simulates {α : Type} (f : Disk → α) :
    Simulates SameStored (query fun w => f w.primary) (query fun w => f w.primary) := by
  apply call_simulates
  intro env w w' same
  exact ⟨congrArg (fun d => Except.ok (f d)) same.primary.symm,same⟩

theorem primaryStat_simulates (path : Text) :
    Simulates SameStored (primaryStat path) (primaryStat path) := by
  apply call_simulates
  intro env w w' same
  rw [same.primary]
  cases w.primary.stat path with
  | none => exact ⟨rfl,same⟩
  | some m => exact ⟨rfl,same⟩

theorem backupStat_simulates (backup : Disk) (path : Text) :
    Simulates SameStored (backupStat backup path) (backupStat backup path) := by
  apply call_simulates
  intro env w w' same
  cases backup.stat path with
  | none => exact ⟨rfl,same⟩
  | some m => exact ⟨rfl,same⟩

variable (direct : e.writeCache = none)

include direct in
theorem poolPendingStat_direct (path : Text) : e.poolPendingStat path = pure none := by
  funext w cs
  have quiet : e.pendingRecord path w = none := by
    rw [pendingRecord,direct]
    rfl
  change Outcome.done ((e.pendingRecord path w).map _) w cs = _
  rw [quiet]
  rfl

theorem orBackup_simulates {α : Type} {primary : Vfs α} {fallback : Disk → Vfs α}
    (alike : Simulates SameStored primary primary)
    (alike' : ∀ backup, Simulates SameStored (fallback backup) (fallback backup)) :
    Simulates SameStored (e.orBackup primary fallback)
      ((e.withoutReadCache direct).orBackup primary fallback) := by
  apply alike.attempt.bind
  intro result
  cases result with
  | ok a => exact Simulates.pure a
  | error err =>
    have backup : (e.withoutReadCache direct).backup = e.backup := rfl
    dsimp only
    rw [backup]
    cases e.backup with
    | none => exact Simulates.fail err
    | some replica => exact alike' replica

theorem poolStat_simulates (path : Text) :
    Simulates SameStored (e.poolStat path) ((e.withoutReadCache direct).poolStat path) := by
  rw [poolStat,poolStat,e.poolPendingStat_direct direct,
    (e.withoutReadCache direct).poolPendingStat_direct direct,pure_bind,pure_bind]
  exact e.orBackup_simulates direct (primaryStat_simulates path) fun backup =>
    backupStat_simulates backup path

theorem invalidate_simulates (path : Text) : Simulates SameStored (e.invalidateReadCache path)
    ((e.withoutReadCache direct).invalidateReadCache path) :=
  Simulates.modify fun _ _ same => same.dropCached e (e.withoutReadCache direct) path

theorem primaryDelete_simulates (path : Text) :
    Simulates SameStored (primaryDelete path) (primaryDelete path) :=
  operate_simulates .other fun d => d.delete path

theorem removeEntries_simulates (entries : List (Text × Metadata)) :
    Simulates SameStored (e.removeEntries entries) ((e.withoutReadCache direct).removeEntries entries) := by
  induction entries with
  | nil => exact Simulates.pure ()
  | cons entry rest ih =>
    exact (e.invalidate_simulates direct _).bind fun _ => (primaryDelete_simulates _).bind fun _ => ih

theorem removeTree_simulates (path : Text) :
    Simulates SameStored (e.removeTree path) ((e.withoutReadCache direct).removeTree path) := by
  have listing : Simulates SameStored
      (e.orBackup (query fun w => w.primary.listRecursive (normalizeEntryPath path)) fun backup =>
        query fun _ => backup.listRecursive (normalizeEntryPath path)) _ :=
    e.orBackup_simulates direct
      (query_simulates fun d => d.listRecursive (normalizeEntryPath path))
      fun backup => query_simulates fun _ => backup.listRecursive (normalizeEntryPath path)
  apply listing.bind
  intro entries
  apply (e.removeEntries_simulates direct _).bind
  intro _
  apply (e.invalidate_simulates direct _).bind
  exact fun _ => primaryDelete_simulates _

theorem poolWriteChunks_simulates (kind : WriterKind) (path : Text) (stream : ByteStream) :
    Simulates SameStored (e.poolWriteChunks kind path stream)
      ((e.withoutReadCache direct).poolWriteChunks kind path stream) := by
  have opens : Simulates SameStored (openWriter kind (tempPathOf path))
      (openWriter kind (tempPathOf path)) := by
    unfold openWriter operate
    apply call_simulates
    intro env w w' same
    dsimp only
    rw [same.primary]
    by_cases accepted : w.primary.accepts (tempPathOf path) = true
    · rw [if_pos accepted,if_pos accepted]
      cases kind with
      | inPlace =>
        cases w.primary.write (tempPathOf path) [] with
        | none => exact ⟨rfl,same⟩
        | some d => exact ⟨rfl,same.setPrimary d⟩
      | onClose => exact ⟨rfl,same⟩
    · rw [if_neg accepted,if_neg accepted]
      exact ⟨rfl,same⟩
  have appends (chunk : Bytes) : Simulates SameStored (appendChunk kind (tempPathOf path) chunk)
      (appendChunk kind (tempPathOf path) chunk) := by
    unfold appendChunk update
    apply call_simulates
    intro env w w' same
    cases kind with
    | inPlace =>
      dsimp only
      rw [same.primary]
      exact ⟨rfl,same.setPrimary _⟩
    | onClose => exact ⟨rfl,same⟩
  have writes (taken : Bytes) : Simulates SameStored (writeChunks kind (tempPathOf path) taken stream)
      (writeChunks kind (tempPathOf path) taken stream) := by
    induction stream generalizing taken with
    | nil => exact Simulates.pure taken
    | cons item rest ih =>
      cases item with
      | error err => exact Simulates.fail err
      | ok chunk => exact (appends chunk).bind fun _ => ih _
  have closes (taken : Bytes) : Simulates SameStored (closeWriter kind (tempPathOf path) taken)
      (closeWriter kind (tempPathOf path) taken) := by
    unfold closeWriter operate
    apply call_simulates
    intro env w w' same
    cases kind with
    | inPlace => exact ⟨rfl,same⟩
    | onClose =>
      dsimp only
      rw [same.primary]
      cases w.primary.write (tempPathOf path) taken with
      | none => exact ⟨rfl,same⟩
      | some d => exact ⟨rfl,same.setPrimary d⟩
  exact (e.invalidate_simulates direct path).bind fun _ => opens.bind fun _ => (writes []).bind fun taken =>
    (closes taken).bind fun _ => (operate_simulates .other fun d => d.rename (tempPathOf path) path).bind
      fun _ => e.poolStat_simulates direct path

/-! ### What a read answers -/

/-- What a read of the disk gives, with the backup for what it does not have. -/
def readAnswer (d : Disk) (path : Text) : Option Bytes :=
  match d.read path with
  | some data => some data
  | none => e.backup.bind fun backup =>
    (backup.read path).bind fun data => (backup.stat path).map fun _ => data

def rangeAnswer (d : Disk) (path : Text) (start stop : Nat) : Option Bytes :=
  match d.stat path with
  | some _ => (d.read path).map fun data => sliceBytes data start stop
  | none => e.backup.bind fun backup =>
    (backup.stat path).bind fun _ => (backup.read path).map fun data => sliceBytes data start stop

section answers
variable {w : World} {path : Text}

include direct in
theorem pendingRead_direct : e.poolPendingRead path w [] = .done none w [] := by
  have quiet : e.pendingRecord path w = none := by
    rw [pendingRecord,direct]
    rfl
  unfold poolPendingRead perform
  dsimp only
  rw [quiet]
  rfl

/-- The read cache as a fill leaves it. -/
def filled (path : Text) (data : Bytes) (w : World) : World :=
  { w with shared := { w.shared with readCache :=
    match e.readCache with
    | none => w.shared.readCache
    | some admits =>
      if admits path data.length then w.shared.readCache.insert path data else w.shared.readCache } }

theorem readCachePut_run (data : Bytes) : e.readCachePut path data w [] = .done () (e.filled path data w) [] := rfl

theorem filled_sound {data : Bytes} (sound : e.CacheSound w) (found : w.primary.read path = some data) :
    e.CacheSound (e.filled path data w) := by
  intro key content hit
  have stored : (e.filled path data w).primary = w.primary := rfl
  rw [stored]
  unfold cached filled at hit
  cases on : e.readCache with
  | none => simp [on] at hit
  | some admits =>
    simp only [on,Option.isSome_some,if_true] at hit
    have before : w.shared.readCache.lookup key = some content → w.primary.read key = some content := by
      intro entry
      apply sound key content
      rw [cached,on]
      exact entry
    split at hit
    · rw [Store.lookup_insert_eq] at hit
      split at hit
      next here =>
        rw [here,found]
        exact hit
      next => exact before hit
    · exact before hit

include direct in
/-- A read past the caches. -/
theorem poolRead_missed (missed : e.cached w path = none) : e.poolRead path w [] =
    match w.primary.read path with
    | some data => .done (data,fileInfo path ⟨false,data.length⟩) (e.filled path data w) []
    | none => match e.backup with
      | none => .failed (.notFound path) w []
      | some backup => (do
          let data ← backupRead backup path
          let info ← backupStat backup path
          pure (data,info) : Vfs (Bytes × VfsFileInfo)) w [] := by
  rw [poolRead,bind_run (e.pendingRead_direct direct)]
  dsimp only
  rw [bind_run e.readCacheGet_run,missed]
  dsimp only
  cases found : w.primary.read path with
  | some data =>
    have got : primaryRead path w [] = .done data w [] := by rw [primaryRead_run,found]
    have stated : primaryStat path w [] = .done (fileInfo path ⟨false,data.length⟩) w [] := by
      rw [primaryStat_run,stat_of_read found]
    rw [bind_run (attempt_done got)]
    dsimp only
    rw [bind_run stated,bind_run (e.readCachePut_run data)]
    rfl
  | none =>
    have failed : primaryRead path w [] = .failed (.notFound path) w [] := by rw [primaryRead_run,found]
    rw [bind_run (attempt_failed failed)]
    cases e.backup with
    | none => rfl
    | some backup => rfl

include direct in
theorem poolRead_hit {data : Bytes} (hit : e.cached w path = some data) :
    e.poolRead path w [] = .done (data,fileInfo path ⟨false,data.length⟩) w [] := by
  rw [poolRead,bind_run (e.pendingRead_direct direct)]
  dsimp only
  rw [bind_run e.readCacheGet_run,hit]
  rfl

include direct in
variable (path) in
theorem poolRead_answer (sound : e.CacheSound w) :
    (e.poolRead path w []).value?.map (·.1) = e.readAnswer w.primary path ∧
      e.CacheSound (e.poolRead path w []).state ∧ SameStored w (e.poolRead path w []).state := by
  unfold readAnswer
  cases entry : e.cached w path with
  | some data =>
    rw [e.poolRead_hit direct entry,sound path data entry]
    exact ⟨rfl,sound,rfl⟩
  | none =>
    rw [e.poolRead_missed direct entry]
    cases found : w.primary.read path with
    | some data => exact ⟨rfl,e.filled_sound sound found,rfl⟩
    | none =>
      cases replica : e.backup with
      | none => exact ⟨rfl,sound,rfl⟩
      | some backup =>
        dsimp only
        rw [bind_apply,backupRead_run,Option.bind_some]
        cases backup.read path with
        | none => exact ⟨rfl,sound,rfl⟩
        | some data =>
          dsimp only
          rw [bind_apply,backupStat_run,Option.bind_some]
          cases backup.stat path with
          | none => exact ⟨rfl,sound,rfl⟩
          | some m => exact ⟨rfl,sound,rfl⟩

include direct in
variable (path) in
theorem poolReadRange_answer (start stop : Nat) (sound : e.CacheSound w) :
    (e.poolReadRange path start stop w []).value? = e.rangeAnswer w.primary path start stop ∧
      (e.poolReadRange path start stop w []).state = w := by
  unfold rangeAnswer
  rw [poolReadRange,bind_run (e.pendingRead_direct direct)]
  dsimp only
  rw [bind_run e.readCacheGet_run]
  cases entry : e.cached w path with
  | some data =>
    have found := sound path data entry
    rw [found,stat_of_read found]
    exact ⟨rfl,rfl⟩
  | none =>
    dsimp only
    cases there : w.primary.stat path with
    | some m =>
      have stated : primaryStat path w [] = .done (fileInfo path m) w [] := by rw [primaryStat_run,there]
      rw [bind_run (attempt_done stated)]
      dsimp only
      rw [bind_apply,primaryRead_run]
      cases w.primary.read path with
      | some data => exact ⟨rfl,rfl⟩
      | none => exact ⟨rfl,rfl⟩
    | none =>
      have failed : primaryStat path w [] = .failed (.notFound path) w [] := by rw [primaryStat_run,there]
      rw [bind_run (attempt_failed failed)]
      cases replica : e.backup with
      | none => exact ⟨rfl,rfl⟩
      | some backup =>
        dsimp only
        rw [bind_apply,backupStat_run,Option.bind_some]
        cases backup.stat path with
        | none => exact ⟨rfl,rfl⟩
        | some m =>
          dsimp only
          rw [bind_apply,backupRead_run,Option.bind_some]
          cases backup.read path with
          | none => exact ⟨rfl,rfl⟩
          | some data => exact ⟨rfl,rfl⟩

end answers

end Engine

/-! ### Runs -/

inductive PoolOp
  | write (path : Text) (data : Bytes)
  | writeStream (kind : WriterKind) (path : Text) (stream : ByteStream)
  | moveFile (src dst : Text)
  | copyFile (src dst : Text)
  | delete (path : Text)
  | removeTree (path : Text)

/-- A read, a change with how its calls go, or a cache entry that expires. -/
inductive PoolStep
  | read (path : Text)
  | readRange (path : Text) (start stop : Nat)
  | change (op : PoolOp) (cs : List (Choice EngineEnv))
  | expire (key : Text)

namespace Engine
variable (e : Engine)

/-- The state a change leaves, whatever it returns. -/
def changed (w : World) (cs : List (Choice EngineEnv)) : PoolOp → World
  | .write path data => (e.poolWrite path data w cs).state
  | .writeStream kind path stream => (e.poolWriteChunks kind path stream w cs).state
  | .moveFile src dst => (e.poolMoveFile src dst w cs).state
  | .copyFile src dst => (e.poolCopyFile src dst w cs).state
  | .delete path => (e.poolDelete path w cs).state
  | .removeTree path => (e.removeTree path w cs).state

def afterStep (w : World) : PoolStep → World
  | .read path => (e.poolRead path w []).state
  | .readRange path start stop => (e.poolReadRange path start stop w []).state
  | .change op cs => e.changed w cs op
  | .expire key => e.dropCached key w

/-- The bytes a read returns, or that there are none. -/
def outcome (w : World) : PoolStep → Option Bytes
  | .read path => (e.poolRead path w []).value?.map (·.1)
  | .readRange path start stop => (e.poolReadRange path start stop w []).value?
  | _ => none

/-- The outcomes of the reads of a run. -/
def outcomes : List PoolStep → World → List (Option Bytes)
  | [], _ => []
  | step::steps, w => e.outcome w step :: outcomes steps (e.afterStep w step)

/-- Steps after which no entry is left that should have been dropped. -/
def StepClean (w : World) : PoolStep → Prop
  | .change (.moveFile src dst) cs => e.MoveClean w src dst cs
  | .change (.writeStream kind path stream) cs => e.StreamUnseen w kind path stream cs
  | _ => True

def RunClean : List PoolStep → World → Prop
  | [], _ => True
  | step::steps, w => e.StepClean w step ∧ RunClean steps (e.afterStep w step)

section steps
variable {w w' : World} (direct : e.writeCache = none)

theorem changed_sound {cs : List (Choice EngineEnv)} {op : PoolOp} (sound : e.CacheSound w)
    (clean : e.StepClean w (.change op cs)) : e.CacheSound (e.changed w cs op) := by
  cases op with
  | write path data => exact (e.poolWrite_sound path data).state cs sound
  | writeStream kind path stream => exact e.poolWriteChunks_sound kind sound clean
  | moveFile src dst => exact e.poolMoveFile_sound sound clean
  | copyFile src dst => exact (e.poolCopyFile_sound src dst).state cs sound
  | delete path => exact (e.poolDelete_sound path).state cs sound
  | removeTree path => exact (e.removeTree_sound path).state cs sound

theorem changed_same (cs : List (Choice EngineEnv)) (op : PoolOp) (same : SameStored w w') :
    SameStored (e.changed w cs op) ((e.withoutReadCache direct).changed w' cs op) := by
  have renames (src dst : Text) := operate_simulates .other fun d => d.rename src dst
  have copies (src dst : Text) := operate_simulates .other fun d => d.copy src dst
  cases op with
  | write path data =>
    exact (((e.invalidate_simulates direct path).bind fun _ =>
      (operate_simulates .other fun d => d.write path data).bind fun _ =>
        e.poolStat_simulates direct path) w w' cs same).state
  | writeStream kind path stream =>
    exact (e.poolWriteChunks_simulates direct kind path stream w w' cs same).state
  | moveFile src dst =>
    exact (((e.invalidate_simulates direct src).bind fun _ => (e.invalidate_simulates direct dst).bind
      fun _ => (renames src dst).bind fun _ => e.poolStat_simulates direct dst) w w' cs same).state
  | copyFile src dst =>
    exact (((e.invalidate_simulates direct src).bind fun _ => (e.invalidate_simulates direct dst).bind
      fun _ => (copies src dst).bind fun _ => e.poolStat_simulates direct dst) w w' cs same).state
  | delete path =>
    have deletes (info : VfsFileInfo) : Simulates SameStored
        (e.invalidateReadCache path >>= fun _ =>
          if info.isDir then e.removeTree path >>= fun _ => pure info
          else primaryDelete path >>= fun _ => pure info)
        ((e.withoutReadCache direct).invalidateReadCache path >>= fun _ =>
          if info.isDir then (e.withoutReadCache direct).removeTree path >>= fun _ => pure info
          else primaryDelete path >>= fun _ => pure info) := by
      apply (e.invalidate_simulates direct path).bind
      intro _
      split
      · exact (e.removeTree_simulates direct path).bind fun _ => Simulates.pure info
      · exact (primaryDelete_simulates path).bind fun _ => Simulates.pure info
    exact (((e.poolStat_simulates direct path).bind deletes) w w' cs same).state
  | removeTree path => exact (e.removeTree_simulates direct path w w' cs same).state

theorem SameStored.trans {w₁ w₂ w₃ : World} (first : SameStored w₁ w₂) (second : SameStored w₂ w₃) :
    SameStored w₁ w₃ := by
  rw [SameStored,second,first]

theorem SameStored.symm {w₁ w₂ : World} (same : SameStored w₁ w₂) : SameStored w₂ w₁ := by
  rw [SameStored,same]

theorem withoutReadCache_sound (w : World) : (e.withoutReadCache direct).CacheSound w := by
  intro key data found
  cases found

/-- A clean step keeps the cache sound and the two engines together. -/
theorem step_kept {step : PoolStep} (sound : e.CacheSound w) (same : SameStored w w')
    (clean : e.StepClean w step) : e.CacheSound (e.afterStep w step) ∧
      SameStored (e.afterStep w step) ((e.withoutReadCache direct).afterStep w' step) := by
  have sound' := e.withoutReadCache_sound direct w'
  cases step with
  | read path =>
    obtain ⟨-,kept,stored⟩ := e.poolRead_answer direct path sound
    obtain ⟨-,-,stored'⟩ := (e.withoutReadCache direct).poolRead_answer direct path sound'
    exact ⟨kept,stored.symm.trans (same.trans stored')⟩
  | readRange path start stop =>
    obtain ⟨-,stays⟩ := e.poolReadRange_answer direct path start stop sound
    obtain ⟨-,stays'⟩ := (e.withoutReadCache direct).poolReadRange_answer direct path start stop sound'
    rw [afterStep,afterStep,stays,stays']
    exact ⟨sound,same⟩
  | change op cs => exact ⟨e.changed_sound sound clean,e.changed_same direct cs op same⟩
  | expire key =>
    refine ⟨?_,same.dropCached e (e.withoutReadCache direct) key⟩
    intro other data found
    rw [afterStep,cached_dropCached] at found
    split at found
    · cases found
    · exact sound other data found

/-- With a sound cache a step gives what it gives without one. -/
theorem outcome_same (sound : e.CacheSound w) (same : SameStored w w') (step : PoolStep) :
    e.outcome w step = (e.withoutReadCache direct).outcome w' step := by
  have sound' := e.withoutReadCache_sound direct w'
  cases step with
  | read path =>
    have answer := (e.poolRead_answer direct path sound).1
    have answer' := ((e.withoutReadCache direct).poolRead_answer direct path sound').1
    rw [same.primary] at answer'
    exact answer.trans answer'.symm
  | readRange path start stop =>
    have answer := (e.poolReadRange_answer direct path start stop sound).1
    have answer' :=
      ((e.withoutReadCache direct).poolReadRange_answer direct path start stop sound').1
    rw [same.primary] at answer'
    exact answer.trans answer'.symm
  | change op cs => rfl
  | expire key => rfl

theorem outcomes_same {steps : List PoolStep} (sound : e.CacheSound w) (same : SameStored w w')
    (clean : e.RunClean steps w) :
    e.outcomes steps w = (e.withoutReadCache direct).outcomes steps w' := by
  induction steps generalizing w w' with
  | nil => rfl
  | cons step steps ih =>
    obtain ⟨sound₁,same₁⟩ := e.step_kept direct sound same clean.1
    rw [outcomes,outcomes,e.outcome_same direct sound same step,ih sound₁ same₁ clean.2]

end steps

/-- In every run of clean steps the pool reads as it does without the read
cache. -/
theorem readCache_transparent (direct : e.writeCache = none) {w : World} {steps : List PoolStep}
    (sound : e.CacheSound w) (clean : e.RunClean steps w) :
    e.outcomes steps w = (e.withoutReadCache direct).outcomes steps w :=
  e.outcomes_same direct sound rfl clean

/-- An engine that caches whatever is read. -/
def cachingEngine : Engine := { plainEngine with
  readCache := some fun _ _ => true
  sharedReadCache := by simp [plainEngine] }

/-- A directory with a file in it. -/
def nestedWorld : World := worldOf [("u/d/f".toList,[1])] ["u".toList,"u/d".toList] []

/-- A file that is read, moved and read at both places. -/
theorem readCache_transparent_file :
    cachingEngine.outcomes [.read "u/d/f".toList,.change (.moveFile "u/d/f".toList "u/d/g".toList) [],
      .read "u/d/f".toList,.read "u/d/g".toList] nestedWorld =
    (cachingEngine.withoutReadCache rfl).outcomes [.read "u/d/f".toList,
      .change (.moveFile "u/d/f".toList "u/d/g".toList) [],.read "u/d/f".toList,.read "u/d/g".toList]
      nestedWorld := by
  apply readCache_transparent cachingEngine rfl
  · intro key data found
    cases found
  · refine ⟨trivial,?_,trivial,trivial,trivial⟩
    intro _ _ absent
    have there : ((cachingEngine.afterStep nestedWorld (.read "u/d/f".toList)).primary.files.lookup
      "u/d/f".toList).isSome = true := by decide +kernel
    rw [absent] at there
    cases there

/-- A file read, its directory moved, and the file read at its old place. -/
theorem moved_directory_still_read :
    cachingEngine.outcomes [.read "u/d/f".toList,.change (.moveFile "u/d".toList "u/c".toList) [],
      .read "u/d/f".toList] nestedWorld = [some [1],none,some [1]] ∧
    (cachingEngine.withoutReadCache rfl).outcomes [.read "u/d/f".toList,
      .change (.moveFile "u/d".toList "u/c".toList) [],.read "u/d/f".toList] nestedWorld =
        [some [1],none,none] := by
  decide +kernel

end Engine
end StorageHub.Scoped
