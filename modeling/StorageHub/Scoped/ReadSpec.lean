import StorageHub.Scoped.DiskSpec
import StorageHub.Scoped.Read

/-! The reading side changes nothing, and what it answers when no call fails. -/
namespace StorageHub.Scoped
open Library WriteCache Protected Vfs Effect

namespace Vfs
variable {α : Type}

theorem call_readOnly {f : EngineEnv → World → Except VfsError α × World}
    (reads : ∀ env w, (f env w).2 = w) : ReadOnly (call f) := by
  apply ReadOnly.perform
  intro env w
  split
  · exact reads env w
  · rfl

theorem query_readOnly (f : World → α) : ReadOnly (query f) := call_readOnly fun _ _ => rfl

theorem call_run (f : EngineEnv → World → Except VfsError α × World) (w : World) :
    call f w [] = match f default w with
      | (.ok a,w') => .done a w' []
      | (.error err,w') => .failed err w' [] := by
  have ok : (default : EngineEnv).ok = true := rfl
  rw [call,perform]
  simp only [if_pos ok]
  cases f default w with
  | mk result w' => cases result <;> rfl

theorem call_ok {f : EngineEnv → World → Except VfsError α × World} {w w' : World} {a : α}
    (ran : f default w = (.ok a,w')) : call f w [] = .done a w' [] := by rw [call_run,ran]

@[simp] theorem query_run (f : World → α) (w : World) : query f w [] = .done (f w) w [] := rfl

@[simp] theorem update_run (f : World → World) (w : World) : update f w [] = .done () (f w) [] := rfl

theorem attempt_done {m : Vfs α} {w w' : World} {cs rest : List (Choice EngineEnv)} {a : α}
    (done : m w cs = .done a w' rest) : m.attempt w cs = .done (.ok a) w' rest := by
  rw [Effect.attempt,done]

theorem bind_run {β : Type} {m : Vfs α} {k : α → Vfs β} {w w' : World}
    {cs rest : List (Choice EngineEnv)} {a : α} (done : m w cs = .done a w' rest) :
    (m >>= k) w cs = k a w' rest := by
  rw [bind_apply,done]

end Vfs

theorem checkMaintenance_readOnly : ReadOnly checkMaintenance := by
  apply ReadOnly.bind ReadOnly.get
  intro w
  split
  · exact ReadOnly.fail _
  · exact ReadOnly.pure _

namespace Engine
variable (e : Engine)

/-! ### Nothing is changed -/

theorem poolPendingStat_readOnly (path : Text) : ReadOnly (e.poolPendingStat path) :=
  ReadOnly.get.bind fun _ => ReadOnly.pure _

theorem poolPendingRead_readOnly (path : Text) : ReadOnly (e.poolPendingRead path) :=
  ReadOnly.perform fun _ _ => rfl

theorem readCacheGet_readOnly (path : Text) : ReadOnly (e.readCacheGet path) :=
  ReadOnly.perform fun _ _ => rfl

theorem primaryStat_readOnly (path : Text) : ReadOnly (primaryStat path) := by
  apply call_readOnly
  intro env w
  split <;> rfl

theorem backupStat_readOnly (backup : Disk) (path : Text) : ReadOnly (backupStat backup path) := by
  apply call_readOnly
  intro env w
  split <;> rfl

theorem orBackup_readOnly {α : Type} {primary : Vfs α} {fallback : Disk → Vfs α}
    (reads : ReadOnly primary) (reads' : ∀ backup, ReadOnly (fallback backup)) :
    ReadOnly (e.orBackup primary fallback) := by
  apply reads.attempt.bind
  intro result
  split
  · exact ReadOnly.pure _
  · split
    · exact ReadOnly.fail _
    · exact reads' _

theorem poolStat_readOnly (path : Text) : ReadOnly (e.poolStat path) := by
  apply (e.poolPendingStat_readOnly path).bind
  intro hit
  split
  · exact ReadOnly.pure _
  · exact e.orBackup_readOnly (primaryStat_readOnly path) fun backup => backupStat_readOnly backup path

theorem poolExists_readOnly (path : Text) : ReadOnly (e.poolExists path) := by
  apply (e.poolPendingStat_readOnly path).bind
  intro hit
  split
  · exact ReadOnly.pure _
  · apply (query_readOnly _).attempt.bind
    intro result
    split
    · exact ReadOnly.pure _
    · exact ReadOnly.pure _
    · exact query_readOnly _
    · exact ReadOnly.fail _
    · exact query_readOnly _

theorem getProtectedPlan_readOnly (path : Text) : ReadOnly (e.getProtectedPlan path) :=
  (ReadOnly.ofExcept _).bind fun _ => ReadOnly.pure _

theorem getIndexMetadata_readOnly (path : Text) : ReadOnly (e.getIndexMetadata path) :=
  query_readOnly _

theorem getUserSettings_readOnly : ReadOnly e.getUserSettings := query_readOnly _

theorem pendingStat_readOnly (path : Text) : ReadOnly (e.pendingStat path) := by
  unfold pendingStat
  split
  · exact ReadOnly.pure _
  · exact (e.poolPendingStat_readOnly _).bind fun _ => ReadOnly.pure _

theorem tempStat_readOnly (path : Text) : ReadOnly (tempStat path) := by
  apply call_readOnly
  intro env w
  split <;> rfl

theorem indexProbe_readOnly (path : Text) : ReadOnly (e.indexProbe path) := by
  apply ReadOnly.get.bind
  intro w
  split
  · exact ReadOnly.pure _
  · apply (e.getIndexMetadata_readOnly path).attempt.bind
    intro result
    split <;> exact ReadOnly.pure _

theorem statPhysical_readOnly (path : Text) : ReadOnly (e.statPhysical path) := by
  apply (e.indexProbe_readOnly path).bind
  intro probe
  split
  · apply (e.poolExists_readOnly _).bind
    intro present
    split
    · exact ReadOnly.pure _
    · exact ReadOnly.fail _
  · exact (e.poolStat_readOnly _).bind fun _ => ReadOnly.pure _

theorem statImpl_readOnly (path : Text) : ReadOnly (e.statImpl path) := by
  unfold statImpl
  split
  · exact tempStat_readOnly path
  · apply (e.pendingStat_readOnly path).bind
    intro hit
    split
    · exact ReadOnly.pure _
    · apply (e.getProtectedPlan_readOnly path).bind
      intro plan
      split
      · exact e.statPhysical_readOnly path
      · apply (e.getIndexMetadata_readOnly path).bind
        intro row
        split
        · exact ReadOnly.pure _
        · split
          · exact ReadOnly.fail _
          · exact e.statPhysical_readOnly path

theorem existsImpl_readOnly (path : Text) : ReadOnly (e.existsImpl path) := by
  apply (e.pendingStat_readOnly path).bind
  intro hit
  split
  · exact ReadOnly.pure _
  · split
    · exact ReadOnly.get.bind fun _ => ReadOnly.pure _
    · apply (e.getIndexMetadata_readOnly path).bind
      intro row
      split
      · exact e.poolExists_readOnly _
      · apply (e.getProtectedPlan_readOnly path).bind
        intro plan
        split
        · split
          · exact ReadOnly.pure _
          · exact e.poolExists_readOnly _
        · exact e.poolExists_readOnly _

theorem checkQuota_readOnly (additionalSize : Int) : ReadOnly (e.checkQuota additionalSize) := by
  apply ReadOnly.get.bind
  intro w
  apply (query_readOnly _).bind
  intro used
  split
  · exact ReadOnly.pure _
  · split
    · exact ReadOnly.fail _
    · exact ReadOnly.pure _

theorem getFileSize_readOnly (path : Text) : ReadOnly (e.getFileSize path) := by
  apply (e.statImpl_readOnly path).attempt.bind
  intro result
  split <;> exact ReadOnly.pure _

/-! ### What the operators answer -/

theorem stat_of_read {d : Disk} {path : Text} {data : Bytes} (found : d.read path = some data) :
    d.stat path = some ⟨false,data.length⟩ := by
  unfold Disk.read at found
  split at found
  next => cases found
  next plain => exact Disk.stat_file found (by simpa using plain)

section operators
variable {w : World} {path : Text}

theorem primaryRead_run : primaryRead path w [] = match w.primary.read path with
    | some data => .done data w []
    | none => .failed (.notFound path) w [] := by
  rw [primaryRead,call_run]
  cases w.primary.read path with
  | some data => rfl
  | none => rfl

theorem primaryStat_run : primaryStat path w [] = match w.primary.stat path with
    | some m => .done (fileInfo path m) w []
    | none => .failed (.notFound path) w [] := by
  rw [primaryStat,call_run]
  cases w.primary.stat path with
  | some m => rfl
  | none => rfl

theorem backupRead_run (backup : Disk) : backupRead backup path w [] = match backup.read path with
    | some data => .done data w []
    | none => .failed (.notFound path) w [] := by
  rw [backupRead,call_run]
  cases backup.read path with
  | some data => rfl
  | none => rfl

theorem backupStat_run (backup : Disk) : backupStat backup path w [] = match backup.stat path with
    | some m => .done (fileInfo path m) w []
    | none => .failed (.notFound path) w [] := by
  rw [backupStat,call_run]
  cases backup.stat path with
  | some m => rfl
  | none => rfl

/-- A run that fails, as a value. -/
theorem attempt_failed {α : Type} {m : Vfs α} {w' : World} {cs rest : List (Choice EngineEnv)}
    {err : VfsError} (failed : m w cs = .failed err w' rest) :
    m.attempt w cs = .done (.error err) w' rest := by
  rw [Effect.attempt,failed]

/-- What a read of a key would be given by the read cache. -/
def cached (w : World) (key : Text) : Option Bytes :=
  if e.readCache.isSome then w.shared.readCache.lookup key else none

theorem readCacheGet_run : e.readCacheGet path w [] = .done (e.cached w path) w [] := by
  unfold readCacheGet perform cached
  dsimp only
  have ok : (default : EngineEnv).ok = true := rfl
  rw [ok,Bool.and_true]

end operators

/-! ### Undisturbed answers -/

/-- Whether the pool has something at a physical path. -/
def poolPresent (w : World) (path : Text) : Bool :=
  (e.pendingRecord path w).isSome || w.primary.exists_ path ||
    e.backup.any fun backup => backup.exists_ path

theorem poolExists_run (w : World) (path : Text) :
    e.poolExists path w [] = .done (e.poolPresent w path) w [] := by
  have pending : e.poolPendingStat path w [] =
      .done ((e.pendingRecord path w).map fun inner => fileInfo path ⟨false,inner.size⟩) w [] := rfl
  have asked : (query fun w => w.primary.exists_ path).attempt w [] =
      .done (.ok (w.primary.exists_ path)) w [] := rfl
  rw [poolExists,bind_run pending]
  cases record : e.pendingRecord path w with
  | some inner => simp [poolPresent,record]
  | none =>
    rw [Option.map_none]
    dsimp only
    rw [bind_run asked]
    cases present : w.primary.exists_ path with
    | true => simp [poolPresent,record,present]
    | false =>
      cases other : e.backup with
      | none => simp [poolPresent,record,present,other]
      | some backup => simp [poolPresent,record,present,other]

theorem getIndexMetadata_run (w : World) (path : Text) : e.getIndexMetadata path w [] =
    .done (Index.getFileMetadata e.userId path w.index) w [] := rfl

theorem getProtectedPlan_run {plan : Option ProtectedPathPlan} (w : World) (path : Text)
    (cs : List (Choice EngineEnv)) (resolved : e.resolveProtectedPlan = .ok plan) :
    e.getProtectedPlan path w cs = .done (plan.filter fun plan => plan.matchesPath path) w cs := by
  rw [getProtectedPlan,resolved]
  rfl

theorem pendingStat_run (w : World) (path : Text) (cs : List (Choice EngineEnv)) :
    e.pendingStat path w cs = .done (if isTempPath path then none else
      (e.pendingRecord (e.getPhysicalPath path) w).map fun inner =>
        e.translateFileInfo (fileInfo (e.getPhysicalPath path) ⟨false,inner.size⟩)) w cs := by
  unfold pendingStat
  split
  · rfl
  · change Outcome.done _ w cs = _
    rw [Option.map_map]
    rfl

/-- Whether `exists` finds a path that is not a temporary one. -/
def present (plan : Option ProtectedPathPlan) (w : World) (path : Text) : Bool :=
  e.poolPresent w (e.getPhysicalPath path) ||
    (Index.getFileMetadata e.userId path w.index).isNone &&
      (plan.filter fun plan => plan.matchesPath path).any fun plan => path = plan.root

theorem existsImpl_run {plan : Option ProtectedPathPlan} (w : World) {path : Text}
    (lasting : isTempPath path = false) (resolved : e.resolveProtectedPlan = .ok plan) :
    e.existsImpl path w [] = .done (e.present plan w path) w [] := by
  rw [existsImpl,bind_run (e.pendingStat_run w path [])]
  simp only [lasting,Bool.false_eq_true,if_false]
  cases record : e.pendingRecord (e.getPhysicalPath path) w with
  | some inner => simp [present,poolPresent,record]
  | none =>
    rw [Option.map_none]
    dsimp only
    rw [bind_run (e.getIndexMetadata_run w path)]
    cases row : Index.getFileMetadata e.userId path w.index with
    | some found => simp [present,row,e.poolExists_run]
    | none =>
      dsimp only
      rw [bind_run (e.getProtectedPlan_run w path [] resolved)]
      cases kept : plan.filter fun plan => plan.matchesPath path with
      | none => simp [present,row,kept,e.poolExists_run]
      | some plan =>
        rw [present,row,kept]
        by_cases top : path = plan.root
        · simp [top]
        · simp [top,e.poolExists_run]

end Engine
end StorageHub.Scoped
