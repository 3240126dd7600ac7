import StorageHub.Scoped.MoveIndex
import StorageHub.Scoped.Trash

/-! Restoring from the recycle bin, with its ways to fail. -/
namespace StorageHub.Scoped
open Library WriteCache Paths Protected Vfs Effect

namespace Engine
variable (e : Engine)

/-- The protection of a path, if any, is not that of a protected root. -/
def Regular (path : Text) : Prop :=
  ∀ plan, e.resolveProtectedPlan = .ok (some plan) → plan.matchesPath path = true → plan.root ≠ ['/']

/-! ### What a restore promises -/

/-- The files at or below a path are as they were. -/
def FilesKept (w w' : World) (path : Text) : Prop :=
  ∀ p data, Text.within (e.getPhysicalPath path) p = true → w.primary.files.lookup p = some data →
    w'.primary.files.lookup p = some data

/-- The tree has arrived, and its rows are live where it is. -/
structure Restored (w w' : World) (trashPath originalPath : Text) : Prop where
  tree : Disk.Arrived w.primary w'.primary (e.getPhysicalPath trashPath) (e.getPhysicalPath originalPath)
  rows : ∀ row ∈ w.index, Index.inTree e.userId trashPath row = true → ∃ row' ∈ w'.index,
    row'.id = row.id ∧ row'.path = Text.relocate trashPath originalPath row.path ∧
      row'.fileTrashedAt = none

/-- The tree is where it was, and so are its rows. -/
structure StillTrashed (w w' : World) (trashPath : Text) : Prop where
  files : ∀ p, Text.within (e.getPhysicalPath trashPath) p = true →
    w'.primary.files.lookup p = w.primary.files.lookup p
  dirs : ∀ p, Text.within (e.getPhysicalPath trashPath) p = true →
    (w'.primary.dirs.lookup p).isSome = (w.primary.dirs.lookup p).isSome
  rows : ∀ row ∈ w.index, Index.inTree e.userId trashPath row = true → row ∈ w'.index

/-- No file is lost, and the tree is restored or still in the bin with its rows. -/
def RestoreSafe (w : World) (trashPath originalPath : Text) :
    Outcome World EngineEnv VfsError VfsFileInfo → Prop
  | .done _ w' _ => e.FilesKept w w' originalPath ∧ e.Restored w w' trashPath originalPath
  | .failed _ w' _ => e.FilesKept w w' originalPath ∧ e.StillTrashed w w' trashPath
  | .crashed _ => True

/-! ### Its parts -/

/-- `restore_from_trash_impl` up to its log row. -/
def restoreToWal (trashPath originalPath : Text) : Vfs (Option Nat) := do
  checkMaintenance
  let found ← (e.getIndexMetadata trashPath).attempt
  match found.toOption.join.bind (·.originalPath) with
  | none => Effect.fail (.internal "Not in trash or original path lost".toList)
  | some _ => do
    let _ ← e.getProtectedPlan originalPath
    e.beginWal (.restoreTrash trashPath originalPath) (e.shouldSkipWalForPath trashPath)

/-- `move_regular_path_without_wal` up to the rename. -/
def renamePhysical (src dst : Text) : Vfs Unit := do
  if isTempPath src || isTempPath dst then
    Effect.fail (.internal "Recycle bin operations do not support temp paths".toList)
  else do
    e.flushPendingWriteCacheForPath src
    e.flushPendingWriteCacheForPath dst
    e.invalidateReadCache (e.getPhysicalPath src)
    e.invalidateReadCache (e.getPhysicalPath dst)
    operate .other fun w =>
      (w.primary.rename (e.getPhysicalPath src) (e.getPhysicalPath dst)).map w.setPrimary

/-- The two stats of what was renamed. -/
def statRenamed (dst : Text) : Vfs VfsFileInfo := do
  let _ ← e.poolStat (e.getPhysicalPath dst)
  e.statImpl dst

def restoreFromWal (trashPath originalPath : Text) (walId : Option Nat) : Vfs VfsFileInfo := do
  let info ← orFailWal walId (e.moveRegularPathWithoutWal trashPath originalPath)
  markWalPhysicalDone walId
  orFailWal walId (e.indexRestoreFile trashPath originalPath)
  completeWal walId
  pure info

/-- The whole up to the rename. -/
def restoreToRename (trashPath originalPath : Text) : Vfs Unit := do
  let _ ← e.restoreToWal trashPath originalPath
  e.renamePhysical trashPath originalPath

/-- The whole up to the call of the index. -/
def restoreToIndex (trashPath originalPath : Text) : Vfs Unit := do
  let walId ← e.restoreToWal trashPath originalPath
  let _ ← e.moveRegularPathWithoutWal trashPath originalPath
  markWalPhysicalDone walId

variable {e} {trashPath originalPath : Text}

theorem moveRegularPathWithoutWal_split (src dst : Text) : e.moveRegularPathWithoutWal src dst =
    e.renamePhysical src dst >>= fun _ => e.statRenamed dst := by
  unfold moveRegularPathWithoutWal renamePhysical
  split
  · rfl
  · simp only [poolMoveFile,statRenamed,bind_assoc]

/-- The plan found for a regular path is not the root's. -/
theorem Regular.root_ne {path : Text} {plan : ProtectedPathPlan} {w w' : World}
    {cs rest : List (Choice EngineEnv)} (regular : e.Regular path)
    (planned : e.getProtectedPlan path w cs = .done (some plan) w' rest) : plan.root ≠ ['/'] := by
  cases resolved : e.resolveProtectedPlan with
  | error err =>
    rw [getProtectedPlan,resolved] at planned
    cases planned
  | ok found =>
    rw [e.getProtectedPlan_run w path cs resolved] at planned
    obtain ⟨kept,-,-⟩ := Outcome.done.inj planned
    obtain ⟨same,matched⟩ := Option.filter_eq_some_iff.mp kept
    exact regular plan (by rw [resolved,same]) matched

theorem restoreFromTrashImpl_split {w : World} {cs : List (Choice EngineEnv)} {row : IndexRow}
    (binned : inRecycleBin trashPath = true) (regular : e.Regular originalPath)
    (found : Index.getFileMetadata e.userId trashPath w.index = some row)
    (original : row.originalPath = some originalPath) :
    e.restoreFromTrashImpl trashPath w cs =
      (e.restoreToWal trashPath originalPath >>= e.restoreFromWal trashPath originalPath) w cs := by
  have steps : e.restoreRegular trashPath originalPath = (do
      let walId ← e.beginWal (.restoreTrash trashPath originalPath) (e.shouldSkipWalForPath trashPath)
      e.restoreFromWal trashPath originalPath walId) := rfl
  unfold restoreFromTrashImpl restoreToWal
  rw [bind_assoc]
  apply bind_congr_readOnly checkMaintenance_readOnly
  intro _ rest _
  rw [binned,Bool.not_true,if_neg Bool.false_ne_true,bind_assoc]
  apply bind_congr_readOnly ((e.getIndexMetadata_readOnly trashPath).attempt)
  intro answer later answered
  rcases attempt_cases w rest answered with ⟨known,rfl,looked⟩ | ⟨err,rfl,-⟩
  · have here : known = some row := (query_done looked).1.trans found
    have path : (Except.ok known : Except VfsError (Option IndexRow)).toOption.join.bind
        (·.originalPath) = some originalPath := by
      rw [here]
      exact original
    rw [path,bind_assoc]
    apply bind_congr_readOnly (e.getProtectedPlan_readOnly originalPath)
    intro plan rest planned
    cases plan with
    | none => exact congrFun (congrFun steps w) rest
    | some plan =>
      dsimp only
      rw [if_neg (regular.root_ne planned)]
      exact congrFun (congrFun steps w) rest
  · rfl

/-! ### What the parts leave -/

/-- Nothing pending at the two paths, and what is stored. -/
def Quiet (e : Engine) (trashPath originalPath : Text) (stored : Stored) : World → Prop :=
  Stage [e.getPhysicalPath trashPath,e.getPhysicalPath originalPath] stored fun _ => True

/-- The primary after the rename, with the index as it was. -/
def HasRenamed (e : Engine) (trashPath originalPath : Text) (stored : Stored) (w : World) : Prop :=
  ∃ disk, stored.disk.rename (e.getPhysicalPath trashPath) (e.getPhysicalPath originalPath) =
    some disk ∧ w.stored = ⟨disk,stored.index⟩

variable {stored : Stored}

theorem quiet_ignoresLog : IgnoresLog (Quiet e trashPath originalPath stored) :=
  fun _ _ _ quiet => ⟨quiet.stored_eq,quiet.quiet,trivial⟩

theorem restoreToWal_keeps : Keeps (Quiet e trashPath originalPath stored)
    (e.restoreToWal trashPath originalPath) := by
  apply Keeps.bind (checkMaintenance_readOnly.keeps _)
  intro _
  apply Keeps.bind ((e.getIndexMetadata_readOnly trashPath).attempt.keeps _)
  intro found
  split
  · exact Keeps.fail _
  · apply Keeps.bind ((e.getProtectedPlan_readOnly originalPath).keeps _)
    intro _
    exact beginWal_keeps quiet_ignoresLog e _ _

theorem renamePhysical_meets : Meets (Quiet e trashPath originalPath stored)
    (e.renamePhysical trashPath originalPath)
    (fun _ => HasRenamed e trashPath originalPath stored)
    (fun _ => Quiet e trashPath originalPath stored) fun _ => True := by
  unfold renamePhysical
  split
  · exact Meets.fail fun _ quiet => quiet
  · apply Meets.bind (flushPending_stage e List.mem_cons_self)
    intro _
    apply Meets.bind (flushPending_stage e (List.mem_cons_of_mem _ List.mem_cons_self))
    intro _
    apply Meets.bind ((invalidateReadCache_keeps e _).weaken (fun _ _ quiet => quiet) fun _ _ => trivial)
    intro _
    apply Meets.bind ((invalidateReadCache_keeps e _).weaken (fun _ _ quiet => quiet) fun _ _ => trivial)
    intro _
    apply meets_operate
    · intro w w' quiet renamed
      obtain ⟨disk,made,rfl⟩ := Option.map_eq_some_iff.mp renamed
      refine ⟨disk,?_,?_⟩
      · rw [← quiet.stored_eq]
        exact made
      · rw [← quiet.stored_eq]
        rfl
    · exact fun _ _ quiet => quiet
    · exact fun _ _ => trivial

theorem statRenamed_readOnly (path : Text) : ReadOnly (e.statRenamed path) :=
  (e.poolStat_readOnly _).bind fun _ => e.statImpl_readOnly path

theorem markWal_stored (stored : Stored) (walId : Option Nat) (status : WalStatus) :
    Keeps (fun w => w.stored = stored) (markWal walId status) :=
  markWal_keeps (fun _ _ _ same => same) walId status

/-- Recording a status cannot fail. -/
theorem markWal_outcome (walId : Option Nat) (status : WalStatus) (w : World)
    (cs : List (Choice EngineEnv)) : (∃ w' rest, markWal walId status w cs = .done () w' rest ∧
      w'.stored = w.stored) ∨ ∃ w', markWal walId status w cs = .crashed w' := by
  have kept := markWal_stored w.stored walId status w cs rfl
  cases outcome : markWal walId status w cs with
  | done u w' rest =>
    rw [outcome] at kept
    exact .inl ⟨w',rest,rfl,kept⟩
  | crashed w' => exact .inr ⟨w',rfl⟩
  | failed err w' rest =>
    exfalso
    cases walId with
    | none => cases outcome
    | some id =>
      rcases bind_failed w cs outcome with early | ⟨a,middle,later,-,last⟩
      · exact attempt_never_fails w cs early
      · cases last

theorem orFailWal_done {α : Type} {m : Vfs α} {w w' : World} {cs rest : List (Choice EngineEnv)} {a : α}
    (walId : Option Nat) (done : m w cs = .done a w' rest) :
    orFailWal walId m w cs = .done a w' rest := by
  rw [orFailWal,bind_run (attempt_done done)]
  rfl

/-- An outcome that is an error with a given stored state, or a stop. -/
def FailsWith {α : Type} (stored : Stored) : Outcome World EngineEnv VfsError α → Prop
  | .done _ _ _ => False
  | .failed _ w' _ => w'.stored = stored
  | .crashed _ => True

theorem FailsWith.bind {α β : Type} {m : Vfs α} {k : α → Vfs β} {w : World}
    {cs : List (Choice EngineEnv)} (fails : FailsWith stored (m w cs)) :
    FailsWith stored ((m >>= k) w cs) := by
  rw [bind_apply]
  cases outcome : m w cs with
  | done a w' rest => rw [outcome] at fails; exact fails.elim
  | failed err w' rest => rw [outcome] at fails; exact fails
  | crashed w' => trivial

theorem orFailWal_fails {α : Type} {m : Vfs α} {w : World} {cs : List (Choice EngineEnv)}
    (walId : Option Nat) (fails : FailsWith stored (m w cs)) :
    FailsWith stored (orFailWal walId m w cs) := by
  rw [orFailWal,bind_apply,attempt]
  cases outcome : m w cs with
  | done a w' rest => rw [outcome] at fails; exact fails.elim
  | crashed w' => trivial
  | failed err w' rest =>
    rw [outcome] at fails
    dsimp only
    rw [bind_apply]
    rcases markWal_outcome walId .failed w' rest with ⟨w'',later,noted,same⟩ | ⟨w'',stopped⟩
    · rw [failWal,noted]
      exact same.trans fails
    · rw [failWal,stopped]
      trivial

theorem failsWith_readOnly {α : Type} {m : Vfs α} (reads : ReadOnly m) {w : World}
    {cs : List (Choice EngineEnv)} (unanswered : ∀ a w' rest, m w cs ≠ .done a w' rest) :
    FailsWith w.stored (m w cs) := by
  have kept := reads w w cs rfl
  cases outcome : m w cs with
  | done a w' rest => exact unanswered a w' rest outcome
  | failed err w' rest => rw [outcome] at kept; exact congrArg World.stored kept
  | crashed w' => trivial

/-! ### Which outcomes are safe -/

/-- A file at the original path has the bytes of the trashed one. -/
def Harmless (e : Engine) (w : World) (trashPath originalPath : Text) : Prop :=
  ∀ data, w.primary.files.lookup (e.getPhysicalPath originalPath) = some data →
    w.primary.files.lookup (e.getPhysicalPath trashPath) = some data

/-- The rows of the tree can be put back. -/
structure RestoreFits (e : Engine) (trashPath originalPath : Text) (rows : Index) : Prop where
  cut : ∀ row ∈ Index.restoredRows e.caseSensitiveLike e.userId trashPath rows,
    Index.Cut trashPath originalPath row
  free : Index.EachFree (Index.carried trashPath originalPath)
    (Index.restoredRows e.caseSensitiveLike e.userId trashPath rows) rows

section safety
variable {w w' : World} {info : VfsFileInfo} {err : VfsError} {rest : List (Choice EngineEnv)}

theorem safe_of_unchanged (same : w'.stored = w.stored) :
    e.RestoreSafe w trashPath originalPath (.failed err w' rest) := by
  have disk : w'.primary = w.primary := congrArg Stored.disk same
  have index : w'.index = w.index := congrArg Stored.index same
  refine ⟨?_,?_,?_,?_⟩
  · intro p data _ here
    rw [disk,here]
  · intro p _
    rw [disk]
  · intro p _
    rw [disk]
  · intro row inside _
    rw [index]
    exact inside

theorem unsafe_of_renamed (tree : w.primary.FileTree)
    (renamed : HasRenamed e trashPath originalPath w.stored w') :
    ¬e.RestoreSafe w trashPath originalPath (.failed err w' rest) := by
  rintro ⟨-,still⟩
  obtain ⟨disk,made,after⟩ := renamed
  have primary : w'.primary = disk := congrArg Stored.disk after
  obtain ⟨file,dir⟩ := Disk.rename_leaves tree made
  have here := Text.within_self (e.getPhysicalPath trashPath)
  have file' := still.files _ here
  have dir' := still.dirs _ here
  rw [primary,file] at file'
  rw [primary,dir] at dir'
  rcases Disk.rename_cases made with ⟨data,found,-⟩ | ⟨-,present,-⟩
  · have found : w.primary.files.lookup (e.getPhysicalPath trashPath) = some data := found
    rw [found] at file'
    cases file'
  · have present : (w.primary.dirs.lookup (e.getPhysicalPath trashPath)).isSome = true := present
    rw [present] at dir'
    cases dir'

theorem filesKept_iff (tree : w.primary.FileTree) (nonempty : e.getPhysicalPath originalPath ≠ [])
    {disk : Disk} (made : w.primary.rename (e.getPhysicalPath trashPath)
      (e.getPhysicalPath originalPath) = some disk) (primary : w'.primary = disk) :
    e.FilesKept w w' originalPath ↔ Harmless e w trashPath originalPath := by
  constructor
  · intro kept data here
    have after := kept _ data (Text.within_self _) here
    have replaced := (Disk.rename_files_at tree nonempty made (Text.within_self _) here).2
    rw [primary,replaced] at after
    exact after
  · intro harmless p data inside here
    obtain ⟨rfl,replaced⟩ := Disk.rename_files_at tree nonempty made inside here
    rw [primary,replaced]
    exact harmless data here

open Index in
theorem safe_done_iff (tree : w.primary.FileTree) (nonempty : e.getPhysicalPath trashPath ≠ [])
    (nonempty' : e.getPhysicalPath originalPath ≠ []) {now : Int}
    {disk : Disk} (made : w.primary.rename (e.getPhysicalPath trashPath)
      (e.getPhysicalPath originalPath) = some disk) (primary : w'.primary = disk)
    (rows : w'.index = Index.changed (restoredRow trashPath originalPath now)
      (restoredRows e.caseSensitiveLike e.userId trashPath w.index) w.index) :
    e.RestoreSafe w trashPath originalPath (.done info w' rest) ↔
      Harmless e w trashPath originalPath := by
  rw [← filesKept_iff tree nonempty' made primary]
  constructor
  · exact fun safe => safe.1
  · intro kept
    refine ⟨kept,?_,?_⟩
    · rw [primary]
      exact Disk.rename_arrived tree nonempty made
    · intro row inside placed
      have selected : row ∈ restoredRows e.caseSensitiveLike e.userId trashPath w.index :=
        inTree_restoredRows inside placed
      refine ⟨restoredRow trashPath originalPath now row,?_,rfl,?_,rfl⟩
      · rw [rows]
        exact List.mem_map.mpr ⟨row,inside,if_pos selected⟩
      · exact carried_within (inTree_parts placed).2

end safety

/-! ### The whole restore -/

section whole
variable {w w₁ : World} {cs cs₁ : List (Choice EngineEnv)} {walId : Option Nat}

theorem physical_ne_nil (e : Engine) {path : Text} (shaped : FileShaped path) :
    e.getPhysicalPath path ≠ [] := by
  obtain ⟨rest,split,-⟩ := fileShaped_cons shaped
  rw [getPhysicalPath,physicalPath_fileShaped e.userId shaped,split]
  simp

theorem unchanged_safe {outcome : Outcome World EngineEnv VfsError VfsFileInfo}
    (fails : FailsWith w.stored outcome) : e.RestoreSafe w trashPath originalPath outcome := by
  cases outcome with
  | done info w' rest => exact fails.elim
  | failed err w' rest => exact safe_of_unchanged fails
  | crashed w' => trivial

theorem renamed_unsafe {outcome : Outcome World EngineEnv VfsError VfsFileInfo}
    (tree : w.primary.FileTree) (renamed : HasRenamed e trashPath originalPath w.stored w₁)
    (fails : FailsWith w₁.stored outcome) (returned : outcome.hasCrashed = false) :
    ¬e.RestoreSafe w trashPath originalPath outcome := by
  cases outcome with
  | done info w' rest => exact fails.elim
  | crashed w' => cases returned
  | failed err w' rest =>
    obtain ⟨disk,made,after⟩ := renamed
    exact unsafe_of_renamed tree ⟨disk,made,fails.trans after⟩

/-- After the rename and its stats. -/
theorem settle_safe_iff (shaped : FileShaped trashPath) (shaped' : FileShaped originalPath)
    (tree : w.primary.FileTree) (keyed : w.index.Keyed)
    (renamed : HasRenamed e trashPath originalPath w.stored w₁) {info : VfsFileInfo}
    (returned : ((do
      markWalPhysicalDone walId
      orFailWal walId (e.indexRestoreFile trashPath originalPath)
      completeWal walId
      pure info) w₁ cs₁).hasCrashed = false) :
    e.RestoreSafe w trashPath originalPath ((do
      markWalPhysicalDone walId
      orFailWal walId (e.indexRestoreFile trashPath originalPath)
      completeWal walId
      pure info) w₁ cs₁) ↔
      (true = true → Harmless e w trashPath originalPath ∧
        RestoreFits e trashPath originalPath w.index ∧
        (markWalPhysicalDone walId w₁ cs₁).value?.isSome = true ∧
        Granted (markWalPhysicalDone walId w₁ cs₁).rest) := by
  rcases markWal_outcome walId .physicalDone w₁ cs₁ with ⟨w₂,cs₂,marked,same⟩ | ⟨w₂,stopped⟩
  · rw [markWalPhysicalDone,bind_run marked] at returned ⊢
    rw [marked]
    obtain ⟨disk,made,after⟩ := renamed
    have stored₂ : w₂.stored = ⟨disk,w.index⟩ := same.trans after
    have index₂ : w₂.index = w.index := congrArg Stored.index stored₂
    cases restoring : e.indexRestoreFile trashPath originalPath w₂ cs₂ with
    | crashed w₃ =>
      have stops : ((do
          orFailWal walId (e.indexRestoreFile trashPath originalPath)
          completeWal walId
          pure info) w₂ cs₂).hasCrashed = true := by
        rw [bind_apply,orFailWal,bind_apply,attempt,restoring]
        rfl
      rw [stops] at returned
      cases returned
    | failed err w₃ cs₃ =>
      obtain ⟨rfl,reason⟩ := transact_failed restoring
      have fails : FailsWith w₃.stored (e.indexRestoreFile trashPath originalPath w₃ cs₂) := by
        rw [restoring]
        rfl
      have lost := renamed_unsafe tree ⟨disk,made,stored₂⟩ (orFailWal_fails walId fails).bind returned
      refine iff_of_false lost ?_
      intro all
      obtain ⟨-,fits,-,granted⟩ := all rfl
      obtain ⟨now,refused⟩ := reason granted
      rw [index₂] at refused
      have restored : Index.restoreFile e.caseSensitiveLike e.userId trashPath originalPath now w.index =
          .ok _ := (Index.restoreFile_ok_iff keyed).mpr ⟨fits.cut,fits.free,rfl⟩
      rw [refused] at restored
      cases restored
    | done u w₃ cs₃ =>
      obtain ⟨granted,now,index,restored,rfl⟩ := transact_done restoring
      rw [index₂] at restored
      obtain ⟨cut,free,rows⟩ := (Index.restoreFile_ok_iff keyed).mp restored
      rw [bind_run (orFailWal_done walId restoring)] at returned ⊢
      rcases markWal_outcome walId .completed { w₂ with index } cs₃ with
        ⟨w₄,cs₄,noted,same₄⟩ | ⟨w₄,stopped⟩
      · rw [completeWal,bind_run noted]
        have primary : w₄.primary = disk :=
          (congrArg Stored.disk same₄).trans (congrArg Stored.disk stored₂)
        have index₄ : w₄.index = index := congrArg Stored.index same₄
        have safe : e.RestoreSafe w trashPath originalPath (.done info w₄ cs₄) ↔
            Harmless e w trashPath originalPath := safe_done_iff tree (physical_ne_nil e shaped)
          (physical_ne_nil e shaped') made primary (index₄.trans rows)
        refine safe.trans ?_
        constructor
        · exact fun harmless _ => ⟨harmless,⟨cut,free⟩,rfl,granted⟩
        · exact fun all => (all rfl).1
      · rw [completeWal,bind_apply,stopped] at returned
        cases returned
  · rw [markWalPhysicalDone,bind_apply,stopped] at returned
    cases returned

/-- Once the log row is there: the restore is safe if and only if, should the
rename happen, it harms no file, the two stats are answered, and the index takes
the rows. -/
theorem restoreFromWal_safe_iff (shaped : FileShaped trashPath) (shaped' : FileShaped originalPath)
    (tree : w.primary.FileTree) (keyed : w.index.Keyed)
    (quiet : Quiet e trashPath originalPath w.stored w₁)
    (returned : (e.restoreFromWal trashPath originalPath walId w₁ cs₁).hasCrashed = false) :
    e.RestoreSafe w trashPath originalPath (e.restoreFromWal trashPath originalPath walId w₁ cs₁) ↔
      ((e.renamePhysical trashPath originalPath w₁ cs₁).value?.isSome = true →
        Harmless e w trashPath originalPath ∧ RestoreFits e trashPath originalPath w.index ∧
        ((do
          let _ ← e.moveRegularPathWithoutWal trashPath originalPath
          markWalPhysicalDone walId) w₁ cs₁).value?.isSome = true ∧
        Granted ((do
          let _ ← e.moveRegularPathWithoutWal trashPath originalPath
          markWalPhysicalDone walId) w₁ cs₁).rest) := by
  have met := renamePhysical_meets w₁ cs₁ quiet
  rw [moveRegularPathWithoutWal_split]
  unfold restoreFromWal at returned ⊢
  rw [moveRegularPathWithoutWal_split] at returned ⊢
  cases renames : e.renamePhysical trashPath originalPath w₁ cs₁ with
  | crashed w₂ =>
    have fails : FailsWith w.stored ((do
        let _ ← e.renamePhysical trashPath originalPath
        e.statRenamed originalPath) w₁ cs₁) := by rw [bind_apply,renames]; trivial
    exact iff_of_true (unchanged_safe (orFailWal_fails walId fails).bind) fun value => by cases value
  | failed err w₂ cs₂ =>
    rw [renames] at met
    have fails : FailsWith w.stored ((do
        let _ ← e.renamePhysical trashPath originalPath
        e.statRenamed originalPath) w₁ cs₁) := by rw [bind_apply,renames]; exact met.stored_eq
    exact iff_of_true (unchanged_safe (orFailWal_fails walId fails).bind) fun value => by cases value
  | done u w₂ cs₂ =>
    rw [renames] at met
    have renamed : HasRenamed e trashPath originalPath w.stored w₂ := met
    have through : (e.renamePhysical trashPath originalPath >>= fun _ => e.statRenamed originalPath)
        w₁ cs₁ = e.statRenamed originalPath w₂ cs₂ := bind_run renames
    by_cases answered : ∃ info w₃ cs₃, e.statRenamed originalPath w₂ cs₂ = .done info w₃ cs₃
    · obtain ⟨info,w₃,cs₃,stated⟩ := answered
      have same : w₃ = w₂ := readOnly_done (statRenamed_readOnly originalPath) stated
      subst same
      have moved := through.trans stated
      rw [bind_run (orFailWal_done walId moved)] at returned ⊢
      rw [bind_run moved]
      exact settle_safe_iff shaped shaped' tree keyed renamed returned
    · have fails : FailsWith w₂.stored ((do
          let _ ← e.renamePhysical trashPath originalPath
          e.statRenamed originalPath) w₁ cs₁) := by
        rw [through]
        apply failsWith_readOnly (statRenamed_readOnly originalPath)
        exact fun info w₃ cs₃ stated => answered ⟨info,w₃,cs₃,stated⟩
      have lost := renamed_unsafe tree renamed (orFailWal_fails walId fails).bind returned
      refine iff_of_false lost ?_
      intro all
      obtain ⟨-,-,value,-⟩ := all rfl
      obtain ⟨u',w₃,cs₃,ran⟩ := Outcome.done_of_value value
      obtain ⟨info,middle,later,moved,-⟩ := bind_done w₁ cs₁ ran
      rw [through] at moved
      exact answered ⟨info,middle,later,moved⟩

/-- With nothing pending at either path, a restore that returns is safe if and
only if, should the rename happen, it replaces no file by other bytes, the two
stats of what was renamed are answered, and the call of the index is let through
and can put every selected row back. -/
theorem restoreFromTrashImpl_safe_iff (e : Engine) {trashPath originalPath : Text} {w : World}
    {cs : List (Choice EngineEnv)} {row : IndexRow}
    (shaped : FileShaped trashPath) (shaped' : FileShaped originalPath)
    (binned : inRecycleBin trashPath = true) (regular : e.Regular originalPath)
    (found : Index.getFileMetadata e.userId trashPath w.index = some row)
    (original : row.originalPath = some originalPath)
    (tree : w.primary.FileTree) (keyed : w.index.Keyed)
    (quiet : ∀ path ∈ [e.getPhysicalPath trashPath,e.getPhysicalPath originalPath],
      w.shared.entries.lookup path = none)
    (returned : (e.restoreFromTrashImpl trashPath w cs).hasCrashed = false) :
    e.RestoreSafe w trashPath originalPath (e.restoreFromTrashImpl trashPath w cs) ↔
      ((e.restoreToRename trashPath originalPath w cs).value?.isSome = true →
        Harmless e w trashPath originalPath ∧ RestoreFits e trashPath originalPath w.index ∧
        (e.restoreToIndex trashPath originalPath w cs).value?.isSome = true ∧
        Granted (e.restoreToIndex trashPath originalPath w cs).rest) := by
  rw [restoreFromTrashImpl_split binned regular found original] at returned ⊢
  have kept := @restoreToWal_keeps e trashPath originalPath _ w cs ⟨rfl,quiet,trivial⟩
  rw [restoreToRename,restoreToIndex]
  cases toWal : e.restoreToWal trashPath originalPath w cs with
  | crashed w₁ =>
    rw [bind_apply,toWal] at returned
    cases returned
  | failed err w₁ cs₁ =>
    rw [toWal] at kept
    have fails : FailsWith w.stored (e.restoreToWal trashPath originalPath w cs) := by
      rw [toWal]
      exact kept.stored_eq
    refine iff_of_true (unchanged_safe fails.bind) fun value => ?_
    rw [bind_apply,toWal] at value
    cases value
  | done walId w₁ cs₁ =>
    rw [toWal] at kept
    rw [bind_run toWal] at returned
    rw [bind_run toWal,bind_run toWal,bind_run toWal]
    exact restoreFromWal_safe_iff shaped shaped' tree keyed kept returned

end whole

/-- A file in the bin, and its old place free or not. -/
def binnedRow : IndexRow :=
  { Index.liveRow 1 "/.recycle_bin/1_a" false with
    fileTrashedAt := some 0
    originalPath := some "/a".toList }

def binnedFile : World := worldOf [("u/.recycle_bin/1_a".toList,[1])]
  ["u".toList,"u/.recycle_bin".toList] [binnedRow]

def binnedFileReplaced : World := worldOf [("u/.recycle_bin/1_a".toList,[1]),("u/a".toList,[2])]
  ["u".toList,"u/.recycle_bin".toList] [binnedRow,Index.liveRow 2 "/a" false]

theorem plain_regular (path : Text) : plainEngine.Regular path := by
  intro plan resolved
  cases resolved

/-- A file whose old place is free comes back. -/
theorem restore_free_safe : plainEngine.RestoreSafe binnedFile "/.recycle_bin/1_a".toList "/a".toList
    (plainEngine.restoreFromTrashImpl "/.recycle_bin/1_a".toList binnedFile []) := by
  have tree : binnedFile.primary.FileTree :=
    Disk.FileTree.of_entries (by decide +kernel) (by decide +kernel) (by decide +kernel)
  have keyed : binnedFile.index.Keyed := ⟨by decide,by decide +kernel⟩
  have found : Index.getFileMetadata "u".toList "/.recycle_bin/1_a".toList binnedFile.index =
      some binnedRow := by decide +kernel
  have harmless : Harmless plainEngine binnedFile "/.recycle_bin/1_a".toList "/a".toList := by
    intro data here
    have vacant : binnedFile.primary.files.lookup (plainEngine.getPhysicalPath "/a".toList) = none := by
      decide +kernel
    rw [vacant] at here
    cases here
  have fits : RestoreFits plainEngine "/.recycle_bin/1_a".toList "/a".toList binnedFile.index := by
    refine ⟨by decide +kernel,?_⟩
    exact Index.eachFree_of_apart (by decide +kernel) (by decide +kernel)
  exact (@restoreFromTrashImpl_safe_iff plainEngine _ _ _ _ binnedRow (by decide) (by decide)
    (by decide) (plain_regular _) found rfl tree keyed (by decide +kernel) (by decide +kernel)).mpr
    fun _ => ⟨harmless,fits,by decide +kernel,by decide +kernel⟩

/-- Where a file has taken the old place, the restore overwrites it, returns an
error, and the bin is empty. -/
theorem restore_overwrites_file :
    (plainEngine.restoreFromTrashImpl "/.recycle_bin/1_a".toList binnedFileReplaced []).hasCrashed =
        false ∧
      ¬plainEngine.RestoreSafe binnedFileReplaced "/.recycle_bin/1_a".toList "/a".toList
        (plainEngine.restoreFromTrashImpl "/.recycle_bin/1_a".toList binnedFileReplaced []) := by
  have failed : (plainEngine.restoreFromTrashImpl "/.recycle_bin/1_a".toList binnedFileReplaced
      []).value?.isNone = true := by decide +kernel
  have returned : (plainEngine.restoreFromTrashImpl "/.recycle_bin/1_a".toList binnedFileReplaced
      []).hasCrashed = false := by decide +kernel
  have gone : (plainEngine.restoreFromTrashImpl "/.recycle_bin/1_a".toList binnedFileReplaced
      []).state.primary.files.lookup "u/a".toList = some [1] := by decide +kernel
  refine ⟨returned,?_⟩
  cases outcome : plainEngine.restoreFromTrashImpl "/.recycle_bin/1_a".toList binnedFileReplaced [] with
  | done info w' rest =>
    rw [outcome] at failed
    cases failed
  | crashed w' =>
    rw [outcome] at returned
    cases returned
  | failed err w' rest =>
    rintro ⟨kept,-⟩
    rw [outcome] at gone
    have before : binnedFileReplaced.primary.files.lookup "u/a".toList = some [2] := by decide +kernel
    have after := kept "u/a".toList [2] (by decide +kernel) before
    have differs : some [(1 : UInt8)] = some [2] := gone.symm.trans after
    revert differs
    decide

end Engine
end StorageHub.Scoped
