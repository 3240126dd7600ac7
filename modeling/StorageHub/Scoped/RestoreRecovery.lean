import StorageHub.Scoped.TrashRecovery

/-! Restoring a tree from the bin, across stops of the process and of the recovery. -/
namespace StorageHub.Scoped
open Library WriteCache Paths Protected Vfs Effect

namespace Engine
variable {e : Engine} {trashPath originalPath : Text} {w : World}

/-- A restore in the steps that are logged. -/
def restoring (e : Engine) (trashPath originalPath : Text) : LoggedRename where
  src := trashPath
  dst := originalPath
  operation := .restoreTrash trashPath originalPath
  rewrite := Index.restoreFile e.caseSensitiveLike e.userId trashPath originalPath

/-- A path in the bin that can be restored and logged. Nothing is where it goes, no row has a
path that one of its rows gets, and the pattern of the bin path reaches its tree alone. -/
structure Restorable (e : Engine) (w : World) (trashPath originalPath : Text) : Prop where
  shaped : FileShaped trashPath
  shaped' : FileShaped originalPath
  original : (Index.getFileMetadata e.userId trashPath w.index).bind (·.originalPath) = some originalPath
  logged : e.walEnabled = true ∧ e.shouldSkipWalForPath trashPath = false
  lasting : isTempPath originalPath = false
  noRoot : ∀ settings ∈ e.settings, settings.protectedRoot ≠ some ['/']
  free : e.Unprotected originalPath
  tree : w.primary.FileTree
  vacant : w.primary.Vacant (e.getPhysicalPath originalPath)
  unbacked : ∀ backup ∈ e.backup, backup.exists_ (e.getPhysicalPath originalPath) = false
  quiet : ∀ key ∈ [e.getPhysicalPath trashPath,e.getPhysicalPath originalPath], w.shared.entries.lookup key = none
  keyed : w.index.Keyed
  like : Index.LikeQuiet e.caseSensitiveLike e.userId trashPath w.index
  room : ∀ row ∈ w.index, Index.inTree e.userId trashPath row = true → ∀ other ∈ w.index, other.userId = e.userId →
    other ≠ row → other.path ≠ Text.relocate trashPath originalPath row.path
  apart : Text.within originalPath trashPath = false
  again : ∀ row ∈ w.index, Index.inTree e.userId trashPath row = true →
    Text.like e.caseSensitiveLike (trashPath ++ ['/','%']) (Text.relocate trashPath originalPath row.path) = false
  settled : ∀ row ∈ w.wal, row.status = .completed
  numbered : ∀ row ∈ w.wal, row.id < w.nextWal

/-- The tree is back, with its rows. -/
structure BroughtBack (e : Engine) (trashPath originalPath : Text) (w w' : World) : Prop where
  moved : e.TreeMoved trashPath originalPath w w'
  rows : ∃ now, w'.index = Index.restoreTree e.userId trashPath originalPath now w.index

theorem recoverRestoreTrash_eq (status : WalStatus) : e.recoverRestoreTrash trashPath originalPath status =
    e.isRootProtectedPath originalPath >>= fun root => if root then
      (if status.hasMetadataDone then pure ()
      else e.byExistence trashPath originalPath (e.indexRestoreFile trashPath originalPath) (pure ())
        (ambiguous "PROTECTED RESTORE_TRASH".toList (quoted [] trashPath) (quoted [] originalPath)))
      else (restoring e trashPath originalPath).recover e status
        (ambiguous "RESTORE_TRASH".toList (quoted [] trashPath) (quoted [] originalPath)) := by
  unfold recoverRestoreTrash LoggedRename.recover
  rfl

theorem restoring_recovers {start : LoggedRename.Start} {status : WalStatus}
    (noRoot : ∀ settings ∈ e.settings, settings.protectedRoot ≠ some ['/'])
    (sound : (restoring e trashPath originalPath).Sound e start) :
    Meets ((restoring e trashPath originalPath).Known e start status)
      (e.recoverOperation (restoring e trashPath originalPath).operation status)
      (fun _ => (restoring e trashPath originalPath).Completed e start)
      (fun _ => (restoring e trashPath originalPath).Reached e start)
      ((restoring e trashPath originalPath).Reached e start) := by
  change Meets _ (e.recoverRestoreTrash trashPath originalPath status) _ _ _
  rw [recoverRestoreTrash_eq]
  apply Meets.bind ((isRootProtected_meets noRoot).weaken (fun _ _ known => known.reached) fun _ known => known.reached)
  intro root
  apply Meets.of_fact
  rintro rfl
  exact LoggedRename.recover_meets sound status _

theorem Restorable.brought (ready : e.Restorable w trashPath originalPath) {now : Int} {index : Index}
    (made : Index.restoreFile e.caseSensitiveLike e.userId trashPath originalPath now w.index = .ok index) :
    index = Index.restoreTree e.userId trashPath originalPath now w.index := by
  have tree : Index.restoreFile e.caseSensitiveLike e.userId trashPath originalPath now w.index = .ok _ :=
    Index.restoreFile_ok ready.keyed ready.like ready.room
  rw [made] at tree
  exact Except.ok.inj tree

theorem Restorable.sound (ready : e.Restorable w trashPath originalPath) :
    (restoring e trashPath originalPath).Sound e (LoggedRename.startAt w w.primary) where
  lasting := ready.lasting
  free := ready.free
  vacant := by
    have plain : hasTrailingSlash (e.getPhysicalPath originalPath) = false := by
      obtain ⟨rest,split,-⟩ := fileShaped_cons ready.shaped'
      have nonempty : originalPath ≠ [] := by
        rw [split]
        exact List.cons_ne_nil _ _
      rw [getPhysicalPath,physicalPath_fileShaped e.userId ready.shaped',hasTrailingSlash,
        List.getLast?_append_of_ne_nil _ nonempty,beq_eq_false_iff_ne]
      exact ready.shaped'.2.2.1
    have nothing := ready.vacant
    rw [← normalizeEntryPath_plain plain] at nothing
    change (w.primary.stat (e.getPhysicalPath originalPath)).isSome = false
    rw [nothing.stat]
    rfl
  unbacked := ready.unbacked
  tree := ready.tree
  again := by
    intro now index made now'
    rw [ready.brought made]
    apply Index.restoreFile_unselected
    exact Index.unselected_of_taken (fun _ => rfl) ready.like ready.apart ready.again
  apart row inside same := by
    have smaller := ready.numbered row inside
    change row.id = w.nextWal at same
    omega
  settled := ready.settled

theorem restoreFromTrashImpl_meets (ready : e.Restorable w trashPath originalPath) :
    Meets (· = w) (e.restoreFromTrashImpl trashPath)
      (fun _ => (restoring e trashPath originalPath).Done e w (· = w.primary))
      (fun _ => (restoring e trashPath originalPath).Ended e w (· = w.primary))
      ((restoring e trashPath originalPath).Ended e w (· = w.primary)) := by
  have idle {w' : World} (same : w' = w) : (restoring e trashPath originalPath).Ended e w (· = w.primary) w' := by
    rw [same]
    exact .inl ⟨w.primary,rfl,rfl,ready.quiet,rfl⟩
  unfold restoreFromTrashImpl
  apply Meets.bind (Q := fun _ w' => w' = w)
    ((checkMaintenance_readOnly.keeps _).weaken (fun _ _ same => idle same) fun _ same => idle same)
  intro _
  split
  · exact Meets.fail fun _ same => idle same
  apply Meets.bind (Q := fun found w' => w' = w ∧ (found.toOption.join.bind (·.originalPath) = none ∨
    found.toOption.join.bind (·.originalPath) = some originalPath))
  · apply Meets.attempt
    apply LoggedRename.query_meets.consequence (fun _ same => same)
    · rintro row w' ⟨same,rfl⟩
      exact ⟨same,.inr ready.original⟩
    · exact fun _ _ same => ⟨same,.inl rfl⟩
    · exact fun _ same => idle same
  intro found
  apply Meets.of_fact
  rintro (none_ | some_)
  · rw [none_]
    exact Meets.fail fun _ same => idle same
  rw [some_]
  dsimp only
  have planned : Meets (· = w) (e.getProtectedPlan originalPath)
      (fun plan w' => w' = w ∧ ∀ found, plan = some found → found.root ≠ ['/'])
      (fun _ => (restoring e trashPath originalPath).Ended e w (· = w.primary))
      ((restoring e trashPath originalPath).Ended e w (· = w.primary)) :=
    (getProtectedPlan_regular ready.noRoot).weaken (fun _ _ same => idle same) fun _ same => idle same
  have steps : e.restoreRegular trashPath originalPath =
      e.beginWal (restoring e trashPath originalPath).operation (e.shouldSkipWalForPath trashPath) >>=
        (restoring e trashPath originalPath).run e := rfl
  have restored : Meets (· = w) (e.restoreRegular trashPath originalPath)
      (fun _ => (restoring e trashPath originalPath).Done e w (· = w.primary))
      (fun _ => (restoring e trashPath originalPath).Ended e w (· = w.primary))
      ((restoring e trashPath originalPath).Ended e w (· = w.primary)) := by
    rw [steps,ready.logged.2]
    have ran : Meets ((restoring e trashPath originalPath).Ready e w (· = w.primary)) _ _ _ _ :=
      LoggedRename.logged_meets ready.logged.1 fun disk same => by rw [same]; exact ready.sound
    apply ran.consequence _ (fun _ _ done => done) (fun _ _ ended => ended) fun _ ended => ended
    rintro _ rfl
    exact ⟨⟨_,rfl,rfl,ready.quiet,rfl⟩,rfl⟩
  apply Meets.bind planned
  intro plan
  apply Meets.of_fact
  intro regular
  cases plan with
  | none => exact restored
  | some plan =>
    dsimp only
    rw [if_neg (regular plan rfl)]
    exact restored

theorem binnedFile_restorable : plainEngine.Restorable binnedFile "/.recycle_bin/1_a".toList "/a".toList where
  shaped := by decide
  shaped' := by decide
  original := by decide +kernel
  logged := by decide
  lasting := by decide
  noRoot := by
    intro settings given
    cases given
  free := plain_unprotected _
  tree := Disk.FileTree.of_entries (by decide +kernel) (by decide +kernel) (by decide +kernel)
  vacant := ⟨by decide +kernel,by decide +kernel⟩
  unbacked := by
    intro backup given
    cases given
  quiet := by decide +kernel
  keyed := ⟨by decide,by decide +kernel⟩
  like := by
    unfold Index.LikeQuiet
    decide +kernel
  room := by decide +kernel
  apart := by decide
  again := by decide +kernel
  settled := by
    intro row inside
    cases inside
  numbered := by
    intro row inside
    cases inside

/-- A stop right after the rename, and one of the recovery before it writes the index. -/
def stoppedRestore : World :=
  (Effect.stopAfter 6 (plainEngine.restoreFromTrashImpl "/.recycle_bin/1_a".toList) binnedFile).state

def stoppedReplay : World := (Effect.stopAfter 8 plainEngine.recoverAll stoppedRestore).state

end Engine
end StorageHub.Scoped
