import StorageHub.Scoped.RenameRecovery
import StorageHub.Scoped.Deletions
import StorageHub.Scoped.WriteRecovery

/-! Trashing a tree and restoring one, across stops of the process and of the recovery. -/
namespace StorageHub.Scoped
open Library WriteCache Paths Protected Vfs Effect

/-! ### The disk -/

namespace Disk
variable {d d' : Disk} {src dst p path : Text}

theorem within_trans {a b c : Text} (inside : Text.within a b = true) (inside' : Text.within b c = true) :
    Text.within a c = true := by
  rcases Text.within_iff.mp inside with rfl | ⟨rest,rfl⟩
  · exact inside'
  · rcases Text.within_iff.mp inside' with rfl | ⟨rest',rfl⟩
    · exact inside
    · rw [List.append_assoc,List.cons_append]
      exact Text.within_append

/-- Nothing stays where a renamed tree was. -/
theorem rename_empties (tree : d.FileTree) (nonempty : src ≠ []) (renamed : d.rename src dst = some d')
    (inside : Text.within src p = true) : d'.Vacant p := by
  rcases Text.within_iff.mp inside with rfl | ⟨rest,split⟩
  · obtain ⟨file,dir⟩ := rename_leaves tree renamed
    exact ⟨file,dirs_none dir⟩
  · have under : Text.below src p = true := Text.below_iff.mpr ⟨rest,split⟩
    rcases rename_cases renamed with ⟨data,found,differ,accepted,rfl⟩ | ⟨-,present,outside,free,files,dirs,rfl⟩
    · have away : Text.within p dst = false := by
        rw [Bool.eq_false_iff]
        intro further
        have above : src ∈ ancestors dst := by
          apply mem_ancestors.mpr
          refine ⟨nonempty,?_⟩
          have whole := within_trans inside further
          rw [Text.within,Bool.or_eq_true,beq_iff_eq] at whole
          exact whole.resolve_left fun same => differ same.symm
        have none_ := (accepts_iff.mp accepted).2.2 src above
        rw [found] at none_
        cases none_
      obtain ⟨file,dir⟩ := tree.nothing_below nonempty found under
      constructor
      · refine (AList.lookup_insert_ne (ne_of_outside away)).trans ?_
        rw [Store.lookup_erase_eq,file,ite_self]
      · exact ancestors_vacant away (dirs_none dir)
    · have away : Text.within p dst = false := by
        rw [Bool.eq_false_iff]
        intro further
        rw [within_trans inside further] at outside
        cases outside
      have apart : Text.within dst p = false := by
        rw [Bool.eq_false_iff]
        intro further
        rcases Text.within_comparable inside further with one | other
        · rw [one] at outside
          cases outside
        · rw [Text.within,Bool.or_eq_true,beq_iff_eq] at other
          rcases other with same | above
          · rw [same,Text.within_self] at outside
            cases outside
          · rw [List.any_eq_false] at dirs
            exact dirs src (AList.mem_keys.mp (AList.lookup_isSome.mp present)) above
      have stays {ν : Type} {cells : Store Text ν} : Text.within src p = false → cells.lookup p = none := by
        intro none_
        rw [inside] at none_
        cases none_
      constructor
      · exact lookup_moveTree_none (anyWithin_of_below free files) apart stays
      · exact ancestors_vacant away (lookup_moveTree_none (lookup_erase_below d.dirs dirs) apart stays)

theorem createDir_cases (made : d.createDir path = some d') :
    d' = { d with dirs := (d.makeAncestors (normalizeEntryPath path)).insert (normalizeEntryPath path) () } ∧
      d.files.lookup (normalizeEntryPath path) = none ∧
        ∀ dir ∈ ancestors (normalizeEntryPath path), d.files.lookup dir = none := by
  rw [createDir] at made
  split at made
  next allowed =>
    rw [Bool.and_eq_true,Option.isNone_iff_eq_none,List.all_eq_true] at allowed
    refine ⟨(Option.some.inj made).symm,allowed.1,?_⟩
    exact fun dir above => Option.isNone_iff_eq_none.mp (allowed.2 dir above)
  next => cases made

theorem createDir_dirs (made : d.createDir path = some d') (p : Text) : (d'.dirs.lookup p).isSome =
    (decide (p = normalizeEntryPath path ∨ p ∈ ancestors (normalizeEntryPath path)) || (d.dirs.lookup p).isSome) := by
  obtain ⟨rfl,-,-⟩ := createDir_cases made
  rw [Store.lookup_insert_eq]
  by_cases here : p = normalizeEntryPath path
  · simp [here]
  · rw [if_neg here,lookup_makeAncestors]
    simp [here]

theorem ancestors_trans {dir above : Text} (first : dir ∈ ancestors path) (second : above ∈ ancestors dir) :
    above ∈ ancestors path := by
  obtain ⟨nonempty,under⟩ := mem_ancestors.mp second
  obtain ⟨-,under'⟩ := mem_ancestors.mp first
  obtain ⟨rest,rfl⟩ := Text.below_iff.mp under
  obtain ⟨rest',rfl⟩ := Text.below_iff.mp under'
  refine mem_ancestors.mpr ⟨nonempty,?_⟩
  rw [List.append_assoc,List.cons_append]
  exact Text.below_iff.mpr ⟨_,rfl⟩

/-- A new directory where none of the files is or stands keeps the tree one. -/
theorem createDir_tree (tree : d.FileTree) (made : d.createDir path = some d') : d'.FileTree := by
  have dirs := createDir_dirs made
  obtain ⟨same,free,above⟩ := createDir_cases made
  have files : d'.files = d.files := by rw [same]
  constructor
  · intro p data found dir ancestor
    rw [files] at found
    rw [dirs,tree.grounded p data found dir ancestor,Bool.or_true]
  · intro p present dir ancestor
    rw [dirs,Bool.or_eq_true,decide_eq_true_eq] at present ⊢
    rcases present with (rfl | inside) | old
    · exact .inl (.inr ancestor)
    · exact .inl (.inr (ancestors_trans inside ancestor))
    · exact .inr (tree.rooted p old dir ancestor)
  · intro p data found
    rw [files] at found
    apply dirs_none
    rw [dirs,tree.apart p data found,Option.isSome_none,Bool.or_false,decide_eq_false_iff_not]
    rintro (rfl | inside)
    · rw [found] at free
      cases free
    · rw [above p inside] at found
      cases found

end Disk

/-! ### A rewrite made twice -/

namespace Index
variable {sensitive : Bool} {userId path trashPath restoredPath : Text} {rows : Index}

/-- No row is at a path, and none is selected by its pattern. -/
def Unselected (sensitive : Bool) (userId path : Text) (rows : Index) : Prop :=
  ∀ row ∈ rows, at_ userId path row = false ∧ likeBelow sensitive userId path row = false

theorem Keyed.unique (keyed : Keyed rows) : uniqueUserPath rows = true := by
  rw [← List.map_id rows]
  apply (uniqueUserPath_map fun _ => rfl).mpr
  intro row inside other inside' differ same
  exact differ (congrArg IndexRow.id (keyed.of_key inside inside' same).symm)

theorem trashFile_unselected (keyed : Keyed rows) (none_ : Unselected sensitive userId path rows) (now : Int) :
    trashFile sensitive userId path trashPath now rows = .ok rows := by
  have top : rows.map (trashTop userId path trashPath now) = rows := by
    rw [List.map_congr_left (g := id)]
    · exact List.map_id rows
    · intro row inside
      rw [trashTop,if_neg (by rw [(none_ row inside).1]; exact Bool.false_ne_true)]
      rfl
  have liked : rows.map (trashLiked sensitive userId path trashPath now) = rows := by
    rw [List.map_congr_left (g := id)]
    · exact List.map_id rows
    · intro row inside
      rw [trashLiked,if_neg (by rw [(none_ row inside).2]; exact Bool.false_ne_true)]
      rfl
  rw [trashFile_eq,top,liked,keyed.unique]
  rfl

theorem restoreFile_unselected (none_ : Unselected sensitive userId trashPath rows) (now : Int) :
    restoreFile sensitive userId trashPath restoredPath now rows = .ok rows := by
  have selected : rows.filter (fun row => at_ userId trashPath row || likeBelow sensitive userId trashPath row) = [] := by
    rw [List.filter_eq_nil_iff]
    intro row inside
    rw [(none_ row inside).1,(none_ row inside).2]
    exact Bool.false_ne_true
  rw [restoreFile,selected,List.mergeSort_nil]
  rfl

/-- A tree taken elsewhere leaves no row at its path, unless a pattern finds it there. -/
theorem unselected_of_taken {f : IndexRow → IndexRow}
    (moved : ∀ row, (f row).path = Text.relocate path restoredPath row.path)
    (quiet : LikeQuiet sensitive userId path rows) (apart : Text.within restoredPath path = false)
    (again : ∀ row ∈ rows, inTree userId path row = true →
      Text.like sensitive (path ++ ['/','%']) (Text.relocate path restoredPath row.path) = false) :
    Unselected sensitive userId path (rows.map fun row => if inTree userId path row then f row else row) := by
  intro row' member
  obtain ⟨row,inside,rfl⟩ := List.mem_map.mp member
  by_cases placed : inTree userId path row = true
  · rw [if_pos placed]
    constructor
    · rw [Bool.eq_false_iff]
      intro here
      have same := (at_iff.mp here).2
      rw [moved] at same
      obtain ⟨-,-,-,there⟩ := Text.relocate_within restoredPath (inTree_parts placed).2
      rw [same,apart] at there
      cases there
    · rw [likeBelow,moved,again row inside placed,Bool.and_false]
  · rw [if_neg placed]
    have outside : row.userId = userId → Text.within path row.path = false := by
      intro owner
      rw [Bool.eq_false_iff]
      intro within_
      exact placed (by rw [inTree,owner,within_,beq_self_eq_true,Bool.and_true])
    constructor
    · rw [Bool.eq_false_iff]
      intro here
      obtain ⟨owner,same⟩ := at_iff.mp here
      have absent := outside owner
      rw [same,Text.within_self] at absent
      cases absent
    · rw [Bool.eq_false_iff]
      intro liked
      have owner := liked
      rw [likeBelow,Bool.and_eq_true,beq_iff_eq] at owner
      have under := quiet row inside liked
      have absent := outside owner.1
      rw [Text.within,under,Bool.or_true] at absent
      cases absent

end Index

/-! ### What a stop leaves -/

namespace Engine
variable (e : Engine)

/-- The tree is as it was. At most directories were made. -/
structure Unmoved (w w' : World) : Prop where
  files : w'.primary.files = w.primary.files
  dirs : ∀ p, (w.primary.dirs.lookup p).isSome = true → (w'.primary.dirs.lookup p).isSome = true
  index : w'.index = w.index

/-- All of the tree is at the new place and nothing of it at the old. -/
structure TreeMoved (src dst : Text) (w w' : World) : Prop where
  arrived : Disk.Arrived w.primary w'.primary (e.getPhysicalPath src) (e.getPhysicalPath dst)
  left : ∀ p, Text.within (e.getPhysicalPath src) p = true → w'.primary.Vacant p

/-- A disk with the same files and no fewer directories. -/
structure Grown (disk disk' : Disk) : Prop where
  files : disk'.files = disk.files
  dirs : ∀ p, (disk.dirs.lookup p).isSome = true → (disk'.dirs.lookup p).isSome = true
  tree : disk'.FileTree

variable {e} {r : LoggedRename} {w w' : World} {disks : Disk → Prop}

theorem treeMoved_of_renamed {disk disk' : Disk} (grown : Grown w.primary disk) (nonempty : e.getPhysicalPath r.src ≠ [])
    (renamed : disk.rename (e.getPhysicalPath r.src) (e.getPhysicalPath r.dst) = some disk') (primary : w'.primary = disk') :
    e.TreeMoved r.src r.dst w w' := by
  have arrived := Disk.rename_arrived grown.tree nonempty renamed
  rw [← primary] at renamed arrived
  refine ⟨⟨?_,?_⟩,fun p inside => Disk.rename_empties grown.tree nonempty renamed inside⟩
  · intro p data inside here
    rw [← grown.files] at here
    exact arrived.files p data inside here
  · exact fun p inside here => arrived.dirs p inside (grown.dirs p here)

theorem unmoved_of_stored {disk : Disk} (grown : Grown w.primary disk) (stored : w'.stored = ⟨disk,w.index⟩) :
    Unmoved w w' := by
  have primary : w'.primary = disk := congrArg Stored.disk stored
  refine ⟨?_,?_,congrArg Stored.index stored⟩
  · rw [primary,grown.files]
  · intro p present
    rw [primary]
    exact grown.dirs p present

/-- At no point is the tree in part or twice there, nor its rows for another place. -/
theorem unmoved_or_moved (grown : ∀ disk, disks disk → Grown w.primary disk) (nonempty : e.getPhysicalPath r.src ≠ [])
    (ended : r.Ended e w disks w') : Unmoved w w' ∨ e.TreeMoved r.src r.dst w w' ∧
      (w'.index = w.index ∨ ∃ now, r.rewrite now w.index = .ok w'.index) := by
  rcases ended with ⟨disk,given,here⟩ | ⟨disk,given,reached⟩
  · exact .inl (unmoved_of_stored (grown disk given) here.stored_eq)
  · cases reached with
    | before here =>
      obtain ⟨status,-,here⟩ := here
      exact .inl (unmoved_of_stored (grown disk given) here.stored_eq)
    | between here =>
      obtain ⟨disk',status,renamed,-,here⟩ := here
      refine .inr ⟨treeMoved_of_renamed (grown disk given) nonempty renamed (congrArg Stored.disk here.stored_eq),.inl ?_⟩
      exact congrArg Stored.index here.stored_eq
    | completed here =>
      obtain ⟨disk',index,now,status,renamed,made,here⟩ := here
      refine .inr ⟨treeMoved_of_renamed (grown disk given) nonempty renamed (congrArg Stored.disk here.stored_eq),.inr ⟨now,?_⟩⟩
      have same : w'.index = index := congrArg Stored.index here.stored_eq
      rw [same]
      exact made

theorem moved_of_done (grown : ∀ disk, disks disk → Grown w.primary disk) (nonempty : e.getPhysicalPath r.src ≠ [])
    (done : r.Done e w disks w') : e.TreeMoved r.src r.dst w w' ∧ ∃ now, r.rewrite now w.index = .ok w'.index := by
  obtain ⟨disk,given,disk',index,now,status,renamed,made,here⟩ := done
  refine ⟨treeMoved_of_renamed (grown disk given) nonempty renamed (congrArg Stored.disk here.stored_eq),now,?_⟩
  have same : w'.index = index := congrArg Stored.index here.stored_eq
  rw [same]
  exact made

theorem isRootProtected_meets {P : World → Prop} {path : Text}
    (noRoot : ∀ settings ∈ e.settings, settings.protectedRoot ≠ some ['/']) :
    Meets P (e.isRootProtectedPath path) (fun found w => P w ∧ found = false) (fun _ => P) P := by
  have other : ((e.settings.bind (·.protectedRoot)).filter fun root => matchesRoot root path) ≠ some ['/'] := by
    intro here
    obtain ⟨settings,given,root⟩ := Option.bind_eq_some_iff.mp (Option.filter_eq_some_iff.mp here).1
    exact noRoot settings given root
  have asked : Meets P e.getUserSettings (fun settings w => P w ∧ settings = e.settings) (fun _ => P) P := by
    unfold getUserSettings query
    apply meets_call
    · rintro env w settings w' holds _ made
      cases made
      exact ⟨holds,rfl⟩
    · intro env w err w' _ made
      cases made
    · exact fun _ _ holds => holds
    · exact fun _ holds => holds
  unfold isRootProtectedPath protectedRootForPath
  rw [bind_assoc]
  apply Meets.bind asked
  intro settings
  rw [pure_bind]
  apply Meets.pure
  rintro w ⟨holds,rfl⟩
  exact ⟨holds,beq_eq_false_iff_ne.mpr other⟩

/-- Where the root is not protected no plan is that of the root. -/
theorem getProtectedPlan_regular {P : World → Prop} {path : Text}
    (noRoot : ∀ settings ∈ e.settings, settings.protectedRoot ≠ some ['/']) :
    Meets P (e.getProtectedPlan path) (fun plan w => P w ∧ ∀ found, plan = some found → found.root ≠ ['/'])
      (fun _ => P) P := by
  have planned {plan : Option ProtectedPathPlan} (resolved : e.resolveProtectedPlan = .ok plan) {found : ProtectedPathPlan}
      (same : plan = some found) : found.root ≠ ['/'] := by
    rw [same,resolveProtectedPlan] at resolved
    split at resolved
    next => cases resolved
    next root given =>
      obtain ⟨settings,here,told⟩ := Option.bind_eq_some_iff.mp given
      cases domain : e.protectedDomain with
      | error err =>
        rw [domain] at resolved
        cases resolved
      | ok domain =>
        rw [domain] at resolved
        cases resolved
        intro top
        exact noRoot settings here (told.trans (congrArg some top))
  unfold getProtectedPlan
  apply Meets.bind (Q := fun plan w => P w ∧ ∀ found, plan = some found → found.root ≠ ['/'])
  · apply Meets.ofExcept
    · exact fun plan _ resolved holds => ⟨holds,fun found same => planned resolved same⟩
    · exact fun _ _ _ holds => holds
  · intro plan
    apply Meets.pure
    rintro w ⟨holds,regular⟩
    refine ⟨holds,fun found kept => ?_⟩
    exact regular found (Option.filter_eq_some_iff.mp kept).1

/-! ### Trashing -/

/-- A move to the bin in the steps that are logged. -/
def trashing (e : Engine) (path trashPath : Text) : LoggedRename where
  src := path
  dst := trashPath
  operation := .moveToTrash path trashPath
  rewrite := Index.trashFile e.caseSensitiveLike e.userId path trashPath

/-- Where a path goes that is trashed now. -/
def trashPathFor (w : World) (path : Text) : Text := trashPathOf w.nextUuid (lastSegment path)

/-- A path that can be trashed and logged. Nothing is yet where it goes, nothing is pending, the
patterns and replacements of the index reach the tree alone, also where it goes, and every
operation before has completed. -/
structure Trashable (e : Engine) (w : World) (path : Text) : Prop where
  shaped : FileShaped path
  outside : inRecycleBin path = false
  logged : e.walEnabled = true ∧ e.shouldSkipWalForPath path = false
  named : ∀ row, Index.getFileMetadata e.userId path w.index = some row → row.name = lastSegment path
  noRoot : ∀ settings ∈ e.settings, settings.protectedRoot ≠ some ['/']
  free : e.Unprotected (trashPathFor w path)
  tree : w.primary.FileTree
  vacant : w.primary.Vacant (e.getPhysicalPath (trashPathFor w path))
  unbacked : ∀ backup ∈ e.backup, backup.exists_ (e.getPhysicalPath (trashPathFor w path)) = false
  quiet : ∀ key ∈ [e.getPhysicalPath path,e.getPhysicalPath (trashPathFor w path)], w.shared.entries.lookup key = none
  keyed : w.index.Keyed
  fresh : ∀ row ∈ w.index, Index.inTree e.userId (trashPathFor w path) row = false
  exact_ : Index.TrashExact e.caseSensitiveLike e.userId path (trashPathFor w path) w.index
  again : ∀ row ∈ w.index, Index.inTree e.userId path row = true →
    Text.like e.caseSensitiveLike (path ++ ['/','%']) (Text.relocate path (trashPathFor w path) row.path) = false
  settled : ∀ row ∈ w.wal, row.status = .completed
  numbered : ∀ row ∈ w.wal, row.id < w.nextWal

/-- The tree is in the bin, with its rows. -/
structure Trashed (e : Engine) (path trashPath : Text) (w w' : World) : Prop where
  moved : e.TreeMoved path trashPath w w'
  rows : ∃ now, w'.index = Index.trashTree e.userId path trashPath now w.index

/-- The disk with the bin made or not. -/
def BinDisk (e : Engine) (w : World) (disk : Disk) : Prop :=
  disk = w.primary ∨ w.primary.createDir (e.getPhysicalPath recycleBin ++ ['/']) = some disk

section trash
variable {path trashPath : Text}

theorem recoverMoveToTrash_eq (status : WalStatus) : e.recoverMoveToTrash path trashPath status =
    e.isRootProtectedPath path >>= fun root => if root then
      (if status.hasMetadataDone then pure ()
      else e.byExistence path trashPath (e.indexTrashFile path trashPath) (pure ())
        (ambiguous "PROTECTED MOVE_TO_TRASH".toList (quoted "source ".toList path) (quoted "trash ".toList trashPath)))
      else (trashing e path trashPath).recover e status
        (ambiguous "MOVE_TO_TRASH".toList (quoted "source ".toList path) (quoted "trash ".toList trashPath)) := by
  unfold recoverMoveToTrash LoggedRename.recover
  rfl

theorem trashing_recovers {start : LoggedRename.Start} {status : WalStatus}
    (noRoot : ∀ settings ∈ e.settings, settings.protectedRoot ≠ some ['/'])
    (sound : (trashing e path trashPath).Sound e start) :
    Meets ((trashing e path trashPath).Known e start status)
      (e.recoverOperation (trashing e path trashPath).operation status)
      (fun _ => (trashing e path trashPath).Completed e start)
      (fun _ => (trashing e path trashPath).Reached e start) ((trashing e path trashPath).Reached e start) := by
  change Meets _ (e.recoverMoveToTrash path trashPath status) _ _ _
  rw [recoverMoveToTrash_eq]
  apply Meets.bind ((isRootProtected_meets noRoot).weaken (fun _ _ known => known.reached) fun _ known => known.reached)
  intro root
  apply Meets.of_fact
  rintro rfl
  exact LoggedRename.recover_meets sound status _

/-! ### What it is called -/

theorem getIndexMetadata_ensures (w : World) (path : Text) : Ensures (· = w) (e.getIndexMetadata path) fun row w' =>
    w' = w ∧ row = Index.getFileMetadata e.userId path w.index :=
  LoggedRename.query_meets.weaken (fun _ _ _ => trivial) fun _ _ => trivial

theorem keeps_here {α : Type} {m : Vfs α} (reads : ReadOnly m) (w : World) : Ensures (· = w) m fun _ w' => w' = w :=
  (reads.keeps _).weaken (fun _ _ _ => trivial) fun _ _ => trivial

variable {w : World}

theorem statPhysical_named (named : ∀ row, Index.getFileMetadata e.userId path w.index = some row → row.name = lastSegment path) :
    Ensures (· = w) (e.statPhysical path) fun info _ => info.name = lastSegment path := by
  unfold statPhysical
  apply Meets.bind (Q := fun row w' => w' = w ∧ ∀ found, row = some found → found.name = lastSegment path)
  · unfold indexProbe
    apply Meets.bind (Q := fun _ w' => w' = w) (Meets.get fun _ same => same)
    intro _
    split
    · exact Meets.pure fun _ same => ⟨same,fun found none_ => by cases none_⟩
    · apply Meets.bind (Q := fun result w' => w' = w ∧ ∀ row, result = .ok row →
        row = Index.getFileMetadata e.userId path w.index)
      · apply Meets.attempt
        apply LoggedRename.query_meets.consequence (fun _ same => same)
        · exact fun row w' told => ⟨told.1,fun other same => (Except.ok.inj same).symm.trans told.2⟩
        · intro err w' same
          refine ⟨same,fun row equal => ?_⟩
          cases equal
        · exact fun _ _ => trivial
      intro result
      cases result with
      | ok row =>
        apply Meets.pure
        intro w' told
        refine ⟨told.1,fun found same => named found ?_⟩
        rw [← told.2 row rfl,same]
      | error err => exact Meets.pure fun _ told => ⟨told.1,fun found none_ => by cases none_⟩
  intro row
  cases row with
  | some row =>
    have asked : Ensures (fun w' => w' = w ∧ ∀ found, some row = some found → found.name = lastSegment path)
        (e.poolExists (e.getPhysicalPath path)) fun _ _ => row.name = lastSegment path :=
      Ensures.of_pre fun _ told _ _ => told.2 row rfl
    apply Meets.bind asked
    intro present
    split
    · exact Meets.pure fun _ told => told
    · exact Meets.fail fun _ _ => trivial
  | none =>
    apply Meets.bind (Q := fun _ _ => True) (Ensures.of_pre fun _ _ _ _ => trivial)
    intro info
    exact Meets.pure fun _ _ => rfl

theorem statImpl_named (quiet : w.shared.entries.lookup (e.getPhysicalPath path) = none)
    (named : ∀ row, Index.getFileMetadata e.userId path w.index = some row → row.name = lastSegment path) :
    Ensures (· = w) (e.statImpl path) fun info _ => info.name = lastSegment path := by
  unfold statImpl
  split
  next =>
    apply meets_call
    · intro env w' info after _ _ made
      cases found : w'.temp.stat (tempPath path) with
      | none =>
        rw [found] at made
        cases made
      | some m =>
        rw [found] at made
        cases made
        rfl
    · exact fun _ _ _ _ _ _ => trivial
    · exact fun _ _ _ => trivial
    · exact fun _ _ => trivial
  next lasting =>
    apply Meets.bind (Q := fun hit w' => w' = w ∧ hit = none)
    · intro _ cs same
      have pending : e.pendingStat path = (do
          let info ← e.poolPendingStat (e.getPhysicalPath path)
          pure (info.map e.translateFileInfo)) := by
        rw [pendingStat,if_neg lasting]
      rw [same,pending,bind_run (LoggedRename.poolPendingStat_quiet quiet cs)]
      exact ⟨rfl,rfl⟩
    intro hit
    apply Meets.of_fact
    rintro rfl
    apply Meets.bind (keeps_here (e.getProtectedPlan_readOnly path) w)
    intro plan
    cases plan with
    | none => exact statPhysical_named named
    | some plan =>
      apply Meets.bind (getIndexMetadata_ensures w path)
      intro row
      cases row with
      | some row => exact Meets.pure fun _ told => named row told.2.symm
      | none =>
        dsimp only
        split
        · exact Meets.fail fun _ _ => trivial
        · exact (statPhysical_named named).consequence (fun _ told => told.1) (fun _ _ told => told)
            (fun _ _ told => told) fun _ told => told

/-! ### The move to the bin -/

theorem bin_physical (e : Engine) : e.getPhysicalPath recycleBin = e.userId ++ recycleBin :=
  physicalPath_fileShaped e.userId (by decide)

theorem trashPathOf_split (uuid : Nat) (name : Text) :
    trashPathOf uuid name = recycleBin ++ '/'::((toString uuid).toList ++ '_'::name) := by
  have bin : "/.recycle_bin/".toList = recycleBin ++ ['/'] := by decide
  unfold trashPathOf
  generalize (toString uuid).toList = digits
  rw [bin]
  simp only [List.append_assoc,List.cons_append,List.nil_append]

theorem trashPath_physical (e : Engine) (uuid : Nat) (name : Text) : e.getPhysicalPath (trashPathOf uuid name) =
    e.getPhysicalPath recycleBin ++ '/'::((toString uuid).toList ++ '_'::name) := by
  have bin : recycleBin = '/' :: '.' :: "recycle_bin".toList := by decide
  rw [trashPathOf_split,bin_physical,getPhysicalPath]
  generalize (toString uuid).toList ++ '_'::name = rest
  rw [bin,List.cons_append,List.cons_append,physicalPath_cons]
  · simp only [List.append_assoc,List.cons_append]
  · rw [List.head?_cons]
    decide

/-- Making the bin makes nothing where a path goes that is trashed. -/
theorem bin_apart (e : Engine) (uuid : Nat) (name : Text) :
    Text.within (e.getPhysicalPath (trashPathOf uuid name)) (e.getPhysicalPath recycleBin) = false := by
  rw [Bool.eq_false_iff,trashPath_physical]
  generalize (toString uuid).toList ++ '_'::name = rest
  intro inside
  rcases Text.within_iff.mp inside with same | ⟨tail,split⟩
  · have lengths := congrArg List.length same
    rw [List.length_append,List.length_cons] at lengths
    omega
  · have lengths := congrArg List.length split
    rw [List.length_append,List.length_append,List.length_cons,List.length_cons] at lengths
    omega

theorem lastSegment_slashless (path : Text) : '/' ∉ lastSegment path := by
  intro slash
  have differs := List.mem_rtakeWhile_imp (p := (· != '/')) slash
  simp at differs

theorem trashPath_plain (e : Engine) (w : World) (path : Text) :
    hasTrailingSlash (e.getPhysicalPath (trashPathFor w path)) = false := by
  have slashless := lastSegment_slashless path
  rw [trashPathFor,trashPath_physical]
  generalize lastSegment path = name at slashless
  generalize (toString w.nextUuid).toList = digits
  have whole : e.getPhysicalPath recycleBin ++ '/'::(digits ++ '_'::name) =
      (e.getPhysicalPath recycleBin ++ '/'::digits) ++ '_'::name := by simp
  rw [hasTrailingSlash,whole,List.getLast?_append_of_ne_nil _ (List.cons_ne_nil _ _),beq_eq_false_iff_ne]
  intro last
  rcases List.mem_cons.mp (List.mem_of_getLast? last) with same | inside
  · revert same
    decide
  · exact slashless inside

theorem trashPath_lasting (w : World) (path : Text) : isTempPath (trashPathFor w path) = false := by
  have bin : recycleBin = '/' :: '.' :: 'r' :: "ecycle_bin".toList := by decide
  have temp : logicalTempPrefix = '/' :: '.' :: 'v' :: "irtual/tmp".toList := by decide
  rw [trashPathFor,trashPathOf_split]
  generalize (toString w.nextUuid).toList ++ '_'::lastSegment path = rest
  rw [isTempPath,bin,temp]
  rfl

theorem Trashable.apart (ready : e.Trashable w path) : Text.within (trashPathFor w path) path = false := by
  rw [Bool.eq_false_iff]
  intro inside
  have outside := ready.outside
  rw [inRecycleBin,Bool.eq_false_iff] at outside
  apply outside
  have slash : "/.recycle_bin/".toList = recycleBin ++ ['/'] := by decide
  rw [slash]
  have below_ : Text.below recycleBin (trashPathFor w path) = true := by
    rw [trashPathFor,trashPathOf_split]
    exact Text.below_iff.mpr ⟨_,rfl⟩
  rcases Text.within_iff.mp inside with same | ⟨rest,split⟩
  · rw [same]
    exact below_
  · obtain ⟨tail,first⟩ := Text.below_iff.mp below_
    change Text.below recycleBin path = true
    rw [split,first,List.append_assoc,List.cons_append]
    exact Text.below_iff.mpr ⟨_,rfl⟩

theorem Trashable.trashed (ready : e.Trashable w path) {now : Int} {index : Index}
    (made : Index.trashFile e.caseSensitiveLike e.userId path (trashPathFor w path) now w.index = .ok index) :
    index = Index.trashTree e.userId path (trashPathFor w path) now w.index := by
  have vacant : Index.TrashVacant e.userId path (trashPathFor w path) w.index := Index.fresh_vacant ready.fresh
  have tree : Index.trashFile e.caseSensitiveLike e.userId path (trashPathFor w path) now w.index = .ok _ :=
    (Index.trashFile_exact_iff ⟨w.index,ready.keyed⟩).mpr ⟨ready.exact_,vacant⟩ now
  rw [made] at tree
  exact Except.ok.inj tree

theorem Trashable.grown (ready : e.Trashable w path) {disk : Disk} (given : e.BinDisk w disk) : Grown w.primary disk := by
  rcases given with rfl | made
  · exact ⟨rfl,fun _ present => present,ready.tree⟩
  · refine ⟨?_,?_,Disk.createDir_tree ready.tree made⟩
    · rw [(Disk.createDir_cases made).1]
    · intro p present
      rw [Disk.createDir_dirs made,present,Bool.or_true]

theorem Trashable.vacantAt (ready : e.Trashable w path) {disk : Disk} (given : e.BinDisk w disk) :
    disk.Vacant (e.getPhysicalPath (trashPathFor w path)) := by
  rcases given with rfl | made
  · exact ready.vacant
  · apply Disk.vacant_createDir _ ready.vacant made
    have nonempty : e.getPhysicalPath recycleBin ≠ [] := by
      rw [bin_physical]
      exact List.append_ne_nil_of_right_ne_nil _ (by decide)
    rw [normalizeEntryPath_slash nonempty]
    exact bin_apart e _ _

theorem Trashable.sound (ready : e.Trashable w path) {disk : Disk} (given : e.BinDisk w disk) :
    (trashing e path (trashPathFor w path)).Sound e (LoggedRename.startAt w disk) where
  lasting := trashPath_lasting w path
  free := ready.free
  vacant := by
    have nothing := ready.vacantAt given
    rw [← normalizeEntryPath_plain (trashPath_plain e w path)] at nothing
    change (disk.stat (e.getPhysicalPath (trashPathFor w path))).isSome = false
    rw [nothing.stat]
    rfl
  unbacked := ready.unbacked
  tree := (ready.grown given).tree
  again := by
    intro now index made now'
    have vacant : Index.TrashVacant e.userId path (trashPathFor w path) w.index := Index.fresh_vacant ready.fresh
    rw [ready.trashed made]
    apply Index.trashFile_unselected (Index.trashTree_keyed ready.keyed vacant)
    exact Index.unselected_of_taken (fun _ => rfl) ready.exact_.quiet ready.apart ready.again
  apart row inside same := by
    have smaller := ready.numbered row inside
    change row.id = w.nextWal at same
    omega
  settled := ready.settled

/-- What the operation may leave behind at any of its calls. -/
def TrashEnded (e : Engine) (w : World) (path : Text) : World → Prop :=
  (trashing e path (trashPathFor w path)).Ended e w (e.BinDisk w)

def TrashReady (e : Engine) (w : World) (path : Text) (disks : Disk → Prop) : World → Prop :=
  (trashing e path (trashPathFor w path)).Ready e w disks

theorem TrashReady.ended {w' : World} {disks : Disk → Prop} (sub : ∀ disk, disks disk → e.BinDisk w disk)
    (here : e.TrashReady w path disks w') : e.TrashEnded w path w' := by
  obtain ⟨⟨disk,given,stage⟩,-⟩ := here
  exact .inl ⟨disk,sub disk given,stage⟩

theorem ensureRecycleBin_meets : Meets (e.TrashReady w path (· = w.primary)) e.ensureRecycleBinInitialized
    (fun _ => e.TrashReady w path (e.BinDisk w)) (fun _ => e.TrashEnded w path) (e.TrashEnded w path) := by
  have early {w' : World} (here : e.TrashReady w path (· = w.primary) w') : e.TrashReady w path (e.BinDisk w) w' := by
    obtain ⟨⟨disk,same,stage⟩,number⟩ := here
    exact ⟨⟨disk,.inl same,stage⟩,number⟩
  have ended {w' : World} (here : e.TrashReady w path (e.BinDisk w) w') : e.TrashEnded w path w' :=
    here.ended fun _ given => given
  unfold ensureRecycleBinInitialized
  apply Meets.bind (Meets.get (Q := fun _ => e.TrashReady w path (· = w.primary)) fun _ here => here)
  intro _
  split
  · exact Meets.pure fun _ here => early here
  · apply Meets.bind (Q := fun _ => e.TrashReady w path (e.BinDisk w))
    · have plain : hasTrailingSlash (e.getPhysicalPath recycleBin) = false := by
        rw [bin_physical,hasTrailingSlash,List.getLast?_append_of_ne_nil _ (by decide)]
        decide
      unfold poolCreateDir
      rw [if_neg (by rw [plain]; exact Bool.false_ne_true)]
      have invalidated : Keeps (e.TrashReady w path (· = w.primary))
          (e.invalidateReadCache (e.getPhysicalPath recycleBin ++ ['/'])) := by
        apply Keeps.modify
        rintro w' ⟨⟨disk,same,stage⟩,number⟩
        exact ⟨⟨disk,same,stage.at_rest _ rfl rfl⟩,number⟩
      apply Meets.bind (invalidated.weaken (fun _ _ here => ended (early here)) fun _ here => ended (early here))
      intro _
      apply Meets.bind (Q := fun _ => e.TrashReady w path (e.BinDisk w))
      · apply meets_operate
        · rintro w' after ⟨⟨disk,same,stage⟩,number⟩ taken
          obtain ⟨disk',made,rfl⟩ := Option.map_eq_some_iff.mp taken
          have primary : w'.primary = w.primary := (congrArg Stored.disk stage.stored_eq).trans same
          rw [primary] at made
          have index : w'.index = w.index := congrArg Stored.index stage.stored_eq
          refine ⟨⟨disk',.inr made,?_,stage.quiet,stage.log_holds⟩,number⟩
          rw [← index]
          rfl
        · exact fun _ _ here => ended (early here)
        · exact fun _ here => ended (early here)
      · intro _
        exact ((e.poolStat_readOnly _).keeps _).weaken (fun _ _ here => ended here) fun _ here => ended here
    · intro _
      apply Meets.modify
      rintro w' ⟨⟨disk,given,stage⟩,number⟩
      exact ⟨⟨disk,given,stage.stored_eq,stage.quiet,stage.log_holds⟩,number⟩

theorem trashRegular_meets (ready : e.Trashable w path) : Meets (e.TrashReady w path (· = w.primary))
    (e.trashRegular path (trashPathFor w path))
    (fun _ => (trashing e path (trashPathFor w path)).Done e w (e.BinDisk w)) (fun _ => e.TrashEnded w path)
    (e.TrashEnded w path) := by
  have steps : e.trashRegular path (trashPathFor w path) = (do
      e.ensureRecycleBinInitialized
      e.beginWal (trashing e path (trashPathFor w path)).operation (e.shouldSkipWalForPath path) >>=
        (trashing e path (trashPathFor w path)).run e) := rfl
  rw [steps,ready.logged.2]
  apply Meets.bind ensureRecycleBin_meets
  intro _
  exact LoggedRename.logged_meets ready.logged.1 fun _ given => ready.sound given

theorem moveToTrashImpl_meets (ready : e.Trashable w path) : Meets (· = w) (e.moveToTrashImpl path)
    (fun _ => (trashing e path (trashPathFor w path)).Done e w (e.BinDisk w)) (fun _ => e.TrashEnded w path)
    (e.TrashEnded w path) := by
  have atStart : e.TrashReady w path (· = w.primary) w := ⟨⟨w.primary,rfl,rfl,ready.quiet,rfl⟩,rfl⟩
  have idle {w' : World} (same : w' = w) : e.TrashEnded w path w' := by
    rw [same]
    exact atStart.ended fun _ here => .inl here
  have reading {α : Type} {m : Vfs α} (reads : ReadOnly m) : Meets (· = w) m (fun _ w' => w' = w)
      (fun _ => e.TrashEnded w path) (e.TrashEnded w path) :=
    (reads.keeps _).weaken (fun _ _ same => idle same) fun _ same => idle same
  unfold moveToTrashImpl
  apply Meets.bind (reading checkMaintenance_readOnly)
  intro _
  have asked : ReadOnly (e.isProtectedSubdirPath path) := by
    unfold isProtectedSubdirPath
    apply e.getUserSettings_readOnly.bind
    intro settings
    split
    · exact ReadOnly.pure _
    · exact ReadOnly.pure _
  apply Meets.bind (reading asked)
  intro subdir
  split
  · exact Meets.fail fun _ same => idle same
  rw [ready.outside,if_neg Bool.false_ne_true]
  have first : w.shared.entries.lookup (e.getPhysicalPath path) = none := ready.quiet _ List.mem_cons_self
  have stated : Meets (· = w) (e.statImpl path) (fun info w' => w' = w ∧ info.name = lastSegment path)
      (fun _ => e.TrashEnded w path) (e.TrashEnded w path) :=
    ((reading (e.statImpl_readOnly path)).and (statImpl_named first ready.named)).weaken
      (fun _ _ left => left.1) fun _ left => left.1
  apply Meets.bind stated
  intro info
  apply Meets.of_fact
  intro name
  apply Meets.bind (Q := fun uuid w' => e.TrashReady w path (· = w.primary) w' ∧ uuid = w.nextUuid)
  · unfold freshUuid
    apply Meets.bind (Meets.get (Q := fun seen w' => w' = w ∧ seen = w) fun _ same => ⟨same,same⟩)
    intro seen
    apply Meets.bind (Q := fun _ w' => e.TrashReady w path (· = w.primary) w' ∧ seen = w)
    · apply Meets.modify
      rintro _ ⟨rfl,same⟩
      exact ⟨⟨⟨_,rfl,rfl,ready.quiet,rfl⟩,rfl⟩,same⟩
    · intro _
      exact Meets.pure fun _ told => ⟨told.1,congrArg World.nextUuid told.2⟩
  intro uuid
  apply Meets.of_fact
  rintro rfl
  rw [name]
  have planned : Meets (e.TrashReady w path (· = w.primary)) (e.getProtectedPlan path)
      (fun plan w' => e.TrashReady w path (· = w.primary) w' ∧ ∀ found, plan = some found → found.root ≠ ['/'])
      (fun _ => e.TrashEnded w path) (e.TrashEnded w path) :=
    (getProtectedPlan_regular ready.noRoot).weaken (fun _ _ here => here.ended fun _ same => .inl same)
      fun _ here => here.ended fun _ same => .inl same
  apply Meets.bind planned
  intro plan
  apply Meets.of_fact
  intro regular
  cases plan with
  | none => exact trashRegular_meets ready
  | some plan =>
    dsimp only
    rw [if_neg fun both => regular plan rfl both.1]
    exact trashRegular_meets ready

end trash

/-- A file, with no bin yet. -/
def unbinned : World := { oneFile with recycleBinInitialized := false }

theorem unbinned_trashable : plainEngine.Trashable unbinned "/a".toList where
  shaped := by decide
  outside := by decide
  logged := by decide
  named := by
    have found : Index.getFileMetadata "u".toList "/a".toList unbinned.index = some (Index.liveRow 1 "/a" false) := by
      decide +kernel
    intro row here
    have same : some row = some (Index.liveRow 1 "/a" false) := here.symm.trans found
    rw [Option.some.inj same]
    decide
  noRoot := by
    intro settings given
    cases given
  free := plain_unprotected _
  tree := Disk.FileTree.of_entries (by decide +kernel) (by decide +kernel) (by decide +kernel)
  vacant := ⟨by decide +kernel,by decide +kernel⟩
  unbacked := by
    intro backup given
    cases given
  quiet := by decide +kernel
  keyed := ⟨by decide,by decide +kernel⟩
  fresh := by decide +kernel
  exact_ := by
    refine ⟨?_,by decide +kernel,by decide +kernel⟩
    unfold Index.LikeQuiet
    decide +kernel
  again := by decide +kernel
  settled := by
    intro row inside
    cases inside
  numbered := by
    intro row inside
    cases inside

/-- A stop right after the rename, and one of the recovery after that. -/
def stoppedTrash : World := (Effect.stopAfter 7 (plainEngine.moveToTrashImpl "/a".toList) unbinned).state

def stoppedRecovery : World := (Effect.stopAfter 5 plainEngine.recoverAll stoppedTrash).state

end Engine
end StorageHub.Scoped
