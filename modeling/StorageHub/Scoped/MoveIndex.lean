import StorageHub.Scoped.Frames
import StorageHub.Scoped.IndexSelect

/-! A move that succeeds, and what the index then says of the tree. -/
namespace StorageHub.Scoped
open Library WriteCache Paths Protected Vfs Effect

/-- A row says of an object what a stat of it says. -/
def Describes (row : IndexRow) (m : Metadata) : Prop := row.isDir = m.isDir ∧ row.size = m.size

namespace Engine
variable (e : Engine)

/-- No protection applies to a path. -/
def Unprotected (path : Text) : Prop :=
  ∀ plan, e.resolveProtectedPlan = .ok (some plan) → plan.matchesPath path = false

/-- The object at a logical path: a pending write or what the primary has. -/
def objectAt (w : World) (path : Text) : Option Metadata :=
  match e.pendingRecord (e.getPhysicalPath path) w with
  | some inner => some ⟨false,inner.size⟩
  | none => w.primary.stat (e.getPhysicalPath path)

/-- The objects of a tree have live rows where `place` puts them. -/
def Rows (w : World) (src : Text) (place : Text → Text) (rows : Index) : Prop :=
  ∀ path m, Text.within src path = true → e.objectAt w path = some m →
    ∃ row ∈ rows, row.userId = e.userId ∧ row.path = place path ∧ row.fileTrashedAt = none ∧
      Scoped.Describes row m

structure FullyIndexed (w : World) (src : Text) : Prop where
  present : (e.objectAt w src).isSome
  rows : e.Rows w src id w.index

/-- The index follows the tree of `src` to `dst`. -/
structure IndexFollows (w : World) (src dst : Text) (rows : Index) : Prop where
  moved : e.Rows w src (Text.relocate src dst) rows
  gone : ∀ row ∈ rows, row.userId = e.userId → Text.within src row.path = false

/-- `move_file_impl` up to its call of the index. -/
def moveToIndex (src dst : Text) : Vfs (Option Nat) := do
  checkMaintenance
  let _ ← e.getProtectedPlan src
  let _ ← e.getProtectedPlan dst
  e.flushPendingWriteCacheForPath src
  e.flushPendingWriteCacheForPath dst
  let walId ← e.beginWal (.move src dst) (e.shouldSkipWalForPath src)
  let _ ← orFailWal walId (e.poolMoveFile (e.getPhysicalPath src) (e.getPhysicalPath dst))
  markWalPhysicalDone walId
  e.invalidateReadCache (e.getPhysicalPath src)
  e.invalidateReadCache (e.getPhysicalPath dst)
  pure walId

/-- The rest of it. -/
def moveFromIndex (src dst : Text) (walId : Option Nat) : Vfs VfsFileInfo := do
  let metadataComplete ← e.moveMetadata walId src dst
  let info ← orFailWal walId (e.statImpl dst)
  when metadataComplete (completeWal walId)
  pure info

variable {e} {src dst : Text}

theorem getProtectedPlan_unprotected {path : Text} (free : e.Unprotected path)
    {plan : Option ProtectedPathPlan} (resolved : e.resolveProtectedPlan = .ok plan) :
    e.getProtectedPlan path = pure none := by
  funext w cs
  rw [e.getProtectedPlan_run w path cs resolved]
  cases plan with
  | none => rfl
  | some plan =>
    rw [Option.filter,free plan resolved]
    rfl

theorem moveFileImpl_split (free : e.Unprotected src) (free' : e.Unprotected dst)
    (lasting : isTempPath src = false) (lasting' : isTempPath dst = false) :
    e.moveFileImpl src dst = e.moveToIndex src dst >>= e.moveFromIndex src dst := by
  unfold moveFileImpl moveToIndex
  cases resolved : e.resolveProtectedPlan with
  | error err =>
    have refused (path : Text) : e.getProtectedPlan path = fail err := by
      rw [getProtectedPlan,resolved]
      rfl
    simp only [refused,fail_bind,bind_assoc]
  | ok plan =>
    rw [getProtectedPlan_unprotected free resolved,getProtectedPlan_unprotected free' resolved]
    simp only [pure_bind,bind_assoc]
    simp only [moveRegular,movePrimary,moveFromIndex,lasting,lasting',if_true,Bool.false_eq_true,if_false]

/-! ### Up to the index -/

/-- The index is as it was and the files stand in directories. -/
def AtRest (rows : Index) (w : World) : Prop := w.index = rows ∧ w.primary.Grounded

theorem atRest_ignoresLog (rows : Index) : IgnoresLog (AtRest rows) := fun _ _ _ rest => rest

theorem atRest_survivesFlush (rows : Index) : SurvivesFlush (AtRest rows) := by
  rintro m env w task w' task' stepped ⟨index,grounded⟩
  obtain ⟨frame,kept | ⟨-,data,put⟩⟩ := flushWorldStep_cases stepped
  · refine ⟨?_,kept ▸ grounded⟩
    rw [frame]
    exact index
  · refine ⟨?_,?_⟩
    · rw [frame]
      exact index
    · rw [put]
      exact Disk.grounded_put grounded _ data

theorem poolMoveFile_renames (e : Engine) (rows : Index) (src dst : Text) :
    Ensures (AtRest rows) (e.poolMoveFile src dst) fun _ w => w.index = rows ∧
      ∃ before after : Disk, before.Grounded ∧ before.rename src dst = some after := by
  apply ensures_after (invalidate_keeps (fun _ _ rest => rest) e _)
  intro _
  apply ensures_after (invalidate_keeps (fun _ _ rest => rest) e _)
  intro _
  apply Meets.bind (Q := fun _ w => w.index = rows ∧
    ∃ before after : Disk, before.Grounded ∧ before.rename src dst = some after)
  · apply ensures_operate
    rintro w w' ⟨index,grounded⟩ renamed
    obtain ⟨after,same,rfl⟩ := Option.map_eq_some_iff.mp renamed
    exact ⟨index,w.primary,after,grounded,same⟩
  · intro _
    exact ((e.poolStat_readOnly dst).keeps _).weaken (fun _ _ _ => trivial) fun _ _ => trivial

theorem moveToIndex_done {w w' : World} {cs rest : List (Choice EngineEnv)} {walId : Option Nat}
    (grounded : w.primary.Grounded) (done : e.moveToIndex src dst w cs = .done walId w' rest) :
    w'.index = w.index ∧ ∃ before after : Disk, before.Grounded ∧
      before.rename (e.getPhysicalPath src) (e.getPhysicalPath dst) = some after := by
  have ensured : Ensures (AtRest w.index) (e.moveToIndex src dst) fun _ w' => w'.index = w.index ∧
      ∃ before after : Disk, before.Grounded ∧
        before.rename (e.getPhysicalPath src) (e.getPhysicalPath dst) = some after := by
    apply ensures_after (checkMaintenance_readOnly.keeps _)
    intro _
    apply ensures_after ((e.getProtectedPlan_readOnly src).keeps _)
    intro _
    apply ensures_after ((e.getProtectedPlan_readOnly dst).keeps _)
    intro _
    apply ensures_after (flushPending_keeps (atRest_survivesFlush _) e src)
    intro _
    apply ensures_after (flushPending_keeps (atRest_survivesFlush _) e dst)
    intro _
    apply ensures_after (beginWal_keeps (atRest_ignoresLog _) e _ _)
    intro walId
    apply Meets.bind (ensures_orFailWal walId (poolMoveFile_renames e w.index _ _))
    intro _
    apply ensures_after (markWal_keeps (fun _ _ _ holds => holds) walId .physicalDone)
    intro _
    apply ensures_after (invalidate_keeps (fun _ _ holds => holds) e _)
    intro _
    apply ensures_after (invalidate_keeps (fun _ _ holds => holds) e _)
    intro _
    exact Meets.pure fun _ holds => holds
  exact ensured.of_done ⟨rfl,grounded⟩ done

/-! ### From the index on -/

/-- What the rest of a move does to the index is the rewrite, when it goes
through, and nothing else. -/
theorem moveFromIndex_done {w w' : World} {cs rest : List (Choice EngineEnv)} {info : VfsFileInfo}
    {walId : Option Nat} (counted : isThumbnailCachePath src = false)
    (counted' : isThumbnailCachePath dst = false)
    (done : e.moveFromIndex src dst walId w cs = .done info w' rest) :
    (Granted cs ∧ ∃ now, Index.moveFile e.caseSensitiveLike e.userId src dst now w.index =
        .ok w'.index) ∨
    (w'.index = w.index ∧ (Granted cs → ∃ now,
      Index.moveFile e.caseSensitiveLike e.userId src dst now w.index = .error .uniqueUserPath)) := by
  obtain ⟨complete,middle,later,settled,finished⟩ := bind_done w cs done
  have same : w'.index = middle.index := by
    have kept : Keeps (fun w => w.index = middle.index) (do
        let info ← orFailWal walId (e.statImpl dst)
        when complete (completeWal walId)
        pure info) := by
      apply Keeps.bind (orFailWal_keeps (fun _ _ _ holds => holds) walId
        ((e.statImpl_readOnly dst).keeps _))
      intro info
      apply Keeps.bind
      · unfold Vfs.when
        split
        · exact markWal_keeps (fun _ _ _ holds => holds) walId .completed
        · exact Keeps.pure ()
      · exact fun _ => Keeps.pure info
    exact keeps_done kept rfl finished
  rw [same]
  rw [moveMetadata,counted,counted',Bool.or_false,if_neg Bool.false_ne_true] at settled
  obtain ⟨result,middle',later',attempted,noted⟩ := bind_done w cs settled
  rcases attempt_cases w cs attempted with ⟨u,rfl,made⟩ | ⟨err,rfl,refused⟩
  · obtain ⟨granted,now,index,moved,rfl⟩ := transact_done made
    obtain ⟨-,rfl,-⟩ := pure_done noted
    exact .inl ⟨granted,now,moved⟩
  · obtain ⟨rfl,reason⟩ := transact_failed refused
    have kept : Keeps (fun w => w.index = middle'.index) (do
        failWal walId
        pure false) := Keeps.bind (markWal_keeps (fun _ _ _ holds => holds) walId .failed)
      fun _ => Keeps.pure false
    exact .inr ⟨keeps_done kept rfl noted,reason⟩

/-! ### The whole move -/

/-- The rewrite of the index goes through, and no foreign row comes to lie
where the tree was. -/
structure MoveFits (e : Engine) (src dst : Text) (rows : Index) : Prop where
  cut : ∀ row ∈ Index.moveRows e.caseSensitiveLike e.userId src rows, Index.Cut src dst row
  free : Index.EachFree (Index.carried src dst)
    (Index.moveRows e.caseSensitiveLike e.userId src rows) rows
  clear : ∀ row ∈ Index.moveRows e.caseSensitiveLike e.userId src rows, row.userId = e.userId →
    Text.within src row.path = false → Text.within src (Index.carried src dst row) = false

open Index in
/-- What the rewrite makes of the rows follows the tree, unless a foreign row
comes to lie there. -/
theorem follows_changed_iff {w : World} {now : Int} (keyed : Keyed w.index)
    (indexed : e.FullyIndexed w src) (outside : Text.within src dst = false)
    (under : Text.within dst src = false) :
    e.IndexFollows w src dst (changed (carriedRow src dst now)
        (moveRows e.caseSensitiveLike e.userId src w.index) w.index) ↔
      ∀ row ∈ moveRows e.caseSensitiveLike e.userId src w.index, row.userId = e.userId →
        Text.within src row.path = false → Text.within src (carried src dst row) = false := by
  constructor
  · intro follows row member owner _
    have made : carriedRow src dst now row ∈ changed (carriedRow src dst now)
        (moveRows e.caseSensitiveLike e.userId src w.index) w.index :=
      List.mem_map.mpr ⟨row,moveRows_subset member,if_pos member⟩
    exact follows.gone _ made owner
  · intro clear
    constructor
    · intro path m inside object
      obtain ⟨row,member,owner,here,live,described⟩ := indexed.rows path m inside object
      have here : row.path = path := here
      have placed : inTree e.userId src row = true := by simp [inTree,owner,here,inside]
      have selected : row ∈ moveRows e.caseSensitiveLike e.userId src w.index :=
        inTree_moveRows keyed member placed
      refine ⟨carriedRow src dst now row,?_,owner,?_,?_,described⟩
      · exact List.mem_map.mpr ⟨row,member,if_pos selected⟩
      · change carried src dst row = _
        rw [carried_within (here ▸ inside),here]
      · change (if Text.startsWith recycleBin dst then row.fileTrashedAt else none) = none
        rw [live,ite_self]
    · intro row' member owner
      obtain ⟨row,inside,rfl⟩ := mem_changed member
      by_cases selected : row ∈ moveRows e.caseSensitiveLike e.userId src w.index
      · rw [if_pos selected] at owner ⊢
        change Text.within src (carried src dst row) = false
        cases tree : Text.within src row.path with
        | false => exact clear row selected owner tree
        | true =>
          rw [carried_within tree,Bool.eq_false_iff]
          intro again
          obtain ⟨-,-,-,there⟩ := Text.relocate_within dst tree
          rcases Text.within_comparable again there with first | second
          · rw [outside] at first
            cases first
          · rw [under] at second
            cases second
      · rw [if_neg selected] at owner ⊢
        rw [Bool.eq_false_iff]
        intro tree
        apply selected
        exact inTree_moveRows keyed inside (by simp [inTree,owner,tree])

/-- After a move of an indexed tree that returned, the index has followed it if
and only if the call of the index was let through and the rewrite fits. -/
theorem moveFileImpl_follows_iff (e : Engine) {src dst : Text} {w w' : World}
    {cs rest : List (Choice EngineEnv)} {info : VfsFileInfo}
    (shaped : FileShaped src) (shaped' : FileShaped dst)
    (free : e.Unprotected src) (free' : e.Unprotected dst)
    (lasting : isTempPath src = false) (lasting' : isTempPath dst = false)
    (counted : isThumbnailCachePath src = false) (counted' : isThumbnailCachePath dst = false)
    (outside : Text.within src dst = false) (keyed : w.index.Keyed) (grounded : w.primary.Grounded)
    (indexed : e.FullyIndexed w src) (done : e.moveFileImpl src dst w cs = .done info w' rest) :
    e.IndexFollows w src dst w'.index ↔
      MoveFits e src dst w.index ∧ Granted (e.moveToIndex src dst w cs).rest := by
  rw [moveFileImpl_split free free' lasting lasting'] at done
  obtain ⟨walId,w₁,later,upTo,after⟩ := bind_done w cs done
  obtain ⟨same,before,renamed,ground,moved⟩ := moveToIndex_done grounded upTo
  have under : Text.within dst src = false := by
    have apart : Text.below (e.getPhysicalPath dst) (e.getPhysicalPath src) = false := by
      apply Disk.rename_onto_above ground _ moved
      rw [Engine.getPhysicalPath,physicalPath_fileShaped e.userId shaped']
      intro empty
      rw [(List.append_eq_nil_iff.mp empty).2] at shaped'
      cases shaped'.1
    rw [Bool.eq_false_iff]
    intro inside
    rcases Text.within_iff.mp inside with equal | ⟨tail,split⟩
    · rw [equal,Text.within_self] at outside
      cases outside
    · rw [Engine.getPhysicalPath,Engine.getPhysicalPath,physicalPath_fileShaped e.userId shaped,
        physicalPath_fileShaped e.userId shaped',split,← List.append_assoc] at apart
      have found : Text.below (e.userId ++ dst) (e.userId ++ dst ++ '/'::tail) = true :=
        Text.below_iff.mpr ⟨tail,rfl⟩
      rw [apart] at found
      cases found
  have reached : (e.moveToIndex src dst w cs).rest = later := by rw [upTo,Outcome.rest]
  rw [reached]
  have outcome := moveFromIndex_done counted counted' after
  rw [same] at outcome
  rcases outcome with ⟨granted,now,made⟩ | ⟨unchanged,reason⟩
  · obtain ⟨cut,each,out⟩ := (Index.moveFile_ok_iff keyed).mp made
    rw [out,follows_changed_iff keyed indexed outside under]
    constructor
    · exact fun clear => ⟨⟨cut,each,clear⟩,granted⟩
    · exact fun holds => holds.1.clear
  · constructor
    · intro follows
      exfalso
      obtain ⟨m,object⟩ := Option.isSome_iff_exists.mp indexed.present
      obtain ⟨row,member,owner,here,-⟩ := indexed.rows src m (Text.within_self src) object
      have here : row.path = src := here
      rw [unchanged] at follows
      have gone := follows.gone row member owner
      rw [here,Text.within_self] at gone
      cases gone
    · rintro ⟨fits,granted⟩
      obtain ⟨now,refused⟩ := reason granted
      have made : Index.moveFile e.caseSensitiveLike e.userId src dst now w.index = .ok _ :=
        (Index.moveFile_ok_iff keyed).mpr ⟨fits.cut,fits.free,rfl⟩
      rw [refused] at made
      cases made

/-- A file with its row is an indexed tree. -/
theorem fullyIndexed_file {e : Engine} {src : Text} {w : World} {data : Bytes} {row : IndexRow}
    (shaped : FileShaped src) (uncached : e.writeCache = none)
    (found : w.primary.files.lookup (e.getPhysicalPath src) = some data)
    (files : ∀ p ∈ w.primary.files.keys, Text.below (e.getPhysicalPath src) p = false)
    (dirs : ∀ p ∈ w.primary.dirs.keys, Text.below (e.getPhysicalPath src) p = false)
    (inside : row ∈ w.index) (owner : row.userId = e.userId) (here : row.path = src)
    (live : row.fileTrashedAt = none) (described : Scoped.Describes row ⟨false,data.length⟩) :
    e.FullyIndexed w src := by
  have pending (path : Text) : e.pendingRecord path w = none := by rw [pendingRecord,uncached]; rfl
  have object (path : Text) : e.objectAt w path = w.primary.stat (e.getPhysicalPath path) := by
    rw [objectAt,pending]
  obtain ⟨tail,split,other,-⟩ := fileShaped_cons shaped
  have physical : e.getPhysicalPath src = e.userId ++ src := physicalPath_fileShaped e.userId shaped
  have plain : hasTrailingSlash (e.getPhysicalPath src) = false := by
    rw [physical,hasTrailingSlash,List.getLast?_append_of_ne_nil _ (by rw [split]; simp)]
    exact beq_eq_false_iff_ne.mpr shaped.2.2.1
  have nonempty : e.getPhysicalPath src ≠ [] := by
    rw [physical,split]
    simp
  have top : e.objectAt w src = some ⟨false,data.length⟩ := by
    rw [object,Disk.stat_file found plain]
  refine ⟨by rw [top]; rfl,?_⟩
  intro path m tree known
  rcases Text.within_iff.mp tree with same | ⟨rest,longer⟩
  · rw [same,top] at known
    cases known
    exact ⟨row,inside,owner,here.trans same.symm,live,described⟩
  · exfalso
    have below_ : e.getPhysicalPath path = e.getPhysicalPath src ++ '/'::rest := by
      rw [physical,longer,split,getPhysicalPath,List.cons_append,physicalPath_cons]
      · simp
      · cases tail with
        | nil => exact absurd split (by rintro rfl; exact shaped.2.2.1 rfl)
        | cons c tail => exact other
    have vacant {ν : Type} {cells : Store Text ν} (none_ : ∀ p ∈ cells.keys,
        Text.below (e.getPhysicalPath src) p = false) (p : Text)
        (under : Text.below (e.getPhysicalPath src) p = true) : cells.lookup p = none := by
      apply AList.lookup_eq_none.mpr
      intro present
      rw [none_ p (AList.mem_keys.mp present)] at under
      cases under
    rw [object,below_,Disk.stat_below_file nonempty found (vacant files) (vacant dirs)] at known
    cases known

/-- A file, and a place for it that is free or not. -/
def oneFile : World := worldOf [("u/a".toList,[1])] ["u".toList] [Index.liveRow 1 "/a" false]

def twoFiles : World := worldOf [("u/a".toList,[1]),("u/b".toList,[2])] ["u".toList]
  [Index.liveRow 1 "/a" false,Index.liveRow 2 "/b" false]

theorem oneFile_indexed : plainEngine.FullyIndexed oneFile "/a".toList :=
  @fullyIndexed_file _ _ _ [1] (Index.liveRow 1 "/a" false) (by decide) rfl (by decide +kernel)
    (by decide +kernel) (by decide +kernel) List.mem_cons_self rfl rfl rfl ⟨rfl,rfl⟩

theorem plain_unprotected (path : Text) : plainEngine.Unprotected path := by
  intro plan resolved
  cases resolved

/-- A file moved to where nothing is takes its row along. -/
theorem moveFileImpl_follows_free : ∃ info w' rest,
    plainEngine.moveFileImpl "/a".toList "/b".toList oneFile [] = .done info w' rest ∧
      plainEngine.IndexFollows oneFile "/a".toList "/b".toList w'.index := by
  have ran : (plainEngine.moveFileImpl "/a".toList "/b".toList oneFile []).value?.isSome = true := by
    decide +kernel
  obtain ⟨info,w',rest,done⟩ := Outcome.done_of_value ran
  refine ⟨info,w',rest,done,?_⟩
  have keyed : oneFile.index.Keyed := ⟨by decide,by decide +kernel⟩
  have grounded : oneFile.primary.Grounded := Disk.grounded_iff_entries.mpr (by decide +kernel)
  have fits : MoveFits plainEngine "/a".toList "/b".toList oneFile.index := by
    refine ⟨by decide +kernel,?_,by decide +kernel⟩
    exact Index.eachFree_of_apart (by decide +kernel) (by decide +kernel)
  have granted : Granted (plainEngine.moveToIndex "/a".toList "/b".toList oneFile []).rest := by
    decide +kernel
  exact (moveFileImpl_follows_iff plainEngine (by decide) (by decide) (plain_unprotected _)
    (plain_unprotected _) (by decide) (by decide) (by decide) (by decide) (by decide) keyed grounded
    oneFile_indexed done).mpr ⟨fits,granted⟩

/-- A move onto a file returns, and the row stays where the file was. -/
theorem move_onto_file_unindexed : ∃ info w' rest,
    plainEngine.moveFileImpl "/a".toList "/b".toList twoFiles [] = .done info w' rest ∧
      plainEngine.FullyIndexed twoFiles "/a".toList ∧
        ¬plainEngine.IndexFollows twoFiles "/a".toList "/b".toList w'.index := by
  have ran : (plainEngine.moveFileImpl "/a".toList "/b".toList twoFiles []).value?.isSome = true := by
    decide +kernel
  have left : (plainEngine.moveFileImpl "/a".toList "/b".toList twoFiles []).state.index.any
      (Index.at_ "u".toList "/a".toList) = true := by decide +kernel
  obtain ⟨info,w',rest,done⟩ := Outcome.done_of_value ran
  refine ⟨info,w',rest,done,?_,?_⟩
  · exact @fullyIndexed_file _ _ _ [1] (Index.liveRow 1 "/a" false) (by decide) rfl
      (by decide +kernel) (by decide +kernel) (by decide +kernel) List.mem_cons_self rfl rfl rfl ⟨rfl,rfl⟩
  · intro follows
    rw [done,Outcome.state] at left
    obtain ⟨row,inside,here⟩ := List.any_eq_true.mp left
    obtain ⟨owner,path⟩ := Index.at_iff.mp here
    have gone := follows.gone row inside owner
    rw [path,Text.within_self] at gone
    cases gone

end Engine
end StorageHub.Scoped
