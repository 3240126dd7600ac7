import Mathlib.Data.List.AList
import StorageHub.Scoped.FileIndex
import StorageHub.Library.StdPath

/-! The flags of a listing that say whether a file is shared, and the shares a visitor
can still open. -/
namespace StorageHub.Shares
open Library Scoped

structure Share where
  id : Text
  fileIndexId : Nat
  userId : Text
  expireAt : Option Int
  viewCount : Int
  maxDownloads : Option Int
  enableDirect : Bool
  snapshotPath : Option Text
  snapshotName : Option Text
  snapshotIsDir : Option Bool
  isDeleted : Bool
  createdAt : Int
  deriving DecidableEq,Repr

/-- Shares with their ids as primary key. -/
structure ShareTable where
  shares : List Share
  keyed : (shares.map Share.id).Nodup

/-! ### Opening a share -/

/-- What is left of a file whose row is gone. -/
def fallbackFileFromShareSnapshot (share : Share) : Option IndexRow := do
  let path ← share.snapshotPath
  pure {
    id := share.fileIndexId
    userId := share.userId
    parentPath := (((Text.parent path).filter fun value => !value.isEmpty).getD ['/'])
    name := share.snapshotName.getD ((Text.fileName path).getD "file".toList)
    path := path
    isDir := share.snapshotIsDir.getD false
    storageId := none
    backendType := none
    backendKey := none
    size := 0
    physicalSize := none
    protectedMeta := none
    fileTrashedAt := none
    rowCreatedAt := share.createdAt
    rowUpdatedAt := share.createdAt
    favoriteColor := 0
    originalPath := none }

def relatedFile (files : List IndexRow) (share : Share) : Option IndexRow :=
  files.find? fun file => file.id == share.fileIndexId && file.userId == share.userId

namespace ShareTable

def getShare (t : ShareTable) (files : List IndexRow) (id : Text) : Option (Share × Option IndexRow) :=
  (t.shares.find? fun share => share.id == id && !share.isDeleted).map fun share =>
    (share,(relatedFile files share).or (fallbackFileFromShareSnapshot share))

end ShareTable

/-! ### Soft deletes -/

/-- The filter of an UPDATE that sets is_deleted: `delete_share` names a share of a user,
`sync_trash_share_status` a file of a user. -/
inductive SoftDelete
  | deleteShare (userId id : Text)
  | syncTrashShareStatus (userId : Text) (fileIndexId : Nat)

def SoftDelete.addresses : SoftDelete → Share → Bool
  | .deleteShare userId id, share => share.id == id && share.userId == userId
  | .syncTrashShareStatus userId fileIndexId, share => share.userId == userId && share.fileIndexId == fileIndexId

def SoftDelete.mark (call : SoftDelete) (share : Share) : Share :=
  if call.addresses share then { share with isDeleted := true } else share

@[simp] theorem SoftDelete.mark_id (call : SoftDelete) (share : Share) : (call.mark share).id = share.id := by
  unfold SoftDelete.mark
  split <;> rfl

@[simp] theorem SoftDelete.mark_fileIndexId (call : SoftDelete) (share : Share) :
    (call.mark share).fileIndexId = share.fileIndexId := by
  unfold SoftDelete.mark
  split <;> rfl

@[simp] theorem SoftDelete.mark_enableDirect (call : SoftDelete) (share : Share) :
    (call.mark share).enableDirect = share.enableDirect := by
  unfold SoftDelete.mark
  split <;> rfl

namespace ShareTable

def softDelete (t : ShareTable) (call : SoftDelete) : ShareTable where
  shares := t.shares.map call.mark
  keyed := by
    have same : (t.shares.map call.mark).map Share.id = t.shares.map Share.id := by
      rw [List.map_map]
      apply List.map_congr_left
      intro share _
      exact call.mark_id share
    rw [same]
    exact t.keyed

def deleteShare (t : ShareTable) (userId id : Text) : ShareTable := t.softDelete (.deleteShare userId id)

def syncTrashShareStatus (t : ShareTable) (userId : Text) (fileIndexId : Nat) : ShareTable :=
  t.softDelete (.syncTrashShareStatus userId fileIndexId)

def softDeletes (t : ShareTable) (calls : List SoftDelete) : ShareTable := calls.foldl softDelete t

end ShareTable

/-! ### The flags -/

def Share.isExpired (now : Int) (share : Share) : Bool := share.expireAt.any fun expireAt => expireAt < now

def Share.isLimitReached (share : Share) : Bool :=
  share.maxDownloads.any fun maxDownloads => 0 < maxDownloads && maxDownloads ≤ share.viewCount

def Share.isActive (now : Int) (share : Share) : Bool := !share.isExpired now && !share.isLimitReached

@[simp] theorem SoftDelete.mark_isActive (call : SoftDelete) (now : Int) (share : Share) :
    (call.mark share).isActive now = share.isActive now := by
  unfold SoftDelete.mark
  split <;> rfl

abbrev Flags := AList fun _ : Nat => Bool × Bool

def Flags.status (res : Flags) (fileId : Nat) : Bool × Bool := (res.lookup fileId).getD (false,false)

def flag (now : Int) (res : Flags) (share : Share) : Flags :=
  if share.isActive now then
    let entry := res.status share.fileIndexId
    res.insert share.fileIndexId (true,entry.2 || share.enableDirect)
  else res

/-- All shares of the files are read, the deleted ones too. -/
def ShareTable.getActiveSharesForFiles (t : ShareTable) (now : Int) (fileIds : List Nat) : Flags :=
  if fileIds.isEmpty then ∅
  else (t.shares.filter fun share => fileIds.contains share.fileIndexId).foldl (flag now) ∅

@[simp] theorem Flags.status_empty (fileId : Nat) : Flags.status ∅ fileId = (false,false) := by
  rw [Flags.status,AList.lookup_empty]
  rfl

theorem flag_status (now : Int) (res : Flags) (share : Share) (fileId : Nat) :
    (flag now res share).status fileId =
      ((res.status fileId).1 || (share.isActive now && share.fileIndexId == fileId),
        (res.status fileId).2 || (share.isActive now && share.fileIndexId == fileId && share.enableDirect)) := by
  unfold flag
  cases active : share.isActive now with
  | false => simp
  | true =>
    by_cases same : share.fileIndexId = fileId
    · have inserted : Flags.status (AList.insert share.fileIndexId
          (true,(res.status share.fileIndexId).2 || share.enableDirect) res) fileId =
          (true,(res.status fileId).2 || share.enableDirect) := by
        rw [same,Flags.status,AList.lookup_insert]
        rfl
      rw [if_pos rfl,inserted]
      simp [same]
    · have kept : Flags.status (AList.insert share.fileIndexId
          (true,(res.status share.fileIndexId).2 || share.enableDirect) res) fileId = res.status fileId := by
        rw [Flags.status,AList.lookup_insert_ne (Ne.symm same)]
        rfl
      have other : (share.fileIndexId == fileId) = false := beq_eq_false_iff_ne.mpr same
      rw [if_pos rfl,kept,other]
      simp

/-- A flag is up when it was before or some share of the file raises it. -/
theorem foldl_flag_status (now : Int) (shares : List Share) (res : Flags) (fileId : Nat) :
    (shares.foldl (flag now) res).status fileId =
      ((res.status fileId).1 || shares.any fun share => share.isActive now && share.fileIndexId == fileId,
        (res.status fileId).2 ||
          shares.any fun share => share.isActive now && share.fileIndexId == fileId && share.enableDirect) := by
  induction shares generalizing res with
  | nil => simp
  | cons share rest ih =>
    rw [List.foldl_cons,ih,flag_status,List.any_cons,List.any_cons]
    simp only [Bool.or_assoc]

namespace ShareTable

/-- A flag of a listed file says that some share of it is active, deleted or not. -/
theorem status_of_shares (t : ShareTable) (now : Int) {fileIds : List Nat} {fileId : Nat} (listed : fileId ∈ fileIds) :
    (t.getActiveSharesForFiles now fileIds).status fileId =
      (t.shares.any fun share => share.isActive now && share.fileIndexId == fileId,
        t.shares.any fun share => share.isActive now && share.fileIndexId == fileId && share.enableDirect) := by
  have some_ids : fileIds.isEmpty = false := by
    rw [List.isEmpty_eq_false_iff]
    exact List.ne_nil_of_mem listed
  have asked : ∀ share : Share, (share.fileIndexId == fileId) = true → fileIds.contains share.fileIndexId = true := by
    intro share same
    rw [beq_iff_eq.mp same]
    exact List.contains_iff_mem.mpr listed
  rw [getActiveSharesForFiles,some_ids,if_neg Bool.false_ne_true,foldl_flag_status,List.any_filter,List.any_filter]
  simp only [Flags.status_empty,Bool.false_or]
  have first : ∀ share : Share, (fileIds.contains share.fileIndexId &&
      (share.isActive now && share.fileIndexId == fileId)) = (share.isActive now && share.fileIndexId == fileId) := by
    intro share
    cases same : share.fileIndexId == fileId with
    | false => simp
    | true => rw [asked share same,Bool.true_and]
  simp only [← Bool.and_assoc] at first ⊢
  simp only [first]

/-- Outside the listed files nothing is flagged. -/
theorem status_unlisted (t : ShareTable) (now : Int) {fileIds : List Nat} {fileId : Nat} (other : fileId ∉ fileIds) :
    (t.getActiveSharesForFiles now fileIds).status fileId = (false,false) := by
  unfold getActiveSharesForFiles
  split
  · exact Flags.status_empty fileId
  · have none_flags : ∀ share ∈ t.shares.filter (fun share => fileIds.contains share.fileIndexId),
        (share.fileIndexId == fileId) = false := by
      intro share found
      have asked := List.contains_iff_mem.mp (List.mem_filter.mp found).2
      exact beq_eq_false_iff_ne.mpr fun same => other (same ▸ asked)
    rw [foldl_flag_status,Flags.status_empty,Bool.false_or,Bool.false_or,Prod.mk.injEq]
    constructor
    · rw [List.any_eq_false]
      intro share found
      simp [none_flags share found]
    · rw [List.any_eq_false]
      intro share found
      simp [none_flags share found]

/-! ### What a visitor can open -/

/-- A share that `get_share` finds and that has neither expired nor been used up. -/
def Accessible (t : ShareTable) (files : List IndexRow) (now : Int) (share : Share) : Prop :=
  (∃ file, t.getShare files share.id = some (share,file)) ∧ share.isExpired now = false ∧ share.isLimitReached = false

theorem getShare_iff (t : ShareTable) (files : List IndexRow) (share : Share) :
    (∃ file, t.getShare files share.id = some (share,file)) ↔ share ∈ t.shares ∧ share.isDeleted = false := by
  constructor
  · rintro ⟨file,found⟩
    rw [getShare,Option.map_eq_some_iff] at found
    obtain ⟨row,found,same⟩ := found
    have here : row = share := (Prod.mk.inj same).1
    have member := List.mem_of_find?_eq_some found
    have visible := List.find?_some found
    rw [here] at member visible
    rw [Bool.and_eq_true,Bool.not_eq_true'] at visible
    exact ⟨member,visible.2⟩
  · rintro ⟨member,alive⟩
    have visible : (t.shares.find? fun row => row.id == share.id && !row.isDeleted) = some share := by
      cases found : t.shares.find? fun row => row.id == share.id && !row.isDeleted with
      | none =>
        rw [List.find?_eq_none] at found
        have refused := found share member
        simp [alive] at refused
      | some row =>
        have inside := List.mem_of_find?_eq_some found
        have same := List.find?_some found
        rw [Bool.and_eq_true,beq_iff_eq] at same
        rw [List.inj_on_of_nodup_map t.keyed inside member same.1]
    rw [getShare,visible]
    exact ⟨_,rfl⟩

theorem accessible_iff (t : ShareTable) (files : List IndexRow) (now : Int) (share : Share) :
    t.Accessible files now share ↔ share ∈ t.shares ∧ share.isDeleted = false ∧ share.isActive now = true := by
  rw [Accessible,getShare_iff,Share.isActive,Bool.and_eq_true,Bool.not_eq_true',Bool.not_eq_true',and_assoc]

variable (t : ShareTable) (files : List IndexRow) (now : Int) (fileIds : List Nat)

/-- The flags of the listed files say which of them a visitor can open. -/
structure FlagsRight : Prop where
  active : ∀ fileId ∈ fileIds, ((t.getActiveSharesForFiles now fileIds).status fileId).1 = true ↔
    ∃ share, t.Accessible files now share ∧ share.fileIndexId = fileId
  direct : ∀ fileId ∈ fileIds, ((t.getActiveSharesForFiles now fileIds).status fileId).2 = true ↔
    ∃ share, t.Accessible files now share ∧ share.fileIndexId = fileId ∧ share.enableDirect = true

/-- The calls reach every share of the file. -/
def Reached (calls : List SoftDelete) (fileId : Nat) : Prop :=
  ∀ share ∈ t.shares, share.fileIndexId = fileId → ∃ call ∈ calls, call.addresses share = true

/-- Soft deletes that reach every share of a listed file lower its flags. -/
def DeletesClear : Prop :=
  ∀ fileId ∈ fileIds, ∀ calls, t.Reached calls fileId →
    ((t.softDeletes calls).getActiveSharesForFiles now fileIds).status fileId = (false,false)

/-- A deleted share stands beside one that a visitor can open and that is as direct. -/
def Covered (deleted : Share) : Prop :=
  ∃ share ∈ t.shares, share.isDeleted = false ∧ share.isActive now = true ∧
    share.fileIndexId = deleted.fileIndexId ∧ (deleted.enableDirect = true → share.enableDirect = true)

variable {t files now fileIds}

theorem flagsRight_iff : t.FlagsRight files now fileIds ↔
    ∀ share ∈ t.shares, share.isDeleted = true → share.isActive now = true → share.fileIndexId ∈ fileIds →
      t.Covered now share := by
  constructor
  · intro right share member _ active listed
    have status := t.status_of_shares now listed
    cases direct : share.enableDirect with
    | true =>
      have up : ((t.getActiveSharesForFiles now fileIds).status share.fileIndexId).2 = true := by
        rw [status]
        apply List.any_eq_true.mpr
        exact ⟨share,member,by simp [active,direct]⟩
      obtain ⟨other,accessible,same,alike⟩ := (right.direct _ listed).mp up
      obtain ⟨inside,alive,open_now⟩ := (t.accessible_iff files now other).mp accessible
      exact ⟨other,inside,alive,open_now,same,fun _ => alike⟩
    | false =>
      have up : ((t.getActiveSharesForFiles now fileIds).status share.fileIndexId).1 = true := by
        rw [status]
        apply List.any_eq_true.mpr
        exact ⟨share,member,by simp [active]⟩
      obtain ⟨other,accessible,same⟩ := (right.active _ listed).mp up
      obtain ⟨inside,alive,open_now⟩ := (t.accessible_iff files now other).mp accessible
      refine ⟨other,inside,alive,open_now,same,?_⟩
      rw [direct]
      exact fun never => absurd never Bool.false_ne_true
  · intro covered
    -- A flag that a deleted share raises is raised by the share that covers it.
    have raised : ∀ share ∈ t.shares, share.isActive now = true → share.fileIndexId ∈ fileIds →
        ∃ other, t.Accessible files now other ∧ other.fileIndexId = share.fileIndexId ∧
          (share.enableDirect = true → other.enableDirect = true) := by
      intro share member active listed
      cases gone : share.isDeleted with
      | false => exact ⟨share,(t.accessible_iff files now share).mpr ⟨member,gone,active⟩,rfl,id⟩
      | true =>
        obtain ⟨other,inside,alive,open_now,same,alike⟩ := covered share member gone active listed
        exact ⟨other,(t.accessible_iff files now other).mpr ⟨inside,alive,open_now⟩,same,alike⟩
    constructor
    · intro fileId listed
      rw [t.status_of_shares now listed]
      constructor
      · intro up
        obtain ⟨share,member,up⟩ := List.any_eq_true.mp up
        rw [Bool.and_eq_true,beq_iff_eq] at up
        obtain ⟨other,accessible,same,-⟩ := raised share member up.1 (up.2 ▸ listed)
        exact ⟨other,accessible,same.trans up.2⟩
      · rintro ⟨share,accessible,same⟩
        obtain ⟨member,-,active⟩ := (t.accessible_iff files now share).mp accessible
        apply List.any_eq_true.mpr
        exact ⟨share,member,by simp [active,same]⟩
    · intro fileId listed
      rw [t.status_of_shares now listed]
      constructor
      · intro up
        obtain ⟨share,member,up⟩ := List.any_eq_true.mp up
        rw [Bool.and_eq_true,Bool.and_eq_true,beq_iff_eq] at up
        obtain ⟨⟨active,file⟩,direct⟩ := up
        obtain ⟨other,accessible,same,alike⟩ := raised share member active (file ▸ listed)
        exact ⟨other,accessible,same.trans file,alike direct⟩
      · rintro ⟨share,accessible,same,direct⟩
        obtain ⟨member,-,active⟩ := (t.accessible_iff files now share).mp accessible
        apply List.any_eq_true.mpr
        exact ⟨share,member,by simp [active,same,direct]⟩

theorem softDelete_status (t : ShareTable) (call : SoftDelete) {fileId : Nat} (listed : fileId ∈ fileIds) :
    ((t.softDelete call).getActiveSharesForFiles now fileIds).status fileId =
      (t.getActiveSharesForFiles now fileIds).status fileId := by
  rw [status_of_shares _ now listed,status_of_shares _ now listed]
  simp only [softDelete,List.any_map,Function.comp_def,SoftDelete.mark_isActive,SoftDelete.mark_fileIndexId,
    SoftDelete.mark_enableDirect]

/-- No run of soft deletes moves a flag. -/
theorem softDeletes_status (t : ShareTable) (calls : List SoftDelete) {fileId : Nat} (listed : fileId ∈ fileIds) :
    ((t.softDeletes calls).getActiveSharesForFiles now fileIds).status fileId =
      (t.getActiveSharesForFiles now fileIds).status fileId := by
  induction calls generalizing t with
  | nil => rfl
  | cons call rest ih =>
    have step : ((t.softDelete call).getActiveSharesForFiles now fileIds).status fileId =
        (t.getActiveSharesForFiles now fileIds).status fileId := t.softDelete_status call listed
    exact (ih (t.softDelete call)).trans step

/-- Every share of the file is deleted already or still reached by a call. -/
def Closing (t : ShareTable) (calls : List SoftDelete) (fileId : Nat) : Prop :=
  ∀ share ∈ t.shares, share.fileIndexId = fileId →
    share.isDeleted = true ∨ ∃ call ∈ calls, call.addresses share = true

theorem closing_softDelete {call : SoftDelete} {rest : List SoftDelete} {fileId : Nat}
    (closing : t.Closing (call::rest) fileId) : (t.softDelete call).Closing rest fileId := by
  intro marked member same
  obtain ⟨share,inside,rfl⟩ := List.mem_map.mp member
  rw [SoftDelete.mark_fileIndexId] at same
  unfold SoftDelete.mark
  split
  next => exact .inl rfl
  next missed =>
    rcases closing share inside same with gone | ⟨other,called,reaches⟩
    · exact .inl gone
    · rcases List.mem_cons.mp called with rfl | later
      · exact absurd reaches missed
      · exact .inr ⟨other,later,reaches⟩

/-- After soft deletes that reach every share of a file a visitor can open none of them. -/
theorem softDeletes_closed (t : ShareTable) {calls : List SoftDelete} {fileId : Nat} (reached : t.Reached calls fileId)
    {share : Share} (accessible : (t.softDeletes calls).Accessible files now share) : share.fileIndexId ≠ fileId := by
  have closing : t.Closing calls fileId := fun share member same => .inr (reached share member same)
  clear reached
  induction calls generalizing t with
  | nil =>
    intro same
    obtain ⟨member,alive,-⟩ := (t.accessible_iff files now share).mp accessible
    rcases closing share member same with gone | ⟨call,called,-⟩
    · exact absurd (gone.symm.trans alive) Bool.true_eq_false.mp
    · exact absurd called List.not_mem_nil
  | cons call rest ih => exact ih (t.softDelete call) accessible (closing_softDelete closing)

/-- One call for each share reaches them all. -/
theorem reached_all (t : ShareTable) (fileId : Nat) :
    t.Reached (t.shares.map fun share => .deleteShare share.userId share.id) fileId := by
  intro share member _
  exact ⟨_,List.mem_map.mpr ⟨share,member,rfl⟩,by simp [SoftDelete.addresses]⟩

theorem deletesClear_iff : t.DeletesClear now fileIds ↔
    ∀ share ∈ t.shares, share.fileIndexId ∈ fileIds → share.isActive now = false := by
  constructor
  · intro clear share member listed
    have down := clear _ listed _ (t.reached_all share.fileIndexId)
    rw [softDeletes_status t _ listed,t.status_of_shares now listed,Prod.mk.injEq,List.any_eq_false] at down
    have here := down.1 share member
    simpa using here
  · intro inactive fileId listed calls _
    rw [softDeletes_status t _ listed,t.status_of_shares now listed,Prod.mk.injEq,List.any_eq_false,List.any_eq_false]
    constructor
    · intro share member up
      rw [Bool.and_eq_true,beq_iff_eq] at up
      rw [inactive share member (up.2 ▸ listed)] at up
      exact Bool.false_ne_true up.1
    · intro share member up
      rw [Bool.and_eq_true,Bool.and_eq_true,beq_iff_eq] at up
      rw [inactive share member (up.1.2 ▸ listed)] at up
      exact Bool.false_ne_true up.1.1

/-- The flags of the listed files are right exactly when an active share that was deleted
is covered by one that was not, and the deletes lower them exactly when no share of
these files was active before. -/
theorem share_flags_iff (t : ShareTable) (files : List IndexRow) (now : Int) (fileIds : List Nat) :
    (t.FlagsRight files now fileIds ↔ ∀ share ∈ t.shares, share.isDeleted = true → share.isActive now = true →
      share.fileIndexId ∈ fileIds → t.Covered now share) ∧
    (t.DeletesClear now fileIds ↔
      ∀ share ∈ t.shares, share.fileIndexId ∈ fileIds → share.isActive now = false) :=
  ⟨flagsRight_iff,deletesClear_iff⟩

def linkShare : ShareTable where
  shares := [{
    id := "s".toList
    fileIndexId := 1
    userId := "u".toList
    expireAt := none
    viewCount := 0
    maxDownloads := none
    enableDirect := false
    snapshotPath := none
    snapshotName := none
    snapshotIsDir := none
    isDeleted := false
    createdAt := 0 }]
  keyed := List.nodup_singleton _

/-- A share that its owner has deleted is not found any more, and its file is still
flagged. -/
theorem deleted_share_flagged :
    (linkShare.deleteShare "u".toList "s".toList).getShare [] "s".toList = none ∧
      ((linkShare.deleteShare "u".toList "s".toList).getActiveSharesForFiles 5 [1]).status 1 = (true,false) := by
  constructor <;> decide +kernel

end ShareTable
end StorageHub.Shares
