import StorageHub.Scoped.DirectorySync
import StorageHub.Scoped.MoveIndex
import StorageHub.Scoped.Presence
import StorageHub.Scoped.ProtectedRange
import StorageHub.Scoped.WriteRecovery

/-! Writes at an offset: the current content is read, patched in memory and
written back whole. -/
namespace StorageHub.Scoped
open Library WriteCache Paths Protected Vfs Effect

/-! ### Patched content -/

/-- The content with bytes put at an offset, byte by byte: a gap before them is
zeros, and every other byte stays. -/
def overlay (content : Bytes) (offset : Nat) (data : Bytes) : Bytes :=
  (List.range (max content.length (offset + data.length))).map fun i =>
    if offset ≤ i ∧ i < offset + data.length then data.getD (i - offset) 0 else content.getD i 0

section patch
variable {content data : Bytes} {offset : Nat}

theorem length_overlay : (overlay content offset data).length = max content.length (offset + data.length) := by
  rw [overlay,List.length_map,List.length_range]

theorem length_resizeTo (stop : Nat) : (resizeTo stop content).length = max content.length stop := by
  rw [resizeTo,List.length_append,List.length_replicate]
  omega

theorem getD_resizeTo (stop i : Nat) : (resizeTo stop content).getD i 0 = content.getD i 0 := by
  rw [resizeTo,List.getD_eq_getElem?_getD,List.getD_eq_getElem?_getD,List.getElem?_append]
  split
  next => rfl
  next beyond =>
    have none_ : content[i]? = none := List.getElem?_eq_none (by omega)
    rw [none_,List.getElem?_replicate]
    split <;> rfl

/-- Within the range of the numbers the code puts the bytes where they belong. -/
theorem patchBytes_overlay (fits : offset + data.length < 2 ^ 64) :
    patchBytes content offset data = some (overlay content offset data) := by
  have stop : patchEnd offset data = offset + data.length := Nat.mod_eq_of_lt fits
  rw [patchBytes,if_pos fits,stop,Option.some.injEq]
  have size : (resizeTo (offset + data.length) content).length = _ := length_resizeTo (offset + data.length)
  have head : ((resizeTo (offset + data.length) content).take offset).length = offset := by
    rw [List.length_take,size]
    omega
  apply List.ext_getElem
  · rw [length_overlay,List.length_append,List.length_append,head,List.length_drop,size]
    omega
  · intro i inside _
    have bound : i < max content.length (offset + data.length) := by
      rw [List.length_append,List.length_append,head,List.length_drop,size] at inside
      omega
    have here : i < (overlay content offset data).length := by
      rw [length_overlay]
      exact bound
    have patched : (overlay content offset data)[i] =
        if offset ≤ i ∧ i < offset + data.length then data.getD (i - offset) 0 else content.getD i 0 := by
      simp only [overlay,List.getElem_map,List.getElem_range]
    rw [patched,List.getElem_append]
    split
    next before =>
      rw [List.length_append,head] at before
      rw [List.getElem_append]
      split
      next early =>
        rw [head] at early
        rw [if_neg (by omega),List.getElem_take,← getD_resizeTo (offset + data.length) i]
        exact List.getElem_eq_getD 0
      next later =>
        rw [head] at later
        rw [if_pos (by omega)]
        simp only [head]
        exact List.getElem_eq_getD 0
    next after =>
      rw [List.length_append,head] at after
      rw [if_neg (by omega),List.getElem_drop,← getD_resizeTo (offset + data.length) i]
      simp only [List.length_append,head]
      have place : offset + data.length + (i - (offset + data.length)) = i := by omega
      simp only [place]
      exact List.getElem_eq_getD 0

theorem patchBytes_wrapped (wraps : ¬offset + data.length < 2 ^ 64) : patchBytes content offset data = none := by
  rw [patchBytes,if_neg wraps]

end patch
namespace Engine
variable (e : Engine)

/-! ### What a run should do -/

/-- What the read of the current content found; an absent file is empty, and any
other failure leaves the content unknown. -/
def contentRead (current : Except VfsError (Bytes × VfsFileInfo)) : Option Bytes :=
  match current with
  | .ok read => some read.1
  | .error err => if err.isNotFound then some [] else none

/-- What a reader is given of a write that still is pending. -/
def pendingData (w : World) (key : Text) : Option Bytes :=
  (e.pendingRecord key w).bind fun inner => w.shared.content inner.blob

/-- A run of the read-modify-write whose internal read found `current` in `w₂`:
if it returns, a reader is given the content with the data in place; and if the
content was not to be read, it does not return and the file is as it was. -/
def WriteAtRight (path : Text) (offset : Nat) (data : Bytes) (w : World) (cs : List (Choice EngineEnv)) : Prop :=
  ∀ diff walId current w₂ rest, e.writeAtRead path offset data w cs = .done (diff,walId,current) w₂ rest →
    (∀ content, contentRead current = some content → ∀ info w' rest',
      e.writeAtImpl path offset data w cs = .done info w' rest' →
        e.poolContent w' (e.getPhysicalPath path) = some (overlay content offset data)) ∧
    (contentRead current = none → (e.writeAtImpl path offset data w cs).value? = none ∧
      (e.writeAtImpl path offset data w cs).state.primary.files.lookup (e.getPhysicalPath path) =
        w₂.primary.files.lookup (e.getPhysicalPath path))

/-- When it is so: no pending write hides what was put, and content that was not
to be read is not overwritten, because the sum wraps or the write is refused. -/
def WriteAtSafe (path : Text) (offset : Nat) (data : Bytes) (w : World) (cs : List (Choice EngineEnv)) : Prop :=
  ∀ diff walId current w₂ rest, e.writeAtRead path offset data w cs = .done (diff,walId,current) w₂ rest →
    (∀ content, contentRead current = some content →
      (e.writeAtImpl path offset data w cs).value?.isSome = true →
        e.pendingData w₂ (e.getPhysicalPath path) = none ∨
          e.pendingData w₂ (e.getPhysicalPath path) = some (overlay content offset data)) ∧
    (contentRead current = none → 2 ^ 64 ≤ offset + data.length ∨ ¬Granted rest ∨
      w₂.primary.accepts (e.getPhysicalPath path) = false ∨
        (w₂.primary.files.lookup (e.getPhysicalPath path) = some (overlay [] offset data) ∧
          (e.writeAtImpl path offset data w cs).value? = none))

/-- A file of the storage, as `write_at` sees it. -/
structure PlainTarget (w : World) (path : Text) : Prop where
  running : w.maintenance = false
  resolved : ∃ plan, e.resolveProtectedPlan = .ok plan
  free : e.Unprotected path
  steady : isRefreshTrigger path = false
  lasting : isTempPath path = false

variable {e} {path : Text} {offset : Nat} {data : Bytes} {w : World} {cs : List (Choice EngineEnv)}

theorem writeAtImpl_plain (plain : e.PlainTarget w path) : e.writeAtImpl path offset data w cs = (do
    let (diff,walId,current) ← e.writeAtRead path offset data
    e.writeAtPut path offset data diff walId current) w cs := by
  obtain ⟨plan,resolved⟩ := plain.resolved
  have open_ : checkMaintenance w cs = .done () w cs := by
    rw [checkMaintenance,bind_run (get_apply _ _),plain.running]
    rfl
  rw [writeAtImpl,bind_run open_,getProtectedPlan_unprotected plain.free resolved,pure_bind]
  dsimp only
  rw [plain.steady,plain.lasting]
  rfl

/-! ### After the write -/

/-- The file has been put in place of what the cache had of it. -/
structure Put (e : Engine) (before : World) (key : Text) (patched : Bytes) (w : World) : Prop where
  spelled : hasTrailingSlash key = false
  file : w.shared.primary.lookup key = some patched
  pending : e.pendingData w key = e.pendingData before key
  uncached : e.cached w key = none

variable {before : World} {key : Text} {patched : Bytes}

/-- The reader is given the file, or the write that is pending. -/
theorem Put.poolContent (put : Put e before key patched w) :
    e.poolContent w key = some ((e.pendingData before key).getD patched) := by
  have read : w.primary.read key = some patched := by
    rw [Disk.read,put.spelled]
    exact put.file
  have pending := put.pending
  rw [pendingData] at pending
  rw [Engine.poolContent,pending]
  cases e.pendingData before key with
  | some data => rfl
  | none =>
    rw [put.uncached]
    dsimp only
    rw [stat_of_read read]
    exact read

theorem put_ignoresLog : IgnoresLog (Put e before key patched) :=
  fun _ _ _ put => ⟨put.spelled,put.file,put.pending,put.uncached⟩

theorem put_ignoresIndex : IgnoresIndex (Put e before key patched) :=
  fun _ _ _ put => ⟨put.spelled,put.file,put.pending,put.uncached⟩

theorem upsertIndexHelper_keeps {I : World → Prop} (ignores : IgnoresIndex I) (e : Engine) (path : Text)
    (info : VfsFileInfo) (backendKey : Option Text) (physicalSize : Option Int)
    (protectedMeta : Option ProtectedMetaRecord) :
    Keeps I (e.upsertIndexHelperWithBackendKey path info backendKey physicalSize protectedMeta) := by
  unfold upsertIndexHelperWithBackendKey
  split
  · exact Keeps.pure ()
  · have settled (skipped : Bool) : Keeps I (if skipped then pure () else
        e.upsertFileWithLocation path info
          ⟨some e.poolName,some e.backendType,backendKey,physicalSize,protectedMeta⟩) := by
      split
      · exact Keeps.pure ()
      · exact upsertFileWithLocation_keeps ignores e path info _
    dsimp only
    split
    · exact ((getProtectedPlan_readOnly e path).keeps I).bind fun plan => (Keeps.pure _).bind settled
    · exact (Keeps.pure false).bind settled

/-- What follows the write keeps it. -/
def writeAtRecord (e : Engine) (path : Text) (diff : Int) (walId : Option Nat) (info : VfsFileInfo) :
    Vfs VfsFileInfo := do
  markWalPhysicalDone walId
  when (!isThumbnailCachePath path ∧ 0 < diff) (regardless (e.updateQuota diff))
  let translated := e.translateFileInfo info
  orFailWal walId (e.upsertIndexHelper path translated)
  completeWal walId
  pure translated

theorem writeAtRecord_keeps (path : Text) (diff : Int) (walId : Option Nat) (info : VfsFileInfo) :
    Keeps (Put e before key patched) (e.writeAtRecord path diff walId info) := by
  apply Keeps.bind (markWal_keeps put_ignoresLog walId .physicalDone)
  intro _
  apply Keeps.bind
  · unfold Vfs.when
    split
    · apply regardless_keeps
      unfold updateQuota update
      exact call_keeps fun _ w put => ⟨put.spelled,put.file,put.pending,put.uncached⟩
    · exact Keeps.pure ()
  · intro _
    apply Keeps.bind
    · apply orFailWal_keeps put_ignoresLog
      exact upsertIndexHelper_keeps put_ignoresIndex e path _ _ _ _
    · intro _
      exact (markWal_keeps put_ignoresLog walId .completed).bind fun _ => Keeps.pure _

theorem writeAtPut_eq (path : Text) (offset : Nat) (data : Bytes) (diff : Int) (walId : Option Nat)
    (current : Except VfsError (Bytes × VfsFileInfo))
    (made : patchBytes ((contentRead current).getD []) offset data = some patched) :
    e.writeAtPut path offset data diff walId current = (do
      let info ← orFailWal walId (e.poolWrite (e.getPhysicalPath path) patched)
      e.writeAtRecord path diff walId info) := by
  unfold writeAtPut
  cases current with
  | ok read =>
    have here : patchBytes read.1 offset data = some patched := made
    dsimp only
    rw [here]
    rfl
  | error err =>
    have empty : (contentRead (.error err)).getD [] = [] := by
      rw [contentRead]
      split <;> rfl
    rw [empty] at made
    dsimp only
    rw [made]
    rfl

theorem writeAtPut_wrapped (path : Text) (diff : Int) (walId : Option Nat)
    (current : Except VfsError (Bytes × VfsFileInfo)) (wraps : ¬offset + data.length < 2 ^ 64) :
    e.writeAtPut path offset data diff walId current =
      Effect.fail (.internal "Buffer overflow in write_at".toList) := by
  unfold writeAtPut
  dsimp only
  rw [patchBytes_wrapped wraps]

/-- A write that is let through leaves the bytes in place; one that is not leaves
the storage as it was. -/
theorem poolWrite_cases (e : Engine) (key : Text) (patched : Bytes) (before : World)
    (rest : List (Choice EngineEnv)) :
    (Granted rest ∧ before.primary.accepts key = true ∧ ∃ w, Put e before key patched w ∧
      e.poolWrite key patched before rest = e.poolStat key w rest.tail) ∨
    ((¬Granted rest ∨ before.primary.accepts key = false) ∧ ∃ w, w.primary = before.primary ∧
      ((∃ err, e.poolWrite key patched before rest = .failed err w rest.tail) ∨
        e.poolWrite key patched before rest = .crashed w)) := by
  let readCache := if e.readCache.isSome then before.shared.readCache.erase key else before.shared.readCache
  let dropped : World := { before with shared := { before.shared with readCache } }
  have started : e.poolWrite key patched before rest = (do
      operate .other fun w => (w.primary.write key patched).map w.setPrimary
      e.poolStat key) dropped rest := rfl
  have uncached : e.cached dropped key = none := by
    unfold cached
    split
    next caching =>
      change (if e.readCache.isSome then before.shared.readCache.erase key
        else before.shared.readCache).lookup key = none
      rw [if_pos caching,AList.lookup_erase]
    next => rfl
  rw [started]
  by_cases granted : Granted rest
  · rcases @operate_granted dropped rest .other
      (fun w => (w.primary.write key patched).map w.setPrimary) granted with ⟨w,made,ran⟩ | ⟨refused,err,ran⟩
    · obtain ⟨d,wrote,rfl⟩ := Option.map_eq_some_iff.mp made
      unfold Disk.write at wrote
      split at wrote
      next accepted =>
        cases wrote
        refine .inl ⟨granted,accepted,dropped.setPrimary _,?_,bind_run ran⟩
        refine ⟨?_,AList.lookup_insert _,rfl,uncached⟩
        have parts := accepted
        unfold Disk.accepts at parts
        simp only [Bool.and_eq_true,Bool.not_eq_true'] at parts
        exact parts.1.1
      next => cases wrote
    · refine .inr ⟨.inr ?_,dropped,rfl,.inl ⟨err,?_⟩⟩
      · rw [Option.map_eq_none_iff,Disk.write] at refused
        split at refused
        next => cases refused
        next declined => exact Bool.eq_false_iff.mpr declined
      · rw [bind_apply,ran]
  · refine .inr ⟨.inl granted,dropped,rfl,?_⟩
    rcases @operate_denied dropped rest .other
      (fun w => (w.primary.write key patched).map w.setPrimary) granted with ⟨err,ran⟩ | ran
    · exact .inl ⟨err,by rw [bind_apply,ran]⟩
    · exact .inr (by rw [bind_apply,ran])

/-- Only how the guarded program ends matters to what follows. -/
theorem orFailWal_resume {α β : Type} {walId : Option Nat} {m m' : Vfs α} (k : α → Vfs β) {w w' : World}
    {cs cs' : List (Choice EngineEnv)} (same : m w cs = m' w' cs') :
    (orFailWal walId m >>= k) w cs = (orFailWal walId m' >>= k) w' cs' := by
  simp only [orFailWal,bind_apply,attempt,same]

/-- After a failure the log is all that changes. -/
theorem orFailWal_refused {α β : Type} (walId : Option Nat) (err : VfsError) (k : α → Vfs β) (w : World)
    (cs : List (Choice EngineEnv)) :
    ((orFailWal walId (Effect.fail err : Vfs α) >>= k) w cs).value? = none ∧
      ((orFailWal walId (Effect.fail err : Vfs α) >>= k) w cs).state.primary = w.primary := by
  have refused : Meets (·.primary = w.primary) (orFailWal walId (Effect.fail err : Vfs α) >>= k)
      (fun _ _ => False) (fun _ w' => w'.primary = w.primary) fun w' => w'.primary = w.primary := by
    apply Meets.bind (Q := fun _ _ => False)
    · apply Meets.bind (Q := fun result w' => result = .error err ∧ w'.primary = w.primary)
      · apply Meets.attempt
        exact Meets.fail fun _ same => ⟨rfl,same⟩
      · intro result
        cases result with
        | ok a =>
          intro _ _ stated
          cases stated.1
        | error refusal =>
          apply Meets.bind (Q := fun _ (w' : World) => w'.primary = w.primary)
          · exact (markWal_keeps (fun _ _ _ same => same) walId .failed).consequence (fun _ stated => stated.2)
              (fun _ _ same => same) (fun _ _ same => same) fun _ same => same
          · exact fun _ => Meets.fail fun _ same => same
    · intro _ _ _ never
      exact never.elim
  have ended := refused w cs rfl
  cases outcome : (orFailWal walId (Effect.fail err : Vfs α) >>= k) w cs with
  | done a w' rest =>
    rw [outcome] at ended
    exact ended.elim
  | failed err' w' rest =>
    rw [outcome] at ended
    exact ⟨rfl,ended⟩
  | crashed w' =>
    rw [outcome] at ended
    exact ⟨rfl,ended⟩

section cut
variable {diff : Int} {walId : Option Nat} {current : Except VfsError (Bytes × VfsFileInfo)} {w₂ : World}
  {rest : List (Choice EngineEnv)}

/-- After the read either nothing is put and the run does not return, or the
overlay of what was read, or of nothing, is in place when it ends. -/
theorem writeAtImpl_cases (plain : e.PlainTarget w path)
    (cut : e.writeAtRead path offset data w cs = .done (diff,walId,current) w₂ rest) :
    ((e.writeAtImpl path offset data w cs).value? = none ∧
      (e.writeAtImpl path offset data w cs).state.primary = w₂.primary ∧
      (2 ^ 64 ≤ offset + data.length ∨ ¬Granted rest ∨ w₂.primary.accepts (e.getPhysicalPath path) = false)) ∨
    (offset + data.length < 2 ^ 64 ∧ Granted rest ∧ w₂.primary.accepts (e.getPhysicalPath path) = true ∧
      Put e w₂ (e.getPhysicalPath path) (overlay ((contentRead current).getD []) offset data)
        (e.writeAtImpl path offset data w cs).state) := by
  rw [writeAtImpl_plain plain,bind_run cut]
  dsimp only
  by_cases fits : offset + data.length < 2 ^ 64
  · rw [writeAtPut_eq path offset data diff walId current (patchBytes_overlay fits)]
    rcases poolWrite_cases e (e.getPhysicalPath path) (overlay ((contentRead current).getD []) offset data) w₂ rest
      with ⟨granted,accepted,w₃,put,ran⟩ | ⟨barred,w₃,same,⟨err,ran⟩ | ran⟩
    · rw [orFailWal_resume (e.writeAtRecord path diff walId) ran]
      have kept : Keeps (Put e w₂ (e.getPhysicalPath path) (overlay ((contentRead current).getD []) offset data))
          (orFailWal walId (e.poolStat (e.getPhysicalPath path)) >>= e.writeAtRecord path diff walId) := by
        apply Keeps.bind
        · exact orFailWal_keeps put_ignoresLog walId ((poolStat_readOnly e _).keeps _)
        · exact fun info => writeAtRecord_keeps path diff walId info
      exact .inr ⟨fits,granted,accepted,kept.state _ put⟩
    · have failed : e.poolWrite (e.getPhysicalPath path) (overlay ((contentRead current).getD []) offset data)
          w₂ rest = (Effect.fail err : Vfs VfsFileInfo) w₃ rest.tail := ran
      rw [orFailWal_resume (e.writeAtRecord path diff walId) failed]
      obtain ⟨never,kept⟩ := orFailWal_refused walId err (e.writeAtRecord path diff walId) w₃ rest.tail
      exact .inl ⟨never,kept.trans same,.inr barred⟩
    · have stopped : e.poolWrite (e.getPhysicalPath path) (overlay ((contentRead current).getD []) offset data)
          w₂ rest = (abort : Vfs VfsFileInfo) w₃ rest := ran
      rw [orFailWal_resume (e.writeAtRecord path diff walId) stopped]
      exact .inl ⟨rfl,same,.inr barred⟩
  · rw [writeAtPut_wrapped path diff walId current fits]
    exact .inl ⟨rfl,rfl,.inl (not_lt.mp fits)⟩

end cut

theorem writeAtRight_iff (plain : e.PlainTarget w path) :
    e.WriteAtRight path offset data w cs ↔ e.WriteAtSafe path offset data w cs := by
  refine forall_congr' fun diff => forall_congr' fun walId => forall_congr' fun current => forall_congr' fun w₂ =>
    forall_congr' fun rest => forall_congr' fun cut => ?_
  rcases writeAtImpl_cases plain cut with ⟨never,kept,barred⟩ | ⟨fits,granted,accepted,put⟩
  · constructor
    · intro _
      refine ⟨fun content _ returned => ?_,fun _ => ?_⟩
      · rw [never] at returned
        cases returned
      · rcases barred with wraps | denied | declined
        · exact .inl wraps
        · exact .inr (.inl denied)
        · exact .inr (.inr (.inl declined))
    · intro _
      refine ⟨fun content _ info w' rest' done => ?_,fun _ => ⟨never,by rw [kept]⟩⟩
      rw [done] at never
      cases never
  · have shown := put.poolContent
    have file : (e.writeAtImpl path offset data w cs).state.primary.files.lookup (e.getPhysicalPath path) =
        some (overlay ((contentRead current).getD []) offset data) := put.file
    constructor
    · intro ⟨returns,refuses⟩
      refine ⟨fun content known returned => ?_,fun unknown => ?_⟩
      · obtain ⟨info,w',rest',done⟩ := Outcome.done_of_value returned
        have seen := returns content known info w' rest' done
        rw [done,known] at shown
        have same : some ((e.pendingData w₂ (e.getPhysicalPath path)).getD (overlay content offset data)) =
            some (overlay content offset data) := shown.symm.trans seen
        cases pending : e.pendingData w₂ (e.getPhysicalPath path) with
        | none => exact .inl rfl
        | some hidden =>
          rw [pending] at same
          exact .inr same
      · obtain ⟨never,kept⟩ := refuses unknown
        rw [unknown] at file
        exact .inr (.inr (.inr ⟨kept.symm.trans file,never⟩))
    · intro ⟨unhidden,unwritten⟩
      refine ⟨fun content known info w' rest' done => ?_,fun unknown => ?_⟩
      · rw [done,known] at shown
        change e.poolContent w' (e.getPhysicalPath path) = _ at shown
        rw [shown]
        rcases unhidden content known (by rw [done]; rfl) with clear | same
        · rw [clear]
          rfl
        · rw [same]
          rfl
      · rcases unwritten unknown with wraps | denied | declined | ⟨already,never⟩
        · omega
        · exact absurd granted denied
        · rw [accepted] at declined
          cases declined
        · rw [unknown] at file
          exact ⟨never,file.trans already.symm⟩

end Engine
/-! ### The row of a written file -/

namespace Index
variable {rows out : Index} {userId path : Text}

/-- A row that is saved in place of the one found at its path is found there. -/
theorem save_found {existing saved : IndexRow} (found : getFileMetadata userId path rows = some existing)
    (made : save saved rows = .ok out) (same : saved.id = existing.id)
    (there : saved.userId = userId ∧ saved.path = path) : getFileMetadata userId path out = some saved := by
  obtain ⟨member,-⟩ := getFileMetadata_some found
  have here : at_ userId path saved = true := at_iff.mpr there
  rw [save] at made
  split at made
  next => cases made
  next free =>
    cases made
    have only : ∀ row ∈ rows.map (fun other => if other.id = saved.id then saved else other),
        at_ userId path row = true → row = saved := by
      intro row inside at_row
      obtain ⟨other,member',rfl⟩ := List.mem_map.mp inside
      by_cases same : other.id = saved.id
      · rw [if_pos same]
      · rw [if_neg same] at at_row
        refine absurd (List.any_eq_true.mpr ⟨other,member',?_⟩) free
        rw [there.1,there.2,at_row,Bool.and_true,bne_iff_ne]
        exact same
    have saved_member : saved ∈ rows.map fun other => if other.id = saved.id then saved else other :=
      List.mem_map.mpr ⟨existing,member,if_pos same.symm⟩
    cases looked : getFileMetadata userId path
        (rows.map fun other => if other.id = saved.id then saved else other) with
    | none => exact absurd here (by simpa using List.find?_eq_none.mp looked saved saved_member)
    | some row =>
      obtain ⟨inside,user,place⟩ := getFileMetadata_some looked
      rw [only row inside (at_iff.mpr ⟨user,place⟩)]

/-- After an upsert the row at the path says what was given. -/
theorem upsert_found (shaped : FileShaped path) {info : VfsFileInfo} {location : Location} {id : Nat} {now : Int}
    (made : upsertFileWithLocation userId path info location id now rows = .ok out) :
    ∃ row, getFileMetadata userId path out = some row ∧ row.isDir = info.isDir ∧ row.size = info.size ∧
      row.backendKey = location.backendKey ∧ row.physicalSize = location.physicalSize ∧
        row.protectedMeta = location.protectedMeta := by
  have plain : (if path = ['/'] then ['/'] else Text.trimEnd '/' path) = path := by
    split
    next root => exact root.symm
    next => exact trimEnd_plain shaped.2.2.1
  unfold upsertFileWithLocation at made
  dsimp only at made
  rw [plain] at made
  rw [addOrUpdateEntry] at made
  cases found : getFileMetadata userId path rows with
  | some existing =>
    simp only [found] at made
    obtain ⟨-,user,place⟩ := getFileMetadata_some found
    exact ⟨_,save_found found made rfl ⟨user,place⟩,rfl,rfl,rfl,rfl,rfl⟩
  | none =>
    simp only [found] at made
    refine ⟨_,(insert_lookup made found).trans (if_pos ⟨rfl,rfl⟩),rfl,rfl,rfl,rfl,rfl⟩

end Index

namespace Engine
variable {e : Engine} {path : Text} {offset : Nat} {data : Bytes} {w : World} {cs : List (Choice EngineEnv)}

/-! ### Protected files -/

/-- The blob that the row at a path describes holds a plaintext. -/
def HoldsPlaintext (e : Engine) (w : World) (path : Text) (plan : ProtectedPathPlan) (plaintext : Bytes) : Prop :=
  ∃ row key nonce encoded, Index.getFileMetadata e.userId path w.index = some row ∧ row.isDir = false ∧
    Engine.Describes row key encoded ∧ encodePayload e.crypto e.userId plan nonce plaintext = .ok encoded ∧
      w.primary.files.lookup key = some encoded.blob

theorem encodePayload_size {c : Crypto} {userId : Text} {plan : ProtectedPathPlan} {nonce : Nonce}
    {plaintext : Bytes} {encoded : EncodedPayload}
    (made : encodePayload c userId plan nonce plaintext = .ok encoded) :
    encoded.header.logicalSize = plaintext.length := by
  cases mode : plan.mode with
  | obfuscate =>
    rw [encodePayload_obfuscate mode] at made
    cases made
    rfl
  | encrypt =>
    obtain ⟨key,-,rfl⟩ := encodePayload_encrypt mode made
    rfl

/-- A file holds plaintexts of one length. -/
theorem HoldsPlaintext.length_eq {plan : ProtectedPathPlan} {p q : Bytes} (holds : e.HoldsPlaintext w path plan p)
    (holds' : e.HoldsPlaintext w path plan q) : p.length = q.length := by
  obtain ⟨row,_,_,_,found,-,described,made,-⟩ := holds
  obtain ⟨row',_,_,_,found',-,described',made',-⟩ := holds'
  rw [found] at found'
  cases found'
  have size := described.size
  have size' := described'.size
  rw [encodePayload_size made] at size
  rw [encodePayload_size made'] at size'
  exact_mod_cast size.symm.trans size'

theorem upsertIndexHelper_done {plan : ProtectedPathPlan} (resolved : e.resolveProtectedPlan = .ok (some plan))
    (covered : plan.matchesPath path = true) (visible : isProtectedBlobPath path = false) {info : VfsFileInfo}
    {backendKey : Option Text} {physicalSize : Option Int} {protectedMeta : Option ProtectedMetaRecord}
    {w' : World} {rest : List (Choice EngineEnv)}
    (done : e.upsertIndexHelperWithBackendKey path info backendKey physicalSize protectedMeta w cs =
      .done () w' rest) :
    ∃ id now index nextUuid, Index.upsertFileWithLocation e.userId path info
      ⟨some e.poolName,some e.backendType,backendKey,physicalSize,protectedMeta⟩ id now w.index = .ok index ∧
        w' = { w with index, nextUuid } := by
  have planned : e.getProtectedPlan path = pure (some plan) := by
    funext w cs
    rw [e.getProtectedPlan_run w path cs resolved,Option.filter_some,if_pos covered]
    rfl
  have upserted : e.upsertFileWithLocation path info
      ⟨some e.poolName,some e.backendType,backendKey,physicalSize,protectedMeta⟩ w cs = .done () w' rest := by
    unfold upsertIndexHelperWithBackendKey at done
    rw [if_neg (by rw [visible]; exact Bool.false_ne_true)] at done
    dsimp only at done
    split at done
    next =>
      rw [planned,pure_bind,pure_bind] at done
      exact done
    next =>
      rw [pure_bind] at done
      exact done
  obtain ⟨id,w₁,_,drawn,stored⟩ := bind_done w cs upserted
  cases drawn
  obtain ⟨-,now,index,made,rfl⟩ := transact_done stored
  exact ⟨_,now,index,_,made,rfl⟩

theorem orFailWal_returned {α : Type} {walId : Option Nat} {m : Vfs α} {a : α} {w' : World}
    {rest : List (Choice EngineEnv)} (done : orFailWal walId m w cs = .done a w' rest) :
    m w cs = .done a w' rest := by
  obtain ⟨result,middle,later,tried,settled⟩ := bind_done w cs done
  rcases attempt_cases w cs tried with ⟨b,rfl,ran⟩ | ⟨err,rfl,-⟩
  · cases settled
    exact ran
  · obtain ⟨_,_,_,_,failed⟩ := bind_done _ _ settled
    cases failed

/-- What a protected write that returns has put, and that the row describes it. -/
theorem protectedWriteImpl_done {plan : ProtectedPathPlan} (shaped : FileShaped path)
    (resolved : e.resolveProtectedPlan = .ok (some plan)) (covered : plan.matchesPath path = true)
    (visible : isProtectedBlobPath path = false) {plaintext : Bytes} {info : VfsFileInfo} {w' : World}
    {rest : List (Choice EngineEnv)} (done : e.protectedWriteImpl path plaintext plan w cs = .done info w' rest) :
    e.HoldsPlaintext w' path plan plaintext := by
  obtain ⟨_,_,_,-,done⟩ := bind_done w cs done
  obtain ⟨existing,_,_,-,done⟩ := bind_done _ _ done
  dsimp only at done
  obtain ⟨_,_,_,-,done⟩ := bind_done _ _ done
  obtain ⟨fresh,_,_,-,done⟩ := bind_done _ _ done
  obtain ⟨nonce,_,_,-,done⟩ := bind_done _ _ done
  obtain ⟨encoded,_,_,coded,done⟩ := bind_done _ _ done
  obtain ⟨walId,w₁,later,-,done⟩ := bind_done _ _ done
  obtain ⟨_,w₂,later₂,written,done⟩ := bind_done _ _ done
  have made : encodePayload e.crypto e.userId plan (e.draw nonce) plaintext = .ok encoded := by
    cases encode : encodePayload e.crypto e.userId plan (e.draw nonce) plaintext with
    | error message =>
      rw [encode] at coded
      cases coded
    | ok encoded' =>
      rw [encode] at coded
      cases coded
      rfl
  have wrote := orFailWal_returned written
  have put : Put e w₁ ((existing.bind (·.backendKey)).getD fresh) encoded.blob w₂ := by
    rcases poolWrite_cases e ((existing.bind (·.backendKey)).getD fresh) encoded.blob w₁ later with
      ⟨-,-,w₃,put,ran⟩ | ⟨-,w₃,-,⟨err,ran⟩ | ran⟩
    · rw [ran] at wrote
      exact Meets.of_done ((poolStat_readOnly e _).keeps _) put wrote
    · rw [ran] at wrote
      cases wrote
    · rw [ran] at wrote
      cases wrote
  obtain ⟨_,w₃,later₃,marked,done⟩ := bind_done _ _ done
  have put := Meets.of_done (markWal_keeps put_ignoresLog walId .physicalDone) put marked
  obtain ⟨_,w₄,later₄,upserted,done⟩ := bind_done _ _ done
  obtain ⟨id,now,index,nextUuid,filed,rfl⟩ := upsertIndexHelper_done resolved covered visible upserted
  obtain ⟨row,found,kind,size,backendKey,physicalSize,protectedMeta⟩ := Index.upsert_found shaped filed
  have holds : ∀ w', w'.index = index → w'.shared.primary.lookup ((existing.bind (·.backendKey)).getD fresh) =
      some encoded.blob → e.HoldsPlaintext w' path plan plaintext := by
    intro w' same file
    refine ⟨row,_,_,encoded,by rw [same]; exact found,kind,⟨backendKey,protectedMeta,?_,physicalSize⟩,made,file⟩
    rw [size,encodePayload_size made]
  have stays : Keeps (fun w' : World => w'.index = index ∧
      w'.shared.primary.lookup ((existing.bind (·.backendKey)).getD fresh) = some encoded.blob) (do
        completeWal walId
        when ((plaintext.length : Int) - (existing.map fun row => max row.size 0).getD 0 ≠ 0)
          (regardless (e.updateQuota ((plaintext.length : Int) - (existing.map fun row => max row.size 0).getD 0)))
        (pure ⟨lastSegment path,path,false,plaintext.length,
          (existing.map (·.favoriteColor)).getD 0,none,none⟩ : Vfs VfsFileInfo)) := by
    apply Keeps.bind (markWal_keeps (fun _ _ _ same => same) walId .completed)
    intro _
    apply Keeps.bind
    · unfold Vfs.when
      split
      · apply regardless_keeps
        unfold updateQuota update
        exact call_keeps fun _ _ same => same
      · exact Keeps.pure ()
    · exact fun _ => Keeps.pure _
  obtain ⟨same,file⟩ := Meets.of_done stays (s := { w₃ with index, nextUuid }) ⟨rfl,put.file⟩ done
  exact holds w' same file

/-- A run of the protected read-modify-write whose internal read found `current`
in `w₂`, as that of a plain one; no content is longer than a length can tell. -/
def ProtectedWriteAtRight (e : Engine) (path : Text) (offset : Nat) (data : Bytes) (plan : ProtectedPathPlan)
    (w : World) (cs : List (Choice EngineEnv)) : Prop :=
  ∀ current w₂ rest, (e.protectedReadAllImpl path plan).attempt w cs = .done current w₂ rest →
    (∀ content, contentRead current = some content → content.length < 2 ^ 64 → ∀ info w' rest',
      e.protectedWriteAtImpl path offset data plan w cs = .done info w' rest' →
        e.HoldsPlaintext w' path plan (overlay content offset data)) ∧
    (contentRead current = none → (e.protectedWriteAtImpl path offset data plan w cs).value? = none ∧
      (e.protectedWriteAtImpl path offset data plan w cs).state = w)

/-- A sum that wraps makes no protected write return. -/
def ProtectedWriteAtSafe (e : Engine) (path : Text) (offset : Nat) (data : Bytes) (plan : ProtectedPathPlan)
    (w : World) (cs : List (Choice EngineEnv)) : Prop :=
  ∀ current w₂ rest, (e.protectedReadAllImpl path plan).attempt w cs = .done current w₂ rest →
    ∀ content, contentRead current = some content → content.length < 2 ^ 64 →
      (e.protectedWriteAtImpl path offset data plan w cs).value?.isSome = true → offset + data.length < 2 ^ 64

theorem primaryRead_readOnly (key : Text) : ReadOnly (primaryRead key) := by
  apply call_readOnly
  intro env w
  split <;> rfl

theorem backupRead_readOnly (backup : Disk) (key : Text) : ReadOnly (backupRead backup key) := by
  apply call_readOnly
  intro env w
  split <;> rfl

theorem poolReadRange_readOnly (e : Engine) (key : Text) (start stop : Nat) :
    ReadOnly (e.poolReadRange key start stop) := by
  apply (e.poolPendingRead_readOnly key).bind
  intro pending
  split
  · exact ReadOnly.pure _
  · apply (e.readCacheGet_readOnly key).bind
    intro copy
    split
    · exact ReadOnly.pure _
    · apply (primaryStat_readOnly key).attempt.bind
      intro result
      split
      · exact (primaryRead_readOnly key).bind fun _ => ReadOnly.pure _
      · split
        · exact ReadOnly.fail _
        · apply (backupStat_readOnly _ key).bind
          intro _
          exact (backupRead_readOnly _ key).bind fun _ => ReadOnly.pure _

theorem protectedReadPayload_readOnly (row : IndexRow) (start stop : Nat) :
    ReadOnly (e.protectedReadPayloadRange row start stop) := by
  have range (key : Text) (start stop : Nat) := poolReadRange_readOnly e key start stop
  unfold protectedReadPayloadRange
  split
  · exact ReadOnly.fail _
  · split
    · exact ReadOnly.fail _
    · dsimp only
      split
      · exact (range _ _ _).bind fun _ => ReadOnly.pure _
      · split
        · apply (range _ _ _).bind
          intro _
          exact (range _ _ _).bind fun _ => ReadOnly.pure _
        · exact (range _ _ _).bind fun _ => ReadOnly.pure _

theorem protectedReadAllImpl_readOnly (path : Text) (plan : ProtectedPathPlan) :
    ReadOnly (e.protectedReadAllImpl path plan) := by
  apply (getIndexMetadata_readOnly e path).bind
  intro found
  split
  · exact ReadOnly.fail _
  · split
    · exact ReadOnly.fail _
    · apply (protectedReadPayload_readOnly _ _ _).bind
      intro read
      apply (ReadOnly.ofExcept _).bind
      intro _
      exact (ReadOnly.ofExcept _).bind fun _ => ReadOnly.pure _

/-- What was read decides what is written. -/
theorem protectedWriteAtImpl_cases {plan : ProtectedPathPlan} {current : Except VfsError (Bytes × VfsFileInfo)}
    {w₂ : World} {rest : List (Choice EngineEnv)}
    (cut : (e.protectedReadAllImpl path plan).attempt w cs = .done current w₂ rest) :
    (∃ content, contentRead current = some content ∧
      e.protectedWriteAtImpl path offset data plan w cs =
        e.protectedWriteImpl path (patchOrResize content offset data) plan w₂ rest) ∨
    ∃ err, current = .error err ∧
      e.protectedWriteAtImpl path offset data plan w cs = .failed err w₂ rest := by
  rw [protectedWriteAtImpl,bind_run cut]
  cases current with
  | ok read => exact .inl ⟨read.1,rfl,rfl⟩
  | error err =>
    cases err with
    | notFound p => exact .inl ⟨[],rfl,rfl⟩
    | openDal kind => exact .inr ⟨_,rfl,rfl⟩
    | internal message => exact .inr ⟨_,rfl,rfl⟩
    | permissionDenied message => exact .inr ⟨_,rfl,rfl⟩
    | quotaExceeded => exact .inr ⟨_,rfl,rfl⟩
    | maintenanceMode => exact .inr ⟨_,rfl,rfl⟩
    | io kind => exact .inr ⟨_,rfl,rfl⟩

theorem length_patchOrResize {content : Bytes} (wraps : ¬offset + data.length < 2 ^ 64)
    (small : content.length < 2 ^ 64) : (patchOrResize content offset data).length < 2 ^ 64 := by
  have stop : patchEnd offset data < 2 ^ 64 := Nat.mod_lt _ (by norm_num)
  rw [patchOrResize,patchBytes_wrapped wraps,Option.getD_none,length_resizeTo]
  exact max_lt small stop

theorem protectedWriteAtRight_iff {plan : ProtectedPathPlan} (shaped : FileShaped path)
    (resolved : e.resolveProtectedPlan = .ok (some plan)) (covered : plan.matchesPath path = true)
    (visible : isProtectedBlobPath path = false) :
    e.ProtectedWriteAtRight path offset data plan w cs ↔ e.ProtectedWriteAtSafe path offset data plan w cs := by
  refine forall_congr' fun current => forall_congr' fun w₂ => forall_congr' fun rest => forall_congr' fun cut => ?_
  have same : w₂ = w := readOnly_done (protectedReadAllImpl_readOnly path plan).attempt cut
  rcases (protectedWriteAtImpl_cases cut : (∃ content, _ ∧ e.protectedWriteAtImpl path offset data plan w cs = _) ∨ _)
    with ⟨content,known,ran⟩ | ⟨err,rfl,ran⟩
  · have others (other : Bytes) (told : contentRead current = some other) : other = content :=
      Option.some.inj (told.symm.trans known)
    constructor
    · intro ⟨returns,_⟩ other told small returned
      cases others other told
      by_contra wraps
      obtain ⟨info,w',rest',done⟩ := Outcome.done_of_value returned
      have wanted := returns content known small info w' rest' done
      rw [ran] at done
      have stored := protectedWriteImpl_done shaped resolved covered visible done
      have size := wanted.length_eq stored
      have short := length_patchOrResize wraps small
      rw [← size,length_overlay] at short
      omega
    · intro safe
      refine ⟨fun other told small info w' rest' done => ?_,fun unknown => ?_⟩
      · cases others other told
        have fits := safe content known small (by rw [done]; rfl)
        rw [ran] at done
        have stored := protectedWriteImpl_done shaped resolved covered visible done
        rw [patchOrResize,patchBytes_overlay fits] at stored
        exact stored
      · rw [known] at unknown
        cases unknown
  · rw [ran]
    constructor
    · intro _ content _ _ returned
      cases returned
    · intro _
      exact ⟨fun _ _ _ _ _ _ done => absurd done (by simp),fun _ => ⟨rfl,same⟩⟩

/-! ### The whole call -/

/-- A run that returns has read before. -/
theorem writeAtImpl_read (plain : e.PlainTarget w path)
    (returned : (e.writeAtImpl path offset data w cs).value?.isSome = true) :
    ∃ diff walId current w₂ rest, e.writeAtRead path offset data w cs = .done (diff,walId,current) w₂ rest := by
  obtain ⟨info,w',rest',done⟩ := Outcome.done_of_value returned
  rw [writeAtImpl_plain plain] at done
  obtain ⟨⟨diff,walId,current⟩,w₂,rest,read,-⟩ := bind_done w cs done
  exact ⟨diff,walId,current,w₂,rest,read⟩

theorem perform_done {α : Type} {f : EngineEnv → World → Except VfsError α × World} {a : α} {w' : World}
    {rest : List (Choice EngineEnv)} (done : Effect.perform f w cs = .done a w' rest) :
    ∃ env, f env w = (.ok a,w') := by
  have performed : Meets (· = w) (Effect.perform f) (fun a w' => ∃ env, f env w = (.ok a,w'))
      (fun _ _ => True) fun _ => True := by
    apply Meets.perform
    · intro env s a s' same made
      rw [same] at made
      exact ⟨env,made⟩
    · exact fun _ _ _ _ _ _ => trivial
    · exact fun _ _ => trivial
  exact performed.of_done rfl done

/-- Naming the trigger of a refresh writes nothing. -/
theorem trigger_writes_nothing (free : e.Unprotected path) (trigger : isRefreshTrigger path = true) :
    (e.writeAtImpl path offset data w cs).state = w := by
  have planned {β : Type} (k : Option ProtectedPathPlan → Vfs β) (later : Keeps (· = w) (k none)) :
      Keeps (· = w) (e.getProtectedPlan path >>= k) := by
    intro s cs same
    cases resolved : e.resolveProtectedPlan with
    | ok plan =>
      rw [getProtectedPlan_unprotected free resolved,pure_bind]
      exact later s cs same
    | error err =>
      rw [getProtectedPlan,resolved]
      exact same
  have guarded : Keeps (· = w) (e.writeAtImpl path offset data) := by
    apply (checkMaintenance_readOnly w).bind
    intro _
    apply planned
    dsimp only
    rw [if_pos trigger]
    apply (checkMaintenance_readOnly w).bind
    intro _
    apply planned
    dsimp only
    rw [if_pos trigger]
    exact e.statImpl_readOnly path w
  exact guarded.state cs rfl

/-- A file of three bytes. -/
def threeBytes : World := worldOf [("u/a".toList,[1,2,3])] ["u".toList] []

theorem plain_threeBytes : plainEngine.PlainTarget threeBytes "/a".toList :=
  ⟨rfl,⟨none,rfl⟩,plain_unprotected _,by decide,by decide⟩

/-- Five calls get through, and then the file is not to be read. -/
def unreadable : List (Choice EngineEnv) :=
  List.replicate 5 (.proceed default) ++ [.proceed ⟨⟨false,0⟩,.openDal .unexpected⟩]

end Engine
end StorageHub.Scoped
