import StorageHub.Library.Transition
import StorageHub.Scoped.IndexSelect
import StorageHub.Scoped.IndexTrash

/-! What a user attached to a row of the index, over any sequence of the calls
that maintain it. Shares and favourites hang on the id of a row. -/
namespace StorageHub.Scoped
open Library

namespace Index

/-- The calls of the index service that write rows without deleting any. -/
inductive Upkeep
  | addOrUpdateEntry (entry : IndexRow)
  | upsertFileWithLocation (userId logicalPath : Text) (info : VfsFileInfo) (location : Location)
      (id : Nat) (now : Int)
  | upsertDirectoryChunk (chunk : List IndexRow)
  | moveFile (userId srcPath dstPath : Text) (now : Int)
  | trashFile (userId oldPath newPath : Text) (now : Int)
  | restoreFile (userId trashPath restoredPath : Text) (now : Int)

/-- The statements of a call. -/
def Upkeep.statements (sensitive : Bool) : Upkeep → Index → Except IndexError Index
  | .addOrUpdateEntry entry => Index.addOrUpdateEntry entry
  | .upsertFileWithLocation userId logicalPath info location id now =>
    Index.upsertFileWithLocation userId logicalPath info location id now
  | .upsertDirectoryChunk chunk => fun rows =>
    .ok (chunk.foldl (fun rows entry => upsertSynced entry rows) rows)
  | .moveFile userId srcPath dstPath now => Index.moveFile sensitive userId srcPath dstPath now
  | .trashFile userId oldPath newPath now => Index.trashFile sensitive userId oldPath newPath now
  | .restoreFile userId trashPath restoredPath now =>
    Index.restoreFile sensitive userId trashPath restoredPath now

/-- The rows after a call that returned `Ok`; no statement gets past the primary key. -/
def upkeep (sensitive : Bool) : Transition.System Index Upkeep where
  step rows call := (call.statements sensitive rows).toOption.filter fun out =>
    decide (out.map (·.id)).Nodup

/-- What a later state of a row must still have of it. -/
structure SameAnnotations (row later : IndexRow) : Prop where
  id : later.id = row.id
  userId : later.userId = row.userId
  favoriteColor : later.favoriteColor = row.favoriteColor
  rowCreatedAt : later.rowCreatedAt = row.rowCreatedAt

/-- No row is gone and each has its annotations. -/
def Annotated (rows out : Index) : Prop := ∀ row ∈ rows, ∃ later ∈ out, SameAnnotations row later

theorem SameAnnotations.refl (row : IndexRow) : SameAnnotations row row := ⟨rfl,rfl,rfl,rfl⟩

theorem SameAnnotations.trans {a b c : IndexRow} (first : SameAnnotations a b)
    (second : SameAnnotations b c) : SameAnnotations a c :=
  ⟨second.id.trans first.id,second.userId.trans first.userId,
    second.favoriteColor.trans first.favoriteColor,second.rowCreatedAt.trans first.rowCreatedAt⟩

theorem Annotated.refl (rows : Index) : Annotated rows rows :=
  fun row inside => ⟨row,inside,.refl row⟩

theorem Annotated.trans {a b c : Index} (first : Annotated a b) (second : Annotated b c) :
    Annotated a c := by
  intro row inside
  obtain ⟨middle,present,same⟩ := first row inside
  obtain ⟨later,present',same'⟩ := second middle present
  exact ⟨later,present',same.trans same'⟩

theorem Annotated.append (rows : Index) (row : IndexRow) : Annotated rows (rows ++ [row]) :=
  fun row inside => ⟨row,List.mem_append_left _ inside,.refl row⟩

theorem Annotated.of_map {f : IndexRow → IndexRow} {rows : Index}
    (same : ∀ row ∈ rows, SameAnnotations row (f row)) : Annotated rows (rows.map f) :=
  fun row inside => ⟨f row,List.mem_map_of_mem inside,same row inside⟩

theorem Annotated.of_changed {f : IndexRow → IndexRow} {selected : List IndexRow} {rows : Index}
    (same : ∀ row, SameAnnotations row (f row)) : Annotated rows (changed f selected rows) := by
  apply Annotated.of_map
  intro row _
  split
  · exact same row
  · exact .refl row

/-! ### The keys -/

theorem occupied_false_iff {row : IndexRow} {rows : Index} :
    occupied row rows = false ↔ ∀ other ∈ rows, other.id ≠ row.id → ¬sameKey row other := by
  constructor
  · intro vacant other inside differs same
    have refused := List.any_eq_false.mp vacant other inside
    rw [Bool.and_eq_true,bne_iff_ne,at_sameKey] at refused
    exact refused ⟨differs,same⟩
  · exact occupied_false

theorem save_keyed {row : IndexRow} {rows out : Index} (keyed : Keyed rows)
    (saved : save row rows = .ok out) : Keyed out := by
  have vacant : occupied row rows = false := by
    rw [save] at saved
    split at saved
    next => cases saved
    next vacant => exact Bool.eq_false_iff.mpr vacant
  have apart := occupied_false_iff.mp vacant
  apply keyed_of_unique
  · rw [save_ids saved]
    exact keyed.ids
  · rw [save_cases saved]
    apply (uniqueUserPath_map _).mpr
    · intro first inside second inside' differs
      by_cases here : first.id = row.id
      · have elsewhere : second.id ≠ row.id := fun equal => differs (equal.trans here.symm)
        rw [if_pos here,if_neg elsewhere]
        exact apart second inside' elsewhere
      · rw [if_neg here]
        by_cases here' : second.id = row.id
        · rw [if_pos here']
          intro same
          exact apart first inside here ⟨same.1.symm,same.2.symm⟩
        · rw [if_neg here']
          intro same
          exact differs (by rw [keyed.of_key inside inside' same])
    · intro other
      split
      next same => exact same.symm
      next => rfl

theorem saveAll_keyed {written : List IndexRow} {rows out : Index} (keyed : Keyed rows)
    (saved : saveAll written rows = .ok out) : Keyed out := by
  induction written generalizing rows with
  | nil =>
    cases saved
    exact keyed
  | cons row rest ih =>
    rw [saveAll] at saved
    cases first : save row rows with
    | error e => rw [first] at saved; cases saved
    | ok middle =>
      rw [first] at saved
      exact ih (save_keyed keyed first) saved

/-- A row at a free key may be appended. -/
theorem append_paths {row : IndexRow} {rows : Index} (keyed : Keyed rows)
    (free : ∀ other ∈ rows, ¬(other.userId = row.userId ∧ other.path = row.path)) :
    ((rows ++ [row]).map fun row => (row.userId,row.path)).Nodup := by
  rw [List.map_append]
  apply List.Nodup.append keyed.paths (List.nodup_singleton _)
  intro key member member'
  obtain ⟨other,inside,rfl⟩ := List.mem_map.mp member
  have same := List.mem_singleton.mp member'
  obtain ⟨owner,path⟩ := Prod.mk.inj same
  exact free other inside ⟨owner,path⟩

/-! ### One call -/

variable {rows out : Index}

/-- The saved row of a read-modify-write, with the annotations of the one read. -/
theorem save_annotated {existing row : IndexRow} (keyed : Keyed rows) (inside : existing ∈ rows)
    (same : SameAnnotations existing row) (saved : save row rows = .ok out) : Annotated rows out := by
  rw [save_cases saved]
  apply Annotated.of_map
  intro other member
  split
  next number =>
    have equal : other = existing := keyed.of_id member inside (number.trans same.id)
    rw [equal]
    exact same
  next => exact .refl other

theorem addOrUpdateEntry_keeps {entry : IndexRow} (keyed : Keyed rows)
    (made : addOrUpdateEntry entry rows = .ok out) :
    (out.map fun row => (row.userId,row.path)).Nodup ∧ Annotated rows out := by
  rw [addOrUpdateEntry] at made
  cases found : getFileMetadata entry.userId entry.path rows with
  | some existing =>
    rw [found] at made
    dsimp only at made
    have inside := (getFileMetadata_some found).1
    refine ⟨(save_keyed keyed made).paths,save_annotated keyed inside ?_ made⟩
    exact ⟨rfl,rfl,rfl,rfl⟩
  | none =>
    rw [found] at made
    simp only [insert] at made
    split at made
    next => cases made
    next =>
      cases made
      exact ⟨append_paths keyed (getFileMetadata_none.mp found),.append rows _⟩

/-- The conflict clause of the chunk writes no annotation and no key. -/
theorem upsertSynced_keeps (entry : IndexRow)
    (paths : (rows.map fun row => (row.userId,row.path)).Nodup) :
    ((upsertSynced entry rows).map fun row => (row.userId,row.path)).Nodup ∧
      Annotated rows (upsertSynced entry rows) := by
  rw [upsertSynced]
  split
  next =>
    constructor
    · have keys : (rows.map fun row =>
          if at_ entry.userId entry.path row then
            { row with
              parentPath := entry.parentPath
              name := entry.name
              isDir := entry.isDir
              size := entry.size
              rowUpdatedAt := entry.rowUpdatedAt }
          else row).map (fun row => (row.userId,row.path)) = rows.map fun row => (row.userId,row.path) := by
        rw [List.map_map]
        apply List.map_congr_left
        intro row _
        simp only [Function.comp]
        split <;> rfl
      rw [keys]
      exact paths
    · apply Annotated.of_map
      intro row _
      split
      · exact ⟨rfl,rfl,rfl,rfl⟩
      · exact .refl row
  next absent =>
    refine ⟨?_,.append rows entry⟩
    rw [List.map_append]
    apply List.Nodup.append paths (List.nodup_singleton _)
    intro key member member'
    obtain ⟨other,inside,rfl⟩ := List.mem_map.mp member
    obtain ⟨owner,path⟩ := Prod.mk.inj (List.mem_singleton.mp member')
    exact absent (List.any_eq_true.mpr ⟨other,inside,at_iff.mpr ⟨owner,path⟩⟩)

theorem upsertChunk_keeps (chunk : List IndexRow)
    (paths : (rows.map fun row => (row.userId,row.path)).Nodup) :
    ((chunk.foldl (fun rows entry => upsertSynced entry rows) rows).map
        fun row => (row.userId,row.path)).Nodup ∧
      Annotated rows (chunk.foldl (fun rows entry => upsertSynced entry rows) rows) := by
  induction chunk generalizing rows with
  | nil => exact ⟨paths,.refl rows⟩
  | cons entry rest ih =>
    obtain ⟨paths',kept⟩ := upsertSynced_keeps entry paths
    obtain ⟨paths'',kept'⟩ := ih paths'
    exact ⟨paths'',kept.trans kept'⟩

variable {sensitive : Bool} {userId src dst : Text} {now : Int}

theorem moveFile_keeps (keyed : Keyed rows)
    (made : moveFile sensitive userId src dst now rows = .ok out) : Keyed out ∧ Annotated rows out := by
  obtain ⟨-,free,written⟩ := (moveFile_ok_iff keyed).mp made
  have saved := (saveAll_ok_iff keyed carriedRow_retargets moveRows_subset).mpr ⟨free,written⟩
  refine ⟨saveAll_keyed keyed saved,?_⟩
  rw [written]
  exact .of_changed fun row => ⟨rfl,rfl,rfl,rfl⟩

theorem restoreFile_keeps (keyed : Keyed rows)
    (made : restoreFile sensitive userId src dst now rows = .ok out) :
    Keyed out ∧ Annotated rows out := by
  have subset : restoredRows sensitive userId src rows ⊆ rows := fun row member =>
    (mem_restoredRows.mp member).1
  obtain ⟨-,free,written⟩ := (restoreFile_ok_iff keyed).mp made
  have saved := (saveAll_ok_iff keyed restoredRow_retargets subset).mpr ⟨free,written⟩
  refine ⟨saveAll_keyed keyed saved,?_⟩
  rw [written]
  exact .of_changed fun row => ⟨rfl,rfl,rfl,rfl⟩

theorem trashFile_keeps (keyed : Keyed rows)
    (made : trashFile sensitive userId src dst now rows = .ok out) :
    Keyed out ∧ Annotated rows out := by
  have top (row : IndexRow) : SameAnnotations row (trashTop userId src dst now row) := by
    unfold trashTop
    split <;> exact ⟨rfl,rfl,rfl,rfl⟩
  have liked (row : IndexRow) : SameAnnotations row (trashLiked sensitive userId src dst now row) := by
    unfold trashLiked
    split <;> exact ⟨rfl,rfl,rfl,rfl⟩
  have both (row : IndexRow) := (top row).trans (liked (trashTop userId src dst now row))
  rw [trashFile_eq] at made
  split at made
  next unique =>
    cases made
    rw [Bool.and_eq_true] at unique
    have ids : ((rows.map (trashTop userId src dst now)).map
        (trashLiked sensitive userId src dst now)).map (·.id) = rows.map (·.id) := by
      rw [List.map_map,List.map_map]
      apply List.map_congr_left
      intro row _
      exact (both row).id
    refine ⟨keyed_of_unique (ids ▸ keyed.ids) unique.2,?_⟩
    rw [List.map_map]
    exact Annotated.of_map fun row _ => both row
  next => cases made

theorem upkeep_ok {call : Upkeep} (made : (upkeep sensitive).step rows call = some out) :
    call.statements sensitive rows = .ok out := by
  obtain ⟨done,-⟩ := Option.filter_eq_some_iff.mp made
  cases result : call.statements sensitive rows with
  | error e => rw [result] at done; cases done
  | ok out' => rw [result] at done; cases done; rfl

/-- One call of the maintenance keeps the keys and every annotation. -/
theorem upkeep_step (keyed : Keyed rows) {call : Upkeep}
    (made : (upkeep sensitive).step rows call = some out) : Keyed out ∧ Annotated rows out := by
  have ids := of_decide_eq_true (Option.filter_eq_some_iff.mp made).2
  have returned := upkeep_ok made
  cases call with
  | addOrUpdateEntry entry =>
    obtain ⟨paths,kept⟩ := addOrUpdateEntry_keeps keyed returned
    exact ⟨⟨ids,paths⟩,kept⟩
  | upsertFileWithLocation userId logicalPath info location id now =>
    obtain ⟨paths,kept⟩ := addOrUpdateEntry_keeps keyed returned
    exact ⟨⟨ids,paths⟩,kept⟩
  | upsertDirectoryChunk chunk =>
    cases returned
    obtain ⟨paths,kept⟩ := upsertChunk_keeps chunk keyed.paths
    exact ⟨⟨ids,paths⟩,kept⟩
  | moveFile userId srcPath dstPath now => exact moveFile_keeps keyed returned
  | trashFile userId oldPath newPath now => exact trashFile_keeps keyed returned
  | restoreFile userId trashPath restoredPath now => exact restoreFile_keeps keyed returned

/-- Any sequence of maintenance calls leaves every row that was there, with its
annotations, and the keys of the table. -/
theorem annotations_survive (calls : List Upkeep) (keyed : Keyed rows)
    (made : (upkeep sensitive).exec rows calls = some out) : Keyed out ∧ Annotated rows out := by
  have run := Transition.System.exec_run made
  clear made
  induction run with
  | nil s => exact ⟨keyed,.refl s⟩
  | cons _ stepped _ ih =>
    obtain ⟨keyed',kept⟩ := upkeep_step keyed stepped
    obtain ⟨keyed'',kept'⟩ := ih keyed'
    exact ⟨keyed'',kept.trans kept'⟩

/-- A coloured file is written again, synchronised, moved and trashed. -/
theorem annotations_survive_calls :
    ∃ rows calls out, (upkeep false).exec rows calls = some out ∧ calls.length = 4 ∧
      Keyed out ∧ Annotated rows out := by
  let row : IndexRow := ⟨7,"u".toList,"/".toList,"a".toList,"/a".toList,false,none,none,none,3,none,none,
    none,10,10,5,none⟩
  let entry : IndexRow := { row with id := 9, size := 4, rowCreatedAt := 20, favoriteColor := 0 }
  let calls : List Upkeep := [.addOrUpdateEntry entry,.upsertDirectoryChunk [{ entry with id := 11 }],
    .moveFile "u".toList "/a".toList "/b".toList 30,
    .trashFile "u".toList "/b".toList "/.recycle_bin/x_b".toList 40]
  have keyed : Keyed [row] := ⟨List.nodup_singleton _,List.nodup_singleton _⟩
  have ran : ((upkeep false).exec [row] calls).isSome = true := by decide +kernel
  obtain ⟨out,made⟩ := Option.isSome_iff_exists.mp ran
  exact ⟨[row],calls,out,made,rfl,annotations_survive calls keyed made⟩

end Index
end StorageHub.Scoped
