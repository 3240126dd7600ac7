import StorageHub.Scoped.IndexTrash

/-! The row-by-row rewrites of the index over whatever rows their patterns
select. -/
namespace StorageHub.Scoped
open Library

namespace Index
variable {sensitive : Bool} {userId src dst : Text} {now : Int} {rows out : Index}

/-- A selected path can be cut after `src`. -/
def Cut (src dst : Text) (row : IndexRow) : Prop := ∃ path, rebased src dst row = .ok path

instance (src dst : Text) (row : IndexRow) : Decidable (Cut src dst row) :=
  match sliced : rebased src dst row with
  | .ok path => isTrue ⟨path,sliced⟩
  | .error e => isFalse fun cut => by
    obtain ⟨path,same⟩ := cut
    rw [sliced] at same
    cases same

/-- Where a selected row is carried. -/
def carried (src dst : Text) (row : IndexRow) : Text :=
  match rebased src dst row with
  | .ok path => path
  | .error _ => row.path

theorem carried_within {row : IndexRow} (inside : Text.within src row.path = true) :
    carried src dst row = Text.relocate src dst row.path := by
  rw [carried,rebased_within inside]

theorem carried_top {row : IndexRow} (top : row.path = src) : carried src dst row = dst := by
  rw [carried,rebased,if_pos top]

/-- Each row is put at its new path, one after the other. -/
def rewriteEach (src dst : Text) (put : Text → IndexRow → IndexRow) :
    List IndexRow → Index → Except IndexError Index
  | [], rows => .ok rows
  | row::rest, rows => do
    let path ← rebased src dst row
    let rows ← save (put path row) rows
    rewriteEach src dst put rest rows

theorem rewriteEach_ok_iff {put : Text → IndexRow → IndexRow} {selected : List IndexRow} :
    rewriteEach src dst put selected rows = .ok out ↔ (∀ row ∈ selected, Cut src dst row) ∧
      saveAll (selected.map fun row => put (carried src dst row) row) rows = .ok out := by
  induction selected generalizing rows with
  | nil => simp [rewriteEach,saveAll]
  | cons row rest ih =>
    rw [rewriteEach,List.map_cons,saveAll,List.forall_mem_cons]
    cases sliced : rebased src dst row with
    | error e =>
      constructor
      · intro impossible
        cases impossible
      · rintro ⟨⟨⟨path,same⟩,-⟩,-⟩
        rw [sliced] at same
        cases same
    | ok path =>
      have here : carried src dst row = path := by rw [carried,sliced]
      have cut : Cut src dst row := ⟨path,sliced⟩
      rw [here]
      simp only [bind,Except.bind,cut,true_and]
      cases saved : save (put path row) rows with
      | error e =>
        constructor
        · intro impossible
          cases impossible
        · rintro ⟨-,impossible⟩
          cases impossible
      | ok rows' => exact ih

/-! ### Moves -/

/-- A row a move carries along. -/
def carriedRow (src dst : Text) (now : Int) (row : IndexRow) : IndexRow :=
  let binned := Text.startsWith recycleBin dst
  { row with
    path := carried src dst row
    name := if row.path = src then lastSegment dst else row.name
    parentPath := parentOf (carried src dst row)
    rowUpdatedAt := now
    fileTrashedAt := if binned then row.fileTrashedAt else none
    originalPath := if binned then row.originalPath else none }

theorem carriedRow_retargets : Retargets (carriedRow src dst now) (carried src dst) :=
  ⟨fun _ => rfl,fun _ => rfl,fun _ => rfl⟩

/-- The rows a move selects, in the order it saves them. -/
def moveRows (sensitive : Bool) (userId src : Text) (rows : Index) : List IndexRow :=
  (getFileMetadata userId src rows).toList ++ rows.filter (likeBelow sensitive userId src)

theorem moveRows_subset : moveRows sensitive userId src rows ⊆ rows := by
  intro row member
  rcases List.mem_append.mp member with found | child
  · exact (getFileMetadata_some (Option.mem_toList.mp found)).1
  · exact (List.mem_filter.mp child).1

theorem inTree_moveRows (keyed : Keyed rows) {row : IndexRow} (inside : row ∈ rows)
    (placed : inTree userId src row = true) : row ∈ moveRows sensitive userId src rows := by
  rw [inTree,Bool.and_eq_true,beq_iff_eq,Text.within,Bool.or_eq_true,beq_iff_eq] at placed
  obtain ⟨owner,path | under⟩ := placed
  · have found := keyed.getFileMetadata_of_mem inside
    rw [owner,path] at found
    exact List.mem_append_left _ (Option.mem_toList.mpr found)
  · exact List.mem_append_right _ (List.mem_filter.mpr ⟨inside,likeBelow_of_below owner under⟩)

theorem moveEach_rewrites {children : List IndexRow} (strict : ∀ row ∈ children, row.path ≠ src)
    (rows : Index) : moveEach src dst now children rows =
      rewriteEach src dst (fun path row =>
        { row with
          path
          name := if row.path = src then lastSegment dst else row.name
          parentPath := parentOf path
          rowUpdatedAt := now
          fileTrashedAt := if Text.startsWith recycleBin dst then row.fileTrashedAt else none
          originalPath := if Text.startsWith recycleBin dst then row.originalPath else none })
        children rows := by
  induction children generalizing rows with
  | nil => rfl
  | cons child rest ih =>
    have other := strict child List.mem_cons_self
    rw [moveEach,rewriteEach,rebased,if_neg other]
    cases Text.dropBytes (Text.byteLength src) child.path with
    | none => rfl
    | some suffix =>
      simp only [bind,Except.bind,if_neg other]
      cases save _ rows with
      | error e => rfl
      | ok rows' => exact ih (fun row member => strict row (List.mem_cons_of_mem child member)) rows'

/-- A move goes through exactly when every selected row can be cut and finds
its new path free. -/
theorem moveFile_ok_iff (keyed : Keyed rows) :
    moveFile sensitive userId src dst now rows = .ok out ↔
      (∀ row ∈ moveRows sensitive userId src rows, Cut src dst row) ∧
      EachFree (carried src dst) (moveRows sensitive userId src rows) rows ∧
      out = changed (carriedRow src dst now) (moveRows sensitive userId src rows) rows := by
  have strict : ∀ row ∈ rows.filter (likeBelow sensitive userId src), row.path ≠ src := by
    intro row member here
    have liked := (List.mem_filter.mp member).2
    rw [likeBelow,here,Text.not_like_self,Bool.and_false] at liked
    cases liked
  rw [← saveAll_ok_iff keyed carriedRow_retargets moveRows_subset,moveFile]
  simp only [moveEach_rewrites strict]
  cases top : getFileMetadata userId src rows with
  | none =>
    rw [moveRows,top]
    exact rewriteEach_ok_iff
  | some row =>
    have here : row.path = src := (getFileMetadata_some top).2.2
    have first : Cut src dst row := ⟨dst,by rw [rebased,if_pos here]⟩
    have written : carriedRow src dst now row =
        { row with
          path := dst
          name := lastSegment dst
          parentPath := parentOf dst
          rowUpdatedAt := now
          fileTrashedAt := if Text.startsWith recycleBin dst then row.fileTrashedAt else none
          originalPath := if Text.startsWith recycleBin dst then row.originalPath else none } := by
      simp only [carriedRow,carried_top here,if_pos here]
    rw [moveRows,top,Option.toList_some,List.singleton_append,List.map_cons,saveAll,
      List.forall_mem_cons,written,moveTop]
    simp only [bind,Except.bind,first,true_and]
    cases save _ rows with
    | error e =>
      constructor
      · intro impossible
        cases impossible
      · rintro ⟨-,impossible⟩
        cases impossible
    | ok rows' => exact rewriteEach_ok_iff

/-! ### Restoring -/

/-- A row a restore brings back. -/
def restoredRow (src dst : Text) (now : Int) (row : IndexRow) : IndexRow :=
  { row with
    path := carried src dst row
    name := lastSegment (carried src dst row)
    parentPath := parentOf (carried src dst row)
    fileTrashedAt := none
    originalPath := none
    rowUpdatedAt := now }

theorem restoredRow_retargets : Retargets (restoredRow src dst now) (carried src dst) :=
  ⟨fun _ => rfl,fun _ => rfl,fun _ => rfl⟩

/-- The rows a restore selects, in the order it saves them. -/
def restoredRows (sensitive : Bool) (userId src : Text) (rows : Index) : List IndexRow :=
  (rows.filter fun row => at_ userId src row || likeBelow sensitive userId src row).mergeSort
    fun a b => decide (Text.byteLength a.path ≤ Text.byteLength b.path)

theorem mem_restoredRows {row : IndexRow} : row ∈ restoredRows sensitive userId src rows ↔
    row ∈ rows ∧ (at_ userId src row = true ∨ likeBelow sensitive userId src row = true) := by
  rw [restoredRows,(List.mergeSort_perm _ _).mem_iff,List.mem_filter,Bool.or_eq_true]

theorem inTree_restoredRows {row : IndexRow} (inside : row ∈ rows)
    (placed : inTree userId src row = true) : row ∈ restoredRows sensitive userId src rows := by
  rw [inTree,Bool.and_eq_true,beq_iff_eq,Text.within,Bool.or_eq_true,beq_iff_eq] at placed
  obtain ⟨owner,path | under⟩ := placed
  · exact mem_restoredRows.mpr ⟨inside,.inl (at_iff.mpr ⟨owner,path⟩)⟩
  · exact mem_restoredRows.mpr ⟨inside,.inr (likeBelow_of_below owner under)⟩

theorem restoreEach_rewrites (selected : List IndexRow) (rows : Index) :
    restoreEach src dst now selected rows = rewriteEach src dst (fun path row =>
      { row with
        path
        name := lastSegment path
        parentPath := parentOf path
        fileTrashedAt := none
        originalPath := none
        rowUpdatedAt := now }) selected rows := by
  induction selected generalizing rows with
  | nil => rfl
  | cons row rest ih =>
    rw [restoreEach,rewriteEach]
    cases rebased src dst row with
    | error e => rfl
    | ok path =>
      simp only [bind,Except.bind]
      cases save _ rows with
      | error e => rfl
      | ok rows' => exact ih rows'

/-- A restore goes through exactly when every selected row can be cut and finds
its path free. -/
theorem restoreFile_ok_iff (keyed : Keyed rows) :
    restoreFile sensitive userId src dst now rows = .ok out ↔
      (∀ row ∈ restoredRows sensitive userId src rows, Cut src dst row) ∧
      EachFree (carried src dst) (restoredRows sensitive userId src rows) rows ∧
      out = changed (restoredRow src dst now) (restoredRows sensitive userId src rows) rows := by
  have subset : restoredRows sensitive userId src rows ⊆ rows := fun row member =>
    (mem_restoredRows.mp member).1
  rw [← saveAll_ok_iff keyed restoredRow_retargets subset]
  calc
    restoreFile sensitive userId src dst now rows = .ok out
      ↔ restoreEach src dst now (restoredRows sensitive userId src rows) rows = .ok out := Iff.rfl
    _ ↔ _ := by
        rw [restoreEach_rewrites]
        exact rewriteEach_ok_iff

end Index
end StorageHub.Scoped
