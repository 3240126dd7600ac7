import StorageHub.Scoped.IndexSpec

/-! Which rows a deletion from the index removes. -/
namespace StorageHub.Scoped
open Library

namespace Index
variable (sensitive : Bool) (userId path : Text)

/-- The user's rows a deletion of `path` also takes for the sake of the original
path of a row at `path`. -/
def takenByOrigin (rows : Index) (row : IndexRow) : Prop :=
  ∃ top ∈ rows, at_ userId path top = true ∧ ∃ origin, top.originalPath = some origin ∧
    row.userId = userId ∧
      row.originalPath.any (Text.like sensitive (Text.trimEnd '/' origin ++ ['/','%'])) = true

/-- No row outside the tree is caught by a pattern of the deletion. -/
def DeleteQuiet (rows : Index) : Prop :=
  ∀ row ∈ rows, inTree userId path row = false →
    likeBelow sensitive userId path row = false ∧ ¬takenByOrigin sensitive userId path rows row

variable {sensitive userId path}

/-- Deletions one after the other keep the rows none of them takes. -/
theorem foldl_filter {κ : Type} (taken : κ → IndexRow → Bool) (keys : List κ) (rows : Index) :
    keys.foldl (fun rows key => rows.filter fun row => !taken key row) rows =
      rows.filter fun row => keys.all fun key => !taken key row := by
  induction keys generalizing rows with
  | nil => simp
  | cons key rest ih =>
    rw [List.foldl_cons,ih,List.filter_filter]
    apply List.filter_congr
    intro row _
    rw [List.all_cons,Bool.and_comm]

theorem filter_eq_filter {p q : IndexRow → Bool} {rows : Index} :
    rows.filter p = rows.filter q ↔ ∀ row ∈ rows, p row = q row := by
  constructor
  · intro same row inside
    have kept : row ∈ rows.filter p ↔ row ∈ rows.filter q := by rw [same]
    rw [List.mem_filter,List.mem_filter] at kept
    have agree : p row = true ↔ q row = true := by
      constructor
      · intro holds
        exact (kept.mp ⟨inside,holds⟩).2
      · intro holds
        exact (kept.mpr ⟨inside,holds⟩).2
    exact Bool.eq_iff_iff.mpr agree
  · exact List.filter_congr

/-- The test of the rows a deletion keeps. -/
theorem deleteFile_keeps (rows : Index) :
    ∃ keep : IndexRow → Bool, deleteFile sensitive userId path rows = rows.filter keep ∧
      ∀ row, keep row = true ↔ ¬at_ userId path row = true ∧
        ¬likeBelow sensitive userId path row = true ∧ ¬takenByOrigin sensitive userId path rows row := by
  let origins := (rows.filter (at_ userId path)).filterMap fun row =>
    row.originalPath.map (Text.trimEnd '/')
  let taken (dir : Text) (row : IndexRow) : Bool := row.userId == userId &&
    row.originalPath.any (Text.like sensitive (dir ++ ['/','%']))
  refine ⟨fun row => (origins.all fun dir => !taken dir row) &&
    !(at_ userId path row || likeBelow sensitive userId path row),?_,?_⟩
  · have folded := foldl_filter taken origins
      (rows.filter fun row => !(at_ userId path row || likeBelow sensitive userId path row))
    rw [List.filter_filter] at folded
    exact folded
  · intro row
    have byOrigin : (origins.all fun dir => !taken dir row) = true ↔
        ¬takenByOrigin sensitive userId path rows row := by
      rw [List.all_eq_true]
      constructor
      · rintro all ⟨top,inside,here,origin,original,owner,matched⟩
        have member : Text.trimEnd '/' origin ∈ origins := by
          apply List.mem_filterMap.mpr
          exact ⟨top,List.mem_filter.mpr ⟨inside,here⟩,by rw [original]; rfl⟩
        have refused := all _ member
        simp [taken,owner,matched] at refused
      · intro untouched dir member
        obtain ⟨top,kept,trimmed⟩ := List.mem_filterMap.mp member
        obtain ⟨inside,here⟩ := List.mem_filter.mp kept
        obtain ⟨origin,original,rfl⟩ := Option.map_eq_some_iff.mp trimmed
        rw [Bool.not_eq_true',Bool.eq_false_iff]
        intro caught
        rw [Bool.and_eq_true,beq_iff_eq] at caught
        exact untouched ⟨top,inside,here,origin,original,caught.1,caught.2⟩
    rw [Bool.and_eq_true,byOrigin,Bool.not_eq_true',Bool.or_eq_false_iff,Bool.eq_false_iff,
      Bool.eq_false_iff]
    tauto

theorem inTree_iff {row : IndexRow} : inTree userId path row = true ↔
    at_ userId path row = true ∨ (row.userId = userId ∧ Text.below path row.path = true) := by
  rw [inTree,Bool.and_eq_true,beq_iff_eq,Text.within,Bool.or_eq_true,beq_iff_eq,at_iff]
  tauto

/-- A deletion removes exactly the rows at or below the path if and only if its
patterns catch no other row. -/
theorem deleteFile_exact_iff (rows : Index) :
    deleteFile sensitive userId path rows = rows.filter (fun row => !inTree userId path row) ↔
      DeleteQuiet sensitive userId path rows := by
  obtain ⟨keep,result,kept⟩ := @deleteFile_keeps sensitive userId path rows
  rw [result,filter_eq_filter]
  constructor
  · intro agree row inside outside
    have stays : keep row = true := by rw [agree row inside,outside]; rfl
    obtain ⟨-,unmatched,untouched⟩ := (kept row).mp stays
    exact ⟨Bool.eq_false_iff.mpr unmatched,untouched⟩
  · intro quiet row inside
    cases placed : inTree userId path row with
    | true =>
      rw [Bool.not_true,Bool.eq_false_iff]
      intro stays
      obtain ⟨elsewhere,unmatched,-⟩ := (kept row).mp stays
      rcases inTree_iff.mp placed with here | ⟨owner,under⟩
      · exact elsewhere here
      · exact unmatched (likeBelow_of_below owner under)
    | false =>
      obtain ⟨unmatched,untouched⟩ := quiet row inside placed
      rw [Bool.not_false]
      apply (kept row).mpr
      refine ⟨fun here => ?_,Bool.eq_false_iff.mp unmatched,untouched⟩
      rw [inTree_iff.mpr (.inl here)] at placed
      cases placed

/-! ### Purging one of two trash entries -/

def trashedRow (id : Nat) (path originalPath : String) : IndexRow where
  id
  userId := "u".toList
  parentPath := recycleBin
  name := lastSegment path.toList
  path := path.toList
  isDir := false
  storageId := none
  backendType := none
  backendKey := none
  size := 1
  physicalSize := none
  protectedMeta := none
  fileTrashedAt := some 0
  rowCreatedAt := 0
  rowUpdatedAt := 0
  favoriteColor := 0
  originalPath := some originalPath.toList

/-- `/d/x` was trashed first, then `/d` itself. -/
def nestedTrash : Index :=
  [trashedRow 1 "/.recycle_bin/1_x" "/d/x",trashedRow 2 "/.recycle_bin/2_d" "/d"]

/-- Purging the entry of `/d` takes the entry of `/d/x` with it. -/
theorem deleteFile_takes_other_trash :
    deleteFile true "u".toList "/.recycle_bin/2_d".toList nestedTrash ≠
      nestedTrash.filter (fun row => !inTree "u".toList "/.recycle_bin/2_d".toList row) := by
  decide +kernel

end Index
end StorageHub.Scoped
