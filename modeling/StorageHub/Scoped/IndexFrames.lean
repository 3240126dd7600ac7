import StorageHub.Scoped.IndexSpec

/-! Which rows the subtree rewrites of the index change: moves and trashing. -/
namespace StorageHub.Scoped
open Library

namespace Index
variable {sensitive : Bool} {userId src dst : Text}

/-! ### Moves -/

/-- Some row of a number was written at a time. -/
def Touched (now : Int) (id : Nat) (rows : Index) : Prop :=
  ∃ row ∈ rows, row.id = id ∧ row.rowUpdatedAt = now

theorem save_cases {row : IndexRow} {rows out : Index} (saved : save row rows = .ok out) :
    out = rows.map fun other => if other.id = row.id then row else other := by
  unfold save at saved
  split at saved
  next => cases saved
  next => exact (Except.ok.inj saved).symm

theorem save_ids {row : IndexRow} {rows out : Index} (saved : save row rows = .ok out) :
    out.map (·.id) = rows.map (·.id) := by
  rw [save_cases saved,List.map_map]
  apply List.map_congr_left
  intro other _
  simp only [Function.comp]
  split
  next same => exact same.symm
  next => rfl

theorem save_touches {row : IndexRow} {rows out : Index} (saved : save row rows = .ok out)
    (known : row.id ∈ rows.map (·.id)) : Touched row.rowUpdatedAt row.id out := by
  obtain ⟨other,inside,same⟩ := List.mem_map.mp known
  refine ⟨row,?_,rfl,rfl⟩
  rw [save_cases saved]
  apply List.mem_map.mpr
  exact ⟨other,inside,by rw [if_pos same]⟩

theorem Touched.save {now : Int} {id : Nat} {row : IndexRow} {rows out : Index}
    (touched : Touched now id rows) (saved : save row rows = .ok out)
    (timed : row.rowUpdatedAt = now) : Touched now id out := by
  obtain ⟨old,inside,number,time⟩ := touched
  by_cases same : old.id = row.id
  · refine ⟨row,?_,same.symm.trans number,timed⟩
    rw [save_cases saved]
    exact List.mem_map.mpr ⟨old,inside,by rw [if_pos same]⟩
  · refine ⟨old,?_,number,time⟩
    rw [save_cases saved]
    exact List.mem_map.mpr ⟨old,inside,by rw [if_neg same]⟩

theorem moveEach_cons {now : Int} {child : IndexRow} {rest : List IndexRow} {rows out : Index}
    (moved : moveEach src dst now (child::rest) rows = .ok out) :
    ∃ row middle, row.id = child.id ∧ row.rowUpdatedAt = now ∧ save row rows = .ok middle ∧
      moveEach src dst now rest middle = .ok out := by
  rw [moveEach] at moved
  cases sliced : Text.dropBytes (Text.byteLength src) child.path with
  | none => rw [sliced] at moved; cases moved
  | some suffix =>
    rw [sliced] at moved
    simp only [bind,Except.bind] at moved
    split at moved
    next => cases moved
    next middle saved =>
      refine ⟨_,middle,?_,?_,saved,moved⟩
      · rfl
      · rfl

/-- Every row a move selects as a child is written. -/
theorem moveEach_touches {now : Int} {children : List IndexRow} {rows out : Index}
    (moved : moveEach src dst now children rows = .ok out) :
    (∀ id, Touched now id rows → Touched now id out) ∧
      ∀ child ∈ children, child.id ∈ rows.map (·.id) → Touched now child.id out := by
  induction children generalizing rows with
  | nil =>
    cases moved
    exact ⟨fun _ touched => touched,by simp⟩
  | cons child rest ih =>
    obtain ⟨row,middle,number,time,saved,moved⟩ := moveEach_cons moved
    obtain ⟨kept,touched⟩ := ih moved
    refine ⟨fun id before => kept id (before.save saved time),?_⟩
    intro other member known
    rcases List.mem_cons.mp member with rfl | member
    · have written := save_touches saved (number ▸ known)
      rw [number,time] at written
      exact kept _ written
    · apply touched other member
      rw [save_ids saved]
      exact known

theorem moveTop_ids {now : Int} {top : Option IndexRow} {rows out : Index}
    (moved : moveTop dst now top rows = .ok out) : out.map (·.id) = rows.map (·.id) := by
  cases top with
  | none => cases moved; rfl
  | some row => exact save_ids moved

theorem moveFile_touches {now : Int} {rows out : Index}
    (moved : moveFile sensitive userId src dst now rows = .ok out) {row : IndexRow}
    (inside : row ∈ rows) (liked : likeBelow sensitive userId src row = true) :
    Touched now row.id out := by
  rw [moveFile] at moved
  cases topped : moveTop dst now (getFileMetadata userId src rows) rows with
  | error e => rw [topped] at moved; cases moved
  | ok middle =>
    rw [topped] at moved
    apply (moveEach_touches moved).2 row (List.mem_filter.mpr ⟨inside,liked⟩)
    rw [moveTop_ids topped]
    exact List.mem_map_of_mem inside

/-- A move rewrites exactly the tree, at any time, if and only if the pattern
catches no other row and each saved row finds its new path free. -/
theorem moveFile_exact_iff (table : Table) :
    (∀ now, moveFile sensitive userId src dst now table.rows =
        .ok (relocateTree userId src dst now table.rows)) ↔
      LikeQuiet sensitive userId src table.rows ∧
        EachFree (fun row => Text.relocate src dst row.path) (treeRows userId src table.rows)
          table.rows := by
  obtain ⟨rows,keyed⟩ := table
  dsimp only
  constructor
  · intro exact_
    have quiet : LikeQuiet sensitive userId src rows := by
      intro row inside liked
      by_contra above
      have elsewhere : inTree userId src row = false := by
        rw [Bool.eq_false_iff]
        intro placed
        rw [inTree,Bool.and_eq_true,Text.within,Bool.or_eq_true,beq_iff_eq,beq_iff_eq] at placed
        rcases placed.2 with here | under
        · rw [likeBelow,here,Text.not_like_self,Bool.and_false] at liked
          cases liked
        · exact above under
      -- a later time than that of the row tells the saved row from the old one
      obtain ⟨row',inside',number,time⟩ := moveFile_touches (exact_ (row.rowUpdatedAt + 1)) inside liked
      obtain ⟨original,member,rfl⟩ := List.mem_map.mp inside'
      have same : original = row := by
        apply keyed.of_id member inside
        rw [← number]
        split <;> rfl
      rw [same,if_neg (by rw [elsewhere]; exact Bool.false_ne_true)] at time
      omega
    refine ⟨quiet,?_⟩
    have saved := exact_ 0
    rw [moveFile_saveAll quiet] at saved
    exact ((saveAll_ok_iff keyed relocated_retargets treeRows_subset).mp saved).1
  · rintro ⟨quiet,free⟩ now
    rw [moveFile_saveAll quiet,← changed_treeRows keyed]
    exact (saveAll_ok_iff keyed relocated_retargets treeRows_subset).mpr ⟨free,rfl⟩

/-! ### Trashing -/

section trashing
variable (sensitive userId) (old new : Text) (now : Int)

/-- A row of the tree at `old`, as trashing it to `new` should leave it. -/
def trashed (row : IndexRow) : IndexRow :=
  { row with
    path := Text.relocate old new row.path
    name := if row.path = old then lastSegment new else row.name
    parentPath := if row.path = old then recycleBin else Text.relocate old new row.parentPath
    fileTrashedAt := some now
    originalPath := some row.path
    rowUpdatedAt := now }

/-- The table with a tree trashed. -/
def trashTree (rows : Index) : Index :=
  rows.map fun row => if inTree userId old row then trashed old new now row else row

/-- The first of the two updates of `trash_file`, on the row at the path. -/
def trashTop (row : IndexRow) : IndexRow :=
  if at_ userId old row then
    { row with
      path := new
      name := lastSegment new
      parentPath := recycleBin
      fileTrashedAt := some now
      originalPath := some old
      rowUpdatedAt := now }
  else row

/-- The second one, on the rows the pattern selects. -/
def trashLiked (row : IndexRow) : IndexRow :=
  if likeBelow sensitive userId old row then
    { row with
      originalPath := some row.path
      path := Text.replace old new row.path
      parentPath := Text.replace old new row.parentPath
      fileTrashedAt := some now
      rowUpdatedAt := now }
  else row

theorem trashFile_eq (rows : Index) : trashFile sensitive userId old new now rows =
    if uniqueUserPath (rows.map (trashTop userId old new now)) &&
        uniqueUserPath ((rows.map (trashTop userId old new now)).map
          (trashLiked sensitive userId old new now)) then
      .ok ((rows.map (trashTop userId old new now)).map (trashLiked sensitive userId old new now))
    else .error .uniqueUserPath := rfl

/-- The patterns and the replacements of trashing reach the tree and nothing
else. -/
structure TrashExact (rows : Index) : Prop where
  quiet : LikeQuiet sensitive userId old rows
  top_quiet : ∀ row ∈ rows, at_ userId old row = true → Text.like sensitive (old ++ ['/','%']) new = false
  replaced : ∀ row ∈ rows, row.userId = userId → Text.below old row.path = true →
    Text.replace old new row.path = Text.relocate old new row.path ∧
      Text.replace old new row.parentPath = Text.relocate old new row.parentPath

/-- Nothing is where the tree goes. -/
structure TrashVacant (rows : Index) : Prop where
  top : ∀ row ∈ rows, at_ userId old row = true → ∀ other ∈ rows, other.userId = userId →
    other ≠ row → other.path ≠ new
  tree : ∀ row ∈ rows, inTree userId old row = true → ∀ other ∈ rows, other.userId = userId →
    inTree userId old other = false → other.path ≠ Text.relocate old new row.path

variable {sensitive userId old new now} {rows : Index}

theorem below_strict {root path : Text} (under : Text.below root path = true) : path ≠ root := by
  obtain ⟨rest,split⟩ := Text.below_iff.mp under
  rw [split]
  simp

theorem not_at_of_below {row : IndexRow} (under : Text.below old row.path = true) :
    at_ userId old row = false := by
  rw [at_,Bool.and_eq_false_iff]
  right
  exact beq_eq_false_iff_ne.mpr (below_strict under)

/-- Where the two updates agree with the trashed tree at every time. -/
theorem trash_row_iff {row : IndexRow} :
    (∀ now, trashLiked sensitive userId old new now (trashTop userId old new now row) =
        if inTree userId old row then trashed old new now row else row) ↔
      (likeBelow sensitive userId old row = true → Text.below old row.path = true) ∧
      (at_ userId old row = true → Text.like sensitive (old ++ ['/','%']) new = false) ∧
      (row.userId = userId → Text.below old row.path = true →
        Text.replace old new row.path = Text.relocate old new row.path ∧
          Text.replace old new row.parentPath = Text.relocate old new row.parentPath) := by
  by_cases here : at_ userId old row = true
  · obtain ⟨owner,path⟩ := at_iff.mp here
    have placed : inTree userId old row = true := by simp [inTree,owner,path]
    have unliked : likeBelow sensitive userId old row = false := by
      rw [likeBelow,path,Text.not_like_self,Bool.and_false]
    have strict : Text.below old row.path = false := by
      rw [Bool.eq_false_iff]
      intro under
      exact below_strict under path
    have moved : Text.relocate old new row.path = new := by simp [Text.relocate,path]
    have goal (now : Int) : trashed old new now row = trashTop userId old new now row := by
      rw [trashTop,if_pos here,trashed,moved,if_pos path,if_pos path,path]
    have liked (now : Int) : likeBelow sensitive userId old (trashTop userId old new now row) =
        Text.like sensitive (old ++ ['/','%']) new := by
      rw [trashTop,if_pos here,likeBelow,owner]
      simp
    simp only [placed,if_true,goal,unliked,strict,here,Bool.false_eq_true,false_imp_iff,true_imp_iff,
      true_and,imp_true_iff,and_true]
    constructor
    · intro same
      rw [Bool.eq_false_iff]
      intro matched
      have updated := same 0
      rw [trashLiked,if_pos ((liked 0).trans matched),trashTop,if_pos here] at updated
      have origin : some new = some old := congrArg IndexRow.originalPath updated
      rw [Option.some.inj origin,Text.not_like_self] at matched
      cases matched
    · intro unmatched now
      rw [trashLiked,if_neg (by rw [liked,unmatched]; exact Bool.false_ne_true)]
  · have stays (now : Int) : trashTop userId old new now row = row := by rw [trashTop,if_neg here]
    simp only [stays]
    by_cases under : row.userId = userId ∧ Text.below old row.path = true
    · obtain ⟨owner,under⟩ := under
      have placed : inTree userId old row = true := by simp [inTree,owner,Text.within,under]
      have liked : likeBelow sensitive userId old row = true := likeBelow_of_below owner under
      have strict := below_strict under
      simp only [placed,if_true]
      constructor
      · intro same
        have updated := same 0
        rw [trashLiked,if_pos liked,trashed,if_neg strict,if_neg strict] at updated
        exact ⟨fun _ => under,fun top => absurd top here,
          fun _ _ => ⟨congrArg IndexRow.path updated,congrArg IndexRow.parentPath updated⟩⟩
      · rintro ⟨-,-,replaced⟩ now
        obtain ⟨path,parent⟩ := replaced owner under
        rw [trashLiked,if_pos liked,trashed,if_neg strict,if_neg strict,path,parent]
    · have elsewhere : inTree userId old row = false := by
        rw [inTree,Text.within,Bool.eq_false_iff]
        intro placed
        rw [Bool.and_eq_true,Bool.or_eq_true,beq_iff_eq,beq_iff_eq] at placed
        rcases placed.2 with top | below
        · exact here (at_iff.mpr ⟨placed.1,top⟩)
        · exact under ⟨placed.1,below⟩
      simp only [elsewhere,Bool.false_eq_true,if_false]
      constructor
      · intro same
        refine ⟨fun liked => ?_,fun top => absurd top here,
          fun owner below => absurd ⟨owner,below⟩ under⟩
        have updated := same (row.rowUpdatedAt + 1)
        rw [trashLiked,if_pos liked] at updated
        have time : row.rowUpdatedAt + 1 = row.rowUpdatedAt := congrArg IndexRow.rowUpdatedAt updated
        omega
      · rintro ⟨quiet,-⟩ now
        have unliked : ¬likeBelow sensitive userId old row = true := by
          intro liked
          have owner := liked
          rw [likeBelow,Bool.and_eq_true,beq_iff_eq] at owner
          exact under ⟨owner.1,quiet liked⟩
        rw [trashLiked,if_neg unliked]

theorem map_eq_map_iff {f g : IndexRow → IndexRow} :
    rows.map f = rows.map g ↔ ∀ row ∈ rows, f row = g row := List.map_inj_left

theorem trash_rows_iff :
    (∀ now, (rows.map (trashTop userId old new now)).map (trashLiked sensitive userId old new now) =
        trashTree userId old new now rows) ↔ TrashExact sensitive userId old new rows := by
  simp only [trashTree,List.map_map,map_eq_map_iff,Function.comp]
  rw [forall_comm]
  constructor
  · intro same
    have each (row : IndexRow) (inside : row ∈ rows) := trash_row_iff.mp fun now => same row now inside
    exact ⟨fun row inside => (each row inside).1,fun row inside => (each row inside).2.1,
      fun row inside => (each row inside).2.2⟩
  · intro exact_ row now inside
    exact trash_row_iff.mpr ⟨exact_.quiet row inside,exact_.top_quiet row inside,
      exact_.replaced row inside⟩ now

theorem uniqueUserPath_map {f : IndexRow → IndexRow} (keepId : ∀ row, (f row).id = row.id) :
    uniqueUserPath (rows.map f) = true ↔
      ∀ row ∈ rows, ∀ other ∈ rows, other.id ≠ row.id → ¬sameKey (f row) (f other) := by
  rw [uniqueUserPath,List.all_eq_true]
  constructor
  · intro unique row inside other inside' differs same
    have free := unique (f row) (List.mem_map_of_mem inside)
    rw [Bool.not_eq_true'] at free
    have refused := List.any_eq_false.mp free (f other) (List.mem_map_of_mem inside')
    apply refused
    rw [Bool.and_eq_true,bne_iff_ne,at_sameKey,keepId,keepId]
    exact ⟨differs,same⟩
  · intro apart image member
    obtain ⟨row,inside,rfl⟩ := List.mem_map.mp member
    rw [Bool.not_eq_true']
    apply occupied_false
    intro other member' differs
    obtain ⟨original,inside',rfl⟩ := List.mem_map.mp member'
    rw [keepId,keepId] at differs
    exact apart row inside original inside' differs

theorem trashTop_unique_iff (keyed : Keyed rows) :
    uniqueUserPath (rows.map (trashTop userId old new now)) = true ↔
      ∀ row ∈ rows, at_ userId old row = true → ∀ other ∈ rows, other.userId = userId →
        other ≠ row → other.path ≠ new := by
  rw [uniqueUserPath_map (fun row => by unfold trashTop; split <;> rfl)]
  constructor
  · intro apart row inside here other inside' owner distinct path
    have differs : other.id ≠ row.id := fun same => distinct (keyed.of_id inside' inside same)
    have elsewhere : ¬at_ userId old other = true := by
      intro here'
      obtain ⟨_,place⟩ := at_iff.mp here
      obtain ⟨_,place'⟩ := at_iff.mp here'
      obtain ⟨owned,_⟩ := at_iff.mp here
      exact distinct (keyed.of_key inside' inside ⟨owned.trans owner.symm,place.trans place'.symm⟩)
    apply apart row inside other inside' differs
    rw [trashTop,if_pos here,trashTop,if_neg elsewhere]
    exact ⟨owner.trans (at_iff.mp here).1.symm,path⟩
  · intro free row inside other inside' differs same
    have distinct : other ≠ row := fun equal => differs (by rw [equal])
    by_cases here : at_ userId old row = true
    · have elsewhere : ¬at_ userId old other = true := by
        intro here'
        obtain ⟨owned,place⟩ := at_iff.mp here
        obtain ⟨owned',place'⟩ := at_iff.mp here'
        exact distinct (keyed.of_key inside' inside ⟨owned.trans owned'.symm,place.trans place'.symm⟩)
      rw [trashTop,if_pos here,trashTop,if_neg elsewhere] at same
      exact free row inside here other inside' (same.1.trans (at_iff.mp here).1) distinct same.2
    · rw [trashTop,if_neg here] at same
      by_cases here' : at_ userId old other = true
      · rw [trashTop,if_pos here'] at same
        exact free other inside' here' row inside (same.1.symm.trans (at_iff.mp here').1)
          (fun equal => distinct equal.symm) same.2.symm
      · rw [trashTop,if_neg here'] at same
        exact distinct (keyed.of_key inside' inside ⟨same.1.symm,same.2.symm⟩)

/-- Two rows of one tree go to different places. -/
theorem relocate_tree_injective {p q : Text} (inside : Text.within src p = true)
    (inside' : Text.within src q = true) (same : Text.relocate src dst p = Text.relocate src dst q) :
    p = q := by
  obtain ⟨rest,split,moved,-⟩ := Text.relocate_within dst inside
  obtain ⟨rest',split',moved',-⟩ := Text.relocate_within dst inside'
  rw [moved,moved'] at same
  rw [split,split',List.append_cancel_left same]

theorem trashTree_unique_iff (keyed : Keyed rows) :
    uniqueUserPath (trashTree userId old new now rows) = true ↔
      ∀ row ∈ rows, inTree userId old row = true → ∀ other ∈ rows, other.userId = userId →
        inTree userId old other = false → other.path ≠ Text.relocate old new row.path := by
  rw [trashTree,uniqueUserPath_map (fun row => by split <;> rfl)]
  have tree {row : IndexRow} (placed : inTree userId old row = true) :
      row.userId = userId ∧ Text.within old row.path = true := by
    rwa [inTree,Bool.and_eq_true,beq_iff_eq] at placed
  constructor
  · intro apart row inside placed other inside' owner outside path
    have differs : other.id ≠ row.id := by
      intro same
      rw [keyed.of_id inside' inside same,placed] at outside
      cases outside
    apply apart row inside other inside' differs
    rw [if_pos placed,if_neg (by rw [outside]; exact Bool.false_ne_true)]
    exact ⟨owner.trans (tree placed).1.symm,path⟩
  · intro free row inside other inside' differs same
    have distinct : other ≠ row := fun equal => differs (by rw [equal])
    cases placed : inTree userId old row with
    | true =>
      cases placed' : inTree userId old other with
      | true =>
        rw [if_pos placed,if_pos placed'] at same
        apply distinct
        apply keyed.of_key inside' inside
        exact ⟨same.1.symm,relocate_tree_injective (tree placed).2 (tree placed').2 same.2.symm⟩
      | false =>
        rw [if_pos placed,if_neg (by rw [placed']; exact Bool.false_ne_true)] at same
        exact free row inside placed other inside' (same.1.trans (tree placed).1) placed' same.2
    | false =>
      rw [if_neg (by rw [placed]; exact Bool.false_ne_true)] at same
      cases placed' : inTree userId old other with
      | true =>
        rw [if_pos placed'] at same
        exact free other inside' placed' row inside (same.1.symm.trans (tree placed').1) placed
          same.2.symm
      | false =>
        rw [if_neg (by rw [placed']; exact Bool.false_ne_true)] at same
        exact distinct (keyed.of_key inside' inside ⟨same.1.symm,same.2.symm⟩)

/-- Trashing marks and rewrites exactly the tree, at any time, if and only if
its patterns and replacements reach the tree alone and nothing is in its way. -/
theorem trashFile_exact_iff (table : Table) :
    (∀ now, trashFile sensitive userId old new now table.rows =
        .ok (trashTree userId old new now table.rows)) ↔
      TrashExact sensitive userId old new table.rows ∧ TrashVacant userId old new table.rows := by
  obtain ⟨rows,keyed⟩ := table
  dsimp only
  simp only [trashFile_eq]
  constructor
  · intro exact_
    have unique (now : Int) : (uniqueUserPath (rows.map (trashTop userId old new now)) &&
        uniqueUserPath ((rows.map (trashTop userId old new now)).map
          (trashLiked sensitive userId old new now))) = true := by
      by_contra refused
      have result := exact_ now
      rw [if_neg refused] at result
      cases result
    have result (now : Int) : (rows.map (trashTop userId old new now)).map
        (trashLiked sensitive userId old new now) = trashTree userId old new now rows := by
      have made := exact_ now
      rw [if_pos (unique now)] at made
      exact Except.ok.inj made
    have both := unique 0
    rw [Bool.and_eq_true,result] at both
    exact ⟨trash_rows_iff.mp result,(trashTop_unique_iff keyed).mp both.1,
      (trashTree_unique_iff keyed).mp both.2⟩
  · rintro ⟨exact_,vacant⟩ now
    have result := trash_rows_iff.mpr exact_ now
    rw [result,(trashTop_unique_iff keyed).mpr vacant.top,(trashTree_unique_iff keyed).mpr vacant.tree]
    rfl

end trashing

/-! ### Both -/

def liveRow (id : Nat) (path : String) (isDir : Bool) : IndexRow where
  id
  userId := "u".toList
  parentPath := parentOf path.toList
  name := lastSegment path.toList
  path := path.toList
  isDir
  storageId := none
  backendType := none
  backendKey := none
  size := 1
  physicalSize := none
  protectedMeta := none
  fileTrashedAt := none
  rowCreatedAt := 0
  rowUpdatedAt := 0
  favoriteColor := 0
  originalPath := none

/-- Two directories whose names differ where one has an underscore. -/
def underscored : Index := [liveRow 1 "/a_b" true,liveRow 2 "/axb/c" false]

end Index
end StorageHub.Scoped
