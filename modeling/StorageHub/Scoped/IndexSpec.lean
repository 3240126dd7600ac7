import StorageHub.Scoped.FileIndex

/-! What the rewrites of the file index do to a table that obeys its keys. -/
namespace StorageHub.Scoped
open Library Paths

namespace Index

/-- The primary key and the unique constraint of the table. -/
structure Keyed (rows : Index) : Prop where
  ids : (rows.map (·.id)).Nodup
  paths : (rows.map fun row => (row.userId,row.path)).Nodup

/-- A table of the index, with its keys. -/
structure Table where
  rows : Index
  keyed : Keyed rows

def sameKey (a b : IndexRow) : Prop := b.userId = a.userId ∧ b.path = a.path

theorem at_iff {userId path : Text} {row : IndexRow} :
    at_ userId path row = true ↔ row.userId = userId ∧ row.path = path := by simp [at_]

theorem at_sameKey {a b : IndexRow} : at_ a.userId a.path b = true ↔ sameKey a b := at_iff

theorem Keyed.of_id {rows : Index} (keyed : Keyed rows) {a b : IndexRow} (inside : a ∈ rows)
    (inside' : b ∈ rows) (same : a.id = b.id) : a = b :=
  List.inj_on_of_nodup_map keyed.ids inside inside' same

theorem Keyed.of_key {rows : Index} (keyed : Keyed rows) {a b : IndexRow} (inside : a ∈ rows)
    (inside' : b ∈ rows) (same : sameKey a b) : a = b := by
  apply List.inj_on_of_nodup_map keyed.paths inside inside'
  rw [same.1,same.2]

theorem getFileMetadata_some {userId path : Text} {rows : Index} {row : IndexRow}
    (found : getFileMetadata userId path rows = some row) :
    row ∈ rows ∧ row.userId = userId ∧ row.path = path :=
  ⟨List.mem_of_find?_eq_some found,at_iff.mp (List.find?_some found)⟩

theorem getFileMetadata_none {userId path : Text} {rows : Index} :
    getFileMetadata userId path rows = none ↔
      ∀ row ∈ rows, ¬(row.userId = userId ∧ row.path = path) := by
  simp [getFileMetadata,List.find?_eq_none,at_iff]

theorem Keyed.getFileMetadata_of_mem {rows : Index} (keyed : Keyed rows) {row : IndexRow}
    (inside : row ∈ rows) : getFileMetadata row.userId row.path rows = some row := by
  cases found : getFileMetadata row.userId row.path rows with
  | none => exact absurd ⟨rfl,rfl⟩ (getFileMetadata_none.mp found row inside)
  | some other =>
    obtain ⟨inside',user,path⟩ := getFileMetadata_some found
    rw [keyed.of_key inside inside' ⟨user,path⟩]

/-! ### Saving several rows -/

theorem occupied_false {row : IndexRow} {rows : Index}
    (apart : ∀ other ∈ rows, other.id ≠ row.id → ¬sameKey row other) : occupied row rows = false := by
  apply List.any_eq_false.mpr
  intro other inside
  rw [Bool.and_eq_true,bne_iff_ne,at_sameKey]
  rintro ⟨differs,same⟩
  exact apart other inside differs same

theorem saveAll_append (first second : List IndexRow) (rows : Index) :
    saveAll (first ++ second) rows = saveAll first rows >>= saveAll second := by
  induction first generalizing rows with
  | nil => rfl
  | cons row rest ih =>
    rw [List.cons_append,saveAll,saveAll]
    cases saved : save row rows with
    | error e => rfl
    | ok rows' => exact ih rows'

section saving
variable {rows : Index} {f : IndexRow → IndexRow} {selected : List IndexRow}

/-- The rows with the changes of some of them made. -/
def changed (f : IndexRow → IndexRow) (selected : List IndexRow) (rows : Index) : Index :=
  rows.map fun row => if row ∈ selected then f row else row

theorem changed_id (keepId : ∀ row, (f row).id = row.id) (row : IndexRow) :
    (if row ∈ selected then f row else row).id = row.id := by
  split
  · exact keepId row
  · rfl

theorem mem_changed {made : List IndexRow} {other : IndexRow}
    (member : other ∈ changed f made rows) :
    ∃ original ∈ rows, other = if original ∈ made then f original else original := by
  obtain ⟨original,inside,rfl⟩ := List.mem_map.mp member
  exact ⟨original,inside,rfl⟩

/-- One more row saved after some. -/
theorem save_changed (keyed : Keyed rows) (keepId : ∀ row, (f row).id = row.id)
    {made : List IndexRow} {row : IndexRow} (here : row ∈ rows) :
    save (f row) (changed f made rows) =
      if occupied (f row) (changed f made rows) then .error .uniqueUserPath
      else .ok (changed f (made ++ [row]) rows) := by
  rw [save]
  congr 2
  simp only [changed,List.map_map]
  apply List.map_congr_left
  intro other member
  simp only [Function.comp,changed_id keepId,keepId,List.mem_append,List.mem_singleton]
  by_cases same : other = row
  · simp [same]
  · have differs : other.id ≠ row.id := fun equal => same (keyed.of_id member here equal)
    simp [same,differs]

/-- When the turn of a row comes, no other row has the key it is to get. -/
def EachFree (target : IndexRow → Text) (selected : List IndexRow) (rows : Index) : Prop :=
  ∀ before row after, selected = before ++ row::after → ∀ other ∈ rows, other ≠ row →
    other.userId = row.userId → (if other ∈ before then target other else other.path) ≠ target row

/-- A change of rows that keeps their number and owner and puts them at `target`. -/
structure Retargets (f : IndexRow → IndexRow) (target : IndexRow → Text) : Prop where
  keepId : ∀ row, (f row).id = row.id
  keepUser : ∀ row, (f row).userId = row.userId
  path_eq : ∀ row, (f row).path = target row

variable {target : IndexRow → Text}

theorem occupied_changed (keyed : Keyed rows) (retargets : Retargets f target)
    (made : List IndexRow) {row : IndexRow} (here : row ∈ rows) :
    occupied (f row) (changed f made rows) = false ↔
      ∀ other ∈ rows, other ≠ row → other.userId = row.userId →
        (if other ∈ made then target other else other.path) ≠ target row := by
  have key (other : IndexRow) : (if other ∈ made then f other else other).userId = other.userId ∧
      (if other ∈ made then f other else other).path =
        if other ∈ made then target other else other.path := by
    split
    · exact ⟨retargets.keepUser other,retargets.path_eq other⟩
    · exact ⟨rfl,rfl⟩
  constructor
  · intro vacant other inside distinct owner same
    have refused := List.any_eq_false.mp vacant _ (List.mem_map.mpr ⟨other,inside,rfl⟩)
    rw [Bool.and_eq_true,bne_iff_ne,at_sameKey,changed_id retargets.keepId,retargets.keepId] at refused
    apply refused
    refine ⟨fun equal => distinct (keyed.of_id inside here equal),?_,?_⟩
    · rw [(key other).1,retargets.keepUser,owner]
    · rw [(key other).2,retargets.path_eq,same]
  · intro free
    apply occupied_false
    intro other member differs same
    obtain ⟨original,inside,rfl⟩ := mem_changed member
    rw [changed_id retargets.keepId,retargets.keepId] at differs
    have owner := same.1
    rw [(key original).1,retargets.keepUser] at owner
    have path := same.2
    rw [(key original).2,retargets.path_eq] at path
    exact free original inside (fun equal => differs (by rw [equal])) owner path

theorem saveAll_made (keyed : Keyed rows) (retargets : Retargets f target)
    (inside : selected ⊆ rows) (made : List IndexRow) (out : Index) :
    saveAll (selected.map f) (changed f made rows) = .ok out ↔
      (∀ before row after, selected = before ++ row::after → ∀ other ∈ rows, other ≠ row →
        other.userId = row.userId →
          (if other ∈ made ++ before then target other else other.path) ≠ target row) ∧
      out = changed f (made ++ selected) rows := by
  induction selected generalizing made with
  | nil =>
    rw [List.map_nil,saveAll,List.append_nil,Except.ok.injEq]
    constructor
    · rintro rfl
      exact ⟨fun before row after split => by simp at split,rfl⟩
    · rintro ⟨-,rfl⟩
      rfl
  | cons row rest ih =>
    have here : row ∈ rows := inside List.mem_cons_self
    have turn := occupied_changed keyed retargets made here
    have later := ih (fun x member => inside (List.mem_cons_of_mem row member)) (made ++ [row])
    have order : made ++ [row] ++ rest = made ++ row::rest := by simp
    rw [order] at later
    rw [List.map_cons,saveAll,save_changed keyed retargets.keepId here]
    cases taken : occupied (f row) (changed f made rows) with
    | true =>
      rw [if_pos rfl]
      constructor
      · intro impossible
        cases impossible
      · rintro ⟨free,-⟩
        have vacant := turn.mpr (by simpa using free [] row rest rfl)
        rw [taken] at vacant
        cases vacant
    | false =>
      rw [if_neg Bool.false_ne_true]
      refine Iff.trans later (and_congr_left fun _ => ?_)
      constructor
      · intro free before x after split
        cases before with
        | nil =>
          obtain ⟨rfl,rfl⟩ := List.cons.inj split
          rw [List.append_nil]
          exact turn.mp taken
        | cons first before =>
          obtain ⟨rfl,split'⟩ := List.cons.inj split
          have assoc : made ++ [row] ++ before = made ++ row::before := by simp
          have freed := free before x after split'
          rw [assoc] at freed
          exact freed
      · intro free before x after split
        have assoc : made ++ [row] ++ before = made ++ row::before := by simp
        rw [assoc]
        exact free (row::before) x after (by rw [split]; rfl)

/-- Rows are saved one after the other exactly when each finds its key free. -/
theorem saveAll_ok_iff (keyed : Keyed rows) (retargets : Retargets f target)
    (inside : selected ⊆ rows) {out : Index} :
    saveAll (selected.map f) rows = .ok out ↔
      EachFree target selected rows ∧ out = changed f selected rows := by
  have start : changed f [] rows = rows := by simp [changed]
  have saved := saveAll_made keyed retargets inside [] out
  rw [start] at saved
  exact saved

/-- Keys nothing has or will have are free at every turn. -/
theorem eachFree_of_apart
    (apart : ∀ row ∈ selected, ∀ other ∈ rows, other ≠ row → other.userId = row.userId →
      other.path ≠ target row)
    (apart' : ∀ row ∈ selected, ∀ other ∈ selected, other ≠ row → other.userId = row.userId →
      target other ≠ target row) : EachFree target selected rows := by
  intro before row after split other inside distinct owner
  have member : row ∈ selected := by rw [split]; simp
  split
  next done =>
    have among : other ∈ selected := by rw [split]; exact List.mem_append_left _ done
    exact apart' row member other among distinct owner
  next => exact apart row member other inside distinct owner

end saving

/-! ### Moves -/

section moving
variable (sensitive : Bool) (userId src dst : Text) (now : Int)

/-- The rows of a user at or below a path. -/
def inTree (root : Text) (row : IndexRow) : Bool := row.userId == userId && Text.within root row.path

/-- The `LIKE 'src/%'` of a user's rows selects only rows below `src`. -/
def LikeQuiet (rows : Index) : Prop :=
  ∀ row ∈ rows, likeBelow sensitive userId src row = true → Text.below src row.path = true

/-- A row of the tree at `src`, as a move to `dst` leaves it. -/
def relocated (row : IndexRow) : IndexRow :=
  let binned := Text.startsWith recycleBin dst
  { row with
    path := Text.relocate src dst row.path
    name := if row.path = src then lastSegment dst else row.name
    parentPath := parentOf (Text.relocate src dst row.path)
    rowUpdatedAt := now
    fileTrashedAt := if binned then row.fileTrashedAt else none
    originalPath := if binned then row.originalPath else none }

/-- The table after a move. -/
def relocateTree (rows : Index) : Index :=
  rows.map fun row => if inTree userId src row then relocated src dst now row else row

variable {sensitive userId src dst now} {rows : Index}

theorem likeBelow_of_below {row : IndexRow} (user : row.userId = userId)
    (under : Text.below src row.path = true) : likeBelow sensitive userId src row = true := by
  obtain ⟨rest,split⟩ := Text.below_iff.mp under
  have pattern : src ++ ['/','%'] = (src ++ ['/']) ++ ['%'] := by simp
  have path : row.path = (src ++ ['/']) ++ rest := by rw [split]; simp
  rw [likeBelow,user,pattern,path,Text.like_prefix]
  simp

theorem relocated_top {row : IndexRow} (top : row.path = src) :
    relocated src dst now row =
      { row with
        path := dst
        name := lastSegment dst
        parentPath := parentOf dst
        rowUpdatedAt := now
        fileTrashedAt := if Text.startsWith recycleBin dst then row.fileTrashedAt else none
        originalPath := if Text.startsWith recycleBin dst then row.originalPath else none } := by
  have there : Text.relocate src dst row.path = dst := by simp [Text.relocate,top]
  simp only [relocated,there,if_pos top]

theorem moveTop_saveAll (row : IndexRow) (top : row.path = src) (rows : Index) :
    moveTop dst now (some row) rows = saveAll [relocated src dst now row] rows := by
  rw [relocated_top top,saveAll]
  simp only [moveTop]
  cases save _ rows with
  | error e => rfl
  | ok rows' => rfl

/-- Rows below `src` are moved one by one to where a renaming puts them. -/
theorem moveEach_saveAll {children : List IndexRow}
    (under : ∀ row ∈ children, Text.below src row.path = true) (rows : Index) :
    moveEach src dst now children rows = saveAll (children.map (relocated src dst now)) rows := by
  induction children generalizing rows with
  | nil => rfl
  | cons child rest ih =>
    obtain ⟨suffix,split⟩ := Text.below_iff.mp (under child List.mem_cons_self)
    have sliced : Text.dropBytes (Text.byteLength src) child.path = some ('/'::suffix) := by
      rw [split,Text.dropBytes_append]
    have inside : Text.within src child.path = true := Text.within_iff.mpr (.inr ⟨suffix,split⟩)
    have there : Text.relocate src dst child.path = dst ++ '/'::suffix := by
      rw [Text.relocate,if_pos inside,split,List.drop_left]
    have strict : child.path ≠ src := by rw [split]; simp
    have moved : relocated src dst now child =
        { child with
          path := dst ++ '/'::suffix
          parentPath := parentOf (dst ++ '/'::suffix)
          rowUpdatedAt := now
          fileTrashedAt := if Text.startsWith recycleBin dst then child.fileTrashedAt else none
          originalPath := if Text.startsWith recycleBin dst then child.originalPath else none } := by
      simp only [relocated,there,if_neg strict]
    rw [List.map_cons,saveAll,moved,moveEach,sliced]
    simp only [bind,Except.bind]
    cases save _ rows with
    | error e => rfl
    | ok rows' => exact ih (fun row member => under row (List.mem_cons_of_mem child member)) rows'

/-- The rows of a tree in the order a move saves them. -/
def treeRows (userId src : Text) (rows : Index) : List IndexRow :=
  (getFileMetadata userId src rows).toList ++
    rows.filter fun row => row.userId == userId && Text.below src row.path

theorem mem_treeRows (keyed : Keyed rows) {row : IndexRow} (inside : row ∈ rows) :
    row ∈ treeRows userId src rows ↔ inTree userId src row = true := by
  rw [treeRows,List.mem_append,Option.mem_toList,List.mem_filter,inTree,Bool.and_eq_true,
    Bool.and_eq_true,beq_iff_eq,Text.within,Bool.or_eq_true,beq_iff_eq]
  constructor
  · rintro (found | ⟨-,owner,under⟩)
    · obtain ⟨-,owner,path⟩ := getFileMetadata_some found
      exact ⟨owner,.inl path⟩
    · exact ⟨owner,.inr under⟩
  · rintro ⟨owner,path | under⟩
    · left
      have found := keyed.getFileMetadata_of_mem inside
      rw [owner,path] at found
      exact found
    · exact .inr ⟨inside,owner,under⟩

theorem treeRows_subset : treeRows userId src rows ⊆ rows := by
  intro row member
  rcases List.mem_append.mp member with found | child
  · exact (getFileMetadata_some (Option.mem_toList.mp found)).1
  · exact (List.mem_filter.mp child).1

theorem changed_treeRows (keyed : Keyed rows) :
    changed (relocated src dst now) (treeRows userId src rows) rows =
      relocateTree userId src dst now rows := by
  apply List.map_congr_left
  intro row inside
  simp only [mem_treeRows keyed inside]

/-- A move saves the relocated rows of the tree one by one. -/
theorem moveFile_saveAll (quiet : LikeQuiet sensitive userId src rows) :
    moveFile sensitive userId src dst now rows =
      saveAll ((treeRows userId src rows).map (relocated src dst now)) rows := by
  have children : rows.filter (likeBelow sensitive userId src) =
      rows.filter fun row => row.userId == userId && Text.below src row.path := by
    apply List.filter_congr
    intro row inside
    rw [Bool.eq_iff_iff,Bool.and_eq_true,beq_iff_eq]
    constructor
    · intro liked
      have owner := liked
      rw [likeBelow,Bool.and_eq_true,beq_iff_eq] at owner
      exact ⟨owner.1,quiet row inside liked⟩
    · rintro ⟨owner,under⟩
      exact likeBelow_of_below owner under
  have below : ∀ row ∈ rows.filter (fun row => row.userId == userId && Text.below src row.path),
      Text.below src row.path = true := by
    intro row member
    have kept := (List.mem_filter.mp member).2
    rw [Bool.and_eq_true] at kept
    exact kept.2
  have topped : moveTop dst now (getFileMetadata userId src rows) rows =
      saveAll ((getFileMetadata userId src rows).toList.map (relocated src dst now)) rows := by
    cases found : getFileMetadata userId src rows with
    | none => rfl
    | some row => exact moveTop_saveAll row (getFileMetadata_some found).2.2 rows
  calc moveFile sensitive userId src dst now rows
      = moveTop dst now (getFileMetadata userId src rows) rows >>=
          moveEach src dst now (rows.filter (likeBelow sensitive userId src)) := rfl
    _ = saveAll ((getFileMetadata userId src rows).toList.map (relocated src dst now)) rows >>=
          saveAll ((rows.filter fun row => row.userId == userId && Text.below src row.path).map
            (relocated src dst now)) := by
        rw [topped,children]
        congr 1
        funext rows'
        exact moveEach_saveAll below rows'
    _ = saveAll ((treeRows userId src rows).map (relocated src dst now)) rows := by
        rw [treeRows,List.map_append,saveAll_append]

theorem relocated_retargets :
    Retargets (relocated src dst now) fun row => Text.relocate src dst row.path :=
  ⟨fun _ => rfl,fun _ => rfl,fun _ => rfl⟩

/-- A move onto a place no row is at relocates the tree and nothing else. -/
theorem moveFile_ok (keyed : Keyed rows) (quiet : LikeQuiet sensitive userId src rows)
    (free : ∀ row ∈ rows, inTree userId dst row = false) :
    moveFile sensitive userId src dst now rows = .ok (relocateTree userId src dst now rows) := by
  have within_ {row : IndexRow} (member : row ∈ treeRows userId src rows) :
      row.userId = userId ∧ Text.within src row.path = true := by
    have placed := (mem_treeRows keyed (treeRows_subset member)).mp member
    rwa [inTree,Bool.and_eq_true,beq_iff_eq] at placed
  have outside {row : IndexRow} (member : row ∈ rows) (owner : row.userId = userId) :
      Text.within dst row.path = false := by
    have absent := free row member
    rwa [inTree,owner,beq_self_eq_true,Bool.true_and] at absent
  rw [moveFile_saveAll quiet,← changed_treeRows keyed]
  apply (saveAll_ok_iff keyed relocated_retargets treeRows_subset).mpr
  refine ⟨eachFree_of_apart ?_ ?_,rfl⟩
  · intro row member other among _ owner path
    obtain ⟨owner',tree⟩ := within_ member
    obtain ⟨-,-,-,there⟩ := Text.relocate_within dst tree
    have absent := outside among (owner.trans owner')
    rw [path,there] at absent
    cases absent
  · intro row member other member' distinct _ path
    have owner := (within_ member).1
    have owner' := (within_ member').1
    have inside := treeRows_subset member
    have inside' := treeRows_subset member'
    apply distinct
    apply keyed.of_key inside' inside
    refine ⟨owner.trans owner'.symm,?_⟩
    exact (Text.relocate_injective (outside inside' owner') (outside inside owner) path).symm

end moving
end Index
end StorageHub.Scoped
