import StorageHub.Scoped.IndexFrames

/-! Trashing a path and restoring it, on the index. -/
namespace StorageHub.Scoped
open Library Paths

theorem lastSegment_append {pre s : Text} (present : '/' ∈ s) :
    lastSegment (pre ++ s) = lastSegment s := Text.afterLast_append pre present

theorem parentOf_append {pre s : Text} (nonempty : pre ≠ []) (present : '/' ∈ s) :
    parentOf (pre ++ s) = pre ++ (s.rdropWhile (· != '/')).dropLast := by
  rw [parentOf,Text.rsplitOnce_append pre present]
  simp [nonempty]

namespace Index

/-! ### Restoring -/

section restoring
variable (sensitive : Bool) (userId trashPath restoredPath : Text) (now : Int)

/-- A row of the tree at `trashPath`, as restoring it leaves it. -/
def restored (row : IndexRow) : IndexRow :=
  { row with
    path := Text.relocate trashPath restoredPath row.path
    name := lastSegment (Text.relocate trashPath restoredPath row.path)
    parentPath := parentOf (Text.relocate trashPath restoredPath row.path)
    fileTrashedAt := none
    originalPath := none
    rowUpdatedAt := now }

def restoreTree (rows : Index) : Index :=
  rows.map fun row =>
    if inTree userId trashPath row then restored trashPath restoredPath now row else row

variable {sensitive userId trashPath restoredPath now} {rows : Index}

theorem rebased_within {row : IndexRow} (inside : Text.within trashPath row.path = true) :
    rebased trashPath restoredPath row = .ok (Text.relocate trashPath restoredPath row.path) := by
  rcases Text.within_iff.mp inside with here | ⟨rest,split⟩
  · rw [rebased,if_pos here]
    simp [Text.relocate,here]
  · have strict : row.path ≠ trashPath := by rw [split]; simp
    have moved : Text.relocate trashPath restoredPath row.path = restoredPath ++ '/'::rest := by
      rw [Text.relocate,if_pos inside,split,List.drop_left]
    rw [rebased,if_neg strict,moved,split,Text.dropBytes_append]

theorem restoreEach_saveAll {selected : List IndexRow}
    (inside : ∀ row ∈ selected, Text.within trashPath row.path = true) (rows : Index) :
    restoreEach trashPath restoredPath now selected rows =
      saveAll (selected.map (restored trashPath restoredPath now)) rows := by
  induction selected generalizing rows with
  | nil => rfl
  | cons row rest ih =>
    have target : rebased trashPath restoredPath row =
        .ok (Text.relocate trashPath restoredPath row.path) := rebased_within (inside row List.mem_cons_self)
    rw [List.map_cons,saveAll,restoreEach,target]
    simp only [bind,Except.bind,restored]
    cases save _ rows with
    | error e => rfl
    | ok rows' => exact ih (fun other member => inside other (List.mem_cons_of_mem row member)) rows'

/-- The rows a restore selects, the shorter paths first. -/
def restoreRows (userId trashPath : Text) (rows : Index) : List IndexRow :=
  (rows.filter (inTree userId trashPath)).mergeSort fun a b =>
    decide (Text.byteLength a.path ≤ Text.byteLength b.path)

theorem mem_restoreRows {row : IndexRow} :
    row ∈ restoreRows userId trashPath rows ↔ row ∈ rows ∧ inTree userId trashPath row = true := by
  rw [restoreRows,(List.mergeSort_perm _ _).mem_iff,List.mem_filter]

theorem restoreFile_saveAll (quiet : LikeQuiet sensitive userId trashPath rows) :
    restoreFile sensitive userId trashPath restoredPath now rows =
      saveAll ((restoreRows userId trashPath rows).map (restored trashPath restoredPath now)) rows := by
  have selected : rows.filter (fun row => at_ userId trashPath row ||
      likeBelow sensitive userId trashPath row) = rows.filter (inTree userId trashPath) := by
    apply List.filter_congr
    intro row inside
    rw [Bool.eq_iff_iff,Bool.or_eq_true,at_iff,inTree,Bool.and_eq_true,beq_iff_eq,Text.within,
      Bool.or_eq_true,beq_iff_eq]
    constructor
    · rintro (⟨owner,here⟩ | liked)
      · exact ⟨owner,.inl here⟩
      · have owner := liked
        rw [likeBelow,Bool.and_eq_true,beq_iff_eq] at owner
        exact ⟨owner.1,.inr (quiet row inside liked)⟩
    · rintro ⟨owner,here | under⟩
      · exact .inl ⟨owner,here⟩
      · exact .inr (likeBelow_of_below owner under)
  rw [restoreFile,selected]
  apply restoreEach_saveAll
  intro row member
  have placed := (mem_restoreRows.mp member).2
  rw [inTree,Bool.and_eq_true] at placed
  exact placed.2

theorem restored_retargets : Retargets (restored trashPath restoredPath now) fun row =>
    Text.relocate trashPath restoredPath row.path :=
  ⟨fun _ => rfl,fun _ => rfl,fun _ => rfl⟩

theorem changed_restoreRows :
    changed (restored trashPath restoredPath now) (restoreRows userId trashPath rows) rows =
      restoreTree userId trashPath restoredPath now rows := by
  apply List.map_congr_left
  intro row inside
  simp only [mem_restoreRows,inside,true_and]

/-- A restore to free places brings the tree back and changes no other row. -/
theorem restoreFile_ok (keyed : Keyed rows) (quiet : LikeQuiet sensitive userId trashPath rows)
    (free : ∀ row ∈ rows, inTree userId trashPath row = true → ∀ other ∈ rows,
      other.userId = userId → other ≠ row → other.path ≠ Text.relocate trashPath restoredPath row.path) :
    restoreFile sensitive userId trashPath restoredPath now rows =
      .ok (restoreTree userId trashPath restoredPath now rows) := by
  rw [restoreFile_saveAll quiet,← changed_restoreRows]
  have subset : restoreRows userId trashPath rows ⊆ rows := fun row member =>
    (mem_restoreRows.mp member).1
  apply (saveAll_ok_iff keyed restored_retargets subset).mpr
  have tree {row : IndexRow} (member : row ∈ restoreRows userId trashPath rows) :
      row.userId = userId ∧ Text.within trashPath row.path = true := by
    have placed := (mem_restoreRows.mp member).2
    rwa [inTree,Bool.and_eq_true,beq_iff_eq] at placed
  refine ⟨eachFree_of_apart ?_ ?_,rfl⟩
  · intro row member other inside distinct owner
    obtain ⟨inside',placed⟩ := mem_restoreRows.mp member
    exact free row inside' placed other inside (owner.trans (tree member).1) distinct
  · intro row member other member' distinct owner same
    apply distinct
    apply keyed.of_key (subset member') (subset member)
    exact ⟨owner.symm,(relocate_tree_injective (tree member').2 (tree member).2 same).symm⟩

end restoring

/-! ### Trash, then restore -/

/-- A row as the service writes it for a path in use. -/
structure LiveRow (row : IndexRow) : Prop where
  parent : row.parentPath = parentOf row.path
  name : row.name = lastSegment row.path
  untrashed : row.fileTrashedAt = none

/-- What a user sees of a row. -/
structure Visible where
  id : Nat
  userId : Text
  path : Text
  parentPath : Text
  name : Text
  isDir : Bool
  size : Int
  favoriteColor : Int
  fileTrashedAt : Option Int
  deriving DecidableEq

def visible (row : IndexRow) : Visible :=
  ⟨row.id,row.userId,row.path,row.parentPath,row.name,row.isDir,row.size,row.favoriteColor,
    row.fileTrashedAt⟩

section roundTrip
variable (sensitive : Bool) (userId path trashPath : Text)

/-- In between, every row of the tree is where it belongs in the trash. -/
def InTrash (rows mid : Index) : Prop :=
  ∀ row ∈ rows, inTree userId path row = true → ∃ row' ∈ mid, row'.id = row.id ∧
    row'.path = Text.relocate path trashPath row.path ∧ row'.parentPath = parentOf row'.path ∧
      row'.originalPath = some row.path

instance (rows mid : Index) : Decidable (InTrash userId path trashPath rows mid) :=
  inferInstanceAs (Decidable (∀ row ∈ rows, inTree userId path row = true → ∃ row' ∈ mid,
    row'.id = row.id ∧ row'.path = Text.relocate path trashPath row.path ∧
      row'.parentPath = parentOf row'.path ∧ row'.originalPath = some row.path))

/-- Trashing and restoring a path brings every row back as it was. -/
def RoundTrip (now now' : Int) (rows : Index) : Prop :=
  ∃ mid ∈ (trashFile sensitive userId path trashPath now rows).toOption,
    InTrash userId path trashPath rows mid ∧
      ∃ fin ∈ (restoreFile sensitive userId trashPath path now' mid).toOption,
        fin.map visible = rows.map visible

instance (now now' : Int) (rows : Index) :
    Decidable (RoundTrip sensitive userId path trashPath now now' rows) :=
  inferInstanceAs (Decidable (∃ mid ∈ (trashFile sensitive userId path trashPath now rows).toOption,
    InTrash userId path trashPath rows mid ∧
      ∃ fin ∈ (restoreFile sensitive userId trashPath path now' mid).toOption,
        fin.map visible = rows.map visible))

/-- In the rows below a path its text occurs, as REPLACE finds it, as the prefix
of their paths and nowhere else. -/
def ReplaceExact (rows : Index) : Prop :=
  ∀ row ∈ rows, row.userId = userId → Text.below path row.path = true →
    Text.replace path trashPath row.path = Text.relocate path trashPath row.path ∧
      Text.replace path trashPath row.parentPath = Text.relocate path trashPath row.parentPath

/-- The patterns of both calls catch no row outside the tree. -/
structure PatternsQuiet (rows : Index) : Prop where
  trash : LikeQuiet sensitive userId path rows
  top : Text.like sensitive (path ++ ['/','%']) trashPath = false
  restore : ∀ row ∈ rows, row.userId = userId → Text.within path row.path = false →
    Text.like sensitive (trashPath ++ ['/','%']) row.path = false

/-- `/.recycle_bin/<uuid>_<name>` for the name of the path. -/
def freshTrashPath (uuid : Text) : Text := "/.recycle_bin/".toList ++ uuid ++ '_'::lastSegment path

variable {sensitive userId path trashPath} {rows : Index}

theorem inTree_parts {root : Text} {row : IndexRow} (placed : inTree userId root row = true) :
    row.userId = userId ∧ Text.within root row.path = true := by
  rwa [inTree,Bool.and_eq_true,beq_iff_eq] at placed

/-- Moving a path below `path` elsewhere takes its parent along and keeps its name. -/
theorem relocate_child {dst p : Text} (nonempty : path ≠ []) (nonempty' : dst ≠ [])
    (under : Text.below path p = true) :
    parentOf (Text.relocate path dst p) = Text.relocate path dst (parentOf p) ∧
      lastSegment (Text.relocate path dst p) = lastSegment p := by
  obtain ⟨rest,split⟩ := Text.below_iff.mp under
  have inside : Text.within path p = true := Text.within_iff.mpr (.inr ⟨rest,split⟩)
  have moved : Text.relocate path dst p = dst ++ '/'::rest := by
    rw [Text.relocate,if_pos inside,split,List.drop_left]
  have slash : '/' ∈ '/'::rest := List.mem_cons_self
  let inner := (('/'::rest).rdropWhile (· != '/')).dropLast
  have parent : parentOf p = path ++ inner := by rw [split,parentOf_append nonempty slash]
  have parent' : parentOf (Text.relocate path dst p) = dst ++ inner := by
    rw [moved,parentOf_append nonempty' slash]
  have shape : inner = [] ∨ ∃ tail, inner = '/'::tail := by
    have initial : inner <+: '/'::rest :=
      (List.dropLast_prefix _).trans (List.rdropWhile_prefix _ _)
    cases here : inner with
    | nil => exact .inl rfl
    | cons c tail =>
      rw [here,List.cons_prefix_cons] at initial
      exact .inr ⟨tail,by rw [initial.1]⟩
  have there : Text.within path (path ++ inner) = true := by
    rcases shape with empty | ⟨tail,same⟩
    · rw [empty,List.append_nil]
      exact Text.within_self path
    · rw [same]
      exact Text.within_append
  constructor
  · rw [parent',parent,Text.relocate,if_pos there,List.drop_left]
  · rw [moved,split,lastSegment_append slash,lastSegment_append slash]

theorem freshTrashPath_parts {uuid : Text} (plain : '/' ∉ uuid) :
    parentOf (freshTrashPath path uuid) = recycleBin ∧ '/' ∉ uuid ++ '_'::lastSegment path := by
  have plainName : '/' ∉ lastSegment path := by
    intro slash
    have all : ∀ c ∈ lastSegment path, (c != '/') = true := by
      intro c member
      exact List.mem_rtakeWhile_imp (p := (· != '/')) member
    have differs := all '/' slash
    simp at differs
  have plainAll : '/' ∉ uuid ++ '_'::lastSegment path := by
    intro slash
    rcases List.mem_append.mp slash with first | second
    · exact plain first
    · rcases List.mem_cons.mp second with equal | third
      · revert equal
        decide
      · exact plainName third
  refine ⟨?_,plainAll⟩
  have bin : "/.recycle_bin/".toList = recycleBin ++ ['/'] := by decide
  have split : freshTrashPath path uuid = recycleBin ++ '/'::(uuid ++ '_'::lastSegment path) := by
    unfold freshTrashPath
    generalize lastSegment path = name
    rw [bin]
    simp only [List.append_assoc,List.cons_append,List.nil_append]
  have nonempty : recycleBin ≠ [] := by decide
  rw [split,parentOf_append nonempty List.mem_cons_self]
  have alone : ('/'::(uuid ++ '_'::lastSegment path)).rdropWhile (· != '/') = ['/'] := by
    have skipped : ((uuid ++ '_'::lastSegment path).reverse ++ ['/']).dropWhile (· != '/') = ['/'] := by
      rw [List.dropWhile_append_of_pos]
      · rfl
      · intro c member
        have differs : c ≠ '/' := fun same => plainAll (same ▸ List.mem_reverse.mp member)
        simpa using differs
    rw [List.rdropWhile,List.reverse_cons,skipped]
    rfl
  rw [alone]
  simp

theorem relocate_back {dst p : Text} (inside : Text.within path p = true) :
    Text.relocate dst path (Text.relocate path dst p) = p := by
  obtain ⟨rest,split,moved,there⟩ := Text.relocate_within dst inside
  rw [Text.relocate,if_pos there,moved,List.drop_left,split]

theorem keyed_of_unique (ids : (rows.map (·.id)).Nodup) (unique : uniqueUserPath rows = true) :
    Keyed rows := by
  refine ⟨ids,?_⟩
  apply (List.Nodup.of_map _ ids).map_on
  intro row inside other inside' same
  by_contra distinct
  have differs : other.id ≠ row.id := fun equal =>
    distinct (List.inj_on_of_nodup_map ids inside inside' equal.symm)
  have mapped : uniqueUserPath (rows.map fun row => row) = true := by rwa [List.map_id']
  have apart := (uniqueUserPath_map (f := fun row => row) fun _ => rfl).mp mapped
  obtain ⟨owner,path⟩ := Prod.mk.inj same
  exact apart row inside other inside' differs ⟨owner.symm,path.symm⟩

theorem trashTree_keyed {now : Int} (keyed : Keyed rows) (vacant : TrashVacant userId path trashPath rows) :
    Keyed (trashTree userId path trashPath now rows) := by
  apply keyed_of_unique
  · have ids : (trashTree userId path trashPath now rows).map (·.id) = rows.map (·.id) := by
      rw [trashTree,List.map_map]
      apply List.map_congr_left
      intro row _
      simp only [Function.comp]
      split <;> rfl
    rw [ids]
    exact keyed.ids
  · exact (trashTree_unique_iff keyed).mpr vacant.tree

section conditions
variable (keyed : Keyed rows) (nonempty : path ≠ []) (nonempty' : trashPath ≠ [])
  (live : ∀ row ∈ rows, row.userId = userId → LiveRow row)
  (fresh : ∀ row ∈ rows, inTree userId trashPath row = false)
  (quiet : PatternsQuiet sensitive userId path trashPath rows)

include fresh in
theorem fresh_outside {row : IndexRow} (inside : row ∈ rows) (owner : row.userId = userId) :
    Text.within trashPath row.path = false := by
  have absent := fresh row inside
  rwa [inTree,owner,beq_self_eq_true,Bool.true_and] at absent

include fresh in
theorem fresh_vacant : TrashVacant userId path trashPath rows := by
  constructor
  · intro row inside here other inside' owner distinct same
    have absent := fresh_outside fresh inside' owner
    rw [same,Text.within_self] at absent
    cases absent
  · intro row inside placed other inside' owner outside same
    have absent := fresh_outside fresh inside' owner
    obtain ⟨-,-,-,there⟩ := Text.relocate_within trashPath (inTree_parts placed).2
    rw [same,there] at absent
    cases absent

include quiet in
theorem trashExact_of_quiet (replaced : ReplaceExact userId path trashPath rows) :
    TrashExact sensitive userId path trashPath rows :=
  ⟨quiet.trash,fun _ _ _ => quiet.top,replaced⟩

include nonempty nonempty' live in
theorem trashed_parent (binned : parentOf trashPath = recycleBin) {now : Int} {row : IndexRow}
    (inside : row ∈ rows) (placed : inTree userId path row = true) :
    (trashed path trashPath now row).parentPath = parentOf (trashed path trashPath now row).path := by
  obtain ⟨owner,tree⟩ := inTree_parts placed
  rcases Text.within_iff.mp tree with here | ⟨rest,split⟩
  · have moved : Text.relocate path trashPath row.path = trashPath := by simp [Text.relocate,here]
    simp only [trashed,moved,if_pos here,binned]
  · have under : Text.below path row.path = true := Text.below_iff.mpr ⟨rest,split⟩
    simp only [trashed,if_neg (below_strict under)]
    rw [(live row inside owner).parent,(relocate_child nonempty nonempty' under).1]

include keyed nonempty nonempty' live in
/-- Where the trash holds every row in its place, the replacements were exact. -/
theorem replaceExact_of_inTrash {now : Int} {mid : Index}
    (made : trashFile sensitive userId path trashPath now rows = .ok mid)
    (there : InTrash userId path trashPath rows mid) : ReplaceExact userId path trashPath rows := by
  intro row inside owner under
  have placed : inTree userId path row = true := by simp [inTree,owner,Text.within,under]
  obtain ⟨row',member,number,moved,parent,-⟩ := there row inside placed
  rw [trashFile_eq] at made
  split at made
  next =>
    cases Except.ok.inj made
    obtain ⟨middle,between,rfl⟩ := List.mem_map.mp member
    obtain ⟨original,inside',rfl⟩ := List.mem_map.mp between
    have same : original = row := by
      apply keyed.of_id inside' inside
      rw [← number]
      unfold trashLiked trashTop
      split <;> split <;> rfl
    rw [same] at moved parent
    have stays : trashTop userId path trashPath now row = row := by
      rw [trashTop,if_neg (by rw [not_at_of_below under]; exact Bool.false_ne_true)]
    rw [stays,trashLiked,if_pos (likeBelow_of_below owner under)] at moved parent
    have parent' : Text.replace path trashPath row.parentPath =
        parentOf (Text.replace path trashPath row.path) := parent
    have moved' : Text.replace path trashPath row.path = Text.relocate path trashPath row.path := moved
    refine ⟨moved',?_⟩
    rw [parent',moved',(relocate_child nonempty nonempty' under).1,(live row inside owner).parent]
  next => cases made

include quiet in
theorem restore_quiet {now : Int} :
    LikeQuiet sensitive userId trashPath (trashTree userId path trashPath now rows) := by
  intro row member liked
  obtain ⟨original,inside,rfl⟩ := List.mem_map.mp member
  cases placed : inTree userId path original with
  | true =>
    simp only [placed,if_true] at liked ⊢
    obtain ⟨-,-,-,there⟩ := Text.relocate_within trashPath (inTree_parts placed).2
    rw [Text.within,Bool.or_eq_true,beq_iff_eq] at there
    rcases there with top | under
    · rw [likeBelow,Bool.and_eq_true] at liked
      have matched : Text.like sensitive (trashPath ++ ['/','%'])
          (Text.relocate path trashPath original.path) = true := liked.2
      rw [top,Text.not_like_self] at matched
      cases matched
    · exact under
  | false =>
    simp only [placed,Bool.false_eq_true,if_false] at liked ⊢
    rw [likeBelow,Bool.and_eq_true,beq_iff_eq] at liked
    have outside : Text.within path original.path = false := by
      rwa [inTree,liked.1,beq_self_eq_true,Bool.true_and] at placed
    rw [quiet.restore original inside liked.1 outside] at liked
    cases liked.2

include keyed fresh in
theorem restore_free {now : Int} :
    ∀ row ∈ trashTree userId path trashPath now rows, inTree userId trashPath row = true →
      ∀ other ∈ trashTree userId path trashPath now rows, other.userId = userId → other ≠ row →
        other.path ≠ Text.relocate trashPath path row.path := by
  intro row member binned other member' owner distinct same
  obtain ⟨original,inside,rfl⟩ := List.mem_map.mp member
  obtain ⟨original',inside',rfl⟩ := List.mem_map.mp member'
  cases placed : inTree userId path original with
  | false =>
    simp only [placed,Bool.false_eq_true,if_false] at binned
    rw [fresh original inside] at binned
    cases binned
  | true =>
    obtain ⟨owner₀,tree⟩ := inTree_parts placed
    simp only [placed,if_true] at same distinct
    have back : Text.relocate trashPath path (trashed path trashPath now original).path = original.path :=
      relocate_back tree
    rw [back] at same
    cases placed' : inTree userId path original' with
    | true =>
      simp only [placed',if_true] at same
      obtain ⟨-,-,-,there⟩ := Text.relocate_within trashPath (inTree_parts placed').2
      have moved : Text.relocate path trashPath original'.path = original.path := same
      rw [moved,fresh_outside fresh inside owner₀] at there
      cases there
    | false =>
      simp only [placed',Bool.false_eq_true,if_false] at same owner
      rw [keyed.of_key inside inside' ⟨owner.trans owner₀.symm,same⟩,placed'] at placed
      cases placed

include live fresh in
theorem restored_visible {now now' : Int} {row : IndexRow} (inside : row ∈ rows) :
    visible (if inTree userId trashPath
          (if inTree userId path row then trashed path trashPath now row else row) = true then
        restored trashPath path now'
          (if inTree userId path row then trashed path trashPath now row else row)
      else if inTree userId path row then trashed path trashPath now row else row) = visible row := by
  cases placed : inTree userId path row with
  | true =>
    obtain ⟨owner,tree⟩ := inTree_parts placed
    obtain ⟨-,-,-,there⟩ := Text.relocate_within trashPath tree
    have binned : inTree userId trashPath (trashed path trashPath now row) = true := by
      rw [inTree,Bool.and_eq_true,beq_iff_eq]
      exact ⟨owner,there⟩
    have back : Text.relocate trashPath path (trashed path trashPath now row).path = row.path :=
      relocate_back tree
    have known := live row inside owner
    rw [if_pos rfl,if_pos binned]
    simp only [restored,back,visible]
    rw [known.parent,known.name,known.untrashed]
    rfl
  | false => simp [fresh row inside]

end conditions

end roundTrip

def nestedTree : Index := [liveRow 1 "/a" true,liveRow 2 "/a/b" false]

theorem nestedTree_live : ∀ row ∈ nestedTree, LiveRow row := by
  intro row inside
  rcases List.mem_cons.mp inside with rfl | inside
  · exact ⟨rfl,rfl,rfl⟩
  · rw [List.mem_singleton.mp inside]
    exact ⟨rfl,rfl,rfl⟩

/-- A directory that holds an entry of its own name. -/
def repeatedName : Index := [liveRow 1 "/a" true,liveRow 2 "/a/a" false]

end Index
end StorageHub.Scoped
