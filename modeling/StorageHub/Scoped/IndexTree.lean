import StorageHub.Scoped.DirectorySync

/-! When a directory sync leaves the live rows of a user a tree: every one of
them outside the root has a live directory row for its parent. -/
namespace StorageHub.Scoped
open Library WriteCache Protected Vfs

theorem parentOf_below {p path : Text} (nonempty : p ≠ []) (below : Text.below p path = true) :
    parentOf path = p ∨ Text.below p (parentOf path) = true := by
  obtain ⟨rest,rfl⟩ := Text.below_iff.mp below
  rw [parentOf_append nonempty List.mem_cons_self]
  cases cut : (('/'::rest).rdropWhile (· != '/')).dropLast with
  | nil => exact .inl (List.append_nil p)
  | cons c tail =>
    have slash : c = '/' := by
      have first : (('/'::rest).rdropWhile (· != '/')).dropLast <+: '/'::rest :=
        (List.dropLast_prefix _).trans (List.rdropWhile_prefix _ _)
      rw [cut] at first
      exact (List.cons_prefix_cons.mp first).1
    rw [slash]
    exact .inr (Text.below_iff.mpr ⟨tail,rfl⟩)

theorem parentOf_shorter {p path : Text} (nonempty : p ≠ []) (below : Text.below p path = true) :
    (parentOf path).length < path.length := by
  obtain ⟨rest,rfl⟩ := Text.below_iff.mp below
  rw [parentOf_append nonempty List.mem_cons_self,List.length_append,List.length_append,List.length_dropLast]
  have cut := (List.rdropWhile_prefix (fun c => c != '/') ('/'::rest)).length_le
  have some_ : 0 < ('/'::rest).length := Nat.succ_pos _
  omega

namespace Index
variable {rows chunk : Index} {row : IndexRow} {userId dir : Text} {syncStart : Int}

def Live (userId : Text) (row : IndexRow) : Prop := row.userId = userId ∧ row.fileTrashedAt = none

def TreeShaped (userId : Text) (rows : Index) : Prop :=
  ∀ row ∈ rows, Live userId row → row.parentPath ≠ ['/'] →
    ∃ above ∈ rows, Live userId above ∧ above.path = row.parentPath ∧ above.isDir = true

/-- Every row of the user is filed under the parent of its path. -/
def ParentsNamed (userId : Text) (rows : Index) : Prop :=
  ∀ row ∈ rows, row.userId = userId → row.parentPath = parentOf row.path

/-- In a tree nothing lives below a path without a live directory. -/
theorem TreeShaped.none_below (tree : TreeShaped userId rows) (named : ParentsNamed userId rows)
    {p : Text} (nonempty : p ≠ []) (inner : p ≠ ['/']) (gone : ∀ row ∈ rows, Live userId row → row.path = p → row.isDir = false) :
    ∀ row ∈ rows, Live userId row → Text.below p row.path = false := by
  suffices bounded : ∀ n, ∀ row ∈ rows, Live userId row → row.path.length = n →
      Text.below p row.path = false by
    intro row inside live
    exact bounded _ row inside live rfl
  intro n
  induction n using Nat.strongRecOn with
  | ind n ih =>
    intro row inside live length
    rw [Bool.eq_false_iff]
    intro below
    have parent := named row inside live.1
    have shorter := parentOf_shorter nonempty below
    have onward := parentOf_below nonempty below
    rw [← parent] at shorter onward
    have nested : row.parentPath ≠ ['/'] := by
      intro root
      rw [root] at onward
      rcases onward with top | deeper
      · exact inner top.symm
      · obtain ⟨rest,split⟩ := Text.below_iff.mp deeper
        have size := congrArg List.length split
        have some_ := List.length_pos_iff.mpr nonempty
        simp at size
        omega
    obtain ⟨above,inside',live',path,isDir⟩ := tree row inside live nested
    rcases onward with top | deeper
    · have file := gone above inside' live' (path.trans top)
      rw [isDir] at file
      cases file
    · have clear := ih above.path.length (by rw [path]; omega) above inside' live' rfl
      rw [path,deeper] at clear
      cases clear

/-! ### One sync -/

/-- What a sync of `dir` upserts: entries directly in it. -/
def EntriesOf (userId dir : Text) (chunk : List IndexRow) : Prop :=
  ∀ entry ∈ chunk, Live userId entry ∧ entry.parentPath = dir ∧ entry.path ≠ dir

/-- The rows leave a directory to every row that stays: one that was not listed
keeps the row above it, as a directory, and one that was listed has `dir`. -/
structure SyncFits (userId dir : Text) (syncStart : Int) (chunk : List IndexRow) (rows : Index) : Prop where
  unlisted : ∀ row ∈ rows, Live userId row → row.parentPath ≠ ['/'] → lastAt chunk row.path = none →
    ¬Dropped dir syncStart chunk row → ∀ above ∈ rows, Live userId above → above.path = row.parentPath →
      ¬Dropped dir syncStart chunk above ∧ ∀ last, lastAt chunk above.path = some last → last.isDir = true
  listed : dir ≠ ['/'] → ∀ p last, lastAt chunk p = some last → syncStart ≤ last.rowUpdatedAt →
    (∀ row ∈ rows, row.userId = userId → row.path = p → row.fileTrashedAt = none) →
      ∃ home ∈ rows, Live userId home ∧ home.path = dir ∧ home.isDir = true ∧
        ¬Dropped dir syncStart chunk home

section sync
variable (unique : UniquePaths rows) (entries : EntriesOf userId dir chunk)

include unique entries

theorem mem_syncDirectory_existing {row : IndexRow} (inside : row ∈ rows) (own : row.userId = userId) :
    overlaid chunk row ∈ syncDirectory userId dir syncStart chunk rows ↔
      ¬Dropped dir syncStart chunk row := by
  have before : getFileMetadata userId row.path rows = some row :=
    (getFileMetadata_iff unique).mpr ⟨inside,own,rfl⟩
  have synced := upsertChunk_existing chunk (fun entry member => (entries entry member).1.1) before
  obtain ⟨user,path,-⟩ := overlaid_kept chunk row
  have member : overlaid chunk row ∈ syncDirectory userId dir syncStart chunk rows ↔
      getFileMetadata userId row.path (syncDirectory userId dir syncStart chunk rows) =
        some (overlaid chunk row) := by
    rw [getFileMetadata_iff (syncDirectory_unique unique),user,own,path]
    simp
  rw [member,syncDirectory_lookup unique,synced,Dropped]
  simp [Option.filter]

/-- A row after the sync is one from before, with what was listed for it, or
the row of a new entry. -/
theorem mem_syncDirectory {after : IndexRow} (inside : after ∈ syncDirectory userId dir syncStart chunk rows)
    (own : after.userId = userId) :
    (∃ row ∈ rows, row.userId = userId ∧ after = overlaid chunk row ∧ ¬Dropped dir syncStart chunk row) ∨
      ∃ last, lastAt chunk after.path = some last ∧ syncStart ≤ last.rowUpdatedAt ∧
        after.parentPath = dir ∧ ∀ row ∈ rows, ¬(row.userId = userId ∧ row.path = after.path) := by
  have own' : ∀ entry ∈ chunk, entry.userId = userId := fun entry member => (entries entry member).1.1
  have found := (getFileMetadata_iff (syncDirectory_unique unique)).mpr ⟨inside,own,rfl⟩
  rw [syncDirectory_lookup unique,Option.filter_eq_some_iff] at found
  obtain ⟨synced,stays⟩ := found
  cases before : getFileMetadata userId after.path rows with
  | some row =>
    left
    obtain ⟨inside',user,path⟩ := getFileMetadata_some before
    have existing := upsertChunk_existing chunk own' before
    rw [synced] at existing
    cases existing
    refine ⟨row,inside',user,rfl,?_⟩
    rw [← mem_syncDirectory_existing unique entries inside' user]
    exact inside
  | none =>
    right
    cases listed : lastAt chunk after.path with
    | none =>
      rw [upsertChunk_unlisted chunk listed,before] at synced
      cases synced
    | some last =>
      obtain ⟨first,member,added⟩ := upsertChunk_added chunk own' before listed
      rw [synced] at added
      have parent := (entries last (lastAt_some listed).1).2.1
      cases added
      refine ⟨last,rfl,?_,parent,getFileMetadata_none.mp before⟩
      simpa [refreshed,parent] using stays

theorem mem_syncDirectory_added {p : Text} {last : IndexRow} (listed : lastAt chunk p = some last)
    (recent : syncStart ≤ last.rowUpdatedAt)
    (absent : ∀ row ∈ rows, ¬(row.userId = userId ∧ row.path = p)) :
    ∃ after ∈ syncDirectory userId dir syncStart chunk rows, Live userId after ∧
      after.parentPath = dir := by
  have own' : ∀ entry ∈ chunk, entry.userId = userId := fun entry member => (entries entry member).1.1
  obtain ⟨first,member,added⟩ := upsertChunk_added chunk own' (getFileMetadata_none.mpr absent) listed
  have parent := (entries last (lastAt_some listed).1).2.1
  have kept : getFileMetadata userId p (syncDirectory userId dir syncStart chunk rows) =
      some (refreshed last first) := by
    rw [syncDirectory_lookup unique,added]
    simp [Option.filter,refreshed,parent,recent]
  exact ⟨_,(getFileMetadata_some kept).1,(entries first member).1,parent⟩

/-- The row of `dir` itself is not listed, so it stays as it is. -/
theorem mem_syncDirectory_home {home : IndexRow} (inside : home ∈ rows) (own : home.userId = userId)
    (path : home.path = dir) (stays : ¬Dropped dir syncStart chunk home) :
    home ∈ syncDirectory userId dir syncStart chunk rows := by
  have unlisted : lastAt chunk home.path = none := by
    rw [lastAt_none,path]
    exact fun entry member => (entries entry member).2.2
  have kept := (mem_syncDirectory_existing unique entries inside own).mpr stays
  rw [overlaid_unlisted unlisted] at kept
  exact kept

theorem tree_after_sync (tree : TreeShaped userId rows) :
    TreeShaped userId (syncDirectory userId dir syncStart chunk rows) ↔
      SyncFits userId dir syncStart chunk rows := by
  constructor
  · intro tree'
    constructor
    · intro row inside live nested unlisted stays above inside' live' path
      have remains := (mem_syncDirectory_existing unique entries inside live.1).mpr stays
      rw [overlaid_unlisted unlisted] at remains
      obtain ⟨above',member,liveAfter,path',isDir⟩ := tree' row remains live nested
      rcases mem_syncDirectory unique entries member liveAfter.1 with
        ⟨source,inside'',user,rfl,stays'⟩ | ⟨last,-,-,-,absent⟩
      · have same : source = above := by
          apply List.inj_on_of_nodup_map unique inside'' inside'
          rw [user,live'.1,path,← path',(overlaid_kept chunk source).2.1]
        subst same
        refine ⟨stays',fun last listed => ?_⟩
        rw [overlaid_listed listed] at isDir
        exact isDir
      · exact absurd ⟨live'.1,path.trans path'.symm⟩ (absent above inside')
    · intro inner p last listed recent visible
      have child : ∃ after ∈ syncDirectory userId dir syncStart chunk rows, Live userId after ∧
          after.parentPath = dir := by
        by_cases present : ∃ row ∈ rows, row.userId = userId ∧ row.path = p
        · obtain ⟨row,inside,user,rfl⟩ := present
          have parent := (entries last (lastAt_some listed).1).2.1
          obtain ⟨user',-,trashed⟩ := overlaid_kept chunk row
          refine ⟨overlaid chunk row,?_,⟨user'.trans user,trashed.trans (visible row inside user rfl)⟩,?_⟩
          · rw [mem_syncDirectory_existing unique entries inside user,Dropped,overlaid_listed listed]
            intro dropped
            exact absurd dropped.2 (not_lt.mpr recent)
          · rw [overlaid_listed listed]
            exact parent
        · apply mem_syncDirectory_added unique entries listed recent
          intro row inside same
          exact present ⟨row,inside,same⟩
      obtain ⟨after,member,live,parent⟩ := child
      obtain ⟨home,member',live',path,isDir⟩ := tree' after member live (by rw [parent]; exact inner)
      have unlisted : lastAt chunk home.path = none := by
        rw [lastAt_none,path,parent]
        exact fun entry inside => (entries entry inside).2.2
      rcases mem_syncDirectory unique entries member' live'.1 with
        ⟨source,inside,user,rfl,stays⟩ | ⟨other,found,-⟩
      · rw [(overlaid_kept chunk source).2.1] at unlisted
        rw [overlaid_unlisted unlisted] at live' path isDir
        exact ⟨source,inside,live',path.trans parent,isDir,stays⟩
      · rw [unlisted] at found
        cases found
  · intro fits after member live nested
    -- a listed row has the directory itself above it
    have under_home (p : Text) (last : IndexRow) (listed : lastAt chunk p = some last)
        (recent : syncStart ≤ last.rowUpdatedAt) (parent : after.parentPath = dir)
        (visible : ∀ row ∈ rows, row.userId = userId → row.path = p → row.fileTrashedAt = none) :
        ∃ above ∈ syncDirectory userId dir syncStart chunk rows, Live userId above ∧
          above.path = after.parentPath ∧ above.isDir = true := by
      rw [parent] at nested
      obtain ⟨home,inside,live',path,isDir,stays⟩ := fits.listed nested p last listed recent visible
      exact ⟨home,mem_syncDirectory_home unique entries inside live'.1 path stays,live',path.trans parent.symm,
        isDir⟩
    rcases mem_syncDirectory unique entries member live.1 with
      ⟨row,inside,user,rfl,stays⟩ | ⟨last,listed,recent,parent,absent⟩
    · obtain ⟨-,-,trashed⟩ := overlaid_kept chunk row
      have liveBefore : Live userId row := ⟨user,trashed.symm.trans live.2⟩
      cases listed : lastAt chunk row.path with
      | none =>
        rw [overlaid_unlisted listed] at nested ⊢
        obtain ⟨above,inside',live',path,isDir⟩ := tree row inside liveBefore nested
        obtain ⟨stays',directory⟩ :=
          fits.unlisted row inside liveBefore nested listed stays above inside' live' path
        obtain ⟨user',path',trashed'⟩ := overlaid_kept chunk above
        refine ⟨overlaid chunk above,?_,⟨user'.trans live'.1,trashed'.trans live'.2⟩,path'.trans path,?_⟩
        · exact (mem_syncDirectory_existing unique entries inside' live'.1).mpr stays'
        · cases listed' : lastAt chunk above.path with
          | none =>
            rw [overlaid_unlisted listed']
            exact isDir
          | some last =>
            rw [overlaid_listed listed']
            exact directory last listed'
      | some last =>
        have parent := (entries last (lastAt_some listed).1).2.1
        rw [Dropped,overlaid_listed listed] at stays
        apply under_home row.path last listed
        · exact not_lt.mp fun old => stays ⟨parent,old⟩
        · rw [overlaid_listed listed]
          exact parent
        · intro other inside' user' path'
          have same : other = row := by
            apply List.inj_on_of_nodup_map unique inside' inside
            rw [user,user',path']
          rw [same]
          exact liveBefore.2
    · apply under_home after.path last listed recent parent
      intro row inside user path
      exact absurd ⟨user,path⟩ (absent row inside)

end sync

instance : Decidable (Live userId row) := inferInstanceAs (Decidable (_ ∧ _))

instance : Decidable (TreeShaped userId rows) := inferInstanceAs (Decidable (∀ row ∈ rows, _))

instance : Decidable (UniquePaths rows) := inferInstanceAs (Decidable (List.Nodup _))

end Index

namespace Engine
variable {e : Engine} {path : Text} {stamp begun : Int} {firstId : Nat} {entries : List (Text × Metadata)}
  {rows : Index}

open Index

theorem syncRows_entries : EntriesOf e.userId path (e.syncRows path stamp firstId entries) := by
  intro row inside
  obtain ⟨entry,-,id,made,-,other,-⟩ := mem_syncRows inside
  refine ⟨?_,?_,other⟩
  · rw [made]
    exact ⟨rfl,rfl⟩
  · rw [made]
    rfl

theorem syncedIndex_named (unique : UniquePaths rows) (named : ParentsNamed e.userId rows) :
    ParentsNamed e.userId (e.syncedIndex path stamp begun firstId entries rows) := by
  intro after member own
  rcases mem_syncDirectory unique syncRows_entries member own with
    ⟨row,inside,user,rfl,-⟩ | ⟨last,listed,-,parent,-⟩
  · cases listed : lastAt (e.syncRows path stamp firstId entries) row.path with
    | none =>
      rw [overlaid_unlisted listed]
      exact named row inside user
    | some last =>
      obtain ⟨entry,-,id,made,-,-,parent⟩ := mem_syncRows (lastAt_some listed).1
      have filed : last.parentPath = path := by rw [made]; rfl
      rw [(lastAt_some listed).2] at parent
      rw [overlaid_listed listed]
      exact filed.trans parent.symm
  · obtain ⟨entry,-,id,-,-,-,parent'⟩ := mem_syncRows (lastAt_some listed).1
    rw [(lastAt_some listed).2] at parent'
    exact parent.trans parent'.symm

/-- One directory sync of the user: its directory, its listing and its times. -/
structure DirectorySync where
  path : Text
  stamp : Int
  begun : Int
  firstId : Nat
  entries : List (Text × Metadata)

def DirectorySync.Fits (e : Engine) (rows : Index) (s : DirectorySync) : Prop :=
  SyncFits e.userId s.path (s.begun - 1) (e.syncRows s.path s.stamp s.firstId s.entries) rows

def directorySyncs (e : Engine) : Transition.System Index DirectorySync where
  step rows s := some (e.syncedIndex s.path s.stamp s.begun s.firstId s.entries rows)

/-- Syncs that fit, of any directories in any order, keep the tree. -/
theorem directorySyncs_tree {syncs : List DirectorySync} {final : Index} (unique : UniquePaths rows)
    (tree : TreeShaped e.userId rows) (run : e.directorySyncs.Run (DirectorySync.Fits e) rows syncs final) :
    UniquePaths final ∧ TreeShaped e.userId final := by
  apply Transition.System.Run.invariant (I := fun rows => UniquePaths rows ∧ TreeShaped e.userId rows) _ run
  · exact ⟨unique,tree⟩
  · rintro rows s next ⟨unique,tree⟩ fits stepped
    cases stepped
    exact ⟨syncDirectory_unique unique,(tree_after_sync unique syncRows_entries tree).mpr fits⟩

/-- A sync keeps the tree exactly when its listing fits the rows; below a path
that then has no live directory no live row remains. -/
theorem sync_keeps_tree_iff (unique : UniquePaths rows) (tree : TreeShaped e.userId rows) :
    (TreeShaped e.userId (e.syncedIndex path stamp begun firstId entries rows) ↔
        SyncFits e.userId path (begun - 1) (e.syncRows path stamp firstId entries) rows) ∧
      (TreeShaped e.userId (e.syncedIndex path stamp begun firstId entries rows) →
        ParentsNamed e.userId rows → ∀ p, p ≠ [] → p ≠ ['/'] →
          (∀ row ∈ e.syncedIndex path stamp begun firstId entries rows,
            Live e.userId row → row.path = p → row.isDir = false) →
          ∀ row ∈ e.syncedIndex path stamp begun firstId entries rows,
            Live e.userId row → Text.below p row.path = false) := by
  constructor
  · exact tree_after_sync unique syncRows_entries tree
  · intro tree' named p nonempty inner gone
    exact tree'.none_below (syncedIndex_named unique named) nonempty inner gone

/-- The rows of a directory, of a directory in it and of a file in that one. -/
def nestedRows : Index :=
  let row : IndexRow := ⟨0,"u".toList,['/'],"d".toList,"/d".toList,true,none,none,none,0,none,none,none,
    -10,-10,0,none⟩
  [row,
    { row with id := 1, parentPath := "/d".toList, name := "s".toList, path := "/d/s".toList },
    { row with
      id := 2
      parentPath := "/d/s".toList
      name := "f".toList
      path := "/d/s/f".toList
      isDir := false
      size := 3 }]

/-- A sync that finds the inner directory again fits. -/
theorem sync_keeps_tree_again : SyncFits plainEngine.userId "/d".toList (20 - 1)
    (plainEngine.syncRows "/d".toList 20 3 [("u/d/s".toList,⟨true,0⟩)]) nestedRows :=
  (sync_keeps_tree_iff (e := plainEngine) (by decide +kernel) (by decide +kernel)).1.mp (by decide +kernel)

/-- The inner directory and its file are gone from the storage. The sync of the
outer one deletes the row of the inner one and leaves that of the file, which
is still listed and counted. -/
theorem vanished_directory_leaves_rows : ∃ w w' : World,
    w.index = nestedRows ∧ UniquePaths nestedRows ∧ TreeShaped "u".toList nestedRows ∧
      w.primary.listPrefix "u/d/".toList = [] ∧
      plainEngine.syncIndexImpl "/d".toList w [] = .done () w' [] ∧
      ¬TreeShaped "u".toList w'.index ∧
      getFileMetadata "u".toList "/d/s".toList w'.index = none ∧
      (listFilesRecursive true "u".toList "/d/s".toList w'.index).map (·.path) = ["/d/s/f".toList] ∧
      getTotalSize true "u".toList "/d".toList w'.index = 3 := by
  let w := worldOf [] ["u/d".toList] nestedRows
  have ran : plainEngine.syncIndexImpl "/d".toList w [] =
      .done () { w with index := nestedRows.take 1 ++ nestedRows.drop 2 } [] := by rfl
  refine ⟨w,_,rfl,?_,?_,?_,ran,?_,?_,?_,?_⟩
  all_goals decide +kernel

end Engine
end StorageHub.Scoped
