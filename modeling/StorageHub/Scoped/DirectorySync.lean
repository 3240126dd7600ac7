import StorageHub.Scoped.IndexAnnotations
import StorageHub.Scoped.Frames
import StorageHub.Scoped.Listing

/-! A directory sync on the index: chunks of listed entries are upserted, then
the rows of the directory that are older than the sync are deleted. -/
namespace StorageHub.Scoped
open Library WriteCache Protected Vfs Effect

namespace Index
variable {rows : Index} {userId p : Text}

/-- An existing row as the conflict clause of the chunk leaves it. -/
def refreshed (entry row : IndexRow) : IndexRow :=
  { row with
    parentPath := entry.parentPath
    name := entry.name
    isDir := entry.isDir
    size := entry.size
    rowUpdatedAt := entry.rowUpdatedAt }

def upsertChunk (chunk : List IndexRow) (rows : Index) : Index :=
  chunk.foldl (fun rows entry => upsertSynced entry rows) rows

/-- The chunk of one directory, then the prune of what is older than `syncStart`. -/
def syncDirectory (userId dir : Text) (syncStart : Int) (chunk : List IndexRow) (rows : Index) : Index :=
  pruneDirectory userId dir syncStart (upsertChunk chunk rows)

/-! ### Lookups -/

def UniquePaths (rows : Index) : Prop := (rows.map fun row => (row.userId,row.path)).Nodup

theorem getFileMetadata_of_mem (unique : UniquePaths rows) {row : IndexRow} (inside : row ∈ rows) :
    getFileMetadata row.userId row.path rows = some row := by
  cases found : getFileMetadata row.userId row.path rows with
  | none => exact absurd ⟨rfl,rfl⟩ (getFileMetadata_none.mp found row inside)
  | some other =>
    obtain ⟨inside',user,path⟩ := getFileMetadata_some found
    have same : row = other := by
      apply List.inj_on_of_nodup_map unique inside inside'
      rw [user,path]
    rw [same]

theorem getFileMetadata_iff (unique : UniquePaths rows) {row : IndexRow} :
    getFileMetadata userId p rows = some row ↔ row ∈ rows ∧ row.userId = userId ∧ row.path = p := by
  constructor
  · exact getFileMetadata_some
  · rintro ⟨inside,rfl,rfl⟩
    exact getFileMetadata_of_mem unique inside

theorem upsertSynced_lookup (entry : IndexRow) (rows : Index) :
    getFileMetadata userId p (upsertSynced entry rows) =
      if entry.userId = userId ∧ entry.path = p then
        some (((getFileMetadata userId p rows).map (refreshed entry)).getD entry)
      else getFileMetadata userId p rows := by
  have keys (row : IndexRow) : at_ userId p
      (if at_ entry.userId entry.path row then refreshed entry row else row) = at_ userId p row := by
    split <;> rfl
  rw [upsertSynced]
  split
  next present =>
    have mapped : getFileMetadata userId p
        (rows.map fun row => if at_ entry.userId entry.path row then refreshed entry row else row) =
        (getFileMetadata userId p rows).map fun row =>
          if at_ entry.userId entry.path row then refreshed entry row else row := by
      rw [getFileMetadata,List.find?_map]
      congr 2
      funext row
      exact keys row
    refine mapped.trans ?_
    split
    next here =>
      obtain ⟨rfl,rfl⟩ := here
      obtain ⟨old,inside,same⟩ := List.any_eq_true.mp present
      cases found : getFileMetadata entry.userId entry.path rows with
      | none => exact absurd (at_iff.mp same) (getFileMetadata_none.mp found old inside)
      | some row =>
        obtain ⟨-,user,path⟩ := getFileMetadata_some found
        have at_row : at_ entry.userId entry.path row = true := at_iff.mpr ⟨user,path⟩
        simp [at_row]
    next elsewhere =>
      cases found : getFileMetadata userId p rows with
      | none => rfl
      | some row =>
        obtain ⟨-,rfl,rfl⟩ := getFileMetadata_some found
        have other : at_ entry.userId entry.path row = false := by
          rw [Bool.eq_false_iff]
          intro same
          obtain ⟨user,path⟩ := at_iff.mp same
          exact elsewhere ⟨user.symm,path.symm⟩
        simp [other]
  next absent =>
    have missing : getFileMetadata entry.userId entry.path rows = none := by
      apply getFileMetadata_none.mpr
      intro row inside same
      exact absent (List.any_eq_true.mpr ⟨row,inside,at_iff.mpr same⟩)
    rw [getFileMetadata,List.find?_append]
    change (getFileMetadata userId p rows).or _ = _
    by_cases here : entry.userId = userId ∧ entry.path = p
    · obtain ⟨rfl,rfl⟩ := here
      have self : at_ entry.userId entry.path entry = true := at_iff.mpr ⟨rfl,rfl⟩
      simp [missing,self]
    · have other : at_ userId p entry = false := by
        rw [Bool.eq_false_iff]
        exact fun same => here (at_iff.mp same)
      rw [if_neg here]
      simp [other]

theorem prune_lookup (unique : UniquePaths rows) (dir : Text) (syncStart : Int) :
    getFileMetadata userId p (pruneDirectory userId dir syncStart rows) =
      (getFileMetadata userId p rows).filter fun row =>
        !(row.parentPath == dir && decide (row.rowUpdatedAt < syncStart)) := by
  have kept : UniquePaths (pruneDirectory userId dir syncStart rows) := by
    apply List.Nodup.sublist _ unique
    exact List.Sublist.map _ List.filter_sublist
  apply Option.ext
  intro row
  rw [getFileMetadata_iff kept,Option.filter_eq_some_iff,getFileMetadata_iff unique,pruneDirectory,
    List.mem_filter]
  constructor
  · rintro ⟨⟨inside,stays⟩,rfl,rfl⟩
    refine ⟨⟨inside,rfl,rfl⟩,?_⟩
    simpa using stays
  · rintro ⟨⟨inside,rfl,rfl⟩,stays⟩
    refine ⟨⟨inside,?_⟩,rfl,rfl⟩
    simpa using stays

/-- The entry of a chunk that comes last at a path. -/
def lastAt (chunk : List IndexRow) (p : Text) : Option IndexRow :=
  chunk.reverse.find? fun entry => entry.path == p

theorem upsertChunk_unique (chunk : List IndexRow) (unique : UniquePaths rows) :
    UniquePaths (upsertChunk chunk rows) := (upsertChunk_keeps chunk unique).1

theorem upsertChunk_append (first second : List IndexRow) (rows : Index) :
    upsertChunk (first ++ second) rows = upsertChunk second (upsertChunk first rows) :=
  List.foldl_append

theorem lastAt_concat (chunk : List IndexRow) (entry : IndexRow) (p : Text) :
    lastAt (chunk ++ [entry]) p = if entry.path = p then some entry else lastAt chunk p := by
  by_cases here : entry.path = p
  · simp [lastAt,here]
  · simp [lastAt,here]

theorem upsertChunk_concat (chunk : List IndexRow) (entry : IndexRow) (rows : Index) :
    upsertChunk (chunk ++ [entry]) rows = upsertSynced entry (upsertChunk chunk rows) := by
  rw [upsertChunk_append]
  rfl

theorem upsertChunk_unlisted (chunk : List IndexRow) (unlisted : lastAt chunk p = none) :
    getFileMetadata userId p (upsertChunk chunk rows) = getFileMetadata userId p rows := by
  induction chunk using List.reverseRecOn with
  | nil => rfl
  | append_singleton chunk entry ih =>
    rw [lastAt_concat] at unlisted
    split at unlisted
    next => cases unlisted
    next other =>
      have elsewhere : ¬(entry.userId = userId ∧ entry.path = p) := fun same => other same.2
      rw [upsertChunk_concat,upsertSynced_lookup,if_neg elsewhere,ih unlisted]

/-- A saved row stands at its key; the lookups elsewhere are as before. -/
theorem save_lookup {existing row : IndexRow} {out : Index} (keyed : Keyed rows) (inside : existing ∈ rows)
    (saved : save row rows = .ok out) (number : row.id = existing.id) (same : sameKey existing row) :
    getFileMetadata userId p out =
      if row.userId = userId ∧ row.path = p then some row else getFileMetadata userId p rows := by
  have unique := (save_keyed keyed saved).paths
  have rewritten := save_cases saved
  split
  next here =>
    apply (getFileMetadata_iff unique).mpr
    refine ⟨?_,here⟩
    rw [rewritten]
    exact List.mem_map.mpr ⟨existing,inside,if_pos number.symm⟩
  next elsewhere =>
    apply Option.ext
    intro other
    rw [getFileMetadata_iff unique,getFileMetadata_iff keyed.paths,rewritten]
    constructor
    · rintro ⟨member,user,path⟩
      obtain ⟨old,inside',made⟩ := List.mem_map.mp member
      split at made
      next =>
        rw [← made] at user path
        exact absurd ⟨user,path⟩ elsewhere
      next =>
        rw [← made] at user path ⊢
        exact ⟨inside',user,path⟩
    · rintro ⟨member,user,path⟩
      have differs : other.id ≠ row.id := by
        intro equal
        have found := keyed.of_id member inside (equal.trans number)
        rw [found] at user path
        exact elsewhere ⟨same.1.trans user,same.2.trans path⟩
      exact ⟨List.mem_map.mpr ⟨other,member,if_neg differs⟩,user,path⟩

theorem insert_lookup {row : IndexRow} {out : Index}
    (inserted : insert row rows = .ok out) (absent : getFileMetadata row.userId row.path rows = none) :
    getFileMetadata userId p out =
      if row.userId = userId ∧ row.path = p then some row else getFileMetadata userId p rows := by
  rw [insert] at inserted
  split at inserted
  next => cases inserted
  next =>
    cases inserted
    rw [getFileMetadata,List.find?_append]
    change (getFileMetadata userId p rows).or _ = _
    split
    next here =>
      obtain ⟨rfl,rfl⟩ := here
      have self : at_ row.userId row.path row = true := at_iff.mpr ⟨rfl,rfl⟩
      simp [absent,self]
    next elsewhere =>
      have other : at_ userId p row = false := by
        rw [Bool.eq_false_iff]
        exact fun same => elsewhere (at_iff.mp same)
      simp [other]

/-- After an upsert its key has a live row with the new data. -/
theorem addOrUpdateEntry_lookup {entry : IndexRow} {out : Index} (keyed : Keyed rows)
    (made : addOrUpdateEntry entry rows = .ok out) :
    (∃ row, getFileMetadata entry.userId entry.path out = some row ∧ row.parentPath = entry.parentPath ∧
        row.fileTrashedAt = none ∧ row.rowUpdatedAt = entry.rowUpdatedAt) ∧
      ∀ p, p ≠ entry.path → getFileMetadata entry.userId p out = getFileMetadata entry.userId p rows := by
  rw [addOrUpdateEntry] at made
  cases found : getFileMetadata entry.userId entry.path rows with
  | some existing =>
    rw [found] at made
    dsimp only at made
    obtain ⟨inside,user,path⟩ := getFileMetadata_some found
    have lookup (p : Text) : getFileMetadata entry.userId p out = _ :=
      save_lookup keyed inside made rfl ⟨rfl,rfl⟩
    constructor
    · refine ⟨_,(lookup entry.path).trans (if_pos ⟨user,path⟩),rfl,rfl,rfl⟩
    · intro p other
      exact (lookup p).trans (if_neg fun here => other (here.2.symm.trans path))
  | none =>
    rw [found] at made
    have lookup (p : Text) : getFileMetadata entry.userId p out = _ := insert_lookup made found
    constructor
    · exact ⟨_,(lookup entry.path).trans (if_pos ⟨rfl,rfl⟩),rfl,rfl,rfl⟩
    · intro p other
      exact (lookup p).trans (if_neg fun here => other here.2.symm)

/-- A row with the data that a chunk has last for its path, if any. -/
def overlaid (chunk : List IndexRow) (row : IndexRow) : IndexRow :=
  ((lastAt chunk row.path).map fun last => refreshed last row).getD row

theorem overlaid_unlisted {chunk : List IndexRow} {row : IndexRow}
    (unlisted : lastAt chunk row.path = none) : overlaid chunk row = row := by
  rw [overlaid,unlisted]
  rfl

theorem overlaid_listed {chunk : List IndexRow} {row last : IndexRow}
    (listed : lastAt chunk row.path = some last) : overlaid chunk row = refreshed last row := by
  rw [overlaid,listed]
  rfl

theorem overlaid_kept (chunk : List IndexRow) (row : IndexRow) :
    (overlaid chunk row).userId = row.userId ∧ (overlaid chunk row).path = row.path ∧
      (overlaid chunk row).fileTrashedAt = row.fileTrashedAt := by
  cases listed : lastAt chunk row.path with
  | none =>
    rw [overlaid_unlisted listed]
    exact ⟨rfl,rfl,rfl⟩
  | some last =>
    rw [overlaid_listed listed]
    exact ⟨rfl,rfl,rfl⟩

theorem lastAt_some {chunk : List IndexRow} {last : IndexRow} (listed : lastAt chunk p = some last) :
    last ∈ chunk ∧ last.path = p := by
  have found := List.find?_some listed
  refine ⟨?_,by simpa using found⟩
  rw [← List.mem_reverse]
  exact List.mem_of_find?_eq_some listed

theorem lastAt_none {chunk : List IndexRow} :
    lastAt chunk p = none ↔ ∀ entry ∈ chunk, entry.path ≠ p := by
  simp [lastAt]

theorem upsertChunk_existing (chunk : List IndexRow) (own : ∀ entry ∈ chunk, entry.userId = userId)
    {row : IndexRow} (before : getFileMetadata userId p rows = some row) :
    getFileMetadata userId p (upsertChunk chunk rows) = some (overlaid chunk row) := by
  obtain ⟨-,-,path⟩ := getFileMetadata_some before
  induction chunk using List.reverseRecOn with
  | nil => exact before
  | append_singleton chunk entry ih =>
    have earlier := ih fun entry member => own entry (List.mem_append_left _ member)
    have user := own entry (List.mem_append_right _ List.mem_cons_self)
    rw [upsertChunk_concat,upsertSynced_lookup,earlier]
    by_cases here : entry.path = p
    · have last : lastAt (chunk ++ [entry]) row.path = some entry := by
        rw [lastAt_concat,path,if_pos here]
      rw [if_pos ⟨user,here⟩,overlaid_listed last]
      -- the later entry overwrites all that an earlier one wrote
      cases listed : lastAt chunk row.path with
      | none =>
        rw [overlaid_unlisted listed]
        rfl
      | some other =>
        rw [overlaid_listed listed]
        rfl
    · have same : lastAt (chunk ++ [entry]) row.path = lastAt chunk row.path := by
        rw [lastAt_concat,path,if_neg here]
      rw [if_neg fun both => here both.2,overlaid,overlaid,same]

theorem upsertChunk_added (chunk : List IndexRow) (own : ∀ entry ∈ chunk, entry.userId = userId)
    {last : IndexRow} (before : getFileMetadata userId p rows = none)
    (listed : lastAt chunk p = some last) :
    ∃ first ∈ chunk, getFileMetadata userId p (upsertChunk chunk rows) = some (refreshed last first) := by
  induction chunk using List.reverseRecOn generalizing last with
  | nil => cases listed
  | append_singleton chunk entry ih =>
    have own' : ∀ entry ∈ chunk, entry.userId = userId :=
      fun entry member => own entry (List.mem_append_left _ member)
    have user := own entry (List.mem_append_right _ List.mem_cons_self)
    rw [lastAt_concat] at listed
    rw [upsertChunk_concat,upsertSynced_lookup]
    split at listed
    next here =>
      cases listed
      rw [if_pos ⟨user,here⟩]
      cases earlier : lastAt chunk p with
      | none =>
        rw [upsertChunk_unlisted chunk earlier,before]
        exact ⟨entry,List.mem_append_right _ List.mem_cons_self,rfl⟩
      | some other =>
        obtain ⟨first,member,found⟩ := ih own' earlier
        rw [found]
        exact ⟨first,List.mem_append_left _ member,rfl⟩
    next other =>
      rw [if_neg fun same => other same.2]
      obtain ⟨first,member,found⟩ := ih own' listed
      exact ⟨first,List.mem_append_left _ member,found⟩

/-! ### After the prune -/

section pruned
variable {chunk : List IndexRow} {dir : Text} {syncStart : Int} (unique : UniquePaths rows)

/-- The sync deletes a row: with what was listed for it, it is one of `dir` and
older than the sync. -/
def Dropped (dir : Text) (syncStart : Int) (chunk : List IndexRow) (row : IndexRow) : Prop :=
  (overlaid chunk row).parentPath = dir ∧ (overlaid chunk row).rowUpdatedAt < syncStart

include unique

theorem syncDirectory_unique : UniquePaths (syncDirectory userId dir syncStart chunk rows) := by
  apply List.Nodup.sublist _ (upsertChunk_unique chunk unique)
  exact List.Sublist.map _ List.filter_sublist

/-- What the sync shows at a path is what the chunk left there, unless pruned. -/
theorem syncDirectory_lookup (p : Text) :
    getFileMetadata userId p (syncDirectory userId dir syncStart chunk rows) =
      (getFileMetadata userId p (upsertChunk chunk rows)).filter fun row =>
        !(row.parentPath == dir && decide (row.rowUpdatedAt < syncStart)) :=
  prune_lookup (upsertChunk_unique chunk unique) dir syncStart

theorem syncDirectory_dropped (own : ∀ entry ∈ chunk, entry.userId = userId) {row : IndexRow}
    (inside : row ∈ rows) (user : row.userId = userId) :
    getFileMetadata userId row.path (syncDirectory userId dir syncStart chunk rows) = none ↔
      Dropped dir syncStart chunk row := by
  have before : getFileMetadata userId row.path rows = some row :=
    (getFileMetadata_iff unique).mpr ⟨inside,user,rfl⟩
  rw [syncDirectory_lookup unique,upsertChunk_existing chunk own before,Dropped]
  simp [Option.filter]

end pruned

end Index

namespace Engine
variable (e : Engine)

/-- The rows after a sync of `path` that listed `entries` at `stamp` and began
its transaction at `begun`. -/
def syncedIndex (path : Text) (stamp begun : Int) (firstId : Nat) (entries : List (Text × Metadata))
    (rows : Index) : Index :=
  Index.syncDirectory e.userId path (begun - 1) (e.syncRows path stamp firstId entries) rows

variable {e}

theorem mem_syncRows {path : Text} {stamp : Int} {firstId : Nat} {entries : List (Text × Metadata)}
    {row : IndexRow} (inside : row ∈ e.syncRows path stamp firstId entries) :
    ∃ entry ∈ entries, ∃ id, row = e.syncedRow path stamp id (e.entryInfo entry) entry.1 ∧
      isHiddenStoragePath row.path = false ∧ row.path ≠ path ∧ parentOf row.path = path := by
  obtain ⟨⟨⟨key,info⟩,n⟩,numbered,rfl⟩ := List.mem_map.mp inside
  have listed := List.fst_mem_of_mem_zipIdx numbered
  obtain ⟨made,kept⟩ := List.mem_filter.mp listed
  obtain ⟨entry,member,same⟩ := List.mem_map.mp made
  cases same
  rw [Bool.and_eq_true,Bool.and_eq_true,Bool.not_eq_true',bne_iff_ne,beq_iff_eq] at kept
  exact ⟨entry,member,firstId + n,rfl,kept.1.1,kept.1.2,kept.2⟩

/-- A finished sync left the index alone, under a protected directory, or made
one of the listing it got. -/
theorem syncIndexImpl_synced {path : Text} {w w' : World} {cs rest : List (Choice EngineEnv)} {u : Unit}
    (done : e.syncIndexImpl path w cs = .done u w' rest) :
    w'.index = w.index ∨ ∃ now firstId entries,
      w'.index = e.syncedIndex path now now firstId entries w.index := by
  obtain ⟨plan,w₁,later,planned,synced⟩ := bind_done w cs done
  obtain rfl := readOnly_done (e.getProtectedPlan_readOnly path) planned
  cases plan with
  | some plan =>
    obtain ⟨-,rfl⟩ := query_done synced
    exact .inl rfl
  | none =>
    obtain ⟨entries,w₂,later',listed,written⟩ := bind_done w₁ later synced
    obtain rfl := readOnly_done (e.orBackup_readOnly (query_readOnly _) fun _ => query_readOnly _) listed
    obtain ⟨seen,w₃,_,got,written⟩ := bind_done w₂ later' written
    cases got
    obtain ⟨_,w₄,_,counted,written⟩ := bind_done w₂ later' written
    cases counted
    obtain ⟨-,now,index,made,rfl⟩ := transact_done written
    cases made
    exact .inr ⟨now,w₂.nextUuid,entries,rfl⟩

end Engine
end StorageHub.Scoped
