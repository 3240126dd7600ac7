import StorageHub.Scoped.DirectorySync
import StorageHub.Scoped.PendingListed

/-! The two directory syncs, that of the engine and that of its write cache,
on one listing of a directory. -/
namespace StorageHub.Scoped
open Library WriteCache Protected Vfs Paths

/-- What the two syncs must agree on in a row. -/
structure SyncKey where
  path : Text
  parentPath : Text
  name : Text
  isDir : Bool
  size : Int
  storageId : Option Text
  backendKey : Option Text
  deriving DecidableEq,Repr

def syncKey (row : IndexRow) : SyncKey :=
  ⟨row.path,row.parentPath,row.name,row.isDir,row.size,row.storageId,row.backendKey⟩

/-- The rows a sync upserts, and the index it leaves. -/
structure SyncEffect where
  chunk : List IndexRow
  after : Index

namespace Engine
variable (e : Engine) (policy : CachePathPolicy) (path : Text) (stamp syncStart : Int) (firstId : Nat)
  (entries : List (Text × Metadata)) (rows : Index)

/-- `sync_index_internal` with what it found for the protection of the directory. -/
def internalSync (protection : Option ProtectedPathPlan) : SyncEffect :=
  match protection with
  | some _ => ⟨[],rows⟩
  | none =>
    let chunk := e.syncRows path stamp firstId entries
    ⟨chunk,Index.syncDirectory e.userId path syncStart chunk rows⟩

/-- The rows of `sync_directory_index` of the write cache. -/
def cacheRows : List IndexRow :=
  (entries.filterMap fun entry =>
    ((physicalToLogicalPath e.userId entry.1).filter policy.allows).map fun logical =>
      (entry.1,{ fileInfo entry.1 entry.2 with path := logical })).zipIdx.map fun entry =>
    e.syncedRow path stamp (firstId + entry.2) entry.1.2 entry.1.1

def cacheSync : SyncEffect :=
  let chunk := e.cacheRows policy path stamp firstId entries
  ⟨chunk,Index.syncDirectory e.userId path syncStart chunk rows⟩

/-- The logical path under which the engine's sync keeps a listed entry. -/
def internalPath (physical : Text) : Option Text :=
  (some (e.translatePath physical)).filter fun logical =>
    !isHiddenStoragePath logical && logical != path && parentOf logical == path

def cachePath (physical : Text) : Option Text :=
  (physicalToLogicalPath e.userId physical).filter policy.allows

end Engine

/-- Two chunks are the same up to paths that the policy excludes. -/
def SameUpserts (policy : CachePathPolicy) (first second : List IndexRow) : Prop :=
  ∀ key : SyncKey, policy.allows key.path = true →
    (key ∈ first.map syncKey ↔ key ∈ second.map syncKey)

/-- Two syncs upsert the same rows and delete the same rows, up to paths that
the policy excludes. -/
structure SyncsAgree (userId : Text) (policy : CachePathPolicy) (rows : Index) (first second : SyncEffect) :
    Prop where
  upserts : SameUpserts policy first.chunk second.chunk
  prunes : ∀ row ∈ rows, row.userId = userId → policy.allows row.path = true →
    (Index.getFileMetadata userId row.path first.after = none ↔
      Index.getFileMetadata userId row.path second.after = none)

namespace Engine
variable {e : Engine} {policy : CachePathPolicy} {path : Text} {stamp syncStart : Int} {firstId firstId' : Nat}
  {entries : List (Text × Metadata)} {rows : Index}

theorem syncKeys_numbered (pairs : List (Text × VfsFileInfo)) :
    (pairs.zipIdx.map fun entry => e.syncedRow path stamp (firstId + entry.2) entry.1.2 entry.1.1).map syncKey =
      pairs.map fun pair => ⟨pair.2.path,path,pair.2.name,pair.2.isDir,pair.2.size,some e.poolName,some pair.1⟩ := by
  have unnumbered : (fun entry : (Text × VfsFileInfo) × Nat =>
      syncKey (e.syncedRow path stamp (firstId + entry.2) entry.1.2 entry.1.1)) =
        (fun pair : Text × VfsFileInfo => (⟨pair.2.path,path,pair.2.name,pair.2.isDir,pair.2.size,
          some e.poolName,some pair.1⟩ : SyncKey)) ∘ Prod.fst := rfl
  rw [List.map_map]
  refine (congrArg (fun f => pairs.zipIdx.map f) unnumbered).trans ?_
  rw [← List.map_map,List.zipIdx_map_fst]

theorem mem_syncKeys_internal {key : SyncKey} :
    key ∈ (e.syncRows path stamp firstId entries).map syncKey ↔
      ∃ entry ∈ entries, e.internalPath path entry.1 = some key.path ∧
        key = ⟨key.path,path,lastSegment entry.1,entry.2.isDir,entry.2.size,some e.poolName,some entry.1⟩ := by
  rw [syncRows,syncKeys_numbered,List.mem_map]
  constructor
  · rintro ⟨pair,kept,rfl⟩
    obtain ⟨made,visible⟩ := List.mem_filter.mp kept
    obtain ⟨entry,member,rfl⟩ := List.mem_map.mp made
    refine ⟨entry,member,?_,rfl⟩
    exact Option.filter_eq_some_iff.mpr ⟨rfl,visible⟩
  · rintro ⟨entry,member,kept,same⟩
    obtain ⟨translated,visible⟩ := Option.filter_eq_some_iff.mp kept
    rw [← Option.some.inj translated] at same visible
    refine ⟨(entry.1,e.entryInfo entry),List.mem_filter.mpr ⟨List.mem_map.mpr ⟨entry,member,rfl⟩,visible⟩,?_⟩
    exact same.symm

theorem mem_syncKeys_cache {key : SyncKey} :
    key ∈ (e.cacheRows policy path stamp firstId entries).map syncKey ↔
      ∃ entry ∈ entries, e.cachePath policy entry.1 = some key.path ∧
        key = ⟨key.path,path,lastSegment entry.1,entry.2.isDir,entry.2.size,some e.poolName,some entry.1⟩ := by
  rw [cacheRows,syncKeys_numbered,List.mem_map]
  constructor
  · rintro ⟨pair,kept,rfl⟩
    obtain ⟨entry,member,made⟩ := List.mem_filterMap.mp kept
    obtain ⟨logical,allowed,rfl⟩ := Option.map_eq_some_iff.mp made
    exact ⟨entry,member,allowed,rfl⟩
  · rintro ⟨entry,member,allowed,same⟩
    refine ⟨(entry.1,{ fileInfo entry.1 entry.2 with path := key.path }),?_,same.symm⟩
    apply List.mem_filterMap.mpr
    exact ⟨entry,member,Option.map_eq_some_iff.mpr ⟨key.path,allowed,rfl⟩⟩

/-- Both syncs read a listed entry the same way, where the policy allows it. -/
def EntryAgrees (e : Engine) (policy : CachePathPolicy) (path physical : Text) : Prop :=
  (e.internalPath path physical).filter policy.allows = e.cachePath policy physical

theorem cachePath_allowed {physical logical : Text} (kept : e.cachePath policy physical = some logical) :
    policy.allows logical = true := (Option.filter_eq_some_iff.mp kept).2

theorem upserts_agree_iff :
    SameUpserts policy (e.syncRows path stamp firstId entries)
        (e.cacheRows policy path stamp firstId' entries) ↔
      ∀ entry ∈ entries, e.EntryAgrees policy path entry.1 := by
  constructor
  · intro agree entry member
    apply Option.ext
    intro logical
    let key : SyncKey :=
      ⟨logical,path,lastSegment entry.1,entry.2.isDir,entry.2.size,some e.poolName,some entry.1⟩
    constructor
    · intro kept
      obtain ⟨listed,allowed⟩ := Option.filter_eq_some_iff.mp kept
      have upserted := (agree key allowed).mp (mem_syncKeys_internal.mpr ⟨entry,member,listed,rfl⟩)
      obtain ⟨other,-,found,same⟩ := mem_syncKeys_cache.mp upserted
      have physical : entry.1 = other.1 := Option.some.inj (congrArg SyncKey.backendKey same)
      rw [physical]
      exact found
    · intro kept
      have allowed := cachePath_allowed kept
      have upserted := (agree key allowed).mpr (mem_syncKeys_cache.mpr ⟨entry,member,kept,rfl⟩)
      obtain ⟨other,-,found,same⟩ := mem_syncKeys_internal.mp upserted
      have physical : entry.1 = other.1 := Option.some.inj (congrArg SyncKey.backendKey same)
      rw [physical]
      exact Option.filter_eq_some_iff.mpr ⟨found,allowed⟩
  · intro agree key allowed
    rw [mem_syncKeys_internal,mem_syncKeys_cache]
    constructor
    · rintro ⟨entry,member,found,same⟩
      refine ⟨entry,member,?_,same⟩
      rw [← agree entry member]
      exact Option.filter_eq_some_iff.mpr ⟨found,allowed⟩
    · rintro ⟨entry,member,found,same⟩
      refine ⟨entry,member,?_,same⟩
      have kept := (agree entry member).trans found
      exact (Option.filter_eq_some_iff.mp kept).1

/-! ### Prunes -/

theorem syncRows_filed : ∀ row ∈ e.syncRows path stamp firstId entries,
    row.userId = e.userId ∧ row.parentPath = path ∧ row.rowUpdatedAt = stamp := by
  intro row member
  obtain ⟨entry,-,id,made,-⟩ := mem_syncRows member
  rw [made]
  exact ⟨rfl,rfl,rfl⟩

theorem cacheRows_filed : ∀ row ∈ e.cacheRows policy path stamp firstId entries,
    row.userId = e.userId ∧ row.parentPath = path ∧ row.rowUpdatedAt = stamp := by
  intro row member
  obtain ⟨entry,-,made⟩ := List.mem_map.mp member
  rw [← made]
  exact ⟨rfl,rfl,rfl⟩

/-- With the same stamp on all entries only the paths decide what a chunk drops. -/
theorem dropped_congr {first second : List IndexRow} {row : IndexRow}
    (filed : ∀ entry ∈ first, entry.userId = e.userId ∧ entry.parentPath = path ∧ entry.rowUpdatedAt = stamp)
    (filed' : ∀ entry ∈ second, entry.userId = e.userId ∧ entry.parentPath = path ∧ entry.rowUpdatedAt = stamp)
    (same : (∃ entry ∈ first, entry.path = row.path) ↔ ∃ entry ∈ second, entry.path = row.path) :
    Index.Dropped path syncStart first row ↔ Index.Dropped path syncStart second row := by
  cases listed : Index.lastAt first row.path with
  | none =>
    have unlisted : Index.lastAt second row.path = none := by
      rw [Index.lastAt_none] at listed ⊢
      intro entry member here
      obtain ⟨other,member',here'⟩ := same.mpr ⟨entry,member,here⟩
      exact listed other member' here'
    rw [Index.Dropped,Index.Dropped,Index.overlaid_unlisted listed,Index.overlaid_unlisted unlisted]
  | some last =>
    obtain ⟨member,here⟩ := Index.lastAt_some listed
    cases listed' : Index.lastAt second row.path with
    | none =>
      obtain ⟨other,member',here'⟩ := same.mp ⟨last,member,here⟩
      exact absurd here' (Index.lastAt_none.mp listed' other member')
    | some last' =>
      obtain ⟨-,parent,stamped⟩ := filed last member
      obtain ⟨-,parent',stamped'⟩ := filed' last' (Index.lastAt_some listed').1
      rw [Index.Dropped,Index.Dropped,Index.overlaid_listed listed,Index.overlaid_listed listed']
      simp [Index.refreshed,parent,parent',stamped,stamped']

theorem upserted_path {first second : List IndexRow} {p : Text}
    (agree : SameUpserts policy first second) (allowed : policy.allows p = true) :
    (∃ entry ∈ first, entry.path = p) ↔ ∃ entry ∈ second, entry.path = p := by
  constructor
  · rintro ⟨entry,member,rfl⟩
    obtain ⟨other,member',same⟩ := List.mem_map.mp
      ((agree (syncKey entry) allowed).mp (List.mem_map_of_mem member))
    exact ⟨other,member',congrArg SyncKey.path same⟩
  · rintro ⟨entry,member,rfl⟩
    obtain ⟨other,member',same⟩ := List.mem_map.mp
      ((agree (syncKey entry) allowed).mpr (List.mem_map_of_mem member))
    exact ⟨other,member',congrArg SyncKey.path same⟩

theorem syncs_agree_unprotected (unique : Index.UniquePaths rows) :
    SyncsAgree e.userId policy rows (e.internalSync path stamp syncStart firstId entries rows none)
        (e.cacheSync policy path stamp syncStart firstId' entries rows) ↔
      ∀ entry ∈ entries, e.EntryAgrees policy path entry.1 := by
  constructor
  · intro agree
    exact upserts_agree_iff.mp agree.upserts
  · intro agree
    have upserts : SameUpserts policy (e.syncRows path stamp firstId entries)
        (e.cacheRows policy path stamp firstId' entries) := upserts_agree_iff.mpr agree
    refine ⟨upserts,fun row inside user allowed => ?_⟩
    have own (row) (member : row ∈ e.syncRows path stamp firstId entries) := (syncRows_filed row member).1
    have own' (row) (member : row ∈ e.cacheRows policy path stamp firstId' entries) :=
      (cacheRows_filed row member).1
    refine (Index.syncDirectory_dropped unique own inside user).trans ?_
    refine Iff.trans ?_ (Index.syncDirectory_dropped unique own' inside user).symm
    exact dropped_congr syncRows_filed cacheRows_filed (upserted_path upserts allowed)

theorem cacheRows_nil : e.cacheRows policy path stamp firstId entries = [] ↔
    ∀ entry ∈ entries, e.cachePath policy entry.1 = none := by
  rw [cacheRows,List.map_eq_nil_iff,List.zipIdx_eq_nil_iff,List.filterMap_eq_nil_iff]
  apply forall₂_congr
  intro entry member
  exact Option.map_eq_none_iff

/-- A sync that lists nothing leaves the recent rows of the directory. -/
theorem unlisted_kept_iff (unique : Index.UniquePaths rows) {row : IndexRow} (inside : row ∈ rows)
    (user : row.userId = e.userId) :
    Index.getFileMetadata e.userId row.path (Index.syncDirectory e.userId path syncStart [] rows) ≠ none ↔
      (row.parentPath = path → syncStart ≤ row.rowUpdatedAt) := by
  rw [Ne,Index.syncDirectory_dropped unique (fun _ member => (List.not_mem_nil member).elim) inside user,
    Index.Dropped,Index.overlaid_unlisted (Index.lastAt_none.mpr fun _ member => (List.not_mem_nil member).elim),
    not_and,not_lt]

/-- Below a protected root the engine leaves the index to the protected writes. -/
theorem syncs_agree_protected (unique : Index.UniquePaths rows) (plan : ProtectedPathPlan) :
    SyncsAgree e.userId policy rows (e.internalSync path stamp syncStart firstId entries rows (some plan))
        (e.cacheSync policy path stamp syncStart firstId' entries rows) ↔
      (∀ entry ∈ entries, e.cachePath policy entry.1 = none) ∧
        ∀ row ∈ rows, row.userId = e.userId → policy.allows row.path = true → row.parentPath = path →
          syncStart ≤ row.rowUpdatedAt := by
  have present {row : IndexRow} (inside : row ∈ rows) (user : row.userId = e.userId) :
      Index.getFileMetadata e.userId row.path rows ≠ none := by
    rw [(Index.getFileMetadata_iff unique).mpr ⟨inside,user,rfl⟩]
    exact Option.some_ne_none row
  constructor
  · intro agree
    have silent : ∀ entry ∈ entries, e.cachePath policy entry.1 = none := by
      intro entry member
      rw [Option.eq_none_iff_forall_not_mem]
      intro logical kept
      have upserted := (agree.upserts
        ⟨logical,path,lastSegment entry.1,entry.2.isDir,entry.2.size,some e.poolName,some entry.1⟩
          (cachePath_allowed kept)).mpr (mem_syncKeys_cache.mpr ⟨entry,member,kept,rfl⟩)
      exact List.not_mem_nil upserted
    refine ⟨silent,fun row inside user allowed => ?_⟩
    rw [← unlisted_kept_iff unique inside user]
    have kept := (agree.prunes row inside user allowed).not.mp (present inside user)
    rw [cacheSync,cacheRows_nil.mpr silent] at kept
    exact kept
  · rintro ⟨silent,recent⟩
    rw [cacheSync,cacheRows_nil.mpr silent]
    refine ⟨fun _ _ => Iff.rfl,fun row inside user allowed => ?_⟩
    have kept := (unlisted_kept_iff unique inside user).mpr (recent row inside user allowed)
    exact iff_of_false (present inside user) kept

/-! ### The entries of an ordinary listing -/

theorem parentOf_ne {logical : Text} (shaped : FileShaped logical) : logical ≠ parentOf logical := by
  obtain ⟨init,upTo,above⟩ := fileShaped_upTo shaped
  rw [above]
  split
  next =>
    rintro rfl
    exact shaped.2.2.1 rfl
  next =>
    intro same
    have shorter := (List.rdropWhile_prefix (fun c => c != '/') logical).length_le
    rw [upTo,same] at shorter
    simp at shorter

/-- A child of the directory is read differently exactly when it is hidden and
the policy has nothing against it. -/
theorem child_agrees_iff {logical : Text} (shaped : FileShaped logical) (parent : parentOf logical = path) :
    e.EntryAgrees policy path (e.getPhysicalPath logical) ↔
      (isHiddenStoragePath logical = true → policy.allows logical = false) := by
  have other : logical ≠ path := by
    rw [← parent]
    exact parentOf_ne shaped
  rw [EntryAgrees,internalPath,cachePath,getPhysicalPath,translatePath_physicalPath e shaped,
    physicalToLogical_physicalPath e.userId shaped]
  cases hidden : isHiddenStoragePath logical with
  | true => cases allowed : policy.allows logical <;> simp [Option.filter,hidden,allowed]
  | false => simp [Option.filter,hidden,other,parent]

/-- The entry of a listed directory for itself. -/
def selfEntry (e : Engine) (path : Text) : Text := if path = ['/'] then e.userId else e.getPhysicalPath path

theorem translatePath_user : e.translatePath e.userId = ['/'] := by
  have longer : Text.stripPrefix (e.userId ++ ['/']) e.userId = none := by
    cases found : Text.stripPrefix (e.userId ++ ['/']) e.userId with
    | none => rfl
    | some rest =>
      have split := congrArg List.length (Text.stripPrefix_some found)
      simp at split
  rw [translatePath,withSlashes_plain e.portableUser,longer]
  exact if_pos (.inl rfl)

/-- The engine skips the directory itself; the cache makes a row of it. -/
theorem self_agrees_iff (valid : path = ['/'] ∨ FileShaped path) :
    e.EntryAgrees policy path (e.selfEntry path) ↔ policy.allows path = false := by
  have translated : e.translatePath (e.selfEntry path) = path := by
    rcases valid with rfl | shaped
    · exact translatePath_user
    · rw [selfEntry,if_neg fun root => by subst root; exact shaped.2.2.1 rfl]
      exact translatePath_physicalPath e shaped
  have logical : physicalToLogicalPath e.userId (e.selfEntry path) = some path := by
    rcases valid with rfl | shaped
    · exact if_pos rfl
    · rw [selfEntry,if_neg fun root => by subst root; exact shaped.2.2.1 rfl]
      exact physicalToLogical_physicalPath e.userId shaped
  rw [EntryAgrees,internalPath,cachePath,translated,logical]
  cases allowed : policy.allows path <;> simp [Option.filter,allowed]

instance (physical : Text) : Decidable (e.EntryAgrees policy path physical) :=
  inferInstanceAs (Decidable (_ = _))

/-- The two syncs of a directory agree exactly when they read every listed
entry the same way, and below a protected root when the cache has nothing to
write and nothing to delete. Of the directory's own entry and of its children
it is said when they are read the same way. -/
theorem syncs_agree_iff (unique : Index.UniquePaths rows) (valid : path = ['/'] ∨ FileShaped path)
    {protection : Option ProtectedPathPlan} :
    (SyncsAgree e.userId policy rows (e.internalSync path stamp syncStart firstId entries rows protection)
        (e.cacheSync policy path stamp syncStart firstId' entries rows) ↔
      (protection = none ∧ ∀ entry ∈ entries, e.EntryAgrees policy path entry.1) ∨
        (protection ≠ none ∧ (∀ entry ∈ entries, e.cachePath policy entry.1 = none) ∧
          ∀ row ∈ rows, row.userId = e.userId → policy.allows row.path = true → row.parentPath = path →
            syncStart ≤ row.rowUpdatedAt)) ∧
      (e.EntryAgrees policy path (e.selfEntry path) ↔ policy.allows path = false) ∧
      ∀ logical, FileShaped logical → parentOf logical = path →
        (e.EntryAgrees policy path (e.getPhysicalPath logical) ↔
          (isHiddenStoragePath logical = true → policy.allows logical = false)) := by
  refine ⟨?_,self_agrees_iff valid,fun logical shaped parent => child_agrees_iff shaped parent⟩
  cases protection with
  | none => simpa using syncs_agree_unprotected unique
  | some plan => simpa using syncs_agree_protected unique plan

/-- A policy that excludes no extension. -/
def openPolicy : CachePathPolicy := CachePathPolicy.new false []

/-- The syncs of a directory with one file agree. -/
theorem syncs_agree_on_file : SyncsAgree "u".toList openPolicy []
    (plainEngine.internalSync "/d".toList 20 19 0 [("u/d/a".toList,⟨false,1⟩)] [] none)
    (plainEngine.cacheSync openPolicy "/d".toList 20 19 5 [("u/d/a".toList,⟨false,1⟩)] []) := by
  have empty : Index.UniquePaths [] := List.nodup_nil
  exact (syncs_agree_iff (e := plainEngine) empty (.inr (by decide))).1.mpr (.inl ⟨rfl,by decide +kernel⟩)

theorem disagree_of_upsert {userId : Text} {first second : SyncEffect} (key : SyncKey)
    (allowed : policy.allows key.path = true) (absent : key ∉ first.chunk.map syncKey)
    (upserted : key ∈ second.chunk.map syncKey) : ¬SyncsAgree userId policy rows first second :=
  fun agree => absent ((agree.upserts key allowed).mpr upserted)

/-- On a listing that has the directory itself the cache upserts a row of the
directory as its own child, and on hidden entries of the root it upserts their
rows; the engine does neither. -/
theorem syncs_disagree :
    ¬SyncsAgree "u".toList openPolicy []
        (plainEngine.internalSync "/d".toList 20 19 0 [("u/d".toList,⟨true,0⟩)] [] none)
        (plainEngine.cacheSync openPolicy "/d".toList 20 19 0 [("u/d".toList,⟨true,0⟩)] []) ∧
      ¬SyncsAgree "u".toList openPolicy []
        (plainEngine.internalSync ['/'] 20 19 0 [("u/.protected".toList,⟨true,0⟩)] [] none)
        (plainEngine.cacheSync openPolicy ['/'] 20 19 0 [("u/.protected".toList,⟨true,0⟩)] []) ∧
      ¬SyncsAgree "u".toList openPolicy []
        (plainEngine.internalSync ['/'] 20 19 0 [("u/.fileuni-thumbnail".toList,⟨true,0⟩)] [] none)
        (plainEngine.cacheSync openPolicy ['/'] 20 19 0 [("u/.fileuni-thumbnail".toList,⟨true,0⟩)] []) := by
  refine ⟨disagree_of_upsert
      ⟨"/d".toList,"/d".toList,"d".toList,true,0,some "main".toList,some "u/d".toList⟩ ?_ ?_ ?_,
    disagree_of_upsert
      ⟨"/.protected".toList,['/'],".protected".toList,true,0,some "main".toList,
        some "u/.protected".toList⟩ ?_ ?_ ?_,
    disagree_of_upsert
      ⟨"/.fileuni-thumbnail".toList,['/'],".fileuni-thumbnail".toList,true,0,some "main".toList,
        some "u/.fileuni-thumbnail".toList⟩ ?_ ?_ ?_⟩
  all_goals decide +kernel

end Engine
end StorageHub.Scoped
