import StorageHub.Scoped.Sandbox
import StorageHub.Scoped.Listing
import StorageHub.Scoped.MoveIndex

/-! Pending writes in the listings of their directory. -/
namespace StorageHub.Scoped
open Library WriteCache Protected Vfs Effect Paths

/-! ### Parents, logical and physical -/

/-- A path up to its last slash, and its parent. -/
theorem fileShaped_upTo {path : Text} (shaped : FileShaped path) :
    ∃ init, path.rdropWhile (· != '/') = init ++ ['/'] ∧
      parentOf path = if init = [] then ['/'] else init := by
  obtain ⟨rest,rfl,-⟩ := fileShaped_cons shaped
  have ends : ('/'::rest).rdropWhile (· != '/') ≠ [] := by
    intro gone
    have all := List.rdropWhile_eq_nil_iff.mp gone '/' List.mem_cons_self
    simp at all
  have slash : (('/'::rest).rdropWhile (· != '/')).getLast ends = '/' := by
    have stops := List.rdropWhile_last_not (· != '/') ('/'::rest) ends
    simpa using stops
  have whole := List.dropLast_append_getLast ends
  rw [slash] at whole
  have split : Text.rsplitOnce '/' ('/'::rest) =
      some ((('/'::rest).rdropWhile (· != '/')).dropLast,Text.afterLast '/' ('/'::rest)) :=
    if_pos List.mem_cons_self
  refine ⟨(('/'::rest).rdropWhile (· != '/')).dropLast,whole.symm,?_⟩
  rw [parentOf,split]

theorem fileShaped_split {path dir : Text} (shaped : FileShaped path) (parent : parentOf path = dir)
    (nested : dir ≠ ['/']) : path.rdropWhile (· != '/') = dir ++ ['/'] := by
  obtain ⟨init,upTo,above⟩ := fileShaped_upTo shaped
  rw [parent] at above
  by_cases top : init = []
  · rw [if_pos top] at above
    exact absurd above nested
  · rw [if_neg top] at above
    rw [upTo,above]

theorem fileShaped_top {path : Text} (shaped : FileShaped path) (parent : parentOf path = ['/']) :
    path.rdropWhile (· != '/') = ['/'] := by
  obtain ⟨init,upTo,above⟩ := fileShaped_upTo shaped
  rw [parent] at above
  by_cases top : init = []
  · rw [upTo,top]
    rfl
  · -- a parent that is a slash of its own would make the path start with two
    rw [if_neg top] at above
    have start : ['/','/'] <+: path := by
      have pre := List.rdropWhile_prefix (· != '/') path
      rw [upTo,← above] at pre
      exact pre
    obtain ⟨rest,rfl⟩ := start
    exact absurd rfl shaped.2.1

/-- The cache files a write under the physical path of its directory. -/
theorem parentPath_physicalPath (userId : Text) {path dir : Text} (shaped : FileShaped path)
    (shaped' : FileShaped dir) (parent : parentOf path = dir) :
    parentPath (physicalPath userId path) = physicalPath userId dir := by
  have nested : dir ≠ ['/'] := by
    intro root
    rw [root] at shaped'
    revert shaped'
    decide
  have split := fileShaped_split shaped parent nested
  have slash : '/' ∈ path := by
    obtain ⟨rest,rfl,-⟩ := fileShaped_cons shaped
    exact List.mem_cons_self
  have nonempty : path ≠ [] := List.ne_nil_of_mem slash
  have nonempty' : dir ≠ [] := by
    rintro rfl
    cases shaped'.1
  have last : (userId ++ path).getLast? ≠ some '/' := by
    rw [List.getLast?_append_of_ne_nil _ nonempty]
    exact shaped.2.2.1
  have last' : (userId ++ dir).getLast? ≠ some '/' := by
    rw [List.getLast?_append_of_ne_nil _ nonempty']
    exact shaped'.2.2.1
  have above : stdParent (userId ++ path) = some (userId ++ dir) := by
    unfold stdParent
    dsimp only
    have upTo : (userId ++ path).rdropWhile (· != '/') = (userId ++ dir) ++ ['/'] := by
      rw [Text.rdropWhile_append userId slash,split,List.append_assoc]
    have trimmed : Text.trimEnd '/' ((userId ++ dir) ++ ['/']) = userId ++ dir := by
      rw [Text.trimEnd,List.rdropWhile_concat_pos _ _ _ (by simp)]
      exact trimEnd_plain last'
    rw [trimEnd_plain last,upTo,trimmed,if_neg (by simp [nonempty]),if_neg (by simp [nonempty'])]
  rw [physicalPath_fileShaped userId shaped,physicalPath_fileShaped userId shaped',parentPath,above]
  cases dir with
  | nil => exact absurd rfl nonempty'
  | cons c rest =>
    cases userId with
    | nil => rfl
    | cons d tail => rfl

/-- A parent other than the root is a part of its path. -/
theorem parentPath_startsWith {path : Text} (nested : parentPath path ≠ ['/']) :
    parentPath path <+: path ∧ parentPath path ≠ [] := by
  unfold parentPath stdParent at nested ⊢
  dsimp only at nested ⊢
  split at nested
  · exact absurd rfl nested
  · rename_i parent given found
    refine ⟨?_,given⟩
    split at found
    · cases found
    · split at found
      · exact absurd (Option.some.inj found).symm nested
      · rw [← Option.some.inj found]
        exact (List.rdropWhile_prefix _ _).trans
          ((List.rdropWhile_prefix _ _).trans (List.rdropWhile_prefix _ _))
  · exact absurd rfl nested

/-- A file below a directory that is not the root is not filed under the root. -/
theorem parentPath_below {c : Char} {path : Text} (other : c ≠ '/') (slash : '/' ∈ path)
    (plain : path.getLast? ≠ some '/') : parentPath (c::path) ≠ ['/'] := by
  have nonempty : path ≠ [] := List.ne_nil_of_mem slash
  have last : (c::path).getLast? ≠ some '/' := by
    rw [← List.singleton_append,List.getLast?_append_of_ne_nil _ nonempty]
    exact plain
  have upTo : (c::path).rdropWhile (· != '/') = c::path.rdropWhile (· != '/') :=
    Text.rdropWhile_append [c] slash
  obtain ⟨rest,ends⟩ := trimEnd_cons other (path.rdropWhile (· != '/'))
  have above : stdParent (c::path) = some (c::rest) := by
    unfold stdParent
    dsimp only
    rw [trimEnd_plain last,upTo,ends,if_neg (List.cons_ne_nil c path),
      if_neg fun both => List.cons_ne_nil c rest both.1]
  rw [parentPath,above]
  intro same
  exact other (List.cons.inj same).1

/-- The key a write is filed under tells whose it is. -/
theorem user_of_parent {target : CacheTarget} {userId dir : Text} (plain : '/' ∉ userId)
    (valid : dir = ['/'] ∨ FileShaped dir) (top : dir = ['/'] → userId = [])
    (same : parentPath target.path = physicalPath userId dir) : target.userId = userId := by
  obtain ⟨rest,split,head,-⟩ := fileShaped_cons target.shaped
  have path : target.path = target.userId ++ '/'::rest := by
    rw [CacheTarget.path,split,physicalPath_cons target.userId head]
  rcases valid with rfl | shaped
  · rw [top rfl] at same ⊢
    cases owner : target.userId with
    | nil => rfl
    | cons c tail =>
      have plain' := target.plainUser
      rw [owner,List.mem_cons,not_or] at plain'
      rw [path,owner,List.cons_append] at same
      refine absurd same (parentPath_below (fun slash => plain'.1 slash.symm) (by simp) ?_)
      rw [List.getLast?_append_of_ne_nil _ (List.cons_ne_nil '/' rest),← split]
      exact target.shaped.2.2.1
  · obtain ⟨below,split',-,init,last,ends,-⟩ := fileShaped_cons shaped
    have nested : parentPath target.path ≠ ['/'] := by
      rw [same,physicalPath_fileShaped userId shaped,split',ends]
      intro short
      have length := congrArg List.length short
      simp at length
      omega
    obtain ⟨tail,whole⟩ := (parentPath_startsWith nested).1
    rw [same,physicalPath_fileShaped userId shaped,split',path,List.append_assoc,
      List.cons_append] at whole
    exact (Text.before_separator plain target.plainUser whole).symm

/-- Without a user directory the files of the root are filed under the root. -/
theorem parentPath_top {path : Text} (shaped : FileShaped path) (parent : parentOf path = ['/']) :
    parentPath path = ['/'] := by
  have nonempty : path ≠ [] := by
    rintro rfl
    cases shaped.1
  have above : stdParent path = some ['/'] := by
    unfold stdParent
    dsimp only
    rw [trimEnd_plain shaped.2.2.1,fileShaped_top shaped parent,if_neg nonempty]
    rfl
  rw [parentPath,above]

/-- No parent ends in a slash but the root. -/
theorem parentPath_last (path : Text) : parentPath path = ['/'] ∨ (parentPath path).getLast? ≠ some '/' := by
  unfold parentPath stdParent
  dsimp only
  split
  · exact .inl rfl
  · rename_i parent _ found
    split at found
    · cases found
    · split at found
      · exact .inl (Option.some.inj found).symm
      · right
        rw [← Option.some.inj found]
        exact trimEnd_last _
  · exact .inl rfl

theorem lastSegment_physicalPath (userId : Text) {path : Text} (shaped : FileShaped path) :
    lastSegment (physicalPath userId path) = lastSegment path := by
  obtain ⟨rest,rfl,head,-⟩ := fileShaped_cons shaped
  rw [physicalPath_cons userId head]
  exact lastSegment_append List.mem_cons_self

/-! ### What listings should show -/

/-- The writes a cache holds, each entry under its physical path. -/
structure PendingWrites where
  entries : Store Text RecordId
  records : Store RecordId PendingWriteRecord
  filed : ∀ path r, entries.lookup path = some r →
    ∃ record, records.lookup r = some record ∧ record.target.path = path

namespace PendingWrites
variable (p : PendingWrites)

/-- The cache holds these writes; the rest of the world is free. -/
def HeldIn (w : World) : Prop := w.shared.entries = p.entries ∧ w.shared.records = p.records

def Holds (record : PendingWriteRecord) : Prop :=
  ∃ r, p.entries.lookup record.target.path = some r ∧ p.records.lookup r = some record

/-- A pending file of the user directly in a directory. -/
def ChildOf (userId dir : Text) (record : PendingWriteRecord) : Prop :=
  p.Holds record ∧ record.target.userId = userId ∧ parentOf record.target.logicalPath = dir

/-- A pending file of the user at any depth below a directory. -/
def Below (userId dir : Text) (record : PendingWriteRecord) : Prop :=
  p.Holds record ∧ record.target.userId = userId ∧
    (dir = ['/'] ∨ Text.below dir record.target.logicalPath = true)

end PendingWrites

/-- A pending file as a listing shows it. -/
def pendingInfo (record : PendingWriteRecord) : VfsFileInfo :=
  fileInfo record.target.logicalPath ⟨false,record.inner.size⟩

/-- One entry of the listing has the path of the file, with its pending size. -/
def ShownOnce (listing : List VfsFileInfo) (record : PendingWriteRecord) : Prop :=
  listing.filter (fun info => info.path == record.target.logicalPath) = [pendingInfo record]

/-- A page, with the length of the listing it is a page of, which shows the
file once. -/
def PageShows (page pageSize : Int) (result : List VfsFileInfo × Int) (record : PendingWriteRecord) :
    Prop :=
  ∃ all, result = (pageOf page pageSize all,(all.length : Int)) ∧ ShownOnce all record

/-- Every listing of a directory shows the pending files directly in it,
whatever else there is. -/
structure Engine.ListsPending (e : Engine) (config : ListConfig) (p : PendingWrites) (dir : Text) :
    Prop where
  listed : Ensures p.HeldIn (e.listImpl config dir) fun listing _ =>
    ∀ record, p.ChildOf e.userId dir record → ShownOnce listing record
  streamed : Ensures p.HeldIn (e.listStreamImpl config dir) fun listing _ =>
    ∀ record, p.ChildOf e.userId dir record → ShownOnce listing record
  paginated : ∀ page pageSize, Ensures p.HeldIn (e.listFilesPaginatedImpl config dir page pageSize)
    fun result _ => ∀ record, p.ChildOf e.userId dir record → PageShows page pageSize result record
  sorted : ∀ params, Ensures p.HeldIn (e.listFilesPaginatedWithSortImpl config dir params)
    fun result _ => ∀ record, p.ChildOf e.userId dir record →
      Engine.matchesKeyword config params (pendingInfo record) = true →
        PageShows params.page params.pageSize result record

def Engine.ListsPendingBelow (e : Engine) (p : PendingWrites) (dir : Text) : Prop :=
  Ensures p.HeldIn (e.listRecursiveImpl dir) fun listing _ =>
    ∀ record, p.Below e.userId dir record → ∃ info ∈ listing, info.path = record.target.logicalPath

/-- A directory whose listing merges pending writes under the key they are
filed by: neither a temporary nor a protected one, nor the root. -/
def Engine.MergesPending (e : Engine) (dir : Text) : Prop :=
  isTempPath dir = false ∧ e.Unprotected dir ∧ (dir = ['/'] → e.userId = [])

/-! ### The caches a manager reaches -/

/-- Every entry leads to a record for its path, and records are never
renumbered. -/
structure Filed (s : Shared) : Prop where
  numbered : ∀ r, s.nextRecord ≤ r → s.records.lookup r = none
  entry : ∀ path r, s.entries.lookup path = some r →
    ∃ record, s.records.lookup r = some record ∧ record.target.path = path

section filing
variable {m : WriteCacheManager} {s s' : Shared} {env : Env}

theorem Filed.congr (filed : Filed s) (entries : s'.entries = s.entries)
    (records : s'.records = s.records) (next : s'.nextRecord = s.nextRecord) : Filed s' := by
  obtain ⟨numbered,entry⟩ := filed
  constructor
  · rw [records,next]
    exact numbered
  · rw [entries,records]
    exact entry

theorem Filed.setInner (filed : Filed s) (r : RecordId) (inner : PendingWriteMutable) :
    Filed (s.setInner r inner) := by
  cases known : s.records.lookup r with
  | none => exact filed.congr rfl (by simp [Shared.setInner,known]) rfl
  | some record =>
    have records : (s.setInner r inner).records = s.records.insert r { record with inner } := by
      simp [Shared.setInner,known]
    constructor
    · intro other beyond
      rw [records,Store.lookup_insert_eq]
      split
      next same =>
        rw [← same,filed.numbered other beyond] at known
        cases known
      next => exact filed.numbered other beyond
    · intro path other found
      obtain ⟨old,there,here⟩ := filed.entry path other found
      rw [records,Store.lookup_insert_eq]
      split
      next same =>
        rw [same,known] at there
        cases there
        exact ⟨_,rfl,here⟩
      next => exact ⟨old,there,here⟩

theorem Filed.insertRecord (filed : Filed s) (record : PendingWriteRecord) :
    Filed (s.insertRecord record) := by
  constructor
  · intro r beyond
    have later : s.nextRecord < r := beyond
    change (s.records.insert s.nextRecord record).lookup r = none
    rw [Store.lookup_insert_eq,if_neg later.ne']
    exact filed.numbered r later.le
  · intro path r found
    change (s.entries.insert record.target.path s.nextRecord).lookup path = some r at found
    change ∃ known, (s.records.insert s.nextRecord record).lookup r = some known ∧ _
    rw [Store.lookup_insert_eq] at found
    split at found
    next same =>
      cases found
      exact ⟨record,AList.lookup_insert _,same.symm⟩
    next =>
      obtain ⟨known,there,here⟩ := filed.entry path r found
      have fresh : r ≠ s.nextRecord := by
        intro same
        rw [same,filed.numbered _ le_rfl] at there
        cases there
      exact ⟨known,by rw [AList.lookup_insert_ne fresh,there],here⟩

theorem Filed.erase (filed : Filed s) (path : Text) : Filed { s with entries := s.entries.erase path } := by
  refine ⟨filed.numbered,fun other r found => ?_⟩
  change (s.entries.erase path).lookup other = some r at found
  rw [Store.lookup_erase_eq] at found
  split at found
  next => cases found
  next => exact filed.entry other r found

theorem enqueueStep_pending {tick : Nat} {e e' : EnqueueTask} (filed : Filed s)
    (stepped : enqueueStep m tick env s e = some (s',e')) : Filed s' := by
  unfold enqueueStep at stepped
  repeat' split at stepped
  all_goals cases stepped
  all_goals first
    | exact filed.congr rfl rfl rfl
    | exact filed.setInner _ _
    | exact (filed.setInner _ _).congr rfl rfl rfl
    | exact filed.insertRecord _

theorem flushStep_pending {f : FlushTask} {phase : FlushPhase} (filed : Filed s)
    (stepped : flushStep m env s f = some (s',phase)) : Filed s' := by
  have removed (blob : PendingWriteBlob) (accountedBytes : Nat) :
      Filed { s.removeBlobFiles env blob with accountedBytes } := by
    cases blob <;> exact filed.congr rfl rfl rfl
  unfold flushStep at stepped
  repeat' split at stepped
  all_goals cases stepped
  all_goals first
    | exact filed.congr rfl rfl rfl
    | exact filed.setInner _ _
    | exact (filed.setInner _ _).congr rfl rfl rfl
    | exact filed.erase _
    | exact removed _ _

theorem quotaStep_pending {q : QuotaTask} {phase : QuotaPhase} (filed : Filed s)
    (stepped : quotaStep m env s q = some (s',phase)) : Filed s' := by
  unfold quotaStep at stepped
  repeat' split at stepped
  all_goals cases stepped
  all_goals exact filed.congr rfl rfl rfl

end filing

theorem cacheStep_pending {m : WriteCacheManager} {s s' : State} {action : Action}
    (filed : Filed s.shared) (stepped : cacheStep m s action = some s') : Filed s'.shared := by
  rcases cacheStep_cases stepped with ⟨_,_,_,rfl⟩ | ⟨_,_,_,_,_,rfl⟩ | ⟨_,_,_,_,rfl⟩ |
    ⟨t,env,task,shared,task',-,found,made,rfl⟩ | ⟨_,_,rfl⟩
  · exact filed
  · exact filed
  · exact filed.congr rfl rfl rfl
  · cases task with
    | enqueue e =>
      obtain ⟨out,ran,same⟩ := Option.map_eq_some_iff.mp made
      cases same
      exact enqueueStep_pending filed ran
    | flush f =>
      obtain ⟨out,ran,same⟩ := Option.map_eq_some_iff.mp made
      cases same
      exact flushStep_pending filed ran
    | quotaSync q =>
      obtain ⟨out,ran,same⟩ := Option.map_eq_some_iff.mp made
      cases same
      exact quotaStep_pending filed ran
  · exact filed.congr rfl rfl rfl

/-- The pending writes of any state a manager reaches. -/
theorem reached_pending {m : WriteCacheManager} {primary : Store Text Bytes} {actions : List Action}
    {s : State} (run : (cache m).Run (fun _ _ => True) (State.fresh primary) actions s) :
    ∃ p : PendingWrites, p.entries = s.shared.entries ∧ p.records = s.shared.records := by
  have start : Filed (State.fresh primary).shared :=
    ⟨fun _ _ => AList.lookup_empty _,fun _ _ found => by cases found⟩
  have filed := run.invariant (I := fun s => Filed s.shared)
    (fun _ _ _ filed _ stepped => cacheStep_pending filed stepped) start
  exact ⟨⟨s.shared.entries,s.shared.records,filed.entry⟩,rfl,rfl⟩

/-! ### Merging -/

section merging
variable {config : ListConfig} {results pending : List VfsFileInfo} {record : PendingWriteRecord}

theorem lookup_mergeEntries (entries : List VfsFileInfo) (path : Text) :
    (Engine.mergeEntries entries).lookup path =
      entries.reverse.find? fun info => info.path == path := by
  have inserted := Store.lookup_foldl_insert VfsFileInfo.path entries ∅ path
  rw [AList.lookup_empty,Option.or_none] at inserted
  exact inserted

theorem mergeEntries_filed {entries : List VfsFileInfo} {path : Text} {info : VfsFileInfo}
    (here : (Engine.mergeEntries entries).lookup path = some info) : info.path = path := by
  rw [lookup_mergeEntries] at here
  have same := List.find?_some here
  exact beq_iff_eq.mp same

/-- A merged listing shows a pending file once, when no other pending file has
its path. -/
theorem shownOnce_merged (member : pendingInfo record ∈ pending)
    (only : ∀ info ∈ pending, info.path = record.target.logicalPath → info = pendingInfo record) :
    ShownOnce ((config.shuffle ((Engine.mergeEntries (results ++ pending)).entries.map (·.2))).mergeSort
      nameLe) record := by
  have found : (Engine.mergeEntries (results ++ pending)).lookup record.target.logicalPath =
      some (pendingInfo record) := by
    rw [lookup_mergeEntries,List.reverse_append,List.find?_append]
    cases last : pending.reverse.find? fun info => info.path == record.target.logicalPath with
    | none =>
      have absent := List.find?_eq_none.mp last _ (List.mem_reverse.mpr member)
      simp [pendingInfo,fileInfo] at absent
    | some info =>
      have here := List.find?_some last
      have inside := List.mem_reverse.mp (List.mem_of_find?_eq_some last)
      rw [only info inside (beq_iff_eq.mp here)]
      rfl
  have filed (k : Text) (v : VfsFileInfo)
      (here : (Engine.mergeEntries (results ++ pending)).lookup k = some v) : v.path = k := mergeEntries_filed here
  have one := Store.filter_values filed record.target.logicalPath
  rw [found] at one
  have order := (List.mergeSort_perm (config.shuffle _) nameLe).trans (config.shuffled
    ((Engine.mergeEntries (results ++ pending)).entries.map (·.2)))
  have kept := order.filter fun info => info.path == record.target.logicalPath
  rw [one] at kept
  exact List.perm_singleton.mp kept

end merging

/-! ### The children the cache names -/

section children
variable {e : Engine} {p : PendingWrites} {w : World} {dir : Text} {record : PendingWriteRecord}

theorem child_physical_parent (valid : dir = ['/'] ∨ FileShaped dir) (merges : e.MergesPending dir)
    (child : p.ChildOf e.userId dir record) :
    parentPath record.target.path = e.getPhysicalPath dir := by
  obtain ⟨-,owner,parent⟩ := child
  rw [CacheTarget.path,owner,Engine.getPhysicalPath]
  rcases valid with rfl | shaped
  · rw [merges.2.2 rfl,physicalPath_fileShaped [] record.target.shaped,List.nil_append,
      parentPath_top record.target.shaped parent]
    rfl
  · exact parentPath_physicalPath e.userId record.target.shaped shaped parent

/-- Without a merge the root's children are looked for under a key that none is
filed by. -/
theorem no_children_of_root (named : e.userId ≠ []) : e.poolPendingChildren (e.getPhysicalPath ['/']) w = [] := by
  have key : e.getPhysicalPath ['/'] = e.userId ++ ['/'] := rfl
  rw [key,Engine.poolPendingChildren]
  cases e.writeCache with
  | none => rfl
  | some m =>
    dsimp only
    rw [List.map_eq_nil_iff,List.filter_eq_nil_iff]
    intro record _ same
    rw [beq_iff_eq] at same
    rcases parentPath_last record.target.path with top | last
    · rw [same] at top
      exact named (List.append_eq_singleton_iff.mp top |>.elim And.left fun other => by simp at other)
    · rw [same] at last
      exact last (by simp)

theorem mem_poolPendingChildren (caching : e.writeCache.isSome = true) (held : p.HeldIn w)
    {parent : Text} {info : VfsFileInfo} : info ∈ e.poolPendingChildren parent w ↔
      ∃ record, p.Holds record ∧ parentPath record.target.path = parent ∧
        info = fileInfo record.target.path ⟨false,record.inner.size⟩ := by
  obtain ⟨m,cached⟩ := Option.isSome_iff_exists.mp caching
  rw [Engine.poolPendingChildren,cached]
  dsimp only
  rw [held.1,held.2]
  constructor
  · intro member
    obtain ⟨record,inside,rfl⟩ := List.mem_map.mp member
    obtain ⟨listed,same⟩ := List.mem_filter.mp inside
    obtain ⟨cell,present,found⟩ := List.mem_filterMap.mp listed
    have entry : p.entries.lookup cell.1 = some cell.2 := AList.mem_lookup_iff.mpr present
    obtain ⟨known,there,path⟩ := p.filed cell.1 cell.2 entry
    rw [found] at there
    cases there
    exact ⟨record,⟨cell.2,by rw [path]; exact entry,found⟩,beq_iff_eq.mp same,rfl⟩
  · rintro ⟨record,⟨r,entry,found⟩,same,rfl⟩
    apply List.mem_map.mpr
    refine ⟨record,List.mem_filter.mpr ⟨?_,beq_iff_eq.mpr same⟩,rfl⟩
    exact List.mem_filterMap.mpr ⟨⟨record.target.path,r⟩,AList.mem_lookup_iff.mp entry,found⟩

/-- The pending entries of a merged directory hold each of its files, and no
other entry with such a file's path. -/
theorem children_listed (valid : dir = ['/'] ∨ FileShaped dir) (merges : e.MergesPending dir)
    (caching : e.writeCache.isSome = true) (held : p.HeldIn w)
    (child : p.ChildOf e.userId dir record) :
    pendingInfo record ∈ (e.poolPendingChildren (e.getPhysicalPath dir) w).map e.translateFileInfo ∧
      ∀ info ∈ (e.poolPendingChildren (e.getPhysicalPath dir) w).map e.translateFileInfo,
        info.path = record.target.logicalPath → info = pendingInfo record := by
  have shown (other : PendingWriteRecord) (owner : other.target.userId = e.userId) :
      e.translateFileInfo (fileInfo other.target.path ⟨false,other.inner.size⟩) = pendingInfo other := by
    rw [CacheTarget.path,owner,Engine.translateFileInfo,pendingInfo,fileInfo,fileInfo]
    dsimp only
    rw [translatePath_physicalPath e other.target.shaped,
      lastSegment_physicalPath e.userId other.target.shaped]
  constructor
  · apply List.mem_map.mpr
    refine ⟨_,(mem_poolPendingChildren caching held).mpr ⟨record,child.1,
      child_physical_parent valid merges child,rfl⟩,shown record child.2.1⟩
  · intro info member path
    obtain ⟨raw,inside,rfl⟩ := List.mem_map.mp member
    obtain ⟨other,holds,parent,rfl⟩ := (mem_poolPendingChildren caching held).mp inside
    have owner := user_of_parent e.plainUser valid merges.2.2 parent
    rw [shown other owner] at path ⊢
    -- one path of the user has one entry
    have same : other.target.path = record.target.path := by
      have logical : other.target.logicalPath = record.target.logicalPath := path
      rw [CacheTarget.path,CacheTarget.path,logical,owner,child.2.1]
    obtain ⟨r,entry,found⟩ := holds
    obtain ⟨r',entry',found'⟩ := child.1
    rw [same,entry'] at entry
    cases entry
    rw [found'] at found
    cases found
    rfl

end children

/-! ### Listings that merge -/

section shown
variable {e : Engine} {config : ListConfig} {p : PendingWrites} {dir : Text}

theorem poolList_readOnly (physical : Text) : ReadOnly (e.poolList physical) :=
  e.orBackup_readOnly (query_readOnly _) fun _ => query_readOnly _

theorem physicalListing_readOnly (path : Text) : ReadOnly (e.physicalListing path) :=
  (poolList_readOnly _).bind fun _ => ReadOnly.pure _

theorem indexListing_readOnly (path : Text) : ReadOnly (e.indexListing path) :=
  (query_readOnly _).bind fun _ => ReadOnly.pure _

/-- A refresh of the index leaves the pending writes alone. -/
theorem executeSyncDecision_held (path : Text) : Keeps p.HeldIn (e.executeSyncDecision config path) := by
  have refresh : Keeps p.HeldIn (e.syncIndexEntries path) := by
    apply ((e.getProtectedPlan_readOnly path).keeps _).bind
    intro plan
    split
    · exact (indexListing_readOnly path).keeps _
    · apply ((poolList_readOnly _).keeps _).bind
      intro entries
      apply Keeps.get.bind
      intro w
      apply Keeps.bind
      · exact Keeps.modify fun _ held => held
      · intro _
        exact (transact_keeps (fun _ _ _ held => held) _).bind fun _ => Keeps.pure _
  apply ((e.getProtectedPlan_readOnly path).keeps _).bind
  intro plan
  split
  · exact Keeps.pure none
  · split
    · exact Keeps.map some refresh
    · exact Keeps.pure none

theorem storedListing_held (path : Text) : Keeps p.HeldIn (e.storedListing config path) := by
  apply Keeps.get.bind
  intro w
  split
  · exact (physicalListing_readOnly path).keeps _
  · apply (executeSyncDecision_held path).bind
    intro _
    apply ((query_readOnly _).keeps _).bind
    intro rows
    split
    · exact (physicalListing_readOnly path).keeps _
    · exact Keeps.pure _

variable (caching : e.writeCache.isSome = true) (valid : dir = ['/'] ∨ FileShaped dir)
  (merges : e.MergesPending dir)
include caching valid merges

theorem pendingChildren_shows : Ensures p.HeldIn (e.pendingChildren dir) fun pending w => p.HeldIn w ∧
    ∀ record, p.ChildOf e.userId dir record → pendingInfo record ∈ pending ∧
      ∀ info ∈ pending, info.path = record.target.logicalPath → info = pendingInfo record := by
  rw [Engine.pendingChildren,merges.1,if_neg Bool.false_ne_true]
  intro w cs held
  exact ⟨held,fun record child => children_listed valid merges caching held child⟩

omit caching valid in
/-- The directory is found under no protected root. -/
theorem after_free_plan {α : Type} {k : Option ProtectedPathPlan → Vfs α} {Q : α → World → Prop}
    (then_ : Ensures p.HeldIn (k none) Q) : Ensures p.HeldIn (e.getProtectedPlan dir >>= k) Q := by
  cases resolved : e.resolveProtectedPlan with
  | error err =>
    rw [Engine.getProtectedPlan,resolved]
    exact fun _ _ _ => trivial
  | ok plan =>
    rw [Engine.getProtectedPlan_unprotected merges.2.1 resolved]
    exact then_

theorem listImpl_shows : Ensures p.HeldIn (e.listImpl config dir) fun listing _ =>
    ∀ record, p.ChildOf e.userId dir record → ShownOnce listing record := by
  rw [Engine.listImpl,merges.1,if_neg Bool.false_ne_true]
  apply after_free_plan merges
  apply ensures_after (storedListing_held dir)
  intro results
  apply Meets.bind (pendingChildren_shows caching valid merges)
  intro pending
  split
  · rename_i nothing
    apply Meets.pure
    intro w shows record child
    have member := (shows.2 record child).1
    rw [nothing] at member
    cases member
  · apply Meets.pure
    intro w shows record child
    obtain ⟨member,only⟩ := shows.2 record child
    exact shownOnce_merged member only

/-- With a pending child the listing in memory is taken; without one nothing is
to be shown. -/
theorem after_children {α : Type} {direct indexed : Vfs α} {R : α → PendingWriteRecord → Prop}
    (shows : Ensures p.HeldIn direct fun a _ => ∀ record, p.ChildOf e.userId dir record → R a record) :
    Ensures p.HeldIn
      (do
        let pending ← e.pendingChildren dir
        let w ← Effect.get
        if pending ≠ [] ∨ e.isDirtyDir (e.getPhysicalPath dir) w = true then direct else indexed)
      fun a _ => ∀ record, p.ChildOf e.userId dir record → R a record := by
  apply Meets.bind (pendingChildren_shows caching valid merges)
  intro pending w cs ⟨held,children⟩
  rw [bind_apply,get_apply]
  dsimp only
  by_cases busy : pending ≠ [] ∨ e.isDirtyDir (e.getPhysicalPath dir) w = true
  · rw [if_pos busy]
    exact shows w cs held
  · rw [if_neg busy]
    rw [not_or,not_not] at busy
    have childless (record) : ¬p.ChildOf e.userId dir record := by
      intro child
      have member := (children record child).1
      rw [busy.1] at member
      cases member
    have vacuous : Ensures p.HeldIn indexed fun a _ =>
        ∀ record, p.ChildOf e.userId dir record → R a record :=
      Ensures.of_pre fun _ _ _ _ record child => absurd child (childless record)
    exact vacuous w cs held

theorem listStreamImpl_shows : Ensures p.HeldIn (e.listStreamImpl config dir) fun listing _ =>
    ∀ record, p.ChildOf e.userId dir record → ShownOnce listing record := by
  rw [Engine.listStreamImpl,merges.1,if_neg Bool.false_ne_true]
  apply after_free_plan merges
  exact after_children caching valid merges (listImpl_shows caching valid merges)

theorem listedPage_shows (page pageSize : Int) :
    Ensures p.HeldIn (e.listedPage config dir page pageSize) fun result _ =>
      ∀ record, p.ChildOf e.userId dir record → PageShows page pageSize result record := by
  apply Meets.bind (listImpl_shows caching valid merges)
  intro all
  exact Meets.pure fun _ shown record child => ⟨all,rfl,shown record child⟩

theorem listFilesPaginatedImpl_shows (page pageSize : Int) :
    Ensures p.HeldIn (e.listFilesPaginatedImpl config dir page pageSize) fun result _ =>
      ∀ record, p.ChildOf e.userId dir record → PageShows page pageSize result record := by
  apply after_free_plan merges
  exact after_children caching valid merges (listedPage_shows caching valid merges page pageSize)

omit caching valid merges in
/-- Filtering by keyword and sorting keep what matches. -/
theorem shownOnce_sorted {all : List VfsFileInfo} {params : VfsPaginationParams}
    {record : PendingWriteRecord} (shown : ShownOnce all record)
    (found : Engine.matchesKeyword config params (pendingInfo record) = true) :
    ShownOnce (Engine.sortedListing config params all) record := by
  have order := List.mergeSort_perm (all.filter (Engine.matchesKeyword config params)) fun a b =>
    ((compare b.isDir a.isDir).then (Engine.descending params (Engine.sortedBy config params a b))).isLE
  have kept := order.filter fun info => info.path == record.target.logicalPath
  have same : (all.filter (Engine.matchesKeyword config params)).filter
      (fun info => info.path == record.target.logicalPath) = [pendingInfo record] := by
    rw [List.filter_comm,shown,List.filter_cons_of_pos found]
    rfl
  rw [same] at kept
  exact List.perm_singleton.mp kept

theorem listFilesPaginatedWithSortImpl_shows (params : VfsPaginationParams) :
    Ensures p.HeldIn (e.listFilesPaginatedWithSortImpl config dir params) fun result _ =>
      ∀ record, p.ChildOf e.userId dir record →
        Engine.matchesKeyword config params (pendingInfo record) = true →
          PageShows params.page params.pageSize result record := by
  apply after_free_plan merges
  apply after_children caching valid merges
  apply Meets.bind (listImpl_shows caching valid merges)
  intro all
  apply Meets.pure
  intro _ shown record child found
  exact ⟨Engine.sortedListing config params all,rfl,shownOnce_sorted (shown record child) found⟩

end shown

/-! ### Nothing but the pending writes -/

section alone
variable {e : Engine} {config : ListConfig} {p : PendingWrites} {dir : Text}
  {plan : Option ProtectedPathPlan}

/-- The pending writes with an empty index over empty storage. -/
def PendingWrites.alone (p : PendingWrites) (dir : Text) : World :=
  let w := worldOf [] [] []
  { w with
    shared := { w.shared with entries := p.entries, records := p.records }
    temp := ⟨∅,(∅ : Store Text Unit).insert (tempPath dir) ()⟩ }

theorem alone_held : p.HeldIn (p.alone dir) := ⟨rfl,rfl⟩

theorem isChild_self (path : Text) : Disk.isChild path path = false := by
  have longer : Text.stripPrefix (path ++ ['/']) path = none := by
    cases found : Text.stripPrefix (path ++ ['/']) path with
    | none => rfl
    | some rest =>
      have split := congrArg List.length (Text.stripPrefix_some found)
      simp at split
  rw [Disk.isChild,longer]

theorem tempList_alone : Engine.tempList dir (p.alone dir) [] = .done [] (p.alone dir) [] := by
  have known : ((p.alone dir).temp.dirs.lookup (tempPath dir)).isSome = true := by
    change (((∅ : Store Text Unit).insert (tempPath dir) ()).lookup (tempPath dir)).isSome = true
    rw [AList.lookup_insert]
    rfl
  have children : (p.alone dir).temp.listChildren (tempPath dir) = [] := by
    have cells : (p.alone dir).temp.dirs.entries = [⟨tempPath dir,()⟩] := rfl
    have files : (p.alone dir).temp.files.entries = [] := rfl
    rw [Disk.listChildren,Disk.entriesWhere,cells,files]
    simp [isChild_self]
  rw [Engine.tempList,call_run,known,children]
  rfl

theorem poolList_run (w : World) (physical : Text) : e.poolList physical w [] =
    .done (w.primary.listChildren (normalizeEntryPath physical)) w [] := rfl

theorem transact_run {f : Int → Index → Except IndexError Index} {w : World} {index : Index}
    (made : f 0 w.index = .ok index) : transact f w [] = .done () { w with index } [] := by
  have now : (default : EngineEnv).now = 0 := rfl
  refine (bind_run (a := none) (call_ok ?_)).trans rfl
  simp only [now,made]

theorem indexListing_empty {w : World} (empty : w.index = []) (path : Text) :
    e.indexListing path w [] = .done [] w [] := by
  rw [Engine.indexListing,bind_run (query_run _ _),empty]
  rfl

theorem listChildren_empty {w : World} (empty : w.primary = Disk.empty) (path : Text) :
    w.primary.listChildren path = [] := by
  rw [empty]
  rfl

theorem physicalListing_empty {w : World} (empty : w.primary = Disk.empty) (path : Text) :
    e.physicalListing path w [] = .done [] w [] := by
  rw [Engine.physicalListing,bind_run (poolList_run w _),listChildren_empty empty]
  rfl

/-- Nothing but the number of the next row may differ from a world without
rows. -/
theorem syncIndexEntries_empty (resolved : e.resolveProtectedPlan = .ok plan) {w : World}
    (disk : w.primary = Disk.empty) (rows : w.index = []) (path : Text) :
    e.syncIndexEntries path w [] = .done [] w [] := by
  rw [Engine.syncIndexEntries,bind_run (e.getProtectedPlan_run w path [] resolved)]
  cases plan.filter fun plan => plan.matchesPath path with
  | some plan => exact indexListing_empty rows path
  | none =>
    dsimp only
    rw [bind_run (poolList_run w _),listChildren_empty disk]
    have numbered : { w with nextUuid := w.nextUuid + ([] : List (Text × Metadata)).length } = w := rfl
    rw [bind_run (get_apply _ _),bind_run (modify_apply _ _ _),numbered]
    have pruned : (Except.ok (Index.pruneDirectory e.userId path (0 - 1)
        ((e.syncRows path 0 w.nextUuid []).foldl (fun rows row => Index.upsertSynced row rows) w.index)) :
          Except IndexError Index) = .ok [] := by rw [rows]; rfl
    have same : { w with index := [] } = w := by rw [← rows]
    rw [bind_run (transact_run pruned),same,List.map_nil,List.filter_nil,List.mergeSort_nil]
    rfl

theorem executeSyncDecision_empty (resolved : e.resolveProtectedPlan = .ok plan) {w : World}
    (disk : w.primary = Disk.empty) (rows : w.index = []) (path : Text) :
    ∃ fresh, e.executeSyncDecision config path w [] = .done fresh w [] := by
  rw [Engine.executeSyncDecision,bind_run (e.getProtectedPlan_run w path [] resolved)]
  cases plan.filter fun plan => plan.matchesPath path with
  | some plan => exact ⟨none,rfl⟩
  | none =>
    dsimp only
    split
    · exact ⟨some [],bind_run (syncIndexEntries_empty resolved disk rows path)⟩
    · exact ⟨none,rfl⟩

/-- A listing that does not merge shows nothing of pending writes that are all
there is. -/
theorem listImpl_alone (resolved : e.resolveProtectedPlan = .ok plan) (apart : ¬e.MergesPending dir) :
    e.listImpl config dir (p.alone dir) [] = .done [] (p.alone dir) [] := by
  rw [Engine.listImpl]
  by_cases temp : isTempPath dir = true
  · rw [if_pos temp]
    exact tempList_alone
  rw [if_neg temp,bind_run (e.getProtectedPlan_run _ dir [] resolved)]
  cases kept : plan.filter fun plan => plan.matchesPath dir with
  | some found => exact indexListing_empty rfl dir
  | none =>
    -- neither temporary nor protected, it is the root
    have free : e.Unprotected dir := by
      intro found there
      rw [resolved] at there
      cases there
      rw [Option.filter_eq_none_iff] at kept
      exact Bool.eq_false_iff.mpr (kept found rfl)
    have top : ¬(dir = ['/'] → e.userId = []) := fun named =>
      apart ⟨Bool.eq_false_iff.mpr temp,free,named⟩
    rw [Classical.not_imp] at top
    obtain ⟨rfl,named⟩ := top
    have clean : e.isDirtyDir (e.getPhysicalPath ['/']) (p.alone ['/']) = false := by
      rw [Engine.isDirtyDir]
      exact Bool.and_false _
    obtain ⟨fresh,refreshed⟩ : ∃ fresh, e.executeSyncDecision config ['/'] (p.alone ['/']) [] =
        .done fresh (p.alone ['/']) [] := executeSyncDecision_empty resolved rfl rfl ['/']
    have stored : e.storedListing config ['/'] (p.alone ['/']) [] = .done [] (p.alone ['/']) [] := by
      rw [Engine.storedListing,bind_run (get_apply _ _),clean,if_neg Bool.false_ne_true,bind_run refreshed,
        bind_run (query_run _ _)]
      exact physicalListing_empty rfl _
    have children : e.pendingChildren ['/'] (p.alone ['/']) [] = .done [] (p.alone ['/']) [] := by
      rw [Engine.pendingChildren,if_neg temp,bind_run (get_apply _ _),no_children_of_root named]
      rfl
    dsimp only
    rw [bind_run stored,bind_run children]
    rfl

theorem listRecursiveImpl_alone (resolved : e.resolveProtectedPlan = .ok plan) :
    e.listRecursiveImpl dir (p.alone dir) [] = .done [] (p.alone dir) [] := by
  have physical : e.listRecursivePhysical dir (p.alone dir) [] = .done [] (p.alone dir) [] := rfl
  rw [Engine.listRecursiveImpl]
  split
  · exact tempList_alone
  · rw [bind_run (e.getProtectedPlan_run _ dir [] resolved)]
    cases plan.filter fun plan => plan.matchesPath dir with
    | some found => exact bind_run (query_run _ _)
    | none =>
      dsimp only
      have clean : e.isDirtyDir (e.getPhysicalPath dir) (p.alone dir) = false := by
        rw [Engine.isDirtyDir]
        exact Bool.and_false _
      rw [bind_run (get_apply _ _),clean,if_neg Bool.false_ne_true,bind_run (query_run _ _)]
      exact physical

end alone

/-- The listings of a directory show its pending files exactly when they merge
them or there are none; a recursive listing shows pending files only when there
are none. -/
theorem pending_listed_iff {e : Engine} {config : ListConfig} {p : PendingWrites} {dir : Text}
    {plan : Option ProtectedPathPlan} (caching : e.writeCache.isSome = true)
    (resolved : e.resolveProtectedPlan = .ok plan) (valid : dir = ['/'] ∨ FileShaped dir) :
    (e.ListsPending config p dir ↔ e.MergesPending dir ∨ ∀ record, ¬p.ChildOf e.userId dir record) ∧
      (e.ListsPendingBelow p dir ↔ ∀ record, ¬p.Below e.userId dir record) := by
  constructor
  · constructor
    · intro lists
      by_contra neither
      rw [not_or,not_forall] at neither
      obtain ⟨apart,record,child⟩ := neither
      rw [not_not] at child
      have shown := lists.listed.of_done alone_held (listImpl_alone resolved apart) record child
      cases shown
    · rintro (merges | childless)
      · exact ⟨listImpl_shows caching valid merges,listStreamImpl_shows caching valid merges,
          listFilesPaginatedImpl_shows caching valid merges,
          listFilesPaginatedWithSortImpl_shows caching valid merges⟩
      · refine ⟨?_,?_,fun _ _ => ?_,fun _ => ?_⟩
        all_goals exact Ensures.of_pre fun _ _ _ _ record child => absurd child (childless record)
  · constructor
    · intro lists record below
      have shown := lists.of_done alone_held (listRecursiveImpl_alone resolved) record below
      obtain ⟨info,member,-⟩ := shown
      cases member
    · intro none_
      exact Ensures.of_pre fun _ _ _ _ record below => absurd below (none_ record)

/-- An engine whose small writes go through a memory cache. -/
def cachingEngine : Engine where
  __ := plainEngine
  writeCache := some memoryManager
  sharedReadCache := by
    intro m cached
    cases cached
    rfl

/-- No index refresh, and hash maps in their own order. -/
def plainConfig : ListConfig where
  mode := 0
  streamPageSize := 128
  shuffle := id
  shuffled := fun _ => .rfl
  heap := id
  heaped := fun _ => .rfl
  byTime := fun _ _ => .eq
  timed := {
    eq_swap := rfl
    isLE_trans := fun _ _ => rfl }
  lower := id

def fileInDir : CacheTarget := ⟨"u".toList,"/d/a".toList,fileA.plainUser,by decide⟩

/-- The one write a memory cache holds after it took `data` for `target`. -/
def oneWrite (target : CacheTarget) (data : Bytes) : PendingWrites where
  entries := (∅ : Store Text RecordId).insert target.path 0
  records := (∅ : Store RecordId PendingWriteRecord).insert 0
    ⟨target,freshPending (.memory data) data.length 0 60⟩
  filed path r found := by
    rw [Store.lookup_insert_eq] at found
    split at found
    next same =>
      cases found
      exact ⟨_,AList.lookup_insert _,same.symm⟩
    next => cases found

/-- In a directory of its own the write is listed. -/
theorem pending_listed_in_dir :
    cachingEngine.ListsPending plainConfig (oneWrite fileInDir [1]) "/d".toList ∧
      (oneWrite fileInDir [1]).ChildOf "u".toList "/d".toList
        ⟨fileInDir,freshPending (.memory [1]) 1 0 60⟩ := by
  have free : cachingEngine.Unprotected "/d".toList := by
    intro plan resolved
    cases resolved
  refine ⟨(pending_listed_iff rfl (rfl : cachingEngine.resolveProtectedPlan = .ok none) (.inr (by decide))).1.mpr
    (.inl ⟨by decide,free,by decide⟩),⟨0,?_,?_⟩,rfl,by decide⟩
  · exact AList.lookup_insert _
  · exact AList.lookup_insert _

/-- A file just written to the root, acknowledged and not yet flushed, is
missing from the listings of the root. -/
theorem root_listings_miss_pending : ∃ w,
    (cachingEngine.enqueueWriteCache fileA [1] (worldOf [] [] []) []).value? =
        some (some (fileInfo "u/a".toList ⟨false,1⟩)) ∧
      (cachingEngine.enqueueWriteCache fileA [1] (worldOf [] [] []) []).state = w ∧
      (oneWrite fileA [1]).HeldIn w ∧
      (oneWrite fileA [1]).ChildOf "u".toList ['/'] ⟨fileA,freshPending (.memory [1]) 1 0 60⟩ ∧
      (cachingEngine.listImpl plainConfig ['/'] w []).value? = some [] ∧
      (cachingEngine.listStreamImpl plainConfig ['/'] w []).value? = some [] ∧
      (cachingEngine.listFilesPaginatedImpl plainConfig ['/'] 1 10 w []).value? = some ([],0) ∧
      (cachingEngine.listRecursiveImpl ['/'] w []).value? = some [] := by
  refine ⟨_,by decide +kernel,rfl,⟨AList.ext (by decide +kernel),AList.ext (by decide +kernel)⟩,
    ⟨⟨0,?_,?_⟩,rfl,by decide⟩,?_⟩
  · exact AList.lookup_insert _
  · exact AList.lookup_insert _
  · decide +kernel

end StorageHub.Scoped
