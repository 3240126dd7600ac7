import StorageHub.Scoped.SyncAgreement
import StorageHub.Scoped.Presence

/-! What the listings of a directory and their pages give at one moment, when every
call gets through. -/
namespace StorageHub.Scoped
open Library WriteCache Protected Vfs Effect

/-! ### Settled runs -/

/-- At least `n` calls are left, and all of them get through at one time. -/
def Calm (now : Int) (n : Nat) (cs : List (Choice EngineEnv)) : Prop :=
  n ≤ cs.length ∧ ∀ c ∈ cs, ∃ env : EngineEnv, c = .proceed env ∧ env.ok = true ∧ env.now = now

/-- A program comes to one result and one world in every run that is long enough. -/
def Settles {α : Type} (now : Int) (m : Vfs α) (w : World) (r : Except VfsError α) (w' : World) : Prop :=
  ∃ n, ∀ k cs, Calm now (n + k) cs → ∃ rest, Calm now k rest ∧ m w cs = settled r w' rest

theorem calm_replicate (now : Int) (n : Nat) :
    Calm now n (List.replicate n (.proceed ⟨⟨true,now⟩,.internal []⟩)) := by
  refine ⟨by rw [List.length_replicate],?_⟩
  intro c member
  exact ⟨_,List.eq_of_mem_replicate member,rfl,rfl⟩

namespace Settles
variable {α β : Type} {now : Int} {m : Vfs α} {k : α → Vfs β} {w w' w'' : World} {a : α} {err : VfsError}

protected theorem pure (a : α) (w : World) : Settles now (pure a : Vfs α) w (.ok a) w := by
  refine ⟨0,fun n cs calm => ?_⟩
  rw [Nat.zero_add] at calm
  exact ⟨cs,calm,rfl⟩

protected theorem fail (err : VfsError) (w : World) : Settles now (Effect.fail err : Vfs α) w (.error err) w := by
  refine ⟨0,fun n cs calm => ?_⟩
  rw [Nat.zero_add] at calm
  exact ⟨cs,calm,rfl⟩

protected theorem get (w : World) : Settles now (Effect.get : Vfs World) w (.ok w) w := by
  refine ⟨0,fun n cs calm => ?_⟩
  rw [Nat.zero_add] at calm
  exact ⟨cs,calm,rfl⟩

protected theorem modify (f : World → World) (w : World) :
    Settles now (Effect.modify f : Vfs Unit) w (.ok ()) (f w) := by
  refine ⟨0,fun n cs calm => ?_⟩
  rw [Nat.zero_add] at calm
  exact ⟨cs,calm,rfl⟩

protected theorem call {f : EngineEnv → World → Except VfsError α × World} {r : Except VfsError α}
    (steady : ∀ env : EngineEnv, env.now = now → f env w = (r,w')) : Settles now (Vfs.call f) w r w' := by
  refine ⟨1,fun n cs calm => ?_⟩
  obtain ⟨long,through⟩ := calm
  cases cs with
  | nil =>
    rw [List.length_nil] at long
    omega
  | cons c later =>
    obtain ⟨env,rfl,ok,time⟩ := through c List.mem_cons_self
    rw [List.length_cons] at long
    refine ⟨later,⟨by omega,fun c member => through c (List.mem_cons_of_mem _ member)⟩,?_⟩
    unfold Vfs.call perform
    simp only [if_pos ok,steady env time]
    cases r with
    | ok a => rfl
    | error err => rfl

protected theorem query (f : World → α) (w : World) : Settles now (query f) w (.ok (f w)) w :=
  Settles.call fun _ _ => rfl

theorem bind {r : Except VfsError β} (first : Settles now m w (.ok a) w') (later : Settles now (k a) w' r w'') :
    Settles now (m >>= k) w r w'' := by
  obtain ⟨n,ran⟩ := first
  obtain ⟨n',ran'⟩ := later
  refine ⟨n + n',fun j cs calm => ?_⟩
  rw [Nat.add_assoc] at calm
  obtain ⟨middle,calm',through⟩ := ran _ cs calm
  obtain ⟨rest,calm'',through'⟩ := ran' _ middle calm'
  exact ⟨rest,calm'',by rw [bind_run through,through']⟩

theorem bind_error (first : Settles now m w (.error err) w') : Settles now (m >>= k) w (.error err) w' := by
  obtain ⟨n,ran⟩ := first
  refine ⟨n,fun j cs calm => ?_⟩
  obtain ⟨rest,calm',through⟩ := ran j cs calm
  exact ⟨rest,calm',by rw [bind_apply,through]; rfl⟩

theorem map {f : α → β} (first : Settles now m w (.ok a) w') : Settles now (f <$> m) w (.ok (f a)) w' :=
  first.bind (Settles.pure (f a) w')

theorem attempt {r : Except VfsError α} (first : Settles now m w r w') : Settles now m.attempt w (.ok r) w' := by
  obtain ⟨n,ran⟩ := first
  refine ⟨n,fun j cs calm => ?_⟩
  obtain ⟨rest,calm',through⟩ := ran j cs calm
  refine ⟨rest,calm',?_⟩
  rw [Effect.attempt,through]
  cases r with
  | ok a => rfl
  | error err => rfl

theorem unique {r r' : Except VfsError α} (first : Settles now m w r w') (second : Settles now m w r' w'') :
    r = r' ∧ w' = w'' := by
  obtain ⟨n,ran⟩ := first
  obtain ⟨n',ran'⟩ := second
  have calm : Calm now (n + n') (List.replicate (n + n') (.proceed ⟨⟨true,now⟩,.internal []⟩)) :=
    calm_replicate now (n + n')
  obtain ⟨rest,-,through⟩ := ran n' _ calm
  rw [Nat.add_comm] at calm
  obtain ⟨rest',-,through'⟩ := ran' n _ calm
  rw [Nat.add_comm n' n,through] at through'
  cases r with
  | ok a =>
    cases r' with
    | ok a' =>
      cases through'
      exact ⟨rfl,rfl⟩
    | error err => cases through'
  | error err =>
    cases r' with
    | ok a' => cases through'
    | error err' =>
      cases through'
      exact ⟨rfl,rfl⟩

end Settles

/-! ### A second sync -/

namespace Index
variable {rows : Index} {userId dir : Text} {syncStart : Int} {first second : List IndexRow}

/-- The entries of a sync of one directory that have just been listed. -/
def FreshChunk (userId dir : Text) (syncStart : Int) (chunk : List IndexRow) : Prop :=
  ∀ entry ∈ chunk, entry.userId = userId ∧ entry.parentPath = dir ∧ ¬entry.rowUpdatedAt < syncStart

/-- An upserted path has a row of the directory after the prune. -/
theorem syncDirectory_present (unique : UniquePaths rows) (fresh : FreshChunk userId dir syncStart first) {p : Text}
    {last : IndexRow} (listed : lastAt first p = some last) :
    ∃ row, getFileMetadata userId p (syncDirectory userId dir syncStart first rows) = some row ∧
      row.parentPath = dir := by
  have own : ∀ entry ∈ first, entry.userId = userId := fun entry member => (fresh entry member).1
  obtain ⟨-,parent,recent⟩ := fresh last (lastAt_some listed).1
  have upserted : ∃ base, getFileMetadata userId p (upsertChunk first rows) = some (refreshed last base) := by
    cases before : getFileMetadata userId p rows with
    | none =>
      obtain ⟨base,-,found⟩ := upsertChunk_added first own before listed
      exact ⟨base,found⟩
    | some row =>
      have found := upsertChunk_existing first own before
      obtain ⟨-,-,path⟩ := getFileMetadata_some before
      rw [← path] at listed
      rw [overlaid_listed listed] at found
      exact ⟨row,found⟩
  obtain ⟨base,found⟩ := upserted
  refine ⟨refreshed last base,?_,parent⟩
  rw [syncDirectory_lookup unique,found,Option.filter_some]
  have kept : (!((refreshed last base).parentPath == dir && decide ((refreshed last base).rowUpdatedAt < syncStart))) =
      true := by
    have late : decide ((refreshed last base).rowUpdatedAt < syncStart) = false := decide_eq_false recent
    rw [late,Bool.and_false]
    rfl
  rw [kept]
  rfl

/-- A sync of the same paths lists nothing where the sync before listed nothing. -/
theorem sync_again (unique : UniquePaths rows) (fresh : FreshChunk userId dir syncStart first)
    (fresh' : FreshChunk userId dir syncStart second) (paths : second.map IndexRow.path = first.map IndexRow.path)
    (nothing : listFiles userId dir (syncDirectory userId dir syncStart first rows) = []) :
    listFiles userId dir (syncDirectory userId dir syncStart second
      (syncDirectory userId dir syncStart first rows)) = [] := by
  have unique' : UniquePaths (syncDirectory userId dir syncStart first rows) := syncDirectory_unique unique
  have own : ∀ entry ∈ second, entry.userId = userId := fun entry member => (fresh' entry member).1
  have absent : ∀ row ∈ syncDirectory userId dir syncStart first rows, row.userId = userId → row.parentPath = dir →
      row.fileTrashedAt.isNone = false := by
    intro row inside user parent
    have dropped := List.filter_eq_nil_iff.mp nothing row inside
    simpa [user,parent,Option.isSome_iff_ne_none] using dropped
  rw [listFiles,List.filter_eq_nil_iff]
  intro row inside listed
  rw [Bool.and_eq_true,Bool.and_eq_true,beq_iff_eq,beq_iff_eq] at listed
  obtain ⟨⟨user,parent⟩,alive⟩ := listed
  have found : getFileMetadata userId row.path (upsertChunk second (syncDirectory userId dir syncStart first rows)) =
      some row := by
    have stored : getFileMetadata userId row.path (syncDirectory userId dir syncStart second
        (syncDirectory userId dir syncStart first rows)) = some row :=
      (getFileMetadata_iff (syncDirectory_unique unique')).mpr ⟨inside,user,rfl⟩
    rw [syncDirectory_lookup unique'] at stored
    exact (Option.filter_eq_some_iff.mp stored).1
  cases listed' : lastAt second row.path with
  | none =>
    rw [upsertChunk_unlisted second listed'] at found
    have here := absent row (getFileMetadata_some found).1 user parent
    rw [alive] at here
    cases here
  | some last =>
    have known : ∃ last, lastAt first row.path = some last := by
      rw [← Option.ne_none_iff_exists',ne_eq,lastAt_none]
      intro unlisted
      obtain ⟨member,path⟩ := lastAt_some listed'
      have there : last.path ∈ first.map IndexRow.path := by
        rw [← paths]
        exact List.mem_map_of_mem member
      obtain ⟨other,member',same⟩ := List.mem_map.mp there
      exact unlisted other member' (same.trans path)
    obtain ⟨last',listed''⟩ := known
    obtain ⟨base,stored,filed⟩ := syncDirectory_present unique fresh listed''
    obtain ⟨inside',user',-⟩ := getFileMetadata_some stored
    have gone := absent base inside' user' filed
    rw [upsertChunk_existing second own stored] at found
    have same := (overlaid_kept second base).2.2
    rw [Option.some.inj found] at same
    rw [← same,alive] at gone
    cases gone

end Index

namespace Engine
variable (e : Engine)

/-! ### What there is to list -/

/-- The directory lies below the protected root. -/
def covers (dir : Text) : Bool := e.resolveProtectedPlan.toOption.any fun plan => plan.any (·.matchesPath dir)

def rowsIn (dir : Text) (w : World) : List IndexRow := Index.listFiles e.userId dir w.index

def storedEntries (dir : Text) (w : World) : List (Text × Metadata) :=
  w.primary.listChildren (normalizeEntryPath (e.getPhysicalPath dir))

def storedInfos (dir : Text) (w : World) : List VfsFileInfo :=
  ((e.storedEntries dir w).map e.entryInfo).filter (keepsEntry dir)

def tempInfos (dir : Text) (w : World) : List VfsFileInfo :=
  (w.temp.listChildren (tempPath dir)).map fun entry =>
    fileInfo (Text.trimEnd '/' dir ++ '/'::lastSegment entry.1) entry.2

def pendingInfos (dir : Text) (w : World) : List VfsFileInfo :=
  if isTempPath dir then [] else (e.poolPendingChildren (e.getPhysicalPath dir) w).map e.translateFileInfo

/-- Pages are cut from the whole listing: a write is pending in the directory or has
left it dirty. -/
def merges (dir : Text) (w : World) : Bool :=
  !(e.pendingInfos dir w).isEmpty || e.isDirtyDir (e.getPhysicalPath dir) w

def visibleInfos (rows : List IndexRow) : List VfsFileInfo :=
  (rows.filter fun row => !isHiddenStoragePath row.path).map infoOfRow

def keptInfos (dir : Text) (rows : List IndexRow) : List VfsFileInfo :=
  (rows.map infoOfRow).filter (keepsEntry dir)

section moment
variable (config : ListConfig) (now : Int) (dir : Text) (w : World)

/-- The world after the refresh of the index that a listing begins with. -/
def refresh : World :=
  if config.mode = 2 then
    { w with
      nextUuid := w.nextUuid + (e.storedEntries dir w).length
      index := Index.syncDirectory e.userId dir (now - 1)
        (e.syncRows dir now w.nextUuid (e.storedEntries dir w)) w.index }
  else w

/-- A listing without the pending writes. -/
def unmerged : List VfsFileInfo :=
  if e.isDirtyDir (e.getPhysicalPath dir) w then e.storedInfos dir w
  else if (e.rowsIn dir (e.refresh config now dir w)).isEmpty then e.storedInfos dir w
  else keptInfos dir (e.rowsIn dir (e.refresh config now dir w))

def merged : List VfsFileInfo :=
  (mergeEntries (e.unmerged config now dir w ++ e.pendingInfos dir w)).entries.map (·.2)

/-- What a directory's listing is, neither below the protected root nor a temporary one. -/
def listed : List VfsFileInfo :=
  if (e.pendingInfos dir w).isEmpty then e.unmerged config now dir w
  else (config.shuffle (e.merged config now dir w)).mergeSort nameLe

end moment

variable {e : Engine} {config : ListConfig} {now : Int} {dir : Text} {w : World}
  {plan : Option ProtectedPathPlan}

/-! ### Settled listings -/

theorem settles_covered (now : Int) (w : World) (covered : e.covers dir = true) :
    ∃ plan, Settles now (e.getProtectedPlan dir) w (.ok (some plan)) w := by
  unfold covers at covered
  cases resolved : e.resolveProtectedPlan with
  | error err =>
    rw [resolved] at covered
    cases covered
  | ok plan =>
    rw [resolved] at covered
    have kept : plan.any (·.matchesPath dir) = true := covered
    rw [Option.any_eq_true] at kept
    obtain ⟨found,same,matched⟩ := kept
    have given : Settles now (Effect.ofExcept e.resolveProtectedPlan : Vfs _) w (.ok plan) w := by
      rw [resolved]
      exact Settles.pure plan w
    have result : plan.filter (fun plan => plan.matchesPath dir) = some found := by
      rw [Option.filter_eq_some_iff]
      exact ⟨same,matched⟩
    refine ⟨found,?_⟩
    rw [← result]
    exact given.bind (Settles.pure _ w)

theorem settles_free (resolved : e.resolveProtectedPlan = .ok plan) (free : e.covers dir = false) :
    Settles now (e.getProtectedPlan dir) w (.ok none) w := by
  have given : Settles now (Effect.ofExcept e.resolveProtectedPlan : Vfs _) w (.ok plan) w := by
    rw [resolved]
    exact Settles.pure plan w
  have result : plan.filter (fun plan => plan.matchesPath dir) = none := by
    rw [covers,resolved] at free
    have none_ : plan.any (·.matchesPath dir) = false := free
    rw [Option.filter_eq_none_iff]
    intro found same matched
    rw [same] at none_
    rw [Option.any_some,matched] at none_
    cases none_
  rw [← result]
  exact given.bind (Settles.pure _ w)

theorem settles_failed {err : VfsError} {α : Type} {k : Option ProtectedPathPlan → Vfs α}
    (failed : e.resolveProtectedPlan = .error err) : Settles now (e.getProtectedPlan dir >>= k) w (.error err) w := by
  have given : Settles now (Effect.ofExcept e.resolveProtectedPlan : Vfs _) w (.error err) w := by
    rw [failed]
    exact Settles.fail err w
  exact given.bind_error.bind_error

theorem settles_poolList : Settles now (e.poolList (e.getPhysicalPath dir)) w (.ok (e.storedEntries dir w)) w := by
  have listed : Settles now (query fun w => w.primary.listChildren (normalizeEntryPath (e.getPhysicalPath dir))) w
      (.ok (e.storedEntries dir w)) w := Settles.query _ w
  exact listed.attempt.bind (Settles.pure _ w)

theorem settles_physicalListing : Settles now (e.physicalListing dir) w (.ok (e.storedInfos dir w)) w :=
  settles_poolList.bind (Settles.pure _ w)

theorem settles_indexListing : Settles now (e.indexListing dir) w (.ok (visibleInfos (e.rowsIn dir w))) w :=
  (Settles.query _ w).bind (Settles.pure _ w)

theorem settles_pendingChildren : Settles now (e.pendingChildren dir) w (.ok (e.pendingInfos dir w)) w := by
  unfold pendingChildren pendingInfos
  split
  · exact Settles.pure [] w
  · exact (Settles.get w).bind (Settles.pure _ w)

theorem settles_transact {f : Int → Index → Except IndexError Index} {index : Index}
    (made : f now w.index = .ok index) : Settles now (transact f) w (.ok ()) { w with index } := by
  unfold transact
  apply Settles.bind
  · apply Settles.call
    intro env time
    rw [time,made]
  · exact Settles.pure () _

theorem settles_syncIndexEntries (resolved : e.resolveProtectedPlan = .ok plan) (free : e.covers dir = false)
    (refreshing : config.mode = 2) : Settles now (e.syncIndexEntries dir) w
      (.ok ((e.storedInfos dir w).mergeSort nameLe)) (e.refresh config now dir w) := by
  rw [refresh,if_pos refreshing,syncIndexEntries]
  apply (settles_free resolved free).bind
  apply settles_poolList.bind
  apply (Settles.get w).bind
  apply (Settles.modify _ w).bind
  exact (settles_transact rfl).bind (Settles.pure _ _)

theorem settles_executeSyncDecision (config : ListConfig) (now : Int) (w : World)
    (resolved : e.resolveProtectedPlan = .ok plan) (free : e.covers dir = false) :
    Settles now (e.executeSyncDecision config dir) w
      (.ok (if config.mode = 2 then some ((e.storedInfos dir w).mergeSort nameLe) else none))
      (e.refresh config now dir w) := by
  unfold executeSyncDecision
  apply (settles_free resolved free).bind
  dsimp only
  split
  next refreshing => exact (settles_syncIndexEntries resolved free refreshing).map
  next still =>
    rw [refresh,if_neg still]
    exact Settles.pure none w

theorem storedInfos_refresh : e.storedInfos dir (e.refresh config now dir w) = e.storedInfos dir w := by
  unfold refresh
  split <;> rfl

theorem settles_storedListing (resolved : e.resolveProtectedPlan = .ok plan) (free : e.covers dir = false) :
    Settles now (e.storedListing config dir) w (.ok (e.unmerged config now dir w))
      (if e.isDirtyDir (e.getPhysicalPath dir) w then w else e.refresh config now dir w) := by
  unfold storedListing unmerged
  apply (Settles.get w).bind
  cases dirty : e.isDirtyDir (e.getPhysicalPath dir) w with
  | true => exact settles_physicalListing
  | false =>
    apply (settles_executeSyncDecision config now w resolved free).bind
    apply (Settles.query _ _).bind
    by_cases nothing : e.rowsIn dir (e.refresh config now dir w) = []
    · have empty : (e.rowsIn dir (e.refresh config now dir w)).isEmpty = true := List.isEmpty_iff.mpr nothing
      rw [empty]
      rw [rowsIn] at nothing
      rw [nothing,← storedInfos_refresh]
      exact settles_physicalListing
    · have some_ : (e.rowsIn dir (e.refresh config now dir w)).isEmpty = false := List.isEmpty_eq_false_iff.mpr nothing
      rw [some_]
      rw [rowsIn] at nothing
      rw [if_neg nothing]
      exact Settles.pure _ _

theorem pendingInfos_refresh : e.pendingInfos dir (e.refresh config now dir w) = e.pendingInfos dir w := by
  unfold refresh
  split <;> rfl

theorem settles_listImpl_temp (temp : isTempPath dir = true) (known : (w.temp.dirs.lookup (tempPath dir)).isSome = true) :
    Settles now (e.listImpl config dir) w (.ok (tempInfos dir w)) w := by
  rw [listImpl,if_pos temp]
  apply Settles.call
  intro env _
  rw [if_pos known]
  rfl

theorem settles_listImpl_missing (temp : isTempPath dir = true)
    (missing : (w.temp.dirs.lookup (tempPath dir)).isSome = false) :
    Settles now (e.listImpl config dir) w (.error (.io .notFound)) w := by
  rw [listImpl,if_pos temp]
  apply Settles.call
  intro env _
  rw [missing]
  rfl

theorem settles_listImpl_covered (lasting : isTempPath dir = false) (covered : e.covers dir = true) :
    Settles now (e.listImpl config dir) w (.ok (visibleInfos (e.rowsIn dir w))) w := by
  obtain ⟨found,given⟩ := settles_covered now w covered
  rw [listImpl,if_neg (Bool.eq_false_iff.mp lasting)]
  exact given.bind settles_indexListing

theorem settles_listImpl_free (lasting : isTempPath dir = false) (resolved : e.resolveProtectedPlan = .ok plan)
    (free : e.covers dir = false) : Settles now (e.listImpl config dir) w (.ok (e.listed config now dir w))
      (if e.isDirtyDir (e.getPhysicalPath dir) w then w else e.refresh config now dir w) := by
  have pending : Settles now (e.pendingChildren dir)
      (if e.isDirtyDir (e.getPhysicalPath dir) w then w else e.refresh config now dir w)
      (.ok (e.pendingInfos dir w))
      (if e.isDirtyDir (e.getPhysicalPath dir) w then w else e.refresh config now dir w) := by
    split
    · exact settles_pendingChildren
    · rw [← pendingInfos_refresh]
      exact settles_pendingChildren
  rw [listImpl,if_neg (Bool.eq_false_iff.mp lasting)]
  apply (settles_free resolved free).bind
  apply (settles_storedListing resolved free).bind
  apply pending.bind
  rw [listed]
  by_cases nothing : e.pendingInfos dir w = []
  · rw [nothing]
    exact Settles.pure _ _
  · have more : (e.pendingInfos dir w).isEmpty = false := List.isEmpty_eq_false_iff.mpr nothing
    rw [if_neg nothing,more]
    exact Settles.pure _ _

/-! ### A listing after its own refresh -/

theorem syncRows_fresh (firstId : Nat) (entries : List (Text × Metadata)) :
    Index.FreshChunk e.userId dir (now - 1) (e.syncRows dir now firstId entries) := by
  intro row member
  obtain ⟨user,parent,stamp⟩ := syncRows_filed row member
  exact ⟨user,parent,by omega⟩

theorem syncRows_paths (firstId firstId' : Nat) (entries : List (Text × Metadata)) :
    (e.syncRows dir now firstId entries).map IndexRow.path = (e.syncRows dir now firstId' entries).map IndexRow.path := by
  unfold syncRows
  rw [List.map_map,List.map_map]
  apply List.map_congr_left
  intro entry _
  rfl

theorem rowsIn_refresh_again (unique : Index.UniquePaths w.index)
    (nothing : e.rowsIn dir (e.refresh config now dir w) = []) :
    e.rowsIn dir (e.refresh config now dir (e.refresh config now dir w)) = [] := by
  by_cases refreshing : config.mode = 2
  · rw [rowsIn,refresh,if_pos refreshing] at nothing
    have again := Index.sync_again unique (syncRows_fresh w.nextUuid (e.storedEntries dir w))
      (syncRows_fresh (w.nextUuid + (e.storedEntries dir w).length) (e.storedEntries dir w))
      (syncRows_paths _ _ _) nothing
    rw [refresh,refresh,if_pos refreshing,if_pos refreshing]
    exact again
  · have still (w : World) : e.refresh config now dir w = w := if_neg refreshing
    rw [still] at nothing
    rw [still,still]
    exact nothing

theorem isDirtyDir_refresh :
    e.isDirtyDir (e.getPhysicalPath dir) (e.refresh config now dir w) = e.isDirtyDir (e.getPhysicalPath dir) w := by
  unfold refresh
  split <;> rfl

theorem refresh_unique (unique : Index.UniquePaths w.index) :
    Index.UniquePaths (e.refresh config now dir w).index := by
  unfold refresh
  split
  · exact Index.syncDirectory_unique unique
  · exact unique

/-! ### Settled pages -/

/-- What the listing gives, of a temporary directory too. -/
def listing (e : Engine) (config : ListConfig) (now : Int) (dir : Text) (w : World) : List VfsFileInfo :=
  if isTempPath dir then tempInfos dir w
  else if e.covers dir then visibleInfos (e.rowsIn dir w)
  else e.listed config now dir w

/-- The listing comes to an end without an error. -/
def Lists (e : Engine) (dir : Text) (w : World) : Prop :=
  if isTempPath dir = true then (w.temp.dirs.lookup (tempPath dir)).isSome = true
  else e.resolveProtectedPlan.toOption.isSome = true

theorem settles_listing (config : ListConfig) (now : Int) (lists : e.Lists dir w) :
    ∃ w', Settles now (e.listImpl config dir) w (.ok (e.listing config now dir w)) w' := by
  unfold Lists at lists
  unfold listing
  cases temp : isTempPath dir with
  | true =>
    rw [temp,if_pos rfl] at lists
    exact ⟨w,settles_listImpl_temp temp lists⟩
  | false =>
    rw [temp,if_neg Bool.false_ne_true] at lists
    cases covered : e.covers dir with
    | true => exact ⟨w,settles_listImpl_covered temp covered⟩
    | false =>
      cases resolved : e.resolveProtectedPlan with
      | error err =>
        rw [resolved] at lists
        cases lists
      | ok plan => exact ⟨_,settles_listImpl_free temp resolved covered⟩

theorem settles_unlisted (config : ListConfig) (now : Int) (unlisted : ¬e.Lists dir w) :
    ∃ err, Settles now (e.listImpl config dir) w (.error err) w := by
  unfold Lists at unlisted
  cases temp : isTempPath dir with
  | true =>
    rw [temp,if_pos rfl] at unlisted
    exact ⟨_,settles_listImpl_missing temp (Bool.eq_false_iff.mpr unlisted)⟩
  | false =>
    rw [temp,if_neg Bool.false_ne_true] at unlisted
    cases resolved : e.resolveProtectedPlan with
    | error err =>
      rw [listImpl,if_neg (Bool.eq_false_iff.mp temp)]
      exact ⟨err,settles_failed resolved⟩
    | ok plan =>
      rw [resolved] at unlisted
      exact absurd rfl unlisted

/-- The rows that one query for a page gives. -/
def pageRows (config : ListConfig) (cmp : IndexRow → IndexRow → Ordering) (page pageSize : Int)
    (rows : List IndexRow) : List IndexRow :=
  Index.selectPage cmp page pageSize (config.heap rows)

section pages
variable {page pageSize : Int}

theorem settles_indexPage : Settles now (e.indexPage config dir page pageSize) w
    (.ok (pageRows config Index.byName page pageSize (e.rowsIn dir w),(e.rowsIn dir w).length)) w :=
  (Settles.query _ w).bind ((Settles.query _ w).bind (Settles.pure _ w))

theorem settles_listedPage {all : List VfsFileInfo} {w' : World}
    (given : Settles now (e.listImpl config dir) w (.ok all) w') :
    Settles now (e.listedPage config dir page pageSize) w (.ok (pageOf page pageSize all,all.length)) w' :=
  given.bind (Settles.pure _ w')

theorem settles_paginated_covered (covered : e.covers dir = true) :
    Settles now (e.listFilesPaginatedImpl config dir page pageSize) w
      (.ok (visibleInfos (pageRows config Index.byName page pageSize (e.rowsIn dir w)),(e.rowsIn dir w).length))
      w := by
  obtain ⟨found,given⟩ := settles_covered now w covered
  exact given.bind (settles_indexPage.bind (Settles.pure _ w))

theorem merges_iff : e.merges dir w = true ↔
    e.pendingInfos dir w ≠ [] ∨ e.isDirtyDir (e.getPhysicalPath dir) w = true := by
  rw [merges,Bool.or_eq_true,Bool.not_eq_true',List.isEmpty_eq_false_iff]

theorem settles_paginated_merged (resolved : e.resolveProtectedPlan = .ok plan) (free : e.covers dir = false)
    (merging : e.merges dir w = true) {all : List VfsFileInfo} {w' : World}
    (given : Settles now (e.listImpl config dir) w (.ok all) w') :
    Settles now (e.listFilesPaginatedImpl config dir page pageSize) w (.ok (pageOf page pageSize all,all.length)) w' := by
  apply (settles_free resolved free).bind
  apply settles_pendingChildren.bind
  apply (Settles.get w).bind
  rw [if_pos (merges_iff.mp merging)]
  exact settles_listedPage given

theorem settles_paginated_rows (resolved : e.resolveProtectedPlan = .ok plan) (free : e.covers dir = false)
    (clean : e.merges dir w = false) (some_ : e.rowsIn dir (e.refresh config now dir w) ≠ []) :
    Settles now (e.listFilesPaginatedImpl config dir page pageSize) w
      (.ok (visibleInfos (pageRows config Index.byName page pageSize (e.rowsIn dir (e.refresh config now dir w))),
        (e.rowsIn dir (e.refresh config now dir w)).length)) (e.refresh config now dir w) := by
  have counted : (0 : Int) < (e.rowsIn dir (e.refresh config now dir w)).length := by
    rw [Int.natCast_pos]
    exact List.length_pos_of_ne_nil some_
  apply (settles_free resolved free).bind
  apply settles_pendingChildren.bind
  apply (Settles.get w).bind
  rw [if_neg fun merging => Bool.eq_false_iff.mp clean (merges_iff.mpr merging)]
  apply (settles_executeSyncDecision config now w resolved free).bind
  apply settles_indexPage.bind
  dsimp only
  rw [if_pos counted]
  exact Settles.pure _ _

theorem settles_paginated_empty (resolved : e.resolveProtectedPlan = .ok plan) (free : e.covers dir = false)
    (clean : e.merges dir w = false) (nothing : e.rowsIn dir (e.refresh config now dir w) = [])
    {all : List VfsFileInfo} {w' : World}
    (given : Settles now (e.listImpl config dir) (e.refresh config now dir w) (.ok all) w') :
    Settles now (e.listFilesPaginatedImpl config dir page pageSize) w (.ok (pageOf page pageSize all,all.length)) w' := by
  have counted : ¬(0 : Int) < (e.rowsIn dir (e.refresh config now dir w)).length := by
    rw [nothing]
    decide
  apply (settles_free resolved free).bind
  apply settles_pendingChildren.bind
  apply (Settles.get w).bind
  rw [if_neg fun merging => Bool.eq_false_iff.mp clean (merges_iff.mpr merging)]
  apply (settles_executeSyncDecision config now w resolved free).bind
  apply settles_indexPage.bind
  dsimp only
  rw [if_neg counted]
  exact settles_listedPage given

end pages

/-! ### Settled sorted pages -/

section sorted
variable {params : VfsPaginationParams}

def sortKey (config : ListConfig) (params : VfsPaginationParams) (a b : IndexRow) : Ordering :=
  descending params (rowsSortedBy config params a b)

theorem settles_indexPageWithSort (plain : params.keyword = none) :
    Settles now (e.indexPageWithSort config dir params) w
      (.ok (pageRows config (sortKey config params) params.page params.pageSize (e.rowsIn dir w),
        (e.rowsIn dir w).length)) w := by
  have whole : (e.rowsIn dir w).filter (Index.matchesFilter e.caseSensitiveLike params.keyword) = e.rowsIn dir w := by
    rw [plain,List.filter_eq_self]
    intro row _
    rfl
  have asked : Settles now (e.indexPageWithSort config dir params) w
      (.ok (pageRows config (sortKey config params) params.page params.pageSize
          ((e.rowsIn dir w).filter (Index.matchesFilter e.caseSensitiveLike params.keyword)),
        ((e.rowsIn dir w).filter (Index.matchesFilter e.caseSensitiveLike params.keyword)).length)) w :=
    (Settles.query _ w).bind ((Settles.query _ w).bind (Settles.pure _ w))
  rw [whole] at asked
  exact asked

theorem settles_sorted_covered (plain : params.keyword = none) (covered : e.covers dir = true) :
    Settles now (e.listFilesPaginatedWithSortImpl config dir params) w
      (.ok ((pageRows config (sortKey config params) params.page params.pageSize (e.rowsIn dir w)).map infoOfRow,
        (e.rowsIn dir w).length)) w := by
  obtain ⟨found,given⟩ := settles_covered now w covered
  exact given.bind ((settles_indexPageWithSort plain).bind (Settles.pure _ w))

theorem settles_sorted_merged (resolved : e.resolveProtectedPlan = .ok plan) (free : e.covers dir = false)
    (merging : e.merges dir w = true) {all : List VfsFileInfo} {w' : World}
    (given : Settles now (e.listImpl config dir) w (.ok all) w') :
    Settles now (e.listFilesPaginatedWithSortImpl config dir params) w
      (.ok (paginateWithSortInMemory config params all)) w' := by
  apply (settles_free resolved free).bind
  apply settles_pendingChildren.bind
  apply (Settles.get w).bind
  rw [if_pos (merges_iff.mp merging)]
  exact given.map

theorem settles_sorted_fresh (resolved : e.resolveProtectedPlan = .ok plan) (free : e.covers dir = false)
    (clean : e.merges dir w = false) (refreshing : config.mode = 2) :
    Settles now (e.listFilesPaginatedWithSortImpl config dir params) w
      (.ok (paginateWithSortInMemory config params ((e.storedInfos dir w).mergeSort nameLe)))
      (e.refresh config now dir w) := by
  have decided : Settles now (e.executeSyncDecision config dir) w
      (.ok (some ((e.storedInfos dir w).mergeSort nameLe))) (e.refresh config now dir w) := by
    have given := settles_executeSyncDecision config now w resolved free
    rw [if_pos refreshing] at given
    exact given
  apply (settles_free resolved free).bind
  apply settles_pendingChildren.bind
  apply (Settles.get w).bind
  rw [if_neg fun merging => Bool.eq_false_iff.mp clean (merges_iff.mpr merging)]
  exact decided.bind (Settles.pure _ _)

theorem settles_still (resolved : e.resolveProtectedPlan = .ok plan) (free : e.covers dir = false)
    (still : config.mode ≠ 2) : Settles now (e.executeSyncDecision config dir) w (.ok none) w := by
  have given := settles_executeSyncDecision config now w resolved free
  rw [if_neg still,refresh,if_neg still] at given
  exact given

theorem settles_sorted_rows (plain : params.keyword = none) (resolved : e.resolveProtectedPlan = .ok plan)
    (free : e.covers dir = false) (clean : e.merges dir w = false) (still : config.mode ≠ 2)
    (some_ : e.rowsIn dir w ≠ []) : Settles now (e.listFilesPaginatedWithSortImpl config dir params) w
      (.ok ((pageRows config (sortKey config params) params.page params.pageSize (e.rowsIn dir w)).map infoOfRow,
        (e.rowsIn dir w).length)) w := by
  have counted : (0 : Int) < (e.rowsIn dir w).length := by
    rw [Int.natCast_pos]
    exact List.length_pos_of_ne_nil some_
  apply (settles_free resolved free).bind
  apply settles_pendingChildren.bind
  apply (Settles.get w).bind
  rw [if_neg fun merging => Bool.eq_false_iff.mp clean (merges_iff.mpr merging)]
  apply (settles_still resolved free still).bind
  apply (settles_indexPageWithSort plain).attempt.bind
  dsimp only
  rw [if_pos counted]
  exact Settles.pure _ _

theorem settles_sorted_empty (plain : params.keyword = none) (resolved : e.resolveProtectedPlan = .ok plan)
    (free : e.covers dir = false) (clean : e.merges dir w = false) (still : config.mode ≠ 2)
    (nothing : e.rowsIn dir w = []) {all : List VfsFileInfo} {w' : World}
    (given : Settles now (e.listImpl config dir) w (.ok all) w') :
    Settles now (e.listFilesPaginatedWithSortImpl config dir params) w
      (.ok (paginateWithSortInMemory config params all)) w' := by
  have counted : ¬(0 : Int) < (e.rowsIn dir w).length := by
    rw [nothing]
    decide
  apply (settles_free resolved free).bind
  apply settles_pendingChildren.bind
  apply (Settles.get w).bind
  rw [if_neg fun merging => Bool.eq_false_iff.mp clean (merges_iff.mpr merging)]
  apply (settles_still resolved free still).bind
  apply (settles_indexPageWithSort plain).attempt.bind
  dsimp only
  rw [if_neg counted]
  exact given.map

end sorted

end Engine
end StorageHub.Scoped
