import StorageHub.Mounts.RemoteStorage
import StorageHub.Mounts.Resolution

/-! Who answers for the paths that the overlay lists. -/
namespace StorageHub.Mounts
open Library WriteCache Paths Scoped

/-! ### Trees behind storages -/

/-- The path of an entry from the root of its storage. -/
def fullPath (info : FileInfo) : Text := '/' :: canonical info.path

/-- What a storage holds. Some storages list a directory among its own entries. -/
structure Tree where
  entries : List FileInfo
  selfListed : Bool
  distinct : (entries.map fullPath).Nodup

namespace Tree
variable (t : Tree)

def inside (dir : Text) (info : FileInfo) : Bool :=
  isPathWithin (fullPath info) dir && (t.selfListed || fullPath info != dir)

def listRecursive (path : Text) : List FileInfo := t.entries.filter (t.inside (normalizeDirPath path))

/-- No slash after the directory and the one that follows it. -/
def isChild (dir : Text) (info : FileInfo) : Bool :=
  !((fullPath info).drop (if dir = ['/'] then 1 else dir.length + 1)).contains '/'

def list (path : Text) : List FileInfo :=
  (t.listRecursive path).filter (isChild (normalizeDirPath path))

/-- The storage lists the tree. -/
structure Behind {σ ω : Type} (storage : VfsStorage σ ω) : Prop where
  list : ∀ path w cs, storage.list path w cs = .done (t.list path) w cs
  listRecursive : ∀ path w cs, storage.listRecursive path w cs = .done (t.listRecursive path) w cs

theorem list_sublist (path : Text) : (t.list path).Sublist (t.listRecursive path) := List.filter_sublist

theorem listRecursive_sublist (path : Text) : (t.listRecursive path).Sublist t.entries := List.filter_sublist

theorem listed_inside {t : Tree} {path : Text} {info : FileInfo} (member : info ∈ t.listRecursive path) :
    info ∈ t.entries ∧ isPathWithin (fullPath info) (normalizeDirPath path) = true := by
  obtain ⟨present,inside⟩ := List.mem_filter.mp member
  exact ⟨present,(Bool.and_eq_true_iff.mp inside).1⟩

end Tree

/-- A base and mounts, each with the tree it lists. The base has absolute paths. -/
structure MountedTrees (σ ω : Type) where
  base : VfsStorage σ ω
  mounts : List (MountRuntime σ ω)
  baseTree : Tree
  trees : MountRuntime σ ω → Tree
  placed : WellPlaced mounts
  ids : mounts.Pairwise fun a b => a.model.id ≠ b.model.id
  baseBehind : baseTree.Behind base
  behind : ∀ runtime ∈ mounts, (trees runtime).Behind runtime.storage
  absolute : ∀ info ∈ baseTree.entries, info.path = fullPath info ∧ NormalDir info.path

/-! ### Reports -/

/-- Where an entry of a listing comes from. -/
inductive Origin (σ ω : Type)
  | base
  | root (runtime : MountRuntime σ ω)
  | content (runtime : MountRuntime σ ω)

def Origin.mountId {σ ω : Type} : Origin σ ω → Option Text
  | base => none
  | root runtime => some runtime.model.id
  | content runtime => some runtime.model.id

structure Report (σ ω : Type) where
  origin : Origin σ ω
  info : FileInfo

namespace MountedTrees
variable {σ ω : Type} (f : MountedTrees σ ω)

def overlay : MountedUserStorage σ ω := MountedUserStorage.new f.base f.mounts

def ofBase (info : FileInfo) : Report σ ω := ⟨.base,info⟩

def ofRoot (runtime : MountRuntime σ ω) : Report σ ω := ⟨.root runtime,runtime.mountRootInfo⟩

def ofContent (runtime : MountRuntime σ ω) (info : FileInfo) : Report σ ω :=
  ⟨.content runtime,runtime.mapRemoteInfo info⟩

def listReports (path : Text) : List (Report σ ω) :=
  match f.overlay.resolveRuntime path with
  | some (runtime,remote) => ((f.trees runtime).list remote).map (ofContent runtime)
  | none => (f.baseTree.list path).map ofBase ++ (f.overlay.directMountChildren path).map ofRoot

/-- The root of a mount and all that is mounted there. -/
def mountReports (runtime : MountRuntime σ ω) : List (Report σ ω) :=
  ofRoot runtime :: ((f.trees runtime).listRecursive ['/']).map (ofContent runtime)

def listRecursiveReports (path : Text) : List (Report σ ω) :=
  match f.overlay.resolveRuntime path with
  | some (runtime,remote) => ((f.trees runtime).listRecursive remote).map (ofContent runtime)
  | none =>
    (f.baseTree.listRecursive path).map ofBase ++ (f.overlay.descendantMounts path).flatMap f.mountReports

variable {f} {path q : Text} {w : σ} {cs : List (Choice ω)}

theorem mem_overlay {runtime : MountRuntime σ ω} : runtime ∈ f.overlay.mounts ↔ runtime ∈ f.mounts :=
  (MountedUserStorage.new_perm f.base f.mounts).mem_iff

theorem resolved_member {runtime : MountRuntime σ ω} {remote : Text}
    (found : f.overlay.resolveRuntime path = some (runtime,remote)) : runtime ∈ f.mounts :=
  (MountedUserStorage.resolveRuntime_owner f.placed.rooted found).member

/-- The listing of the overlay is that of the reports, in the order of names where
the base answers. -/
theorem list_reports (valid : validatePath path = .ok q) :
    ∃ entries, f.overlay.list path w cs = .done entries w cs ∧
      entries.Perm ((f.listReports q).map (·.info)) := by
  rw [MountedUserStorage.list,valid]
  change ∃ entries, (match f.overlay.resolveRuntime q with
    | some (runtime,remote) => (do
      let entries ← runtime.storage.list remote
      pure (entries.map runtime.mapRemoteInfo))
    | none => f.overlay.mergeLocalListing q : Effect σ ω VfsError (List FileInfo)) w cs = _ ∧ _
  rw [listReports]
  cases found : f.overlay.resolveRuntime q with
  | some pair =>
    obtain ⟨runtime,remote⟩ := pair
    dsimp only
    rw [Effect.bind_apply,(f.behind runtime (resolved_member found)).list]
    refine ⟨_,rfl,?_⟩
    rw [List.map_map]
    exact .refl _
  | none =>
    dsimp only
    rw [MountedUserStorage.mergeLocalListing,Effect.bind_apply,MountedUserStorage.orDefault,Effect.bind_apply,
      Effect.attempt]
    have answered := f.baseBehind.list q w cs
    have base : f.overlay.base.list q w cs = .done (f.baseTree.list q) w cs := answered
    rw [base]
    refine ⟨_,rfl,?_⟩
    rw [List.map_append,List.map_map,List.map_map]
    have infos : (f.baseTree.list q).map ((·.info) ∘ ofBase (σ := σ) (ω := ω)) = f.baseTree.list q := List.map_id _
    rw [infos]
    exact List.mergeSort_perm _ _

theorem listMounts_done {runtimes : List (MountRuntime σ ω)} (members : ∀ runtime ∈ runtimes, runtime ∈ f.mounts) :
    MountedUserStorage.listMounts runtimes w cs =
      .done ((runtimes.flatMap f.mountReports).map (·.info)) w cs := by
  induction runtimes with
  | nil => rfl
  | cons runtime rest ih =>
    have later := ih fun other member => members other (List.mem_cons_of_mem _ member)
    have answered := (f.behind runtime (members runtime List.mem_cons_self)).listRecursive ['/'] w cs
    rw [MountedUserStorage.listMounts,Effect.bind_apply,answered]
    dsimp only
    rw [Effect.bind_apply,later]
    dsimp only
    rw [List.flatMap_cons,List.map_append,mountReports,List.map_cons,List.map_map]
    rfl

theorem listRecursive_reports (valid : validatePath path = .ok q) :
    f.overlay.listRecursive path w cs = .done ((f.listRecursiveReports q).map (·.info)) w cs := by
  rw [MountedUserStorage.listRecursive,valid]
  change (match f.overlay.resolveRuntime q with
    | some (runtime,remote) => (do
      let entries ← runtime.storage.listRecursive remote
      pure (entries.map runtime.mapRemoteInfo))
    | none => (do
      let entries ← MountedUserStorage.orDefault (f.overlay.base.listRecursive q)
      let mounted ← MountedUserStorage.listMounts (f.overlay.descendantMounts q)
      pure (entries ++ mounted)) : Effect σ ω VfsError (List FileInfo)) w cs = _
  rw [listRecursiveReports]
  cases found : f.overlay.resolveRuntime q with
  | some pair =>
    obtain ⟨runtime,remote⟩ := pair
    dsimp only
    rw [Effect.bind_apply,(f.behind runtime (resolved_member found)).listRecursive]
    dsimp only
    rw [List.map_map]
    rfl
  | none =>
    dsimp only
    have base : f.overlay.base.listRecursive q w cs = .done (f.baseTree.listRecursive q) w cs :=
      f.baseBehind.listRecursive q w cs
    have mounted : MountedUserStorage.listMounts (f.overlay.descendantMounts q) w cs =
        .done (((f.overlay.descendantMounts q).flatMap f.mountReports).map (·.info)) w cs := by
      apply listMounts_done
      intro runtime member
      exact mem_overlay.mp (List.mem_filter.mp member).1
    rw [Effect.bind_apply,MountedUserStorage.orDefault,Effect.bind_apply,Effect.attempt,base]
    change (MountedUserStorage.listMounts (f.overlay.descendantMounts q) >>=
      fun mounted => pure (f.baseTree.listRecursive q ++ mounted)) w cs = _
    rw [Effect.bind_apply,mounted,List.map_append,List.map_map]
    have infos : (f.baseTree.listRecursive q).map ((·.info) ∘ ofBase (σ := σ) (ω := ω)) =
        f.baseTree.listRecursive q := List.map_id _
    rw [infos]
    rfl

/-! ### Paths of mounted entries -/

section mapped
variable {runtime : MountRuntime σ ω} {info other : FileInfo}

theorem canonical_head (path : Text) : canonical path = [] ∨ ∃ c rest, canonical path = c::rest ∧ c ≠ '/' := by
  cases stripped : canonical path with
  | nil => exact .inl rfl
  | cons c rest =>
    right
    refine ⟨c,rest,rfl,?_⟩
    rintro rfl
    have stops := List.head?_dropWhile_not (· == '/') path
    rw [canonical,Text.trimStart] at stripped
    rw [stripped] at stops
    simp at stops

theorem canonical_canonical (path : Text) : canonical (canonical path) = canonical path := by
  rcases canonical_head path with empty | ⟨c,rest,start,other⟩
  · rw [empty]
    rfl
  · rw [start]
    exact trimStart_of_head (by simpa using other)

/-- An entry of a mount is shown at its directory or below it. -/
theorem mapRuntimePath_cases (normal : NormalDir runtime.model.mountDir) (path : Text) :
    canonical path = [] ∧ runtime.mapRuntimePath path = runtime.model.mountDir ∨
      canonical path ≠ [] ∧ runtime.mapRuntimePath path =
        (if runtime.model.mountDir = ['/'] then [] else runtime.model.mountDir) ++ '/'::canonical path := by
  unfold MountRuntime.mapRuntimePath
  by_cases top : path = ['/'] ∨ path = []
  · left
    rw [if_pos top]
    rcases top with root | empty
    · exact ⟨by rw [root]; rfl,rfl⟩
    · exact ⟨by rw [empty]; rfl,rfl⟩
  · rw [if_neg top]
    change canonical path = [] ∧ joinLogicalPath _ (canonical path) = _ ∨
      canonical path ≠ [] ∧ joinLogicalPath _ (canonical path) = _
    unfold joinLogicalPath
    by_cases empty : canonical path = []
    · exact .inl ⟨empty,by rw [if_pos empty]⟩
    · right
      refine ⟨empty,?_⟩
      have same : Text.trimStart '/' (canonical path) = canonical path := canonical_canonical path
      rw [if_neg empty,same]
      split
      · rfl
      · rename_i nested
        obtain ⟨rest,leading⟩ := normal.leading
        have fixed := normal.trimmed
        rw [leading] at nested fixed ⊢
        rw [normalizeDirPath_slash nested] at fixed
        rw [fixed]

theorem mapped_within (normal : NormalDir runtime.model.mountDir) (path : Text) :
    isPathWithin (runtime.mapRuntimePath path) runtime.model.mountDir = true := by
  rcases mapRuntimePath_cases normal path with ⟨-,here⟩ | ⟨-,below⟩
  · rw [here]
    exact isPathWithin_self _
  · rw [below,isPathWithin_iff]
    by_cases root : runtime.model.mountDir = ['/']
    · exact .inl root
    · right
      rw [if_neg root]
      exact Text.within_append

/-- Entries apart in a mount are shown apart. -/
theorem mapped_injective (normal : NormalDir runtime.model.mountDir)
    (same : runtime.mapRuntimePath info.path = runtime.mapRuntimePath other.path) : fullPath info = fullPath other := by
  have longer {path : Text} (here : canonical path ≠ []) :
      (if runtime.model.mountDir = ['/'] then [] else runtime.model.mountDir) ++ '/'::canonical path ≠
        runtime.model.mountDir := by
    intro short
    split at short
    · rename_i root
      rw [root] at short
      exact here (List.cons.inj short).2
    · have length := congrArg List.length short
      simp at length
  rw [fullPath,fullPath]
  rcases mapRuntimePath_cases normal info.path with ⟨empty,here⟩ | ⟨given,below⟩
  · rcases mapRuntimePath_cases normal other.path with ⟨empty',here'⟩ | ⟨given',below'⟩
    · rw [empty,empty']
    · rw [here,below'] at same
      exact absurd same.symm (longer given')
  · rcases mapRuntimePath_cases normal other.path with ⟨empty',here'⟩ | ⟨given',below'⟩
    · rw [below,here'] at same
      exact absurd same (longer given)
    · rw [below,below'] at same
      exact List.append_cancel_left same

theorem withSlashes_append (a b : Text) : withSlashes (a ++ b) = withSlashes a ++ withSlashes b := List.map_append

theorem spelled_slash (rest : Text) : spelled ('/'::rest) = withSlashes ('/'::rest) := by
  rw [spelled,normalizeLogicalPath_slash]

/-- Slashes for backslashes leave a path where it is. -/
theorem spelled_within {dir p : Text} (normal : NormalDir dir) (inside : isPathWithin p dir = true) :
    isPathWithin (spelled p) dir = true := by
  rw [isPathWithin_iff] at inside ⊢
  rcases inside with root | under
  · exact .inl root
  · right
    rcases Text.within_iff.mp under with same | ⟨rest,split⟩
    · rw [same,normal.spelled]
      exact Text.within_self _
    · obtain ⟨start,leading⟩ := normal.leading
      have plain := normal.spelled
      rw [leading,spelled_slash] at plain
      rw [split,leading,List.cons_append,spelled_slash,← List.cons_append,withSlashes_append,plain]
      exact Text.within_append

/-- What is shown in a mount is in its directory for the resolver too. -/
theorem mapped_resolved {q : Text} (normal : NormalDir runtime.model.mountDir) {path : Text}
    (valid : validatePath (runtime.mapRuntimePath path) = .ok q) :
    isPathWithin (normalizeDirPath q) runtime.model.mountDir = true := by
  have inside : isPathWithin q (normalizeDirPath runtime.model.mountDir) = true := by
    rw [normal.trimmed,validatePath_spelled valid]
    exact spelled_within normal (mapped_within normal path)
  have shown := normalizeDirPath_within inside
  rw [normal.trimmed] at shown
  exact shown

end mapped

/-! ### Coherence -/

variable (f)

/-- The resolver sends the path of a report to the storage that reported it. -/
def ResolvesTo (report : Report σ ω) : Prop :=
  ∃ endpoint, f.overlay.resolveEndpoint report.info.path = .ok endpoint ∧
    endpoint.mountId = report.origin.mountId

def IsMountRoot (path : Text) : Prop := ∃ runtime ∈ f.mounts, path = runtime.model.mountDir

/-- No path is listed twice, each one resolves to its reporter unless it is a
mount root, and the mounts below a directory are listed with their content. -/
structure CoherentAt (path : Text) : Prop where
  listedOnce : ((f.listReports path).map (·.info.path)).Nodup
  allListedOnce : ((f.listRecursiveReports path).map (·.info.path)).Nodup
  resolved : ∀ report ∈ f.listReports path ++ f.listRecursiveReports path,
    f.IsMountRoot report.info.path ∨ f.ResolvesTo report
  contained : ∀ runtime ∈ f.mounts, isPathWithin runtime.model.mountDir (normalizeDirPath path) = true →
    runtime.model.mountDir ≠ normalizeDirPath path →
      ∀ report ∈ f.mountReports runtime, report ∈ f.listRecursiveReports path

def Coherent (path : Text) : Prop := ∀ q, validatePath path = .ok q → f.CoherentAt q

/-- The overlay accepts a path, and it lies in no mount. -/
def Unmounted (path : Text) : Prop :=
  ∃ q, validatePath path = .ok q ∧
    ∀ runtime ∈ f.mounts, isPathWithin (normalizeDirPath q) runtime.model.mountDir = false

/-- The overlay accepts a path, and every mount it lies in is around `runtime`. -/
def Innermost (runtime : MountRuntime σ ω) (path : Text) : Prop :=
  ∃ q, validatePath path = .ok q ∧ ∀ other ∈ f.mounts,
    isPathWithin (normalizeDirPath q) other.model.mountDir = true →
      isPathWithin runtime.model.mountDir other.model.mountDir = true

/-- Inside a mount none is under the directory that is listed, and no entry of
the mount is under another mount. -/
def ClearInMount (runtime : MountRuntime σ ω) (path remote : Text) : Prop :=
  (∀ other ∈ f.mounts, isPathWithin other.model.mountDir (normalizeDirPath path) = true →
    other.model.mountDir = normalizeDirPath path) ∧
  ∀ info ∈ (f.trees runtime).listRecursive remote,
    f.IsMountRoot (runtime.mapRuntimePath info.path) ∨ f.Innermost runtime (runtime.mapRuntimePath info.path)

/-- No base entry is at or under a mount, and no entry of a mount below the
directory is its root or at or under another mount. -/
def ClearInBase (path : Text) : Prop :=
  (∀ info ∈ f.baseTree.listRecursive path, f.Unmounted info.path) ∧
  ∀ runtime ∈ f.mounts, isPathWithin runtime.model.mountDir (normalizeDirPath path) = true →
    ∀ info ∈ (f.trees runtime).listRecursive ['/'],
      runtime.mapRuntimePath info.path ≠ runtime.model.mountDir ∧
        f.Innermost runtime (runtime.mapRuntimePath info.path)

structure ClearAt (path : Text) : Prop where
  inMount : ∀ runtime remote, Owns f.mounts runtime (normalizeDirPath path) →
    runtime.remotePath (normalizeDirPath path) = some remote → f.ClearInMount runtime path remote
  inBase : (∀ runtime ∈ f.mounts, isPathWithin (normalizeDirPath path) runtime.model.mountDir = false) →
    f.ClearInBase path

def Clear (path : Text) : Prop := ∀ q, validatePath path = .ok q → f.ClearAt q

variable {f} {runtime : MountRuntime σ ω} {info : FileInfo} {remote : Text}

theorem sameId {other : MountRuntime σ ω} (here : runtime ∈ f.mounts) (here' : other ∈ f.mounts)
    (same : runtime.model.id = other.model.id) : runtime = other := by
  by_contra differs
  have symmetric : Std.Symm fun a b : MountRuntime σ ω => a.model.id ≠ b.model.id :=
    ⟨fun _ _ given => Ne.symm given⟩
  exact f.ids.forall here here' differs same

theorem resolvesTo_ofBase : f.ResolvesTo (ofBase info) ↔ f.Unmounted info.path := by
  have resolved (q : Text) : (∀ runtime ∈ f.mounts,
      isPathWithin (normalizeDirPath q) runtime.model.mountDir = false) ↔ f.overlay.resolveRuntime q = none :=
    MountedUserStorage.resolveRuntime_none_iff.symm
  unfold ResolvesTo Unmounted
  constructor
  · rintro ⟨endpoint,found,same⟩
    cases valid : validatePath info.path with
    | error error =>
      change f.overlay.resolveEndpoint info.path = _ at found
      rw [MountedUserStorage.resolveEndpoint,valid] at found
      cases found
    | ok q =>
      refine ⟨q,rfl,(resolved q).mpr ?_⟩
      change f.overlay.resolveEndpoint info.path = _ at found
      rw [MountedUserStorage.resolveEndpoint,valid] at found
      simp only [bind,Except.bind] at found
      cases taken : f.overlay.resolveRuntime q with
      | none => rfl
      | some pair =>
        rw [taken] at found
        cases found
        cases same
  · rintro ⟨q,valid,outside⟩
    refine ⟨⟨f.overlay.base,q,none,false⟩,?_,rfl⟩
    change f.overlay.resolveEndpoint info.path = _
    rw [MountedUserStorage.resolveEndpoint,valid]
    simp only [bind,Except.bind,(resolved q).mp outside]
    rfl

theorem resolvesTo_ofContent (member : runtime ∈ f.mounts) :
    f.ResolvesTo (ofContent runtime info) ↔ f.Innermost runtime (runtime.mapRuntimePath info.path) := by
  have normal := f.placed.normal runtime member
  unfold ResolvesTo Innermost
  change (∃ endpoint, f.overlay.resolveEndpoint (runtime.mapRuntimePath info.path) = .ok endpoint ∧
    endpoint.mountId = some runtime.model.id) ↔ _
  constructor
  · rintro ⟨endpoint,found,same⟩
    rw [MountedUserStorage.resolveEndpoint] at found
    cases valid : validatePath (runtime.mapRuntimePath info.path) with
    | error error =>
      rw [valid] at found
      cases found
    | ok q =>
      refine ⟨q,rfl,?_⟩
      rw [valid] at found
      simp only [bind,Except.bind] at found
      cases taken : f.overlay.resolveRuntime q with
      | none =>
        rw [taken] at found
        cases found
        cases same
      | some pair =>
        obtain ⟨owner,rest⟩ := pair
        rw [taken] at found
        cases found
        have owns := MountedUserStorage.resolveRuntime_owner f.placed.rooted taken
        have equal : owner = runtime := sameId owns.member member (Option.some.inj same)
        rw [← equal]
        exact owns.innermost
  · rintro ⟨q,valid,innermost⟩
    have owns : Owns f.mounts runtime (normalizeDirPath q) := ⟨member,mapped_resolved normal valid,innermost⟩
    obtain ⟨rest,taken⟩ := MountedUserStorage.resolveRuntime_of_owns f.base f.placed.rooted f.placed.distinct owns
    refine ⟨⟨runtime.storage,rest,some runtime.model.id,rest == ['/']⟩,?_,rfl⟩
    change f.overlay.resolveRuntime q = _ at taken
    rw [MountedUserStorage.resolveEndpoint,valid]
    simp only [bind,Except.bind,taken]
    rfl

theorem contents_once (member : runtime ∈ f.mounts) {listing : List FileInfo}
    (part : listing.Sublist (f.trees runtime).entries) :
    ((listing.map (ofContent runtime)).map (·.info.path)).Nodup := by
  have apart : (listing.map fullPath).Nodup := (f.trees runtime).distinct.sublist (part.map fullPath)
  rw [List.map_map,List.Nodup,List.pairwise_map]
  rw [List.Nodup,List.pairwise_map] at apart
  exact apart.imp fun differs same => differs (mapped_injective (f.placed.normal runtime member) same)

/-! ### Inside a mount -/

theorem coherentAt_inMount (found : f.overlay.resolveRuntime path = some (runtime,remote)) :
    f.CoherentAt path ↔ f.ClearInMount runtime path remote := by
  have member := resolved_member found
  have listed : f.listReports path = ((f.trees runtime).list remote).map (ofContent runtime) := by
    rw [listReports,found]
  have allListed : f.listRecursiveReports path =
      ((f.trees runtime).listRecursive remote).map (ofContent runtime) := by
    rw [listRecursiveReports,found]
  have part := (f.trees runtime).list_sublist remote
  have whole := (f.trees runtime).listRecursive_sublist remote
  constructor
  · intro coherent
    refine ⟨?_,?_⟩
    · intro other here below
      by_contra strict
      have rooted := coherent.contained other here below strict (ofRoot other) List.mem_cons_self
      rw [allListed] at rooted
      obtain ⟨info,-,same⟩ := List.mem_map.mp rooted
      have origin := congrArg Report.origin same
      cases origin
    · intro info present
      have reported : ofContent runtime info ∈ f.listReports path ++ f.listRecursiveReports path := by
        rw [allListed]
        exact List.mem_append_right _ (List.mem_map_of_mem present)
      rcases coherent.resolved _ reported with root | resolves
      · exact .inl root
      · exact .inr ((resolvesTo_ofContent member).mp resolves)
  · rintro ⟨alone,routed⟩
    refine ⟨?_,?_,?_,?_⟩
    · rw [listed]
      exact contents_once member (part.trans whole)
    · rw [allListed]
      exact contents_once member whole
    · intro report reported
      have present : ∃ info ∈ (f.trees runtime).listRecursive remote, ofContent runtime info = report := by
        rw [listed,allListed,List.mem_append] at reported
        rcases reported with near | all
        · obtain ⟨info,inside,same⟩ := List.mem_map.mp near
          exact ⟨info,part.subset inside,same⟩
        · exact List.mem_map.mp all
      obtain ⟨info,inside,same⟩ := present
      rw [← same]
      rcases routed info inside with root | innermost
      · exact .inl root
      · exact .inr ((resolvesTo_ofContent member).mpr innermost)
    · intro other here below strict
      exact absurd (alone other here below) strict

/-! ### Outside the mounts -/

/-- The paths that a mount adds to a listing from above it. -/
def mountPaths (f : MountedTrees σ ω) (runtime : MountRuntime σ ω) : List Text :=
  (f.mountReports runtime).map (·.info.path)

theorem mem_mountPaths {p : Text} : p ∈ f.mountPaths runtime ↔
    p = runtime.model.mountDir ∨
      ∃ info ∈ (f.trees runtime).listRecursive ['/'], runtime.mapRuntimePath info.path = p := by
  rw [mountPaths,mountReports,List.map_cons,List.mem_cons,List.map_map,List.mem_map]
  rfl

theorem mountPaths_within (member : runtime ∈ f.mounts) {p : Text} (listed : p ∈ f.mountPaths runtime) :
    isPathWithin p runtime.model.mountDir = true := by
  rcases mem_mountPaths.mp listed with root | ⟨info,-,same⟩
  · rw [root]
    exact isPathWithin_self _
  · rw [← same]
    exact mapped_within (f.placed.normal runtime member) info.path

section inBase
variable (found : f.overlay.resolveRuntime path = none)
include found

theorem listRecursive_paths : (f.listRecursiveReports path).map (·.info.path) =
    (f.baseTree.listRecursive path).map (·.path) ++ (f.overlay.descendantMounts path).flatMap f.mountPaths := by
  rw [listRecursiveReports,found]
  dsimp only
  rw [List.map_append,List.map_map,List.map_flatMap]
  rfl

theorem list_paths : (f.listReports path).map (·.info.path) =
    (f.baseTree.list path).map (·.path) ++ (f.overlay.directMountChildren path).map (·.model.mountDir) := by
  rw [listReports,found]
  dsimp only
  rw [List.map_append,List.map_map,List.map_map]
  rfl

omit found in
theorem mem_descendantMounts : runtime ∈ f.overlay.descendantMounts path ↔
    runtime ∈ f.mounts ∧ isPathWithin runtime.model.mountDir (normalizeDirPath path) = true := by
  rw [MountedUserStorage.descendantMounts,List.mem_filter,mem_overlay]

theorem clear_of_coherent (coherent : f.CoherentAt path) : f.ClearInBase path := by
  have once := coherent.allListedOnce
  rw [listRecursive_paths found,List.nodup_append] at once
  obtain ⟨-,mounted,apart⟩ := once
  obtain ⟨each,across⟩ := List.nodup_flatMap.mp mounted
  have reported : f.listRecursiveReports path = (f.baseTree.listRecursive path).map ofBase ++
      (f.overlay.descendantMounts path).flatMap f.mountReports := by
    rw [listRecursiveReports,found]
  have resolved {report : Report σ ω} (present : report ∈ f.listRecursiveReports path) :
      f.IsMountRoot report.info.path ∨ f.ResolvesTo report :=
    coherent.resolved report (List.mem_append_right _ present)
  refine ⟨?_,?_⟩
  · intro info present
    have member : ofBase info ∈ f.listRecursiveReports path := by
      rw [reported]
      exact List.mem_append_left _ (List.mem_map_of_mem present)
    rcases resolved member with ⟨runtime,here,same⟩ | resolves
    · -- The root of that mount is listed too.
      obtain ⟨kept,inside⟩ := Tree.listed_inside present
      have below : isPathWithin runtime.model.mountDir (normalizeDirPath path) = true := by
        rw [← same]
        change isPathWithin info.path _ = true
        rw [(f.absolute info kept).1]
        exact inside
      have rooted : runtime.model.mountDir ∈ (f.overlay.descendantMounts path).flatMap f.mountPaths :=
        List.mem_flatMap.mpr ⟨runtime,mem_descendantMounts.mpr ⟨here,below⟩,mem_mountPaths.mpr (.inl rfl)⟩
      exact absurd same (apart _ (List.mem_map_of_mem present) _ rooted)
    · exact resolvesTo_ofBase.mp resolves
  · intro runtime here below info present
    have descends := mem_descendantMounts.mpr ⟨here,below⟩
    have moved : runtime.mapRuntimePath info.path ≠ runtime.model.mountDir := by
      intro same
      have single := each runtime descends
      rw [mountPaths,mountReports,List.map_cons,List.nodup_cons] at single
      apply single.1
      rw [List.map_map]
      exact List.mem_map.mpr ⟨info,present,same⟩
    refine ⟨moved,?_⟩
    have member : ofContent runtime info ∈ f.listRecursiveReports path := by
      rw [reported]
      apply List.mem_append_right
      exact List.mem_flatMap.mpr ⟨runtime,descends,List.mem_cons_of_mem _ (List.mem_map_of_mem present)⟩
    rcases resolved member with ⟨other,here',same⟩ | resolves
    · -- A mount at the path of the entry is listed on its own.
      change runtime.mapRuntimePath info.path = other.model.mountDir at same
      have inside : isPathWithin other.model.mountDir runtime.model.mountDir = true := by
        rw [← same]
        exact mapped_within (f.placed.normal runtime here) info.path
      have below' := isPathWithin_trans (f.placed.rooted other here') inside below
      have differs : runtime ≠ other := by
        rintro rfl
        exact moved same
      have symmetric : Std.Symm (Function.onFun List.Disjoint f.mountPaths) :=
        ⟨fun _ _ given => List.Disjoint.symm given⟩
      have disjoint := across.forall descends (mem_descendantMounts.mpr ⟨here',below'⟩) differs
      have shown : other.model.mountDir ∈ f.mountPaths runtime := mem_mountPaths.mpr (.inr ⟨info,present,same⟩)
      exact (disjoint shown (mem_mountPaths.mpr (.inl rfl))).elim
    · exact (resolvesTo_ofContent here).mp resolves

omit found in
/-- An entry outside the mounts has none of their paths. -/
theorem unmounted_apart {info : FileInfo} (kept : info ∈ f.baseTree.entries) (outside : f.Unmounted info.path)
    (member : runtime ∈ f.mounts) : isPathWithin info.path runtime.model.mountDir = false := by
  obtain ⟨q,valid,apart⟩ := outside
  have normal := (f.absolute info kept).2
  have same := validatePath_spelled valid
  have away := apart runtime member
  rw [same,normal.spelled,normal.trimmed] at away
  exact away

theorem coherent_of_clear (clear : f.ClearInBase path) : f.CoherentAt path := by
  obtain ⟨unmounted,innermost⟩ := clear
  have basePaths : ((f.baseTree.listRecursive path).map (·.path)).Nodup := by
    have apart := f.baseTree.distinct.sublist ((f.baseTree.listRecursive_sublist path).map fullPath)
    have same : (f.baseTree.listRecursive path).map (·.path) = (f.baseTree.listRecursive path).map fullPath := by
      apply List.map_congr_left
      intro info present
      exact (f.absolute info (Tree.listed_inside present).1).1
    rw [same]
    exact apart
  have away {info : FileInfo} {runtime : MountRuntime σ ω} (present : info ∈ f.baseTree.listRecursive path)
      (member : runtime ∈ f.mounts) :
      isPathWithin info.path runtime.model.mountDir = false :=
    unmounted_apart (Tree.listed_inside present).1 (unmounted info present) member
  have part := f.baseTree.list_sublist path
  refine ⟨?_,?_,?_,?_⟩
  · rw [list_paths found,List.nodup_append]
    refine ⟨basePaths.sublist (part.map _),?_,?_⟩
    · rw [List.Nodup,List.pairwise_map]
      have distinct := (f.placed.perm (MountedUserStorage.new_perm f.base f.mounts)).distinct
      exact distinct.sublist List.filter_sublist
    · intro p listed p' rooted same
      obtain ⟨info,present,here⟩ := List.mem_map.mp listed
      obtain ⟨runtime,child,there⟩ := List.mem_map.mp rooted
      have outside := away (part.subset present) (mem_overlay.mp (List.mem_filter.mp child).1)
      rw [here,same,← there,isPathWithin_self] at outside
      cases outside
  · rw [listRecursive_paths found,List.nodup_append,List.nodup_flatMap]
    refine ⟨basePaths,⟨?_,?_⟩,?_⟩
    · intro runtime descends
      obtain ⟨member,below⟩ := mem_descendantMounts.mp descends
      rw [mountPaths,mountReports,List.map_cons,List.nodup_cons]
      refine ⟨?_,contents_once member ((f.trees runtime).listRecursive_sublist ['/'])⟩
      intro listed
      rw [List.map_map] at listed
      obtain ⟨info,present,same⟩ := List.mem_map.mp listed
      exact (innermost runtime member below info present).1 same
    · -- An entry in two mounts would have each of them around the other.
      have distinct := (f.placed.perm (MountedUserStorage.new_perm f.base f.mounts)).distinct
      have descending := distinct.sublist (List.filter_sublist (p := fun runtime =>
        isPathWithin runtime.model.mountDir (normalizeDirPath path)))
      refine List.Pairwise.imp_of_mem ?_ descending
      intro a b here here' differs p listed listed'
      have around {runtime other : MountRuntime σ ω} (descends : runtime ∈ f.overlay.descendantMounts path)
          (descends' : other ∈ f.overlay.descendantMounts path) (listed : p ∈ f.mountPaths runtime)
          (listed' : p ∈ f.mountPaths other) : isPathWithin runtime.model.mountDir other.model.mountDir = true := by
        obtain ⟨member,below⟩ := mem_descendantMounts.mp descends
        obtain ⟨member',below'⟩ := mem_descendantMounts.mp descends'
        have inside := mountPaths_within member' listed'
        rcases mem_mountPaths.mp listed with root | ⟨info,present,same⟩
        · rw [← root]
          exact inside
        · obtain ⟨-,q,valid,inner⟩ := innermost runtime member below info present
          apply inner other member'
          rw [same] at valid
          have normal := f.placed.normal other member'
          have shown : isPathWithin q (normalizeDirPath other.model.mountDir) = true := by
            rw [normal.trimmed,validatePath_spelled valid]
            exact spelled_within normal inside
          have resolved := normalizeDirPath_within shown
          rw [normal.trimmed] at resolved
          exact resolved
      have normal (runtime : MountRuntime σ ω) (descends : runtime ∈ f.overlay.descendantMounts path) :=
        f.placed.normal runtime (mem_descendantMounts.mp descends).1
      exact differs (isPathWithin_antisymm (normal a here).leading (normal b here').leading (around here here' listed listed')
        (around here' here listed' listed))
    · intro p listed p' mounted same
      obtain ⟨info,present,here⟩ := List.mem_map.mp listed
      obtain ⟨runtime,descends,there⟩ := List.mem_flatMap.mp mounted
      have member := (mem_descendantMounts.mp descends).1
      have outside := away present member
      rw [here,same,mountPaths_within member there] at outside
      cases outside
  · intro report reported
    rw [List.mem_append,listReports,listRecursiveReports,found] at reported
    dsimp only at reported
    rw [List.mem_append,List.mem_append] at reported
    rcases reported with (near | child) | (all | mounted)
    · obtain ⟨info,present,same⟩ := List.mem_map.mp near
      rw [← same]
      exact .inr (resolvesTo_ofBase.mpr (unmounted info (part.subset present)))
    · obtain ⟨runtime,inside,same⟩ := List.mem_map.mp child
      rw [← same]
      exact .inl ⟨runtime,mem_overlay.mp (List.mem_filter.mp inside).1,rfl⟩
    · obtain ⟨info,present,same⟩ := List.mem_map.mp all
      rw [← same]
      exact .inr (resolvesTo_ofBase.mpr (unmounted info present))
    · obtain ⟨runtime,descends,inside⟩ := List.mem_flatMap.mp mounted
      obtain ⟨member,below⟩ := mem_descendantMounts.mp descends
      rw [mountReports,List.mem_cons] at inside
      rcases inside with root | content
      · rw [root]
        exact .inl ⟨runtime,member,rfl⟩
      · obtain ⟨info,present,same⟩ := List.mem_map.mp content
        rw [← same]
        exact .inr ((resolvesTo_ofContent member).mpr (innermost runtime member below info present).2)
  · intro runtime member below strict report inside
    rw [listRecursiveReports,found]
    apply List.mem_append_right
    exact List.mem_flatMap.mpr ⟨runtime,mem_descendantMounts.mpr ⟨member,below⟩,inside⟩

end inBase

/-- The overlay answers with the reports, and these are coherent exactly where the
listed directory is clear. -/
theorem coherent_iff (f : MountedTrees σ ω) (path : Text) :
    (∀ q w cs, validatePath path = .ok q →
      (∃ entries, f.overlay.list path w cs = .done entries w cs ∧
        entries.Perm ((f.listReports q).map (·.info))) ∧
      f.overlay.listRecursive path w cs = .done ((f.listRecursiveReports q).map (·.info)) w cs) ∧
    (f.Coherent path ↔ f.Clear path) := by
  refine ⟨fun q w cs valid => ⟨list_reports valid,listRecursive_reports valid⟩,?_⟩
  have resolver (q : Text) : f.overlay.resolveRuntime q = none ↔
      ∀ runtime ∈ f.mounts, isPathWithin (normalizeDirPath q) runtime.model.mountDir = false :=
    MountedUserStorage.resolveRuntime_none_iff
  constructor
  · intro coherent q valid
    refine ⟨?_,?_⟩
    · intro runtime remote owns taken
      obtain ⟨rest,found⟩ := MountedUserStorage.resolveRuntime_of_owns f.base f.placed.rooted f.placed.distinct owns
      have same : rest = remote := by
        obtain ⟨-,a,-,-,taken',-⟩ := List.findSome?_eq_some_iff.mp found
        obtain ⟨rest',there,pair⟩ := Option.map_eq_some_iff.mp taken'
        cases pair
        rw [taken] at there
        exact (Option.some.inj there).symm
      rw [same] at found
      exact (coherentAt_inMount found).mp (coherent q valid)
    · exact fun outside => clear_of_coherent ((resolver q).mpr outside) (coherent q valid)
  · intro clear q valid
    cases found : f.overlay.resolveRuntime q with
    | none => exact coherent_of_clear found ((clear q valid).inBase ((resolver q).mp found))
    | some pair =>
      obtain ⟨runtime,remote⟩ := pair
      have owns := MountedUserStorage.resolveRuntime_owner f.placed.rooted found
      have taken : runtime.remotePath (normalizeDirPath q) = some remote := by
        obtain ⟨-,a,-,-,taken',-⟩ := List.findSome?_eq_some_iff.mp found
        obtain ⟨rest',there,pair⟩ := Option.map_eq_some_iff.mp taken'
        cases pair
        exact there
      exact (coherentAt_inMount found).mpr ((clear q valid).inMount runtime remote owns taken)

/-! ### A shadowed entry and a nested mount -/

/-- A storage that lists a tree and does nothing else. -/
def treeStorage (t : Tree) : VfsStorage Unit Unit where
  read := fun path => Effect.fail (.notFound path)
  write := fun path _ => Effect.fail (.notFound path)
  readStream := fun path => Effect.fail (.notFound path)
  writeStream := fun path _ => Effect.fail (.notFound path)
  exists_ := fun path => pure (t.entries.any fun info => fullPath info == path)
  stat := fun path => Effect.fail (.notFound path)
  list := fun path => pure (t.list path)
  listRecursive := fun path => pure (t.listRecursive path)
  createDirAll := fun path => Effect.fail (.notFound path)
  delete := fun path => Effect.fail (.notFound path)
  moveFile := fun path _ => Effect.fail (.notFound path)

theorem treeStorage_behind (t : Tree) : t.Behind (treeStorage t) := ⟨fun _ _ _ => rfl,fun _ _ _ => rfl⟩

def treeOf (path : Text) : Tree :=
  ⟨[toFileInfo path ⟨false,1,none⟩],false,by rw [List.map_singleton]; exact List.nodup_singleton _⟩

def treeMount (id dir path : Text) : MountRuntime Unit Unit := ⟨⟨id,dir,none,0⟩,treeStorage (treeOf path)⟩

/-- A base with a file where a mount is, and a mount inside that mount. -/
def nestedTrees : MountedTrees Unit Unit where
  base := treeStorage (treeOf "/m/f".toList)
  mounts := [treeMount "1".toList "/m".toList "/g".toList,treeMount "2".toList "/m/n".toList "/g".toList]
  baseTree := treeOf "/m/f".toList
  trees := fun _ => treeOf "/g".toList
  placed := ⟨by decide +kernel,by decide +kernel⟩
  ids := by decide +kernel
  baseBehind := treeStorage_behind _
  behind := by
    intro runtime member
    rw [List.mem_cons,List.mem_singleton] at member
    rcases member with same | same
    · rw [same]
      exact treeStorage_behind _
    · rw [same]
      exact treeStorage_behind _
  absolute := by decide +kernel

/-- From above, the file of the base is listed where the resolver goes to the
mount; from inside the outer mount the inner one is not listed. -/
theorem overlay_mixes_listings : ¬nestedTrees.Coherent "/".toList ∧ ¬nestedTrees.Coherent "/m".toList := by
  constructor
  · intro coherent
    have found : nestedTrees.overlay.resolveRuntime "/".toList = none :=
      MountedUserStorage.resolveRuntime_none_iff.mpr (by decide +kernel)
    have unmounted := (clear_of_coherent found (coherent "/".toList (by decide +kernel))).1
    obtain ⟨q,valid,outside⟩ := unmounted (toFileInfo "/m/f".toList ⟨false,1,none⟩) (by decide +kernel)
    have written : q = "/m/f".toList := validatePath_spelled valid
    rw [written] at outside
    revert outside
    decide +kernel
  · intro coherent
    have owns : Owns nestedTrees.mounts (treeMount "1".toList "/m".toList "/g".toList)
        (normalizeDirPath "/m".toList) :=
      ⟨List.mem_cons_self,by decide +kernel,by decide +kernel⟩
    obtain ⟨remote,found⟩ := MountedUserStorage.resolveRuntime_of_owns nestedTrees.base nestedTrees.placed.rooted nestedTrees.placed.distinct owns
    have alone := ((coherentAt_inMount found).mp (coherent "/m".toList (by decide +kernel))).1
    have same := alone (treeMount "2".toList "/m/n".toList "/g".toList) (List.mem_cons_of_mem _ List.mem_cons_self)
      (by decide +kernel)
    revert same
    decide +kernel

end MountedTrees
end StorageHub.Mounts
