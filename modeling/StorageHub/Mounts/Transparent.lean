import StorageHub.Mounts.RemoteStorage
import StorageHub.Mounts.Routing

/-! Where no mount is near, the overlay stands for the storage under it. -/
namespace StorageHub.Mounts
open Library WriteCache Paths Scoped

/-! ### What the validator of the base accepts -/

/-- What the storage accepts has no control characters. -/
theorem validateFileOperation_plain {decode : Text → Option Text} {path accepted : Text}
    (valid : validateFileOperation decode path = .ok accepted) : path.any isControl = false := by
  have control := (validateFileOperation_ok.mp valid).1
  have whole : (withLeadingSlash path).any isControl = path.any isControl := by
    unfold withLeadingSlash
    split
    · rfl
    · rw [List.any_cons,isControl_slash,Bool.false_or]
  rw [← whole]
  exact control

/-- Of what the storage accepts the overlay refuses what has two dots in a row. -/
theorem validatePath_of_accepted {decode : Text → Option Text} {path accepted : Text}
    (valid : validateFileOperation decode path = .ok accepted) :
    (∃ q, validatePath path = .ok q) ↔ Text.contains "..".toList (spelled path) = false := by
  have plain := validateFileOperation_plain valid
  rw [validatePath,if_neg (by rw [plain]; exact Bool.false_ne_true)]
  constructor
  · rintro ⟨q,accepted'⟩
    rw [Bool.eq_false_iff]
    intro dots
    rw [if_pos dots] at accepted'
    cases accepted'
  · intro noDots
    rw [if_neg (by rw [noDots]; exact Bool.false_ne_true)]
    exact ⟨spelled path,rfl⟩

/-! ### The overlay away from its mounts -/

namespace MountedUserStorage
variable {σ ω : Type} {s : MountedUserStorage σ ω} {path q : Text}

theorem resolveEndpoint_refused {error : VfsError} (refused : validatePath path = .error error) :
    s.resolveEndpoint path = .error error := by
  rw [resolveEndpoint,refused]
  rfl

theorem resolveEndpoint_outside (outside : Outside s.mounts (spelled path)) (valid : validatePath path = .ok q) :
    s.resolveEndpoint path = .ok ⟨s.base,q,none,false⟩ := by
  have same := validatePath_spelled valid
  subst same
  rw [resolveEndpoint,valid]
  simp only [bind,Except.bind,resolveRuntime_outside outside]
  rfl

/-- The information of the base is shown as it is. -/
theorem shownInfo_base (info : FileInfo) : s.shownInfo none info = info := rfl

section accepted
variable (outside : Outside s.mounts (spelled path)) (valid : validatePath path = .ok q)
include outside valid

theorem read_outside : s.read path = s.base.read q := by
  rw [read,resolveEndpoint_outside outside valid]
  funext w cs
  change (s.base.read q >>= fun answer => pure (answer.1,s.shownInfo none answer.2)) w cs = _
  simp only [shownInfo_base,Prod.mk.eta,bind_pure]

theorem write_outside (data : Bytes) : s.write path data = s.base.write q data := by
  rw [write,resolveEndpoint_outside outside valid]
  change (s.base.write q data >>= fun info => pure (s.shownInfo none info)) = _
  simp only [shownInfo_base,bind_pure]

theorem delete_outside : s.delete path = s.base.delete q := by
  rw [delete,resolveEndpoint_outside outside valid]
  change (s.base.delete q >>= fun info => pure (s.shownInfo none info)) = _
  simp only [shownInfo_base,bind_pure]

theorem exists_outside : s.exists_ path = s.base.exists_ q := by
  rw [exists_,resolveEndpoint_outside outside valid]
  rfl

theorem list_outside :
    s.list path = (do
      let entries ← orDefault (s.base.list q)
      pure (entries.mergeSort nameLe)) := by
  have same := validatePath_spelled valid
  subst same
  rw [list,valid,Effect.ofExcept_ok,pure_bind,resolveRuntime_outside outside]
  dsimp only
  rw [mergeLocalListing,directMountChildren_outside outside]
  simp only [List.map_nil,List.append_nil]

theorem listRecursive_outside : s.listRecursive path = orDefault (s.base.listRecursive q) := by
  have same := validatePath_spelled valid
  subst same
  rw [listRecursive,valid,Effect.ofExcept_ok,pure_bind,resolveRuntime_outside outside]
  dsimp only
  rw [descendantMounts_outside outside]
  change (orDefault (s.base.listRecursive (spelled path)) >>= fun entries => pure (entries ++ [])) = _
  simp only [List.append_nil,bind_pure]

end accepted

end MountedUserStorage

/-! ### Exactly when -/

section transparency
variable {σ ω : Type}

/-- Every call through the overlay ends as the call of the base does. -/
structure Transparent (s : MountedUserStorage σ ω) (fuel : Nat) (path dst : Text) (w : σ)
    (cs : List (Choice ω)) : Prop where
  read : s.read path w cs = s.base.read path w cs
  write : ∀ data, s.write path data w cs = s.base.write path data w cs
  exists_ : s.exists_ path w cs = s.base.exists_ path w cs
  delete : s.delete path w cs = s.base.delete path w cs
  list : s.list path w cs = s.base.list path w cs
  listRecursive : s.listRecursive path w cs = s.base.listRecursive path w cs
  moveFile : s.moveFile fuel path dst w cs = s.base.moveFile path dst w cs

/-- Every call about a path fails with the error and changes nothing. -/
structure Refuses (base : VfsStorage σ ω) (path dst : Text) (error : VfsError) (w : σ)
    (cs : List (Choice ω)) : Prop where
  read : base.read path w cs = .failed error w cs
  write : ∀ data, base.write path data w cs = .failed error w cs
  exists_ : base.exists_ path w cs = .failed error w cs
  delete : base.delete path w cs = .failed error w cs
  list : base.list path w cs = .failed error w cs
  listRecursive : base.listRecursive path w cs = .failed error w cs
  moveFile : base.moveFile path dst w cs = .failed error w cs

/-- A listing with the failures taken out. -/
def unfailing {α : Type} : Outcome σ ω VfsError (List α) → Outcome σ ω VfsError (List α)
  | .failed _ w rest => .done [] w rest
  | outcome => outcome

/-- A listing in the order of names. -/
def inNameOrder : Outcome σ ω VfsError (List FileInfo) → Outcome σ ω VfsError (List FileInfo)
  | .done entries w rest => .done (entries.mergeSort MountedUserStorage.nameLe) w rest
  | outcome => outcome

/-- What the base says of `q` is what it says of `path`, and its listings are in
order and do not fail. -/
structure Speaks (base : VfsStorage σ ω) (path q : Text) (w : σ) (cs : List (Choice ω)) : Prop where
  read : base.read q w cs = base.read path w cs
  write : ∀ data, base.write q data w cs = base.write path data w cs
  exists_ : base.exists_ q w cs = base.exists_ path w cs
  delete : base.delete q w cs = base.delete path w cs
  list : base.list path w cs = inNameOrder (unfailing (base.list q w cs))
  listRecursive : base.listRecursive path w cs = unfailing (base.listRecursive q w cs)

/-- When a storage behaves under a path and a target as the overlay shows it. -/
structure Fits (base : VfsStorage σ ω) (path dst : Text) (w : σ) (cs : List (Choice ω)) : Prop where
  refused : ∀ error, validatePath path = .error error → Refuses base path dst error w cs
  accepted : ∀ q, validatePath path = .ok q → Speaks base path q w cs
  target : ∀ q error, validatePath path = .ok q → validatePath dst = .error error →
    base.moveFile path dst w cs = .failed error w cs

/-- The listings of a path do not fail, and the flat one is in the order of
names. -/
structure Steady (base : VfsStorage σ ω) (path : Text) (w : σ) (cs : List (Choice ω)) : Prop where
  listed : ∀ error w' rest, base.list path w cs ≠ .failed error w' rest
  ordered : ∀ entries w' rest, base.list path w cs = .done entries w' rest →
    entries.Pairwise fun a b => MountedUserStorage.nameLe a b = true
  listedAll : ∀ error w' rest, base.listRecursive path w cs ≠ .failed error w' rest

theorem nameLe_pairwise (entries : List FileInfo) :
    (entries.mergeSort MountedUserStorage.nameLe).Pairwise fun a b => MountedUserStorage.nameLe a b = true := by
  apply List.pairwise_mergeSort
  · intro a b c before after
    exact Std.TransOrd.isLE_trans before after
  · intro a b
    rw [Bool.or_eq_true,MountedUserStorage.nameLe,MountedUserStorage.nameLe]
    rcases ordered : compare a.name b.name with _ | _ | _
    · exact .inl rfl
    · exact .inl rfl
    · right
      have swapped : compare b.name a.name = (compare a.name b.name).swap := Std.OrientedCmp.eq_swap
      rw [swapped,ordered]
      rfl

theorem unfailing_same {α : Type} {outcome : Outcome σ ω VfsError (List α)} :
    outcome = unfailing outcome ↔ ∀ error w' rest, outcome ≠ .failed error w' rest := by
  cases outcome with
  | done entries w' rest => simp [unfailing]
  | failed error w' rest => simp [unfailing]
  | crashed w' => simp [unfailing]

/-- For a path as the overlay spells it only the listings matter. -/
theorem speaks_iff_steady {base : VfsStorage σ ω} {path : Text} {w : σ} {cs : List (Choice ω)} :
    Speaks base path path w cs ↔ Steady base path w cs := by
  constructor
  · intro speaks
    have flat := speaks.list
    refine ⟨?_,?_,unfailing_same.mp speaks.listRecursive⟩
    · intro error w' rest failed
      rw [failed] at flat
      cases flat
    · intro entries w' rest done
      rw [done] at flat
      injection flat with sorted
      rw [sorted]
      exact nameLe_pairwise entries
  · intro steady
    refine ⟨rfl,fun _ => rfl,rfl,rfl,?_,unfailing_same.mpr steady.listedAll⟩
    rw [← unfailing_same.mpr steady.listed]
    cases listed : base.list path w cs with
    | done entries w' rest =>
      rw [inNameOrder,List.mergeSort_of_pairwise (steady.ordered entries w' rest listed)]
    | failed error w' rest => rfl
    | crashed w' => rfl

end transparency

namespace MountedUserStorage
variable {σ ω : Type} {s : MountedUserStorage σ ω} {path dst q : Text} {w : σ} {cs : List (Choice ω)}

theorem orDefault_apply {α : Type} (m : Effect σ ω VfsError (List α)) : orDefault m w cs = unfailing (m w cs) := by
  rw [orDefault,Effect.bind_apply,Effect.attempt]
  cases m w cs with
  | done entries w' rest => rfl
  | failed error w' rest => rfl
  | crashed w' => rfl

theorem list_shown (w : σ) (cs : List (Choice ω)) (outside : Outside s.mounts (spelled path)) (valid : validatePath path = .ok q) :
    s.list path w cs = inNameOrder (unfailing (s.base.list q w cs)) := by
  rw [list_outside outside valid,Effect.bind_apply,orDefault_apply]
  cases s.base.list q w cs with
  | done entries w' rest => rfl
  | failed error w' rest => rfl
  | crashed w' => rfl

/-- A path the overlay refuses it refuses in every call. -/
theorem refused_everywhere {fuel : Nat} {error : VfsError} (refused : validatePath path = .error error) :
    Transparent s fuel path dst w cs ↔ Refuses s.base path dst error w cs := by
  have endpoint := resolveEndpoint_refused (s := s) refused
  have reads : s.read path w cs = .failed error w cs := by rw [read,endpoint]; rfl
  have writes (data : Bytes) : s.write path data w cs = .failed error w cs := by rw [write,endpoint]; rfl
  have present : s.exists_ path w cs = .failed error w cs := by rw [exists_,endpoint]; rfl
  have deletes : s.delete path w cs = .failed error w cs := by rw [delete,endpoint]; rfl
  have lists : s.list path w cs = .failed error w cs := by rw [list,refused]; rfl
  have listsAll : s.listRecursive path w cs = .failed error w cs := by rw [listRecursive,refused]; rfl
  have moves : s.moveFile fuel path dst w cs = .failed error w cs := by rw [moveFile,endpoint]; rfl
  constructor
  · intro same
    exact ⟨reads ▸ same.read.symm,fun data => writes data ▸ (same.write data).symm,present ▸ same.exists_.symm,
      deletes ▸ same.delete.symm,lists ▸ same.list.symm,listsAll ▸ same.listRecursive.symm,
      moves ▸ same.moveFile.symm⟩
  · intro refuses
    exact ⟨reads.trans refuses.read.symm,fun data => (writes data).trans (refuses.write data).symm,
      present.trans refuses.exists_.symm,deletes.trans refuses.delete.symm,lists.trans refuses.list.symm,
      listsAll.trans refuses.listRecursive.symm,moves.trans refuses.moveFile.symm⟩

section accepted
variable (outside : Outside s.mounts (spelled path)) (valid : validatePath path = .ok q)
include outside valid

/-- A move passes both paths on as they are written, once both are accepted. -/
theorem moveFile_same (fuel : Nat) (w : σ) (cs : List (Choice ω)) (outside' : Outside s.mounts (spelled dst)) :
    s.moveFile fuel path dst w cs = s.base.moveFile path dst w cs ↔
      ∀ error, validatePath dst = .error error → s.base.moveFile path dst w cs = .failed error w cs := by
  cases target : validatePath dst with
  | ok q' =>
    have passed : s.moveFile fuel path dst = s.base.moveFile path dst := by
      rw [moveFile,resolveEndpoint_outside outside valid,resolveEndpoint_outside outside' target]
      rfl
    rw [passed]
    exact ⟨fun _ _ refused => (by cases refused),fun _ => rfl⟩
  | error error =>
    have stopped : s.moveFile fuel path dst w cs = .failed error w cs := by
      rw [moveFile,resolveEndpoint_outside outside valid,resolveEndpoint_refused target]
      rfl
    rw [stopped]
    constructor
    · rintro same error' ⟨⟩
      exact same.symm
    · exact fun refuses => (refuses error rfl).symm

theorem accepted_everywhere {fuel : Nat} (outside' : Outside s.mounts (spelled dst)) :
    Transparent s fuel path dst w cs ↔
      Speaks s.base path q w cs ∧
        ∀ error, validatePath dst = .error error → s.base.moveFile path dst w cs = .failed error w cs := by
  have lists := list_shown w cs outside valid
  have listsAll : s.listRecursive path w cs = unfailing (s.base.listRecursive q w cs) := by
    rw [listRecursive_outside outside valid,orDefault_apply]
  have moves := moveFile_same outside valid fuel w cs outside'
  constructor
  · intro same
    refine ⟨⟨?_,?_,?_,?_,?_,?_⟩,moves.mp same.moveFile⟩
    · rw [← same.read,read_outside outside valid]
    · intro data
      rw [← same.write data,write_outside outside valid]
    · rw [← same.exists_,exists_outside outside valid]
    · rw [← same.delete,delete_outside outside valid]
    · rw [← same.list,lists]
    · rw [← same.listRecursive,listsAll]
  · rintro ⟨speaks,refuses⟩
    refine ⟨?_,?_,?_,?_,?_,?_,moves.mpr refuses⟩
    · rw [read_outside outside valid,speaks.read]
    · intro data
      rw [write_outside outside valid,speaks.write data]
    · rw [exists_outside outside valid,speaks.exists_]
    · rw [delete_outside outside valid,speaks.delete]
    · rw [lists,speaks.list]
    · rw [listsAll,speaks.listRecursive]

end accepted

/-- Away from its mounts the overlay stands for its base exactly where the base
refuses what the overlay's validator refuses, with the same error, speaks of a
path and of its spelling with slashes alike, and lists without failing and in
the order of names. For a path spelled that way only the listings matter; and
of the paths that the validator of a scoped storage accepts the overlay
refuses those with two dots in a row. -/
theorem transparent_iff (s : MountedUserStorage σ ω) (fuel : Nat) (path dst : Text) (w : σ)
    (cs : List (Choice ω)) (outside : Outside s.mounts (spelled path)) (outside' : Outside s.mounts (spelled dst)) :
    (Transparent s fuel path dst w cs ↔ Fits s.base path dst w cs) ∧
      (Speaks s.base path path w cs ↔ Steady s.base path w cs) ∧
        ∀ decode accepted, validateFileOperation decode path = .ok accepted →
          ((∃ q, validatePath path = .ok q) ↔ Text.contains "..".toList (spelled path) = false) := by
  refine ⟨?_,speaks_iff_steady,fun decode accepted => validatePath_of_accepted⟩
  cases valid : validatePath path with
  | error error =>
    rw [refused_everywhere valid]
    constructor
    · intro refuses
      refine ⟨?_,?_,?_⟩
      · intro error' same
        rw [valid] at same
        cases same
        exact refuses
      · intro q same
        rw [valid] at same
        cases same
      · intro q error' same
        rw [valid] at same
        cases same
    · exact fun fits => fits.refused error valid
  | ok q =>
    rw [accepted_everywhere outside valid outside']
    constructor
    · rintro ⟨speaks,refuses⟩
      refine ⟨?_,?_,?_⟩
      · intro error same
        rw [valid] at same
        cases same
      · intro q' same
        rw [valid] at same
        cases same
        exact speaks
      · exact fun _ error _ => refuses error
    · exact fun fits => ⟨fits.accepted q valid,fun error => fits.target q error valid⟩

/-- A bucket with a mount beside its paths. -/
def besideMount : MountedUserStorage Bucket (Option ErrorKind) :=
  new remoteStorage [⟨⟨"m".toList,"/mnt".toList,none,0⟩,remoteStorage⟩]

def dottedBucket : Bucket := Bucket.empty.write "/a..b".toList [1]

theorem transparent_beside_mount :
    (Transparent besideMount 0 "/docs".toList "/new".toList dottedBucket [] ↔
        Fits remoteStorage "/docs".toList "/new".toList dottedBucket []) ∧
      (Speaks remoteStorage "/docs".toList "/docs".toList dottedBucket [] ↔
          Steady remoteStorage "/docs".toList dottedBucket []) ∧
        ∀ decode accepted, validateFileOperation decode "/docs".toList = .ok accepted →
          ((∃ q, validatePath "/docs".toList = .ok q) ↔
            Text.contains "..".toList (spelled "/docs".toList) = false) :=
  transparent_iff besideMount 0 "/docs".toList "/new".toList dottedBucket [] (by decide +kernel)
    (by decide +kernel)

/-- A name with two dots is accepted by the validator of the base and read by
it, and refused by the overlay; a listing that fails for the base is empty for
the overlay. -/
theorem overlay_hides_dots_and_outage :
    Outside besideMount.mounts (spelled "/a..b".toList) ∧ Outside besideMount.mounts (spelled "/docs".toList) ∧
      validateFileOperation some "/a..b".toList = .ok "/a..b".toList ∧
        ¬Transparent besideMount 0 "/a..b".toList "/docs".toList dottedBucket [] ∧
          besideMount.list "/docs".toList dottedBucket [.proceed (some .unexpected)] = .done [] dottedBucket [] ∧
            ¬Transparent besideMount 0 "/docs".toList "/docs".toList dottedBucket [.proceed (some .unexpected)] := by
  have apart : Outside besideMount.mounts (spelled "/docs".toList) := by decide +kernel
  have failing : remoteStorage.list "/docs".toList dottedBucket [.proceed (some .unexpected)] =
      .failed (.openDal .unexpected) dottedBucket [] := rfl
  have hidden : besideMount.list "/docs".toList dottedBucket [.proceed (some .unexpected)] =
      .done [] dottedBucket [] := by
    have valid : validatePath "/docs".toList = .ok "/docs".toList := by decide +kernel
    rw [list_shown _ _ apart valid]
    change inNameOrder (unfailing (remoteStorage.list "/docs".toList dottedBucket _)) = _
    rw [failing,unfailing,inNameOrder,List.mergeSort_nil]
  refine ⟨by decide +kernel,apart,by decide +kernel,?_,hidden,?_⟩
  · intro same
    have stopped : (besideMount.read "/a..b".toList dottedBucket []).value? = none := by rfl
    have answered : (remoteStorage.read "/a..b".toList dottedBucket []).value?.isSome = true := by rfl
    have read := same.read
    change besideMount.read "/a..b".toList dottedBucket [] = remoteStorage.read "/a..b".toList dottedBucket [] at read
    rw [← read,stopped] at answered
    cases answered
  · intro same
    have list := same.list
    rw [hidden] at list
    cases list.trans failing

end MountedUserStorage

end StorageHub.Mounts
