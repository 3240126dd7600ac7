import StorageHub.Mounts.Routing

/-! The mount that a path belongs to. -/
namespace StorageHub.Mounts
open Library WriteCache Paths Scoped

/-! ### Mount directories -/

section directories
variable {a b path : Text}

/-- The normal form of a mount directory: one leading slash, none at the end
unless it is the root, and no backslash. -/
structure NormalDir (dir : Text) : Prop where
  spelled : spelled dir = dir
  trimmed : normalizeDirPath dir = dir

instance (dir : Text) : Decidable (NormalDir dir) :=
  decidable_of_iff (Mounts.spelled dir = dir ∧ normalizeDirPath dir = dir)
    ⟨fun both => ⟨both.1,both.2⟩,fun normal => ⟨normal.spelled,normal.trimmed⟩⟩

theorem isPathWithin_self (dir : Text) : isPathWithin dir dir = true :=
  isPathWithin_iff.mpr (.inr (Text.within_self dir))

def Rooted (dir : Text) : Prop := ∃ rest, dir = '/'::rest

theorem NormalDir.leading (normal : NormalDir a) : Rooted a := by
  obtain ⟨rest,written⟩ := normalizeLogicalPath_cases a
  have same := normal.spelled
  rw [Mounts.spelled,written,withSlashes,List.map_cons] at same
  exact ⟨_,same.symm⟩

/-- Of two directories with something in both one is in the other. -/
theorem isPathWithin_comparable (inside : isPathWithin path a = true) (inside' : isPathWithin path b = true) :
    isPathWithin a b = true ∨ isPathWithin b a = true := by
  rw [isPathWithin_iff] at inside inside' ⊢
  rw [isPathWithin_iff]
  rcases inside with root | under
  · exact .inr (.inl root)
  · rcases inside' with root | under'
    · exact .inl (.inl root)
    · rcases Text.within_comparable under under' with below | above
      · exact .inr (.inr below)
      · exact .inl (.inr above)

theorem byteLength_append (s t : Text) : Text.byteLength (s ++ t) = Text.byteLength s + Text.byteLength t := by
  rw [Text.byteLength,List.map_append,List.sum_append]
  rfl

theorem byteLength_slash (rest : Text) : 0 < Text.byteLength ('/'::rest) := by
  have counted : Text.byteLength ('/'::rest) = '/'.utf8Size + Text.byteLength rest := by simp [Text.byteLength]
  have positive : 0 < '/'.utf8Size := Char.utf8Size_pos '/'
  omega

/-- A directory inside another is the same or longer. -/
theorem isPathWithin_byteLength (rooted : Rooted a) (inside : isPathWithin a b = true) :
    a = b ∨ Text.byteLength b < Text.byteLength a := by
  obtain ⟨rest,leading⟩ := rooted
  rcases isPathWithin_iff.mp inside with root | under
  · rcases eq_or_ne a ['/'] with same | nested
    · exact .inl (same.trans root.symm)
    · right
      cases rest with
      | nil => exact absurd leading nested
      | cons c tail =>
        have size : Text.byteLength ('/'::c::tail) = Text.byteLength ['/'] + Text.byteLength (c::tail) :=
          byteLength_append ['/'] (c::tail)
        have more : Text.byteLength (c::tail) = c.utf8Size + Text.byteLength tail := by simp [Text.byteLength]
        have positive : 0 < c.utf8Size := c.utf8Size_pos
        rw [leading,root]
        omega
  · rcases Text.within_iff.mp under with same | ⟨tail,split⟩
    · exact .inl same
    · right
      have positive := byteLength_slash tail
      rw [split,byteLength_append]
      omega

theorem isPathWithin_trans {c : Text} (rooted : Rooted a) (inside : isPathWithin a b = true)
    (inside' : isPathWithin b c = true) : isPathWithin a c = true := by
  obtain ⟨start,leading⟩ := rooted
  rw [isPathWithin_iff] at inside inside' ⊢
  rcases inside' with root | under'
  · exact .inl root
  · rcases inside with root | under
    · rcases Text.within_iff.mp under' with same | ⟨rest,split⟩
      · exact .inl (same.symm.trans root)
      · right
        rw [root] at split
        have short := congrArg List.length split
        rw [List.length_append,List.length_cons,List.length_cons,List.length_nil] at short
        have empty : c = [] := List.length_eq_zero_iff.mp (by omega)
        rw [empty,leading]
        exact Text.within_append
    · right
      rcases Text.within_iff.mp under with same | ⟨rest,split⟩
      · rw [same]
        exact under'
      · rcases Text.within_iff.mp under' with same' | ⟨rest',split'⟩
        · rw [split,same']
          exact Text.within_append
        · rw [split,split',List.append_assoc]
          exact Text.within_append

theorem isPathWithin_antisymm (rooted : Rooted a) (rooted' : Rooted b)
    (inside : isPathWithin a b = true) (inside' : isPathWithin b a = true) : a = b := by
  rcases isPathWithin_byteLength rooted inside with same | longer
  · exact same
  · rcases isPathWithin_byteLength rooted' inside' with same | longer'
    · exact same.symm
    · omega

end directories

/-! ### Owners -/

section owners
variable {σ ω : Type} {mounts : List (MountRuntime σ ω)} {runtime : MountRuntime σ ω} {path : Text}

/-- A mount takes exactly the paths at or below its directory. -/
theorem MountRuntime.remotePath_isSome :
    (runtime.remotePath path).isSome = isPathWithin path runtime.model.mountDir := by
  rw [Bool.eq_iff_iff,isPathWithin_iff,remotePath]
  by_cases root : runtime.model.mountDir = ['/']
  · simp [root]
  · rw [if_neg root]
    by_cases same : path = runtime.model.mountDir
    · simp [same]
    · rw [if_neg same,Option.isSome_map,Text.within_iff]
      constructor
      · intro given
        obtain ⟨rest,filtered⟩ := Option.isSome_iff_exists.mp given
        obtain ⟨stripped,slash⟩ := Option.filter_eq_some_iff.mp filtered
        obtain ⟨tail,under⟩ := Text.startsWith_iff.mp slash
        exact .inr (.inr ⟨tail,by rw [Text.stripPrefix_some stripped,← under]; rfl⟩)
      · rintro (root' | same' | ⟨tail,split⟩)
        · exact absurd root' root
        · exact absurd same' same
        · rw [split,Text.stripPrefix_append]
          rfl

/-- The mount that a normalized path belongs to: the path lies in its directory,
and every other directory the path lies in is further up. -/
structure Owns (mounts : List (MountRuntime σ ω)) (runtime : MountRuntime σ ω) (path : Text) : Prop where
  member : runtime ∈ mounts
  inside : isPathWithin path runtime.model.mountDir = true
  innermost : ∀ other ∈ mounts, isPathWithin path other.model.mountDir = true →
    isPathWithin runtime.model.mountDir other.model.mountDir = true

/-- Mounts at distinct directories in normal form. -/
structure WellPlaced (mounts : List (MountRuntime σ ω)) : Prop where
  normal : ∀ runtime ∈ mounts, NormalDir runtime.model.mountDir
  distinct : mounts.Pairwise fun a b => a.model.mountDir ≠ b.model.mountDir

theorem sameMount (distinct : mounts.Pairwise fun a b => a.model.mountDir ≠ b.model.mountDir)
    {a b : MountRuntime σ ω} (here : a ∈ mounts) (here' : b ∈ mounts)
    (same : a.model.mountDir = b.model.mountDir) : a = b := by
  by_contra differs
  have symmetric : Std.Symm fun a b : MountRuntime σ ω => a.model.mountDir ≠ b.model.mountDir :=
    ⟨fun _ _ given => Ne.symm given⟩
  exact distinct.forall here here' differs same

theorem WellPlaced.same (placed : WellPlaced mounts) {a b : MountRuntime σ ω} (here : a ∈ mounts)
    (here' : b ∈ mounts) (same : a.model.mountDir = b.model.mountDir) : a = b :=
  sameMount placed.distinct here here' same

theorem WellPlaced.perm {mounts' : List (MountRuntime σ ω)} (placed : WellPlaced mounts)
    (same : mounts'.Perm mounts) : WellPlaced mounts' :=
  ⟨fun runtime member => placed.normal runtime (same.mem_iff.mp member),
    (same.pairwise_iff fun given => Ne.symm given).mpr placed.distinct⟩

theorem WellPlaced.rooted (placed : WellPlaced mounts) : ∀ runtime ∈ mounts, Rooted runtime.model.mountDir :=
  fun runtime member => (placed.normal runtime member).leading

theorem Owns.unique (rooted : ∀ runtime ∈ mounts, Rooted runtime.model.mountDir)
    (distinct : mounts.Pairwise fun a b => a.model.mountDir ≠ b.model.mountDir) {other : MountRuntime σ ω} (owns : Owns mounts runtime path)
    (owns' : Owns mounts other path) : other = runtime := by
  apply sameMount distinct owns'.member owns.member
  exact isPathWithin_antisymm (rooted _ owns'.member) (rooted _ owns.member)
    (owns'.innermost runtime owns.member owns.inside) (owns.innermost other owns'.member owns'.inside)

namespace MountedUserStorage
variable {base : VfsStorage σ ω}

theorem new_perm (base : VfsStorage σ ω) (mounts : List (MountRuntime σ ω)) : (new base mounts).mounts.Perm mounts :=
  List.mergeSort_perm _ _

theorem new_sorted (base : VfsStorage σ ω) (mounts : List (MountRuntime σ ω)) :
    (new base mounts).mounts.Pairwise fun a b =>
      Text.byteLength b.model.mountDir ≤ Text.byteLength a.model.mountDir := by
  have sorted : (new base mounts).mounts.Pairwise fun a b =>
      decide (Text.byteLength b.model.mountDir ≤ Text.byteLength a.model.mountDir) = true := by
    apply List.pairwise_mergeSort
    · intro a b c before after
      rw [decide_eq_true_eq] at before after ⊢
      exact le_trans after before
    · intro a b
      rw [Bool.or_eq_true,decide_eq_true_eq,decide_eq_true_eq]
      exact le_total _ _
  simpa only [decide_eq_true_eq] using sorted

/-- The resolver finds the owner of a path. -/
theorem resolveRuntime_owner (rooted : ∀ runtime ∈ mounts, Rooted runtime.model.mountDir) {remote : Text}
    (found : (new base mounts).resolveRuntime path = some (runtime,remote)) :
    Owns mounts runtime (normalizeDirPath path) := by
  obtain ⟨before,a,after,split,taken,passed⟩ := List.findSome?_eq_some_iff.mp found
  obtain ⟨rest,here,pair⟩ := Option.map_eq_some_iff.mp taken
  cases pair
  have same := new_perm base mounts
  have member : runtime ∈ (new base mounts).mounts := by
    rw [split]
    exact List.mem_append_right before List.mem_cons_self
  have inside : isPathWithin (normalizeDirPath path) runtime.model.mountDir = true := by
    rw [← MountRuntime.remotePath_isSome,here]
    rfl
  refine ⟨same.mem_iff.mp member,inside,?_⟩
  intro other member' inside'
  have sorted := new_sorted base mounts
  rw [split] at sorted
  have shorter : Text.byteLength other.model.mountDir ≤ Text.byteLength runtime.model.mountDir := by
    have present := same.mem_iff.mpr member'
    rw [split,List.mem_append,List.mem_cons] at present
    rcases present with earlier | same' | later
    · have nothing := passed other earlier
      rw [Option.map_eq_none_iff] at nothing
      rw [← MountRuntime.remotePath_isSome,nothing] at inside'
      cases inside'
    · rw [same']
    · exact (List.pairwise_cons.mp (List.pairwise_append.mp sorted).2.1).1 other later
  rcases isPathWithin_comparable inside inside' with within_ | around
  · exact within_
  · rcases isPathWithin_byteLength (rooted other member') around with equal | longer
    · rw [equal]
      exact isPathWithin_self _
    · omega

theorem resolveRuntime_none_iff :
    (new base mounts).resolveRuntime path = none ↔
      ∀ runtime ∈ mounts, isPathWithin (normalizeDirPath path) runtime.model.mountDir = false := by
  rw [resolveRuntime,List.findSome?_eq_none_iff]
  constructor
  · intro passed runtime member
    have nothing := passed runtime ((new_perm base mounts).mem_iff.mpr member)
    rw [Option.map_eq_none_iff] at nothing
    rw [← MountRuntime.remotePath_isSome,nothing]
    rfl
  · intro outside runtime member
    have nothing := outside runtime ((new_perm base mounts).mem_iff.mp member)
    rw [← MountRuntime.remotePath_isSome,Option.isSome_eq_false_iff,Option.isNone_iff_eq_none] at nothing
    rw [nothing,Option.map_none]

/-- And every path with an owner is sent to it. -/
theorem resolveRuntime_of_owns (base : VfsStorage σ ω) (rooted : ∀ runtime ∈ mounts, Rooted runtime.model.mountDir)
    (distinct : mounts.Pairwise fun a b => a.model.mountDir ≠ b.model.mountDir)
    (owns : Owns mounts runtime (normalizeDirPath path)) :
    ∃ remote, (new base mounts).resolveRuntime path = some (runtime,remote) := by
  cases found : (new base mounts).resolveRuntime path with
  | none =>
    have outside := resolveRuntime_none_iff.mp found runtime owns.member
    rw [owns.inside] at outside
    cases outside
  | some pair =>
    obtain ⟨other,remote⟩ := pair
    have same := owns.unique rooted distinct (resolveRuntime_owner rooted found)
    exact ⟨remote,by rw [same]⟩

end MountedUserStorage

end owners

/-! ### There and back -/

section back
variable {σ ω : Type} {runtime : MountRuntime σ ω} {path remote : Text}

/-- A path without empty segments keeps its slash in normal form. -/
theorem normalizeDirPath_rooted (absolute : Rooted path) (dense : ¬['/','/'] <:+: path) :
    Rooted (normalizeDirPath path) := by
  rcases normalizeDirPath_leading path with empty | rooted
  · obtain ⟨rest,leading⟩ := absolute
    rcases eq_or_ne path ['/'] with root | nested
    · rw [root] at empty
      cases empty
    · rw [leading] at nested dense empty
      rw [normalizeDirPath_slash nested] at empty
      obtain ⟨slashes,split,all⟩ := trimEnd_split ('/'::rest)
      rw [empty,List.nil_append] at split
      cases rest with
      | nil => exact absurd rfl nested
      | cons c tail =>
        have second : c = '/' := all c (by rw [← split]; simp)
        exact absurd ⟨[],tail,by rw [second]; rfl⟩ dense
  · exact rooted

theorem normalizeDirPath_dense (absolute : Rooted path) (dense : ¬['/','/'] <:+: path) :
    ¬['/','/'] <:+: normalizeDirPath path := by
  intro double
  apply dense
  obtain ⟨rest,leading⟩ := absolute
  rcases eq_or_ne path ['/'] with root | nested
  · rw [root] at double ⊢
    exact double
  · rw [leading] at nested double ⊢
    rw [normalizeDirPath_slash nested] at double
    exact double.trans (List.rdropWhile_prefix _ _).isInfix

theorem trimStart_dense (pre : Text) {rest : Text} (dense : ¬['/','/'] <:+: pre ++ '/'::rest) :
    Text.trimStart '/' rest = rest := by
  apply trimStart_of_head
  intro slash
  apply dense
  cases rest with
  | nil => cases slash
  | cons c tail =>
    have second : c = '/' := Option.some.inj slash
    exact ⟨pre,tail,by rw [second]; simp⟩

/-- The path in a mount leads back to the path. -/
theorem mapRuntimePath_remotePath (rooted : Rooted runtime.model.mountDir)
    (trimmed : normalizeDirPath runtime.model.mountDir = runtime.model.mountDir) (absolute : Rooted path)
    (normal : normalizeDirPath path = path) (dense : ¬['/','/'] <:+: path)
    (taken : runtime.remotePath path = some remote) : runtime.mapRuntimePath remote = path := by
  rw [MountRuntime.remotePath] at taken
  by_cases root : runtime.model.mountDir = ['/']
  · rw [if_pos root] at taken
    cases taken
    obtain ⟨rest,leading⟩ := absolute
    rcases eq_or_ne path ['/'] with top | nested
    · rw [MountRuntime.mapRuntimePath,if_pos (.inl top),root,top]
    · have given : path ≠ [] := by
        rw [leading]
        exact List.cons_ne_nil _ _
      have name : Text.trimStart '/' path = rest := by
        have peeled : Text.trimStart '/' ('/'::rest) = Text.trimStart '/' rest := by simp [Text.trimStart]
        rw [leading] at dense ⊢
        rw [peeled,trimStart_dense [] dense]
      have more : rest ≠ [] := by
        intro empty
        rw [empty] at leading
        exact nested leading
      rw [MountRuntime.mapRuntimePath,if_neg (not_or.mpr ⟨nested,given⟩),root,name,joinLogicalPath,if_neg more,
        if_pos rfl,leading]
      rw [leading] at dense
      rw [trimStart_dense [] dense]
  · rw [if_neg root] at taken
    by_cases same : path = runtime.model.mountDir
    · rw [if_pos same] at taken
      cases taken
      rw [MountRuntime.mapRuntimePath,if_pos (.inl rfl),same]
    · rw [if_neg same] at taken
      obtain ⟨rest,filtered,spelled⟩ := Option.map_eq_some_iff.mp taken
      obtain ⟨stripped,slash⟩ := Option.filter_eq_some_iff.mp filtered
      obtain ⟨tail,under⟩ := Text.startsWith_iff.mp slash
      have leading : rest = '/'::tail := under.symm
      have split : path = runtime.model.mountDir ++ '/'::tail := by
        rw [Text.stripPrefix_some stripped,leading]
      rw [leading,normalizeLogicalPath_slash] at spelled
      have kept : Text.trimStart '/' tail = tail := trimStart_dense _ (by rw [← split]; exact dense)
      -- a path in normal form does not end in a slash
      have more : tail ≠ [] := by
        intro empty
        obtain ⟨start,first⟩ := absolute
        have nested : path ≠ ['/'] := by
          intro top
          rw [top,empty] at split
          obtain ⟨start',first'⟩ := rooted
          rw [first'] at split
          cases start' with
          | nil => exact root first'
          | cons c more => simp at split
        have fixed := normal
        rw [first] at nested fixed
        rw [normalizeDirPath_slash nested,← first] at fixed
        have last := trimEnd_last path
        rw [fixed,split,empty] at last
        simp at last
      have peeled : Text.trimStart '/' ('/'::tail) = tail := by
        have step : Text.trimStart '/' ('/'::tail) = Text.trimStart '/' tail := by simp [Text.trimStart]
        rw [step,kept]
      have inner : Text.trimEnd '/' runtime.model.mountDir = runtime.model.mountDir := by
        obtain ⟨start,first⟩ := rooted
        rw [first] at root trimmed ⊢
        rwa [normalizeDirPath_slash root] at trimmed
      rw [MountRuntime.mapRuntimePath,← spelled,if_neg (by simp [more]),peeled,joinLogicalPath,if_neg more,
        if_neg root,kept,inner,split]

end back

namespace MountedUserStorage
variable {σ ω : Type}

/-- The resolver gives a path to the deepest mount around it, as a path that
leads back, and to none only where no mount is around. -/
theorem routing_exact (base : VfsStorage σ ω) (mounts : List (MountRuntime σ ω))
    (rooted : ∀ runtime ∈ mounts, Rooted runtime.model.mountDir)
    (trimmed : ∀ runtime ∈ mounts, normalizeDirPath runtime.model.mountDir = runtime.model.mountDir)
    (distinct : mounts.Pairwise fun a b => a.model.mountDir ≠ b.model.mountDir) (path : Text)
    (absolute : Rooted path) (dense : ¬['/','/'] <:+: path) :
    (∀ runtime, Owns mounts runtime (normalizeDirPath path) ↔
      ∃ remote, (new base mounts).resolveRuntime path = some (runtime,remote) ∧
        runtime.mapRuntimePath remote = normalizeDirPath path) ∧
    ((new base mounts).resolveRuntime path = none ↔
      ∀ runtime ∈ mounts, isPathWithin (normalizeDirPath path) runtime.model.mountDir = false) := by
  refine ⟨fun runtime => ⟨fun owns => ?_,fun ⟨remote,found,_⟩ => resolveRuntime_owner rooted found⟩,
    resolveRuntime_none_iff⟩
  obtain ⟨remote,found⟩ := resolveRuntime_of_owns base rooted distinct owns
  refine ⟨remote,found,?_⟩
  obtain ⟨_,a,_,_,taken,_⟩ := List.findSome?_eq_some_iff.mp found
  obtain ⟨rest,here,pair⟩ := Option.map_eq_some_iff.mp taken
  cases pair
  exact mapRuntimePath_remotePath (rooted _ owns.member) (trimmed _ owns.member)
    (normalizeDirPath_rooted absolute dense) (normalizeDirPath_idem path) (normalizeDirPath_dense absolute dense) here

def idle : VfsStorage Unit Unit where
  read path := Effect.fail (.notFound path)
  write path _ := Effect.fail (.notFound path)
  readStream path := Effect.fail (.notFound path)
  writeStream path _ := Effect.fail (.notFound path)
  exists_ _ := pure false
  stat path := Effect.fail (.notFound path)
  list path := Effect.fail (.notFound path)
  listRecursive path := Effect.fail (.notFound path)
  createDirAll path := Effect.fail (.notFound path)
  delete path := Effect.fail (.notFound path)
  moveFile path _ := Effect.fail (.notFound path)

def mountAt (dir : String) : MountRuntime Unit Unit := ⟨⟨dir.toList,dir.toList,none,0⟩,idle⟩

theorem routing_exact_nested : ∃ remote,
    (new idle [mountAt "/",mountAt "/a/b",mountAt "/a"]).resolveRuntime "/a/b/c/".toList = some (mountAt "/a/b",remote) ∧
      (mountAt "/a/b").mapRuntimePath remote = normalizeDirPath "/a/b/c/".toList := by
  have rooted : ∀ runtime ∈ [mountAt "/",mountAt "/a/b",mountAt "/a"], Rooted runtime.model.mountDir := by
    intro runtime member
    simp only [List.mem_cons,List.not_mem_nil,or_false] at member
    rcases member with rfl | rfl | rfl <;> exact ⟨_,rfl⟩
  have owns : Owns [mountAt "/",mountAt "/a/b",mountAt "/a"] (mountAt "/a/b") (normalizeDirPath "/a/b/c/".toList) :=
    ⟨List.mem_cons_of_mem _ List.mem_cons_self,by decide +kernel,by decide +kernel⟩
  exact ((routing_exact idle _ rooted (by decide +kernel) (by decide +kernel) "/a/b/c/".toList ⟨_,rfl⟩
    (by decide +kernel)).1 _).mp owns

end MountedUserStorage

/-! ### Raw and validated paths -/

section spelling
variable {σ ω : Type} {dir path : Text}

theorem isPathWithin_take {x : Text} : isPathWithin x dir = true ↔
    dir = ['/'] ∨ x.take (dir.length + 1) = dir ∨ x.take (dir.length + 1) = dir ++ ['/'] := by
  rw [isPathWithin_iff,Text.within_iff]
  apply or_congr_right
  constructor
  · rintro (same | ⟨rest,split⟩)
    · left
      rw [same,List.take_of_length_le (by omega)]
    · right
      have regroup : dir ++ '/'::rest = (dir ++ ['/']) ++ rest := by simp
      rw [split,regroup,List.take_append_of_le_length (by simp),List.take_of_length_le (by simp)]
  · rintro (same | split)
    · left
      have short : x.length < dir.length + 1 := by
        have counted := congrArg List.length same
        rw [List.length_take] at counted
        omega
      rwa [List.take_of_length_le (by omega)] at same
    · right
      refine ⟨x.drop (dir.length + 1),?_⟩
      have whole := List.take_append_drop (dir.length + 1) x
      rw [split] at whole
      rw [← whole]
      simp

/-- In a directory in normal form lie the same paths with and without slashes
at their end. -/
theorem isPathWithin_normalized (trimmed : normalizeDirPath dir = dir) :
    isPathWithin (normalizeDirPath path) dir = isPathWithin (normalizeLogicalPath path) dir := by
  rw [Bool.eq_iff_iff]
  by_cases root : path = ['/']
  · rw [root]
    rfl
  · obtain ⟨rest,leading⟩ := normalizeLogicalPath_cases path
    have normal : normalizeDirPath path = Text.trimEnd '/' (normalizeLogicalPath path) := by
      rw [normalizeDirPath,if_neg root]
    constructor
    · intro inside
      obtain ⟨slashes,split,all⟩ := trimEnd_split (normalizeLogicalPath path)
      rw [normal,isPathWithin_iff] at inside
      rcases inside with top | under
      · exact isPathWithin_iff.mpr (.inl top)
      · rw [← trimmed]
        rcases Text.within_iff.mp under with same | ⟨tail,below⟩
        · apply within_normalizeDirPath slashes (.inr ⟨rest,leading⟩)
          · rw [← same,← split]
          · have ends := slashes_append all (.inl rfl)
            rwa [List.append_nil] at ends
        · apply within_normalizeDirPath ('/'::tail ++ slashes) (.inr ⟨rest,leading⟩)
          · rw [← List.append_assoc,← below,← split]
          · exact .inr ⟨tail ++ slashes,rfl⟩
    · intro inside
      rw [← trimmed] at inside ⊢
      have shown := normalizeDirPath_within inside
      rcases eq_or_ne path [] with empty | given
      · rw [empty] at shown ⊢
        rw [isPathWithin_iff] at shown ⊢
        rcases shown with top | under
        · exact .inl top
        · rcases normalizeDirPath_cases dir with top | ⟨start,fixed⟩
          · exact .inl top
          · have short : (normalizeDirPath dir).length = 0 := by
              rcases Text.within_iff.mp under with same | ⟨tail,split⟩
              · rw [trimmed] at same fixed
                rw [← same] at fixed
                cases fixed
              · have counted := congrArg List.length split
                rw [List.length_append,List.length_cons] at counted
                have one : (normalizeDirPath (normalizeLogicalPath [])).length = 1 := rfl
                omega
            right
            rw [List.length_eq_zero_iff.mp short]
            rfl
      · have same : normalizeDirPath (normalizeLogicalPath path) = normalizeDirPath path := by
          have nested : normalizeLogicalPath path ≠ ['/'] := by
            rw [normalizeLogicalPath]
            split
            next => exact root
            next =>
              intro alone
              exact given (List.cons.inj alone).2
          rw [normal]
          rw [leading] at nested ⊢
          exact normalizeDirPath_slash nested
        rwa [same] at shown

/-- The path writes a directory in normal form, and the separator after it,
without a backslash. -/
def WritesOut (path dir : Text) : Prop :=
  normalizeDirPath dir = dir ∧ '\\' ∉ (normalizeLogicalPath path).take (dir.length + 1)

instance : Decidable (WritesOut path dir) := instDecidableAnd

theorem isPathWithin_spelled (written : WritesOut path dir) :
    isPathWithin (normalizeDirPath (spelled path)) dir = isPathWithin (normalizeDirPath path) dir := by
  obtain ⟨trimmed,plain⟩ := written
  have again : normalizeLogicalPath (spelled path) = spelled path := by
    obtain ⟨rest,leading⟩ := normalizeLogicalPath_cases path
    rw [spelled,leading,withSlashes,List.map_cons]
    exact normalizeLogicalPath_slash _
  have start : (spelled path).take (dir.length + 1) = (normalizeLogicalPath path).take (dir.length + 1) := by
    have unchanged : ∀ c ∈ (normalizeLogicalPath path).take (dir.length + 1), (if c = '\\' then '/' else c) = id c := by
      intro c member
      apply if_neg
      intro backslash
      rw [backslash] at member
      exact plain member
    rw [spelled,withSlashes,← List.map_take,List.map_congr_left unchanged,List.map_id]
  rw [isPathWithin_normalized trimmed,isPathWithin_normalized trimmed,again,Bool.eq_iff_iff,isPathWithin_take,
    isPathWithin_take,start]

namespace MountedUserStorage
variable (s : MountedUserStorage σ ω)

def containsMountedPath (path : Text) : Bool := (s.resolveRuntime path).isSome

/-- The operations on the path go to a mount. -/
def TargetsMount (path : Text) : Prop :=
  ∃ endpoint, s.resolveEndpoint path = .ok endpoint ∧ endpoint.mountId.isSome = true

variable {s}

theorem contains_iff : s.containsMountedPath path = true ↔
    ∃ runtime ∈ s.mounts, isPathWithin (normalizeDirPath path) runtime.model.mountDir = true := by
  rw [containsMountedPath,resolveRuntime,List.findSome?_isSome_iff]
  apply exists_congr
  intro runtime
  apply and_congr_right
  intro _
  rw [Option.isSome_map,MountRuntime.remotePath_isSome]

theorem targetsMount_iff {q : Text} (valid : validatePath path = .ok q) : s.TargetsMount path ↔
    ∃ runtime ∈ s.mounts, isPathWithin (normalizeDirPath (spelled path)) runtime.model.mountDir = true := by
  have same := validatePath_spelled valid
  subst same
  rw [← contains_iff,containsMountedPath,TargetsMount,resolveEndpoint,valid]
  simp only [bind,Except.bind]
  cases s.resolveRuntime (spelled path) with
  | none =>
    constructor
    · rintro ⟨endpoint,made,mounted⟩
      cases made
      cases mounted
    · intro found
      cases found
  | some pair => exact ⟨fun _ => rfl,fun _ => ⟨_,rfl,rfl⟩⟩

/-- Raw and validated path are sent alike exactly when a mount has the path
whose directory the path writes out, or the other mounts take both or none of
the path's spellings. -/
theorem routing_agrees_iff (s : MountedUserStorage σ ω) (path : Text) {q : Text}
    (valid : validatePath path = .ok q) :
    (s.containsMountedPath path = true ↔ s.TargetsMount path) ↔
      (∃ runtime ∈ s.mounts, WritesOut path runtime.model.mountDir ∧
        isPathWithin (normalizeDirPath path) runtime.model.mountDir = true) ∨
      ((∃ runtime ∈ s.mounts, ¬WritesOut path runtime.model.mountDir ∧
          isPathWithin (normalizeDirPath path) runtime.model.mountDir = true) ↔
        ∃ runtime ∈ s.mounts, ¬WritesOut path runtime.model.mountDir ∧
          isPathWithin (normalizeDirPath (spelled path)) runtime.model.mountDir = true) := by
  rw [contains_iff,targetsMount_iff valid]
  have parted (p : Text) (same : ∀ runtime ∈ s.mounts, WritesOut path runtime.model.mountDir →
      isPathWithin p runtime.model.mountDir = isPathWithin (normalizeDirPath path) runtime.model.mountDir) :
      (∃ runtime ∈ s.mounts, isPathWithin p runtime.model.mountDir = true) ↔
        (∃ runtime ∈ s.mounts, WritesOut path runtime.model.mountDir ∧
          isPathWithin (normalizeDirPath path) runtime.model.mountDir = true) ∨
        ∃ runtime ∈ s.mounts, ¬WritesOut path runtime.model.mountDir ∧
          isPathWithin p runtime.model.mountDir = true := by
    constructor
    · intro ⟨runtime,member,inside⟩
      by_cases written : WritesOut path runtime.model.mountDir
      · exact .inl ⟨runtime,member,written,by rw [← same runtime member written]; exact inside⟩
      · exact .inr ⟨runtime,member,written,inside⟩
    · rintro (⟨runtime,member,written,inside⟩ | ⟨runtime,member,-,inside⟩)
      · exact ⟨runtime,member,by rw [same runtime member written]; exact inside⟩
      · exact ⟨runtime,member,inside⟩
  rw [parted (normalizeDirPath path) fun _ _ _ => rfl,
    parted (normalizeDirPath (spelled path)) fun _ _ written => isPathWithin_spelled written]
  by_cases direct : ∃ runtime ∈ s.mounts, WritesOut path runtime.model.mountDir ∧
      isPathWithin (normalizeDirPath path) runtime.model.mountDir = true
  · exact ⟨fun _ => .inl direct,fun _ => ⟨fun _ => .inl direct,fun _ => .inl direct⟩⟩
  · rw [or_iff_right direct,or_iff_right direct,or_iff_right direct]

theorem routing_agrees_plain :
    ((new idle [mountAt "/mnt"]).containsMountedPath "mnt/a".toList = true ↔
      (new idle [mountAt "/mnt"]).TargetsMount "mnt/a".toList) := by
  have valid : validatePath "mnt/a".toList = .ok "/mnt/a".toList := by decide +kernel
  apply (routing_agrees_iff (new idle [mountAt "/mnt"]) "mnt/a".toList valid).mpr
  left
  refine ⟨mountAt "/mnt",?_,by decide +kernel,by decide +kernel⟩
  exact (new_perm idle [mountAt "/mnt"]).mem_iff.mpr List.mem_cons_self

/-- With a backslash for the separator after the mount's directory, reads and
writes go to the mount, and the batch operations to the base. -/
theorem backslash_routes_apart : validatePath "/mnt\\a".toList = .ok "/mnt/a".toList ∧
    ¬((new idle [mountAt "/mnt"]).containsMountedPath "/mnt\\a".toList = true ↔
      (new idle [mountAt "/mnt"]).TargetsMount "/mnt\\a".toList) := by
  have valid : validatePath "/mnt\\a".toList = .ok "/mnt/a".toList := by decide +kernel
  refine ⟨valid,?_⟩
  rw [targetsMount_iff valid,contains_iff]
  have same (runtime : MountRuntime Unit Unit) : runtime ∈ (new idle [mountAt "/mnt"]).mounts ↔ runtime = mountAt "/mnt" := by
    rw [(new_perm idle [mountAt "/mnt"]).mem_iff,List.mem_singleton]
  simp only [same,exists_eq_left]
  decide +kernel

end MountedUserStorage

end spelling
end StorageHub.Mounts
