import StorageHub.Scoped.Disk

/-! What the operations of a storage operator do to the files and the
directories. -/
namespace StorageHub.Scoped
open Library WriteCache

theorem mem_ancestors {path dir : Text} :
    dir ∈ ancestors path ↔ dir ≠ [] ∧ Text.below dir path = true := by
  rw [ancestors,List.mem_filter,List.mem_inits,Bool.and_eq_true,Bool.not_eq_true',
    List.isEmpty_eq_false_iff]
  constructor
  · exact fun holds => holds.2
  · intro holds
    obtain ⟨rest,split⟩ := Text.below_iff.mp holds.2
    exact ⟨⟨'/'::rest,split.symm⟩,holds⟩

theorem lookup_insertAll (paths : List Text) (dirs : Store Text Unit) (p : Text) :
    ((paths.foldl (fun dirs dir => dirs.insert dir ()) dirs).lookup p).isSome =
      (decide (p ∈ paths) || (dirs.lookup p).isSome) := by
  induction paths generalizing dirs with
  | nil => simp
  | cons dir rest ih =>
    rw [List.foldl_cons,ih,Store.lookup_insert_eq]
    by_cases here : p = dir
    · simp [here]
    · simp [here]

namespace Disk
variable {d d' : Disk}

theorem lookup_makeAncestors (d : Disk) (path p : Text) :
    ((d.makeAncestors path).lookup p).isSome =
      (decide (p ∈ ancestors path) || (d.dirs.lookup p).isSome) := lookup_insertAll _ _ _

theorem accepts_iff {path : Text} : d.accepts path = true ↔ hasTrailingSlash path = false ∧
    d.dirs.lookup path = none ∧ ∀ dir ∈ ancestors path, d.files.lookup dir = none := by
  rw [accepts,Bool.and_eq_true,Bool.and_eq_true,Bool.not_eq_true',Option.isNone_iff_eq_none,
    List.all_eq_true,and_assoc]
  simp only [Option.isNone_iff_eq_none]

/-- Every file stands in directories. -/
def Grounded (d : Disk) : Prop :=
  ∀ path data, d.files.lookup path = some data → ∀ dir ∈ ancestors path,
    (d.dirs.lookup dir).isSome = true

theorem grounded_put (grounded : d.Grounded) (path : Text) (data : Bytes) :
    Grounded ⟨d.files.insert path data,d.makeAncestors path⟩ := by
  intro p content present dir above
  rw [lookup_makeAncestors,Bool.or_eq_true,decide_eq_true_eq]
  rw [Store.lookup_insert_eq] at present
  split at present
  next here => exact .inl (here ▸ above)
  next => exact .inr (grounded p content present dir above)

theorem grounded_iff_entries : d.Grounded ↔ ∀ cell ∈ d.files.entries, ∀ dir ∈ ancestors cell.1,
    (d.dirs.lookup dir).isSome = true := by
  constructor
  · intro grounded cell inside
    exact grounded cell.1 cell.2 (AList.mem_lookup_iff.mpr inside)
  · intro all path data found
    exact all ⟨path,data⟩ (AList.mem_lookup_iff.mp found)

theorem stat_file {path : Text} {data : Bytes} (found : d.files.lookup path = some data)
    (plain : hasTrailingSlash path = false) : d.stat path = some ⟨false,data.length⟩ := by
  have last : path.getLast? ≠ some '/' := beq_eq_false_iff_ne.mp plain
  have kept : normalizeEntryPath path = path := by
    rw [normalizeEntryPath,if_neg last,ite_self]
  unfold stat
  dsimp only
  rw [kept,found]
  dsimp only
  rw [plain]
  rfl

/-- With nothing below a file, stat finds nothing there. -/
theorem stat_below_file {path : Text} {data : Bytes} (nonempty : path ≠ [])
    (found : d.files.lookup path = some data)
    (files : ∀ p, Text.below path p = true → d.files.lookup p = none)
    (dirs : ∀ p, Text.below path p = true → d.dirs.lookup p = none) (tail : Text) :
    d.stat (path ++ '/'::tail) = none := by
  have vacant (rest : Text) : d.files.lookup (path ++ '/'::rest) = none ∧
      d.dirs.lookup (path ++ '/'::rest) = none := by
    have under : Text.below path (path ++ '/'::rest) = true := Text.below_iff.mpr ⟨rest,rfl⟩
    exact ⟨files _ under,dirs _ under⟩
  have longer (rest : Text) : path ++ '/'::rest ≠ ['/'] := by
    intro same
    cases path with
    | nil => exact nonempty rfl
    | cons c init => simp at same
  by_cases trailing : hasTrailingSlash (path ++ '/'::tail) = true
  · have last : (path ++ '/'::tail).getLast? = some '/' := beq_iff_eq.mp trailing
    have stripped : normalizeEntryPath (path ++ '/'::tail) = (path ++ '/'::tail).dropLast := by
      rw [normalizeEntryPath,if_neg (longer tail),if_pos last]
    unfold stat
    dsimp only
    rw [stripped]
    cases tail with
    | nil =>
      rw [List.dropLast_concat,found]
      dsimp only
      rw [if_pos trailing]
    | cons c tail =>
      have shorter : (path ++ '/'::c::tail).dropLast = path ++ '/'::(c::tail).dropLast := by
        rw [List.dropLast_append_of_ne_nil (List.cons_ne_nil _ _)]
        rfl
      rw [shorter,(vacant _).1,(vacant _).2]
      rfl
  · have last : (path ++ '/'::tail).getLast? ≠ some '/' := fun same => trailing (beq_iff_eq.mpr same)
    have kept : normalizeEntryPath (path ++ '/'::tail) = path ++ '/'::tail := by
      rw [normalizeEntryPath,if_neg (longer tail),if_neg last]
    unfold stat
    dsimp only
    rw [kept,(vacant tail).1,(vacant tail).2]
    rfl

/-- The two ways a rename succeeds: a file replaces a file or nothing, or a
directory an empty one or nothing. -/
theorem rename_cases {src dst : Text} (renamed : d.rename src dst = some d') :
    (∃ data, d.files.lookup src = some data ∧ src ≠ dst ∧ d.accepts dst = true ∧
      d' = ⟨(d.files.erase src).insert dst data,d.makeAncestors dst⟩) ∨
    (d.files.lookup src = none ∧ (d.dirs.lookup src).isSome = true ∧ Text.within src dst = false ∧
      d.files.lookup dst = none ∧ d.files.keys.any (Text.below dst) = false ∧
      d.dirs.keys.any (Text.below dst) = false ∧
      d' = ⟨Store.moveTree src dst d.files,
        (ancestors dst).foldl (fun dirs dir => dirs.insert dir ())
          (Store.moveTree src dst (d.dirs.erase dst))⟩) := by
  rw [rename] at renamed
  split at renamed
  next data found =>
    split at renamed
    next holds =>
      rw [Bool.and_eq_true,decide_eq_true_eq] at holds
      exact .inl ⟨data,found,holds.1,holds.2,(Option.some.inj renamed).symm⟩
    next => cases renamed
  next absent =>
    split at renamed
    next => cases renamed
    next present =>
      split at renamed
      next => cases renamed
      next allowed =>
        rw [Bool.not_eq_true,Bool.or_eq_false_iff,Bool.or_eq_false_iff,Bool.or_eq_false_iff,
          Bool.or_eq_false_iff,Bool.or_eq_false_iff] at allowed
        obtain ⟨⟨⟨⟨⟨-,outside⟩,file⟩,files⟩,dirs⟩,-⟩ := allowed
        refine .inr ⟨absent,?_,outside,?_,files,dirs,(Option.some.inj renamed).symm⟩
        · rwa [Option.isNone_iff_eq_none,← Option.not_isSome_iff_eq_none,not_not] at present
        · rwa [Option.isSome_eq_false_iff,Option.isNone_iff_eq_none] at file

/-- A deletion takes at most the one file, by its own spelling. -/
theorem delete_files {path : Text} (deleted : d.delete path = some d') :
    d'.files = d.files ∨ hasTrailingSlash path = false ∧ d'.files = d.files.erase path := by
  unfold Disk.delete at deleted
  dsimp only at deleted
  split at deleted
  next data found =>
    split at deleted
    next => cases deleted
    next plain =>
      cases deleted
      have last : path.getLast? ≠ some '/' := fun same => plain (beq_iff_eq.mpr same)
      right
      refine ⟨by simpa using plain,?_⟩
      rw [normalizeEntryPath,if_neg last,ite_self]
  next absent =>
    split at deleted
    next => cases deleted; exact .inl rfl
    next =>
      split at deleted
      next => cases deleted
      next => cases deleted; exact .inl rfl

theorem copy_cases {src dst : Text} (copied : d.copy src dst = some d') : ∃ data,
    d.files.lookup src = some data ∧ d' = ⟨d.files.insert dst data,d.makeAncestors dst⟩ := by
  rw [copy] at copied
  split at copied
  next data found =>
    split at copied
    next => cases copied; exact ⟨data,found,rfl⟩
    next => cases copied
  next => cases copied

/-- Files and directories stand in directories, and no path is both. -/
structure FileTree (d : Disk) : Prop where
  grounded : d.Grounded
  rooted : ∀ path, (d.dirs.lookup path).isSome = true → ∀ dir ∈ ancestors path,
    (d.dirs.lookup dir).isSome = true
  apart : ∀ path data, d.files.lookup path = some data → d.dirs.lookup path = none

theorem FileTree.of_entries
    (grounded : ∀ cell ∈ d.files.entries, ∀ dir ∈ ancestors cell.1, (d.dirs.lookup dir).isSome = true)
    (rooted : ∀ cell ∈ d.dirs.entries, ∀ dir ∈ ancestors cell.1, (d.dirs.lookup dir).isSome = true)
    (apart : ∀ cell ∈ d.files.entries, d.dirs.lookup cell.1 = none) : d.FileTree where
  grounded := grounded_iff_entries.mpr grounded
  rooted path present := by
    obtain ⟨u,found⟩ := Option.isSome_iff_exists.mp present
    exact rooted ⟨path,u⟩ (AList.mem_lookup_iff.mp found)
  apart path data found := apart ⟨path,data⟩ (AList.mem_lookup_iff.mp found)

theorem FileTree.nothing_below (tree : d.FileTree) {path p : Text} {data : Bytes} (nonempty : path ≠ [])
    (found : d.files.lookup path = some data) (under : Text.below path p = true) :
    d.files.lookup p = none ∧ (d.dirs.lookup p).isSome = false := by
  have here := tree.apart path data found
  have above : path ∈ ancestors p := mem_ancestors.mpr ⟨nonempty,under⟩
  constructor
  · cases there : d.files.lookup p with
    | none => rfl
    | some content =>
      have dir := tree.grounded p content there path above
      rw [here] at dir
      cases dir
  · rw [Bool.eq_false_iff]
    intro present
    have dir := tree.rooted p present path above
    rw [here] at dir
    cases dir

/-- What is below a path cannot take the path's place. -/
theorem rename_onto_above {src dst : Text} (grounded : d.Grounded) (nonempty : dst ≠ [])
    (renamed : d.rename src dst = some d') : Text.below dst src = false := by
  rw [Bool.eq_false_iff]
  intro under
  rcases rename_cases renamed with ⟨data,found,-,accepted,-⟩ | ⟨-,present,-,-,-,dirs,-⟩
  · have above := grounded src data found dst (mem_ancestors.mpr ⟨nonempty,under⟩)
    rw [(accepts_iff.mp accepted).2.1] at above
    cases above
  · rw [List.any_eq_false] at dirs
    exact dirs src (AList.mem_keys.mp (AList.lookup_isSome.mp present)) under

/-- Every entry of a renamed tree is where the renaming puts it. -/
structure Arrived (d d' : Disk) (src dst : Text) : Prop where
  files : ∀ p data, Text.within src p = true → d.files.lookup p = some data →
    d'.files.lookup (Text.relocate src dst p) = some data
  dirs : ∀ p, Text.within src p = true → (d.dirs.lookup p).isSome = true →
    (d'.dirs.lookup (Text.relocate src dst p)).isSome = true

theorem anyWithin_of_below {ν : Type} {cells : Store Text ν} {root : Text}
    (top : cells.lookup root = none) (under : cells.keys.any (Text.below root) = false) :
    Store.anyWithin root cells = false := by
  rw [Store.anyWithin,List.any_eq_false]
  intro p present inside
  rw [Text.within,Bool.or_eq_true,beq_iff_eq] at inside
  rcases inside with here | strict
  · rw [here] at present
    exact AList.lookup_eq_none.mp top (AList.mem_keys.mpr present)
  · exact List.any_eq_false.mp under p present strict

theorem lookup_erase_below {root : Text} (cells : Store Text Unit)
    (under : cells.keys.any (Text.below root) = false) :
    Store.anyWithin root (cells.erase root) = false := by
  apply anyWithin_of_below (AList.lookup_erase root cells)
  rw [List.any_eq_false] at under ⊢
  intro p present
  exact under p (AList.mem_keys.mp (AList.mem_erase.mp (AList.mem_keys.mpr present)).2)

theorem rename_arrived {src dst : Text} (tree : d.FileTree) (nonempty : src ≠ [])
    (renamed : d.rename src dst = some d') : Arrived d d' src dst := by
  rcases rename_cases renamed with ⟨data,found,-,-,rfl⟩ | ⟨-,-,outside,free,files,dirs,rfl⟩
  · constructor
    · intro p content inside here
      rcases Text.within_iff.mp inside with rfl | ⟨rest,split⟩
      · rw [found] at here
        cases here
        have there : Text.relocate p dst p = dst := by simp [Text.relocate]
        rw [there,AList.lookup_insert]
      · have absent := (tree.nothing_below nonempty found (Text.below_iff.mpr ⟨rest,split⟩)).1
        rw [here] at absent
        cases absent
    · intro p inside here
      exfalso
      rcases Text.within_iff.mp inside with rfl | ⟨rest,split⟩
      · rw [tree.apart p data found] at here
        cases here
      · rw [(tree.nothing_below nonempty found (Text.below_iff.mpr ⟨rest,split⟩)).2] at here
        cases here
  · constructor
    · intro p data inside here
      exact (Store.lookup_moveTree (anyWithin_of_below free files) _ data).mpr ⟨p,here,rfl⟩
    · intro p inside here
      rw [lookup_insertAll,Bool.or_eq_true]
      right
      have other : p ≠ dst := by
        rintro rfl
        rw [outside] at inside
        cases inside
      obtain ⟨u,here⟩ := Option.isSome_iff_exists.mp here
      have kept : (d.dirs.erase dst).lookup p = some u := by rw [AList.lookup_erase_ne other,here]
      rw [(Store.lookup_moveTree (lookup_erase_below _ dirs) _ u).mpr ⟨p,kept,rfl⟩]
      rfl

/-- A renamed entry is no longer in its old place. -/
theorem rename_leaves {src dst : Text} (tree : d.FileTree) (renamed : d.rename src dst = some d') :
    d'.files.lookup src = none ∧ (d'.dirs.lookup src).isSome = false := by
  rcases rename_cases renamed with ⟨data,found,differs,accepted,rfl⟩ |
    ⟨-,present,outside,free,files,dirs,rfl⟩
  · constructor
    · rw [AList.lookup_insert_ne differs,AList.lookup_erase]
    · rw [lookup_makeAncestors,tree.apart src data found,Option.isSome_none,Bool.or_false,
        decide_eq_false_iff_not]
      intro above
      rw [accepts,Bool.and_eq_true,List.all_eq_true] at accepted
      have vacant := accepted.2 src above
      rw [found] at vacant
      cases vacant
  · have other : Text.within dst src = false := by
      rw [Bool.eq_false_iff]
      intro inside
      rw [Text.within,Bool.or_eq_true,beq_iff_eq] at inside
      rcases inside with same | under
      · rw [same,Text.within_self] at outside
        cases outside
      · exact List.any_eq_false.mp dirs src (AList.mem_keys.mp (AList.lookup_isSome.mp present)) under
    have elsewhere (p : Text) : Text.relocate src dst p ≠ src := by
      intro same
      cases inside : Text.within src p with
      | true =>
        obtain ⟨-,-,-,there⟩ := Text.relocate_within dst inside
        rw [same,other] at there
        cases there
      | false =>
        rw [Text.relocate_outside dst inside] at same
        rw [same,Text.within_self] at inside
        cases inside
    have vacant {ν : Type} {cells : Store Text ν} (room : Store.anyWithin dst cells = false) :
        (Store.moveTree src dst cells).lookup src = none := by
      cases there : (Store.moveTree src dst cells).lookup src with
      | none => rfl
      | some v =>
        obtain ⟨p,-,same⟩ := (Store.lookup_moveTree room src v).mp there
        exact absurd same (elsewhere p)
    constructor
    · exact vacant (anyWithin_of_below free files)
    · rw [lookup_insertAll,vacant (lookup_erase_below _ dirs),Option.isSome_none,Bool.or_false,
        decide_eq_false_iff_not]
      intro above
      rw [Text.within,(mem_ancestors.mp above).2,Bool.or_true] at outside
      cases outside

/-- What a rename does to the files where it puts its tree: one that was there
is replaced. -/
theorem rename_files_at {src dst p : Text} {content : Bytes} (tree : d.FileTree) (nonempty : dst ≠ [])
    (renamed : d.rename src dst = some d') (inside : Text.within dst p = true)
    (here : d.files.lookup p = some content) :
    p = dst ∧ d'.files.lookup p = d.files.lookup src := by
  rcases rename_cases renamed with ⟨data,found,-,accepted,rfl⟩ | ⟨-,-,-,free,files,-,-⟩
  · have top : p = dst := by
      rcases Text.within_iff.mp inside with same | ⟨rest,split⟩
      · exact same
      · have above := tree.grounded p content here dst
          (mem_ancestors.mpr ⟨nonempty,Text.below_iff.mpr ⟨rest,split⟩⟩)
        rw [(accepts_iff.mp accepted).2.1] at above
        cases above
    refine ⟨top,?_⟩
    rw [top,AList.lookup_insert,found]
  · rcases Text.within_iff.mp inside with rfl | ⟨rest,split⟩
    · rw [free] at here
      cases here
    · have present : p ∈ d.files.keys :=
        AList.mem_keys.mp (AList.lookup_isSome.mp (by rw [here]; rfl))
      exact absurd (Text.below_iff.mpr ⟨rest,split⟩) (List.any_eq_false.mp files p present)

end Disk
end StorageHub.Scoped
