import StorageHub.Library.Text

/-! The scheduled cleanup of the temporary directory: a recursion over the tree
that skips the files of live guards and prunes what has become empty. -/
namespace StorageHub.TempFiles
open Library

/-- A file has the time it was last modified. -/
inductive TempTree
  | file (modified : Int)
  | dir (names : List Text) (child : Text → TempTree)

abbrev TempPath := List Text

namespace TempTree

def find : TempPath → TempTree → Option TempTree
  | [], t => some t
  | _::_, .file _ => none
  | name::rest, .dir names child => if names.contains name then find rest (child name) else none

/-- Whether `read_dir` has no entry to give. -/
def isEmptyDir : TempTree → Bool
  | .file _ => false
  | .dir names _ => names.isEmpty

def files : TempTree → Nat
  | .file _ => 1
  | .dir names child => (names.map fun name => files (child name)).sum

end TempTree

section
variable (activeFiles : TempPath → Bool) (cutoffTime : Int)

/-- A file that is removed: it is not itself active, and expired. -/
def expired (path : TempPath) : TempTree → Bool
  | .file modified => !activeFiles path && decide (modified < cutoffTime)
  | .dir _ _ => false

/-- What is removed of an entry's name: an expired file, a directory that has
nothing left. -/
def goes (path : TempPath) (entry cleaned : TempTree) : Bool :=
  expired activeFiles cutoffTime path entry || cleaned.isEmptyDir

/-- `cleanup_temp_files_at_path_with_tracking`: what it leaves of a directory. -/
def cleanupAtPath : TempPath → TempTree → TempTree
  | _, .file modified => .file modified
  | path, .dir names child =>
    .dir (names.filter fun name =>
        !goes activeFiles cutoffTime (path ++ [name]) (child name) (cleanupAtPath (path ++ [name]) (child name)))
      fun name => cleanupAtPath (path ++ [name]) (child name)

/-- The files it counts. -/
def cleanedCount : TempPath → TempTree → Nat
  | _, .file _ => 0
  | path, .dir names child =>
    (names.map fun name =>
      (if expired activeFiles cutoffTime (path ++ [name]) (child name) then 1 else 0) +
        cleanedCount (path ++ [name]) (child name)).sum

/-- `cleanup_temp_files`: the directory itself stays. Its guards are the active
files. -/
def cleanupTempFiles (t : TempTree) : TempTree × Nat :=
  (cleanupAtPath activeFiles cutoffTime [] t,cleanedCount activeFiles cutoffTime [] t)

/-! ### What a guard stands for -/

/-- A guard protects its path and, where that is a directory, all below. -/
def Guarded (path : TempPath) : Prop := ∃ guard, activeFiles guard = true ∧ guard <+: path

def Removed (t : TempTree) (path : TempPath) : Prop :=
  (t.find path).isSome = true ∧ ((cleanupTempFiles activeFiles cutoffTime t).1.find path).isSome = false

/-- Nothing that is guarded is removed, and every expired file that is not. -/
def RespectsGuards (t : TempTree) : Prop :=
  (∀ path, Guarded activeFiles path → ¬Removed activeFiles cutoffTime t path) ∧
    ∀ path modified, t.find path = some (.file modified) → path ≠ [] → modified < cutoffTime →
      ¬Guarded activeFiles path → Removed activeFiles cutoffTime t path

/-- Below a guard, and at it where it is a directory, nothing is empty and
every file is fresh or has a guard of its own. -/
def GuardedFresh (t : TempTree) : Prop :=
  ∀ path sub, path ≠ [] → Guarded activeFiles path → t.find path = some sub →
    expired activeFiles cutoffTime path sub = false ∧ sub.isEmptyDir = false

end

/-! ### What the cleanup leaves -/

section
variable {activeFiles : TempPath → Bool} {cutoffTime : Int}

theorem cleanup_isEmptyDir {names : List Text} {child : Text → TempTree} {base : TempPath} {name : Text}
    (listed : name ∈ names)
    (stays : goes activeFiles cutoffTime (base ++ [name]) (child name)
      (cleanupAtPath activeFiles cutoffTime (base ++ [name]) (child name)) = false) :
    (cleanupAtPath activeFiles cutoffTime base (.dir names child)).isEmptyDir = false := by
  rw [cleanupAtPath,TempTree.isEmptyDir,List.isEmpty_eq_false_iff]
  intro empty
  have gone := List.filter_eq_nil_iff.mp empty name listed
  rw [stays] at gone
  exact gone rfl

variable (activeFiles cutoffTime) in
/-- What has something below it is a directory that is not empty. -/
theorem find_inside {t : TempTree} {name : Text} {rest : TempPath} (inside : (t.find (name::rest)).isSome = true) :
    t.isEmptyDir = false ∧ ∀ path, expired activeFiles cutoffTime path t = false := by
  cases t with
  | file modified => cases inside
  | dir names child =>
    refine ⟨?_,fun _ => rfl⟩
    rw [TempTree.isEmptyDir,List.isEmpty_eq_false_iff]
    intro empty
    rw [empty] at inside
    cases inside

variable (activeFiles cutoffTime) in
/-- A path is found after the cleanup exactly when its own entry stays: what
stays keeps all the directories above it. -/
theorem cleanup_find (t : TempTree) {sub : TempTree} (base : TempPath) {path : TempPath} (below : path ≠ [])
    (found : t.find path = some sub) :
    ((cleanupAtPath activeFiles cutoffTime base t).find path).isSome =
      !goes activeFiles cutoffTime (base ++ path) sub (cleanupAtPath activeFiles cutoffTime (base ++ path) sub) := by
  induction path generalizing t base with
  | nil => exact absurd rfl below
  | cons name rest ih =>
    cases t with
    | file modified => cases found
    | dir names child =>
      rw [TempTree.find] at found
      split at found
      next listed =>
        have member : name ∈ names := List.contains_iff_mem.mp listed
        rw [cleanupAtPath,TempTree.find]
        have kept : (names.filter fun name => !goes activeFiles cutoffTime (base ++ [name]) (child name)
              (cleanupAtPath activeFiles cutoffTime (base ++ [name]) (child name))).contains name =
            !goes activeFiles cutoffTime (base ++ [name]) (child name)
              (cleanupAtPath activeFiles cutoffTime (base ++ [name]) (child name)) := by
          rw [Bool.eq_iff_iff,List.contains_iff_mem,List.mem_filter]
          simp [member]
        rw [kept]
        cases here : goes activeFiles cutoffTime (base ++ [name]) (child name)
            (cleanupAtPath activeFiles cutoffTime (base ++ [name]) (child name)) with
        | false =>
          rw [Bool.not_false,if_pos rfl]
          cases rest with
          | nil =>
            cases found
            rw [here]
            rfl
          | cons next rest =>
            rw [ih (child name) (base ++ [name]) (List.cons_ne_nil _ _) found,List.append_assoc,
              List.singleton_append]
        | true =>
          rw [Bool.not_true,if_neg Bool.false_ne_true]
          cases rest with
          | nil =>
            cases found
            rw [here]
            rfl
          | cons next rest =>
            have onward := ih (child name) (base ++ [name]) (List.cons_ne_nil _ _) found
            rw [List.append_assoc,List.singleton_append] at onward
            rw [← onward]
            by_contra inside
            have inside : ((cleanupAtPath activeFiles cutoffTime (base ++ [name]) (child name)).find
                (next::rest)).isSome = true := Option.isSome_iff_ne_none.mpr (by simpa using inside)
            have full := (find_inside activeFiles cutoffTime inside).1
            have present : ((child name).find (next::rest)).isSome = true := by
              rw [found]
              rfl
            have fresh := (find_inside activeFiles cutoffTime present).2 (base ++ [name])
            rw [goes,full,fresh] at here
            cases here
      next absent => cases found

theorem removed_iff {t sub : TempTree} {path : TempPath} (below : path ≠ []) (found : t.find path = some sub) :
    Removed activeFiles cutoffTime t path ↔
      goes activeFiles cutoffTime path sub (cleanupAtPath activeFiles cutoffTime path sub) = true := by
  have kept := cleanup_find activeFiles cutoffTime t [] below found
  rw [List.nil_append] at kept
  rw [Removed,cleanupTempFiles,found,kept]
  simp

theorem find_append (t : TempTree) {path : TempPath} {sub : TempTree} (found : t.find path = some sub)
    (rest : TempPath) : t.find (path ++ rest) = sub.find rest := by
  induction path generalizing t with
  | nil =>
    cases found
    rfl
  | cons name path ih =>
    cases t with
    | file modified => cases found
    | dir names child =>
      rw [TempTree.find] at found
      rw [List.cons_append,TempTree.find]
      split at found
      next listed =>
        rw [if_pos listed]
        exact ih (child name) found
      next absent => cases found

theorem Guarded.below {path : TempPath} (guarded : Guarded activeFiles path) (rest : TempPath) :
    Guarded activeFiles (path ++ rest) := by
  obtain ⟨guard,active,within⟩ := guarded
  exact ⟨guard,active,within.trans (List.prefix_append path rest)⟩

/-- A directory below which all is fresh keeps something at every level. -/
theorem fresh_stays (sub : TempTree) {path : TempPath}
    (fresh : ∀ rest inner, sub.find rest = some inner →
      expired activeFiles cutoffTime (path ++ rest) inner = false ∧ inner.isEmptyDir = false) :
    goes activeFiles cutoffTime path sub (cleanupAtPath activeFiles cutoffTime path sub) = false := by
  induction sub generalizing path with
  | file modified =>
    have here := (fresh [] _ rfl).1
    rw [List.append_nil] at here
    rw [goes,here]
    rfl
  | dir names child ih =>
    have full := (fresh [] _ rfl).2
    cases listing : names with
    | nil =>
      rw [listing] at full
      cases full
    | cons name rest =>
      have listed : name ∈ names := by rw [listing]; exact List.mem_cons_self
      have stays : goes activeFiles cutoffTime (path ++ [name]) (child name)
          (cleanupAtPath activeFiles cutoffTime (path ++ [name]) (child name)) = false := by
        apply ih name
        intro rest inner found
        have deeper := fresh (name::rest) inner (by rw [TempTree.find,if_pos (List.contains_iff_mem.mpr listed),found])
        rw [List.append_assoc,List.singleton_append]
        exact deeper
      rw [← listing,goes,cleanup_isEmptyDir listed stays]
      rfl

theorem unguarded_removed {t : TempTree} {path : TempPath} {modified : Int} (below : path ≠ [])
    (found : t.find path = some (.file modified)) (old : modified < cutoffTime)
    (free : ¬Guarded activeFiles path) : Removed activeFiles cutoffTime t path := by
  have inactive : activeFiles path = false := by
    rw [Bool.eq_false_iff]
    intro active
    exact free ⟨path,active,List.prefix_refl path⟩
  rw [removed_iff below found,goes,expired,inactive,decide_eq_true old]
  rfl

variable (activeFiles cutoffTime) in
theorem files_goes (path : TempPath) {entry cleaned : TempTree} {count : Nat}
    (counted : count + cleaned.files = entry.files)
    (leaf : expired activeFiles cutoffTime path entry = true → cleaned = entry) :
    (if expired activeFiles cutoffTime path entry then 1 else 0) + count +
      (if goes activeFiles cutoffTime path entry cleaned then 0 else cleaned.files) = entry.files := by
  cases old : expired activeFiles cutoffTime path entry with
  | true =>
    have gone : goes activeFiles cutoffTime path entry cleaned = true := by rw [goes,old]; rfl
    have one : entry.files = 1 := by
      cases entry with
      | file modified => rfl
      | dir names child => cases old
    rw [leaf old] at counted
    rw [if_pos rfl,if_pos gone]
    omega
  | false =>
    cases empty : cleaned.isEmptyDir with
    | true =>
      have gone : goes activeFiles cutoffTime path entry cleaned = true := by rw [goes,empty,Bool.or_true]
      have none_ : cleaned.files = 0 := by
        cases cleaned with
        | file modified => cases empty
        | dir names child =>
          rw [TempTree.isEmptyDir,List.isEmpty_iff] at empty
          rw [empty]
          rfl
      rw [if_neg Bool.false_ne_true,if_pos gone]
      omega
    | false =>
      have stays : goes activeFiles cutoffTime path entry cleaned = false := by rw [goes,old,empty]; rfl
      rw [if_neg Bool.false_ne_true,stays,if_neg Bool.false_ne_true]
      omega

/-- The count is that of the files that are gone. -/
theorem cleanedCount_files (path : TempPath) (t : TempTree) :
    cleanedCount activeFiles cutoffTime path t + (cleanupAtPath activeFiles cutoffTime path t).files = t.files := by
  induction t generalizing path with
  | file modified => rfl
  | dir names child ih =>
    rw [cleanedCount,cleanupAtPath,TempTree.files,TempTree.files]
    induction names with
    | nil => rfl
    | cons name rest later =>
      have leaf : expired activeFiles cutoffTime (path ++ [name]) (child name) = true →
          cleanupAtPath activeFiles cutoffTime (path ++ [name]) (child name) = child name := by
        intro old
        cases entry : child name with
        | file modified => rfl
        | dir names child' =>
          rw [entry] at old
          cases old
      have here := files_goes activeFiles cutoffTime (path ++ [name]) (ih name (path ++ [name])) leaf
      rw [List.map_cons,List.sum_cons,List.map_cons,List.sum_cons,List.filter_cons]
      cases gone : goes activeFiles cutoffTime (path ++ [name]) (child name)
          (cleanupAtPath activeFiles cutoffTime (path ++ [name]) (child name)) with
      | true =>
        rw [gone,if_pos rfl] at here
        rw [Bool.not_true,if_neg Bool.false_ne_true]
        omega
      | false =>
        rw [gone,if_neg Bool.false_ne_true] at here
        rw [Bool.not_false,if_pos rfl,List.map_cons,List.sum_cons]
        omega

/-- The cleanup respects the guards of a tree exactly when nothing at or below
them looks abandoned. -/
theorem respects_guards_iff (activeFiles : TempPath → Bool) (cutoffTime : Int) (t : TempTree) :
    RespectsGuards activeFiles cutoffTime t ↔ GuardedFresh activeFiles cutoffTime t := by
  constructor
  · intro respects path sub below guarded found
    have stays := respects.1 path guarded
    rw [removed_iff below found,Bool.not_eq_true,goes,Bool.or_eq_false_iff] at stays
    refine ⟨stays.1,?_⟩
    cases sub with
    | file modified => rfl
    | dir names child =>
      rw [TempTree.isEmptyDir,List.isEmpty_eq_false_iff]
      intro empty
      rw [empty] at stays
      cases stays.2
  · intro fresh
    refine ⟨fun path guarded removed => ?_,fun path modified found below old free =>
      unguarded_removed below found old free⟩
    cases path with
    | nil => cases removed.2
    | cons name rest =>
      have below : name::rest ≠ [] := List.cons_ne_nil _ _
      obtain ⟨sub,found⟩ := Option.isSome_iff_exists.mp removed.1
      have stays : goes activeFiles cutoffTime (name::rest) sub
          (cleanupAtPath activeFiles cutoffTime (name::rest) sub) = false := by
        apply fresh_stays
        intro deeper inner further
        apply fresh
        · exact List.append_ne_nil_of_left_ne_nil below deeper
        · exact guarded.below deeper
        · rw [find_append t found,further]
      rw [removed_iff below found,stays] at removed
      cases removed

end

/-- The directory of a user whose guard has just been handed out is still empty,
and goes. -/
theorem new_directory_removed : ¬∀ activeFiles cutoffTime t, RespectsGuards activeFiles cutoffTime t := by
  intro law
  have respects := law (· == ["u".toList,"job".toList]) 0
    (.dir ["u".toList] fun _ => .dir ["job".toList] fun _ => .dir [] fun _ => .file 0)
  apply respects.1 ["u".toList,"job".toList] ⟨["u".toList,"job".toList],by decide,List.prefix_refl _⟩
  exact ⟨by decide +kernel,by decide +kernel⟩

end StorageHub.TempFiles
