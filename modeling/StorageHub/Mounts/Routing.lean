import StorageHub.Library.Subtree
import StorageHub.Mounts.Overlay

/-! Which paths the overlay sends to a mount. -/
namespace StorageHub.Mounts
open Library WriteCache Paths Scoped

/-! ### Trailing slashes -/

section trimming
variable {path rest : Text}

/-- Slashes alone, or slashes and a path. -/
theorem slashes_append {slashes : Text} (all : ∀ c ∈ slashes, c = '/')
    (ends : rest = [] ∨ ∃ tail, rest = '/'::tail) :
    slashes ++ rest = [] ∨ ∃ tail, slashes ++ rest = '/'::tail := by
  cases slashes with
  | nil => exact ends
  | cons c tail =>
    have first := all c List.mem_cons_self
    exact .inr ⟨tail ++ rest,by rw [first,List.cons_append]⟩

theorem within_of_split {root : Text} (tail : Text) (split : path = root ++ tail)
    (ends : tail = [] ∨ ∃ rest, tail = '/'::rest) : Text.within root path = true := by
  rcases ends with empty | ⟨rest,under⟩
  · exact Text.within_iff.mpr (.inl (by rw [split,empty,List.append_nil]))
  · exact Text.within_iff.mpr (.inr ⟨rest,by rw [split,under]⟩)

end trimming

/-! ### Directory paths in normal form -/

section normal
variable {path dir : Text}

theorem isPathWithin_iff : isPathWithin path dir = true ↔ dir = ['/'] ∨ Text.within dir path = true := by
  rw [isPathWithin,Bool.or_eq_true,beq_iff_eq]

theorem normalizeLogicalPath_slash (rest : Text) : normalizeLogicalPath ('/'::rest) = '/'::rest := by
  rw [normalizeLogicalPath,if_pos (by simp [Text.startsWith])]

theorem normalizeLogicalPath_cases (path : Text) : ∃ rest, normalizeLogicalPath path = '/'::rest := by
  unfold normalizeLogicalPath
  split
  next leading =>
    obtain ⟨rest,split⟩ := Text.startsWith_iff.mp leading
    exact ⟨rest,split.symm⟩
  next => exact ⟨path,rfl⟩

/-- A normal form is the root, or starts but does not end with a slash. -/
theorem normalizeDirPath_cases (path : Text) :
    normalizeDirPath path = ['/'] ∨
      (normalizeDirPath path = [] ∨ ∃ rest, normalizeDirPath path = '/'::rest) ∧
        Text.trimEnd '/' (normalizeDirPath path) = normalizeDirPath path := by
  unfold normalizeDirPath
  split
  next => exact .inl rfl
  next =>
    obtain ⟨rest,leading⟩ := normalizeLogicalPath_cases path
    rw [leading]
    exact .inr ⟨trimEnd_slash rest,trimEnd_trimEnd _⟩

theorem normalizeDirPath_idem (path : Text) :
    normalizeDirPath (normalizeDirPath path) = normalizeDirPath path := by
  rcases normalizeDirPath_cases path with root | ⟨start,fixed⟩
  · rw [root]
    rfl
  · rcases start with empty | ⟨rest,leading⟩
    · rw [empty]
      rfl
    · rw [leading] at fixed ⊢
      rw [normalizeDirPath,normalizeLogicalPath_slash,fixed,ite_eq_right_iff]
      exact fun root => root.symm

/-- A directory in normal form, as far as the end of its path goes. -/
theorem normalizeDirPath_slash {rest : Text} (nested : '/'::rest ≠ ['/']) :
    normalizeDirPath ('/'::rest) = Text.trimEnd '/' ('/'::rest) := by
  rw [normalizeDirPath,if_neg nested,normalizeLogicalPath_slash]

/-- What lies below a directory as it is written lies below its normal form. -/
theorem within_normalizeDirPath (rest : Text) (leading : path = [] ∨ ∃ tail, path = '/'::tail)
    (split : path = dir ++ rest) (ends : rest = [] ∨ ∃ tail, rest = '/'::tail) :
    isPathWithin path (normalizeDirPath dir) = true := by
  rw [isPathWithin_iff]
  by_cases root : dir = ['/']
  · rw [root]
    exact .inl rfl
  · right
    cases dir with
    | nil => exact within_of_split rest (by rw [split]; rfl) ends
    | cons c tail =>
      have first : c = '/' := by
        rcases leading with empty | ⟨tail',starts⟩
        · rw [empty] at split
          cases split
        · rw [starts] at split
          injection split with same
          exact same.symm
      subst first
      obtain ⟨slashes,ending,all⟩ := trimEnd_split ('/'::tail)
      rw [normalizeDirPath_slash root]
      apply within_of_split (slashes ++ rest)
      · rw [← List.append_assoc,← ending,split]
      · exact slashes_append all ends

/-- What a directory in normal form contains it contains in normal form. -/
theorem normalizeDirPath_within (inside : isPathWithin path (normalizeDirPath dir) = true) :
    isPathWithin (normalizeDirPath path) (normalizeDirPath dir) = true := by
  rw [isPathWithin_iff] at inside ⊢
  rcases inside with root | under
  · exact .inl root
  · rcases normalizeDirPath_cases dir with root | ⟨start,fixed⟩
    · exact .inl root
    · right
      rcases Text.within_iff.mp under with same | ⟨rest,split⟩
      · rw [same,normalizeDirPath_idem]
        exact Text.within_self _
      · have leading : ∃ tail, path = '/'::tail := by
          rcases start with empty | ⟨tail,leading⟩
          · exact ⟨rest,by rw [split,empty]; rfl⟩
          · exact ⟨tail ++ '/'::rest,by rw [split,leading]; rfl⟩
        obtain ⟨tail,leading⟩ := leading
        rcases eq_or_ne path ['/'] with root | nested
        · have normal : normalizeDirPath path = path := by
            rw [root]
            rfl
          rw [normal]
          exact under
        · rw [leading] at nested ⊢
          rw [normalizeDirPath_slash nested,← leading,split,trimEnd_append fixed]
          exact within_of_split _ rfl (trimEnd_slash rest)

/-- The part of a path up to a slash, without that slash. -/
theorem upTo_slash {upTo : Text} (nonempty : upTo ≠ []) (pre : path.rdropWhile (· != '/') = upTo) :
    ∃ slashes, upTo = Text.trimEnd '/' upTo ++ '/'::slashes := by
  obtain ⟨slashes,split,all⟩ := trimEnd_split upTo
  cases slashes with
  | nil =>
    have nonempty' : path.rdropWhile (· != '/') ≠ [] := by rw [pre]; exact nonempty
    have stops := List.rdropWhile_last_not (· != '/') path nonempty'
    have last : upTo.getLast? = some '/' := by
      rw [← pre,List.getLast?_eq_some_getLast nonempty']
      simpa using stops
    rw [List.append_nil] at split
    rw [split] at last
    exact absurd last (trimEnd_last upTo)
  | cons c tail =>
    rw [all c List.mem_cons_self] at split
    exact ⟨tail,split⟩

/-- A path lies in its parent. -/
theorem stdParentOrRoot_within (path : Text) :
    isPathWithin (normalizeDirPath path) (normalizeDirPath (stdParentOrRoot path)) = true := by
  have root : isPathWithin (normalizeDirPath path) (normalizeDirPath ['/']) = true :=
    isPathWithin_iff.mpr (.inl rfl)
  unfold stdParentOrRoot stdParent
  dsimp only
  by_cases empty : Text.trimEnd '/' path = []
  · rw [if_pos empty]
    exact root
  · rw [if_neg empty]
    obtain ⟨slashes,ending,-⟩ := trimEnd_split path
    have split := List.rdropWhile_append_rtakeWhile (p := (· != '/')) (l := Text.trimEnd '/' path)
    generalize pre : (Text.trimEnd '/' path).rdropWhile (· != '/') = upTo at split ⊢
    generalize (Text.trimEnd '/' path).rtakeWhile (· != '/') = name at split
    by_cases top : Text.trimEnd '/' upTo = [] ∧ upTo ≠ []
    · rw [if_pos top]
      exact root
    · rw [if_neg top]
      have nested : path ≠ ['/'] := by
        rintro rfl
        exact empty rfl
      have whole : path = upTo ++ (name ++ slashes) := by rw [← List.append_assoc,split,← ending]
      have below : isPathWithin (normalizeLogicalPath path) (normalizeDirPath (Text.trimEnd '/' upTo)) = true := by
        rcases eq_or_ne upTo [] with nothing | given
        · obtain ⟨rest,leading⟩ := normalizeLogicalPath_cases path
          rw [nothing,leading]
          exact within_normalizeDirPath _ (.inr ⟨rest,rfl⟩) rfl (.inr ⟨rest,rfl⟩)
        · obtain ⟨after,upper⟩ := upTo_slash given pre
          generalize Text.trimEnd '/' upTo = parent at upper top
          have nonempty : parent ≠ [] := fun gone => top ⟨gone,given⟩
          have placed : path = parent ++ '/'::(after ++ (name ++ slashes)) := by
            rw [whole,upper,List.append_assoc]
            rfl
          obtain ⟨c,tail,rfl⟩ := List.exists_cons_of_ne_nil nonempty
          by_cases slash : c = '/'
          · subst slash
            rw [placed,List.cons_append,normalizeLogicalPath_slash]
            exact within_normalizeDirPath _ (.inr ⟨_,rfl⟩) rfl (.inr ⟨_,rfl⟩)
          · have written : normalizeLogicalPath path = '/'::path := by
              rw [normalizeLogicalPath,placed,if_neg (by simp [Text.startsWith,Ne.symm slash])]
            have above : normalizeDirPath (c::tail) = normalizeDirPath ('/'::c::tail) := by
              rw [normalizeDirPath,if_neg (by simp [slash]),normalizeLogicalPath,
                if_neg (by simp [Text.startsWith,Ne.symm slash]),normalizeDirPath_slash (by simp)]
            rw [written,above,placed,← List.cons_append]
            exact within_normalizeDirPath _ (.inr ⟨_,rfl⟩) rfl (.inr ⟨_,rfl⟩)
      have normal : normalizeDirPath path = normalizeDirPath (normalizeLogicalPath path) := by
        obtain ⟨rest,leading⟩ := normalizeLogicalPath_cases path
        rw [normalizeDirPath,if_neg nested,leading,normalizeDirPath_slash]
        rw [← leading,normalizeLogicalPath]
        split
        next => exact nested
        next =>
          intro alone
          have nothing : path = [] := (List.cons.inj alone).2
          rw [nothing] at empty
          exact empty rfl
      rw [normal]
      exact normalizeDirPath_within below

end normal

theorem validatePath_spelled {path q : Text} (valid : validatePath path = .ok q) : q = spelled path := by
  unfold validatePath at valid
  split at valid
  · cases valid
  · split at valid
    · cases valid
    · exact (Except.ok.inj valid).symm

/-! ### Paths with no mount around them -/

section outside
variable {σ ω : Type} {mounts : List (MountRuntime σ ω)} {path : Text}

/-- No mount lies at the path, above it or below it. -/
def Outside (mounts : List (MountRuntime σ ω)) (path : Text) : Prop :=
  ∀ runtime ∈ mounts,
    isPathWithin (normalizeDirPath path) (normalizeDirPath runtime.model.mountDir) = false ∧
      isPathWithin (normalizeDirPath runtime.model.mountDir) (normalizeDirPath path) = false

instance : Decidable (Outside mounts path) := by unfold Outside; infer_instance

theorem normalizeDirPath_leading (path : Text) :
    normalizeDirPath path = [] ∨ ∃ rest, normalizeDirPath path = '/'::rest := by
  rcases normalizeDirPath_cases path with root | ⟨leading,-⟩
  · exact .inr ⟨[],root⟩
  · exact leading

/-- A mount takes only paths at or below its directory. -/
theorem MountRuntime.remotePath_within {runtime : MountRuntime σ ω} {rest : Text}
    (taken : runtime.remotePath (normalizeDirPath path) = some rest) :
    isPathWithin (normalizeDirPath path) (normalizeDirPath runtime.model.mountDir) = true := by
  have leading := normalizeDirPath_leading path
  unfold remotePath at taken
  split at taken
  next root =>
    rw [root,isPathWithin_iff]
    exact .inl rfl
  next =>
    split at taken
    next same => exact within_normalizeDirPath [] leading (by rw [List.append_nil,same]) (.inl rfl)
    next =>
      obtain ⟨tail,filtered,-⟩ := Option.map_eq_some_iff.mp taken
      obtain ⟨stripped,slash⟩ := Option.filter_eq_some_iff.mp filtered
      obtain ⟨below,under⟩ := Text.startsWith_iff.mp slash
      exact within_normalizeDirPath _ leading (Text.stripPrefix_some stripped) (.inr ⟨below,under.symm⟩)

namespace MountedUserStorage
variable {s : MountedUserStorage σ ω}

theorem resolveRuntime_outside (outside : Outside s.mounts path) : s.resolveRuntime path = none := by
  rw [resolveRuntime,List.findSome?_eq_none_iff]
  intro runtime member
  rw [Option.map_eq_none_iff]
  cases taken : runtime.remotePath (normalizeDirPath path) with
  | none => rfl
  | some rest =>
    have inside := MountRuntime.remotePath_within taken
    rw [(outside runtime member).1] at inside
    cases inside

theorem directMountChildren_outside (outside : Outside s.mounts path) : s.directMountChildren path = [] := by
  rw [directMountChildren,List.filter_eq_nil_iff]
  intro runtime member child
  rw [Bool.and_eq_true,beq_iff_eq] at child
  have inside := stdParentOrRoot_within runtime.model.mountDir
  rw [child.2,(outside runtime member).2] at inside
  cases inside

theorem descendantMounts_outside (outside : Outside s.mounts path) : s.descendantMounts path = [] := by
  rw [descendantMounts,List.filter_eq_nil_iff]
  intro runtime member below
  have inside := normalizeDirPath_within below
  rw [(outside runtime member).2] at inside
  cases inside

end MountedUserStorage

end outside
end StorageHub.Mounts
