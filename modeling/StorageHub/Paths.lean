import StorageHub.Library.Text

/-! Logical paths of a user and the physical paths the pool stores them under. -/
namespace StorageHub.Paths
open Library

/-- `Path::parent` of the standard library. -/
def stdParent (path : Text) : Option Text :=
  let trimmed := Text.trimEnd '/' path
  if trimmed = [] then none
  else
    let upTo := trimmed.rdropWhile (· != '/')
    let parent := Text.trimEnd '/' upTo
    if parent = [] ∧ upTo ≠ [] then some ['/'] else some parent

/-- `parent_path` of the write cache: the root stands for a missing parent. -/
def parentPath (path : Text) : Text :=
  match stdParent path with
  | some [] => ['/']
  | some parent => parent
  | none => ['/']

/-- `get_physical_path` of an already validated logical path. -/
def physicalPath (userId logicalPath : Text) : Text :=
  userId ++ '/' :: Text.trimStart '/' logicalPath

def physicalToLogicalPath (userId physical : Text) : Option Text :=
  if physical = userId then some ['/']
  else (Text.stripPrefix (userId ++ ['/']) physical).map fun stripped =>
    Text.trimEnd '/' ('/' :: Text.trimStart '/' stripped)

/-- Validation leaves every path but the root in this shape: one leading slash,
no second one after it, none at the end and no backslash. -/
def FileShaped (path : Text) : Prop :=
  path.head? = some '/' ∧ path.tail.head? ≠ some '/' ∧ path.getLast? ≠ some '/' ∧ '\\' ∉ path

instance (path : Text) : Decidable (FileShaped path) := by unfold FileShaped; infer_instance

theorem fileShaped_cons {path : Text} (shaped : FileShaped path) :
    ∃ rest, path = '/'::rest ∧ rest.head? ≠ some '/' ∧ ∃ init last, rest = init ++ [last] ∧ last ≠ '/' := by
  obtain ⟨first,second,final,-⟩ := shaped
  cases path with
  | nil => simp at first
  | cons c rest =>
    have leading : c = '/' := by simpa using first
    subst leading
    refine ⟨rest,rfl,second,?_⟩
    rcases List.eq_nil_or_concat rest with empty | ⟨init,last,split⟩
    · subst empty
      simp at final
    · rw [List.concat_eq_append] at split
      subst split
      refine ⟨init,last,rfl,fun slash => final ?_⟩
      rw [slash,← List.cons_append,List.getLast?_append]
      rfl

theorem trimStart_of_head {c : Char} {rest : Text} (other : rest.head? ≠ some c) :
    Text.trimStart c rest = rest := by
  cases rest with
  | nil => rfl
  | cons d tail =>
    have differs : d ≠ c := fun same => other (by simp [same])
    simp [Text.trimStart,differs]

theorem trimEnd_of_last {c last : Char} {init : Text} (other : last ≠ c) :
    Text.trimEnd c (init ++ [last]) = init ++ [last] := by
  simp [Text.trimEnd,other]

theorem trimEnd_plain {path : Text} (plain : path.getLast? ≠ some '/') : Text.trimEnd '/' path = path := by
  rcases List.eq_nil_or_concat path with rfl | ⟨init,last,rfl⟩
  · rfl
  · rw [List.concat_eq_append] at plain ⊢
    apply trimEnd_of_last
    intro slash
    exact plain (by simp [slash])

theorem trimEnd_cons {c : Char} (other : c ≠ '/') (path : Text) :
    ∃ rest, Text.trimEnd '/' (c::path) = c::rest := by
  have pre : Text.trimEnd '/' (c::path) <+: c::path := List.rdropWhile_prefix _ _
  cases trimmed : Text.trimEnd '/' (c::path) with
  | nil =>
    have all := List.rdropWhile_eq_nil_iff.mp trimmed c List.mem_cons_self
    exact absurd (beq_iff_eq.mp all) other
  | cons d rest =>
    rw [trimmed] at pre
    exact ⟨rest,by rw [(List.cons_prefix_cons.mp pre).1]⟩

theorem trimEnd_split (path : Text) :
    ∃ slashes, path = Text.trimEnd '/' path ++ slashes ∧ ∀ c ∈ slashes, c = '/' := by
  refine ⟨path.rtakeWhile (· == '/'),List.rdropWhile_append_rtakeWhile.symm,?_⟩
  intro c member
  have slash := List.mem_rtakeWhile_imp member
  simpa using slash

theorem trimEnd_trimEnd (path : Text) : Text.trimEnd '/' (Text.trimEnd '/' path) = Text.trimEnd '/' path :=
  List.rdropWhile_idempotent _ _

/-- What stands before the last character that is no slash stays. -/
theorem trimEnd_append {path : Text} (fixed : Text.trimEnd '/' path = path) (rest : Text) :
    Text.trimEnd '/' (path ++ rest) = path ++ Text.trimEnd '/' rest := by
  induction rest using List.reverseRecOn with
  | nil =>
    have nothing : Text.trimEnd '/' [] = [] := rfl
    rw [nothing,List.append_nil,fixed]
  | append_singleton init last ih =>
    by_cases slash : last = '/'
    · have shorter (start : Text) : Text.trimEnd '/' (start ++ [last]) = Text.trimEnd '/' start := by
        rw [Text.trimEnd,List.rdropWhile_concat_pos _ _ _ (by simp [slash])]
        rfl
      rw [← List.append_assoc,shorter,shorter,ih]
    · rw [← List.append_assoc,trimEnd_of_last slash,trimEnd_of_last slash,List.append_assoc]

theorem trimEnd_slash (rest : Text) :
    Text.trimEnd '/' ('/'::rest) = [] ∨ ∃ tail, Text.trimEnd '/' ('/'::rest) = '/'::tail := by
  have initial : Text.trimEnd '/' ('/'::rest) <+: '/'::rest := List.rdropWhile_prefix _ _
  cases trimmed : Text.trimEnd '/' ('/'::rest) with
  | nil => exact .inl rfl
  | cons c tail =>
    rw [trimmed] at initial
    have first : c = '/' := (List.cons_prefix_cons.mp initial).1
    exact .inr ⟨tail,by rw [first]⟩

theorem trimEnd_last (path : Text) : (Text.trimEnd '/' path).getLast? ≠ some '/' := by
  intro slash
  have nonempty : Text.trimEnd '/' path ≠ [] := by
    intro empty
    rw [empty] at slash
    cases slash
  have stops := List.rdropWhile_last_not (· == '/') path nonempty
  rw [List.getLast?_eq_some_getLast nonempty,Option.some.injEq] at slash
  exact stops (by simpa [Text.trimEnd] using slash)

theorem physicalPath_cons (userId : Text) {rest : Text} (other : rest.head? ≠ some '/') :
    physicalPath userId ('/'::rest) = userId ++ '/'::rest := by
  have trimmed : Text.trimStart '/' ('/'::rest) = rest := by
    have peeled : Text.trimStart '/' ('/'::rest) = Text.trimStart '/' rest := by
      simp [Text.trimStart]
    rw [peeled,trimStart_of_head other]
  rw [physicalPath,trimmed]

theorem physicalPath_fileShaped (userId : Text) {path : Text} (shaped : FileShaped path) :
    physicalPath userId path = userId ++ path := by
  obtain ⟨rest,rfl,other,-⟩ := fileShaped_cons shaped
  exact physicalPath_cons userId other

/-- The cache's translation back recovers exactly the logical path. -/
theorem physicalToLogical_physicalPath (userId : Text) {path : Text} (shaped : FileShaped path) :
    physicalToLogicalPath userId (physicalPath userId path) = some path := by
  obtain ⟨rest,rfl,other,init,last,ending,final⟩ := fileShaped_cons shaped
  rw [physicalPath_cons userId other]
  have longer : userId ++ '/'::rest ≠ userId := by simp
  have stripped : Text.stripPrefix (userId ++ ['/']) (userId ++ '/'::rest) = some rest := by
    have split : userId ++ '/'::rest = (userId ++ ['/']) ++ rest := by simp
    rw [split,Text.stripPrefix_append]
  have kept : Text.trimEnd '/' ('/'::rest) = '/'::rest := by
    subst ending
    rw [← List.cons_append]
    exact trimEnd_of_last final
  simp only [physicalToLogicalPath,if_neg longer,stripped,Option.map_some,
    trimStart_of_head other,kept]

/-- Another user's files are outside the user's tree. -/
theorem physicalToLogical_other {userId other : Text} (plain : '/' ∉ userId)
    (otherPlain : '/' ∉ other) (distinct : other ≠ userId) {path : Text}
    (shaped : FileShaped path) : physicalToLogicalPath userId (physicalPath other path) = none := by
  obtain ⟨rest,rfl,trimmed,-⟩ := fileShaped_cons shaped
  rw [physicalPath_cons other trimmed]
  have longer : other ++ '/'::rest ≠ userId := by
    intro same
    exact plain (same ▸ by simp)
  have foreign : Text.stripPrefix (userId ++ ['/']) (other ++ '/'::rest) = none := by
    cases found : Text.stripPrefix (userId ++ ['/']) (other ++ '/'::rest) with
    | none => rfl
    | some stripped =>
      have split := Text.stripPrefix_some found
      simp only [List.append_assoc,List.singleton_append] at split
      exact absurd (Text.before_separator otherPlain plain split) distinct
  simp only [physicalToLogicalPath,if_neg longer,foreign,Option.map_none]

example : parentPath "u/a/b".toList = "u/a".toList := by decide
example : parentPath "u".toList = "/".toList := by decide

end StorageHub.Paths
