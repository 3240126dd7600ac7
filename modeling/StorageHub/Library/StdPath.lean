import StorageHub.Library.Text

/-! Paths as the standard library takes them apart: empty segments and single dots
inside a path do not count. -/
namespace StorageHub.Library.Text

def dropped (segment : Text) : Bool := segment.isEmpty || segment == ['.']

/-- The segments of a path from its end, without those that do not count there. -/
def segmentsBack (path : Text) : List Text := (path.splitOn '/').reverse.dropWhile dropped

/-- `Path::file_name`. -/
def fileName (path : Text) : Option Text :=
  (segmentsBack path).head?.bind fun name => if name == ['.','.'] then none else some name

/-- A name cut at its last dot, unless it only begins with it. -/
def cutAtDot (name : Text) : Text × Option Text :=
  (rsplitOnce '.' name).elim (name,none) fun cut => if cut.1.isEmpty then (name,none) else (cut.1,some cut.2)

/-- `Path::file_stem`. -/
def fileStem (path : Text) : Option Text := (fileName path).map fun name => (cutAtDot name).1

/-- `Path::extension`. -/
def extension (path : Text) : Option Text := (fileName path).bind fun name => (cutAtDot name).2

/-- `Path::parent`. The root and the empty path have none. -/
def parent (path : Text) : Option Text :=
  if (segmentsBack path).isEmpty then if path.head? == some '.' then some [] else none
  else
    let rest := (segmentsBack path).tail
    let kept := rest.dropWhile dropped
    if kept.isEmpty then
      some (if path.head? == some '/' then ['/'] else if rest.getLast? == some ['.'] then ['.'] else [])
    else some (['/'].intercalate kept.reverse)

section
variable {name : Text}

/-- The pieces of a split do not hold what it splits at. -/
theorem not_mem_of_splitOn {s piece : Text} {c : Char} (member : piece ∈ s.splitOn c) : c ∉ piece := by
  induction s generalizing piece with
  | nil =>
    rw [List.splitOn_nil,List.mem_singleton] at member
    rw [member]
    exact List.not_mem_nil
  | cons d rest ih =>
    rw [List.splitOn_cons_eq_if_modifyHead] at member
    split at member
    next =>
      rcases List.mem_cons.mp member with first | later
      · rw [first]
        exact List.not_mem_nil
      · exact ih later
    next other =>
      obtain ⟨first,others,pieces⟩ := List.exists_cons_of_ne_nil (List.splitOn_ne_nil c rest)
      rw [pieces] at member ih
      rcases List.mem_cons.mp member with here | later
      · rw [here,List.mem_cons,not_or]
        exact ⟨fun same => other (beq_iff_eq.mpr same.symm),ih List.mem_cons_self⟩
      · exact ih (List.mem_cons_of_mem _ later)

/-- A last segment that counts is the last that counts. -/
theorem segmentsBack_named (dir : Text) (plain : '/' ∉ name) (counts : dropped name = false) :
    segmentsBack (dir ++ '/'::name) = name::(dir.splitOn '/').reverse := by
  have stops : ¬dropped name = true := by
    rw [counts]
    exact Bool.false_ne_true
  rw [segmentsBack,List.splitOn_append_cons_self,List.splitOn_eq_singleton plain,List.reverse_append,
    List.reverse_singleton,List.singleton_append,List.dropWhile_cons_of_neg stops]

theorem segmentsBack_bare (plain : '/' ∉ name) (counts : dropped name = false) : segmentsBack name = [name] := by
  have stops : ¬dropped name = true := by
    rw [counts]
    exact Bool.false_ne_true
  rw [segmentsBack,List.splitOn_eq_singleton plain,List.reverse_singleton,List.dropWhile_cons_of_neg stops]

theorem cutAtDot_append {base ext : Text} (given : base ≠ []) (plain : '.' ∉ ext) :
    cutAtDot (base ++ '.'::ext) = (base,some ext) := by
  have present : '.' ∈ '.'::ext := List.mem_cons_self
  have after : afterLast '.' ('.'::ext) = ext := by
    rw [afterLast,List.rtakeWhile,List.reverse_cons,List.takeWhile_append_of_pos]
    · simp
    · intro c member
      rw [List.mem_reverse] at member
      simp only [bne_iff_ne,ne_eq]
      intro same
      exact plain (same ▸ member)
  have before : ('.'::ext).rdropWhile (· != '.') = ['.'] := by
    rw [List.rdropWhile,List.reverse_cons,List.dropWhile_append_of_pos]
    · rfl
    · intro c member
      rw [List.mem_reverse] at member
      simp only [bne_iff_ne,ne_eq]
      intro same
      exact plain (same ▸ member)
  have filled : base.isEmpty = false := by
    rw [List.isEmpty_eq_false_iff]
    exact given
  rw [cutAtDot,rsplitOnce_append base present,before,after,Option.elim_some]
  simp [filled]

theorem cutAtDot_prefix (name : Text) : (cutAtDot name).1 <+: name := by
  rw [cutAtDot,rsplitOnce]
  split
  next =>
    rw [Option.elim_some]
    split
    next => exact List.prefix_refl name
    next => exact (List.dropLast_prefix _).trans (List.rdropWhile_prefix _ _)
  next => exact List.prefix_refl name

/-- A name is one segment, and so is its stem. -/
theorem fileStem_segment {path stem : Text} (found : fileStem path = some stem) : stem ≠ [] ∧ '/' ∉ stem := by
  obtain ⟨whole,named,rfl⟩ := Option.map_eq_some_iff.mp found
  have segment : whole ∈ path.splitOn '/' ∧ dropped whole = false := by
    obtain ⟨first,head,kept⟩ := Option.bind_eq_some_iff.mp named
    have same : first = whole := by
      split at kept
      next => cases kept
      next => exact Option.some.inj kept
    rw [same] at head
    obtain ⟨rest,split⟩ := List.head?_eq_some_iff.mp head
    have member : whole ∈ segmentsBack path := by rw [split]; exact List.mem_cons_self
    have given : segmentsBack path ≠ [] := by rw [split]; exact List.cons_ne_nil _ _
    refine ⟨List.mem_reverse.mp ((List.dropWhile_sublist _).subset member),?_⟩
    have top := (List.head_eq_iff_head?_eq_some given).mpr head
    rw [← top]
    exact List.head_dropWhile_not dropped given
  obtain ⟨inside,counts⟩ := segment
  have filled : whole ≠ [] := by
    rintro rfl
    cases counts
  constructor
  · rw [cutAtDot]
    cases rsplitOnce '.' whole with
    | none => exact filled
    | some cut =>
      rw [Option.elim_some]
      split
      next => exact filled
      next given =>
        rintro empty
        dsimp only at empty
        rw [empty] at given
        exact given rfl
  · intro slash
    have part := cutAtDot_prefix whole
    exact not_mem_of_splitOn inside (part.subset slash)

/-- The stem of a bare name is a part of it. -/
theorem fileStem_bare (plain : '/' ∉ name) {stem : Text} (found : fileStem name = some stem) : stem <+: name := by
  obtain ⟨whole,named,rfl⟩ := Option.map_eq_some_iff.mp found
  have same : whole = name := by
    rw [fileName,segmentsBack,List.splitOn_eq_singleton plain,List.reverse_singleton,List.dropWhile_cons] at named
    split at named
    next => cases named
    next =>
      rw [List.head?_cons,Option.bind_some] at named
      split at named
      next => cases named
      next => exact (Option.some.inj named).symm
  rw [same]
  exact cutAtDot_prefix name

end

/-- A name with an extension, in a directory or by itself, is taken apart. -/
theorem named_parts {base ext : Text} (given : base ≠ []) (slashless : '/' ∉ base ++ '.'::ext) (plain : '.' ∉ ext)
    (ended : ext ≠ []) {path : Text} (placed : path = base ++ '.'::ext ∨ ∃ dir, path = dir ++ '/'::(base ++ '.'::ext)) :
    fileStem path = some base ∧ extension path = some ext := by
  have counts : dropped (base ++ '.'::ext) = false := by
    rw [dropped,Bool.or_eq_false_iff]
    refine ⟨by simp,?_⟩
    rw [beq_eq_false_iff_ne]
    intro dot
    have lengths := congrArg List.length dot
    have some_ := List.length_pos_iff.mpr given
    simp only [List.length_append,List.length_cons,List.length_nil] at lengths
    omega
  have parent : base ++ '.'::ext ≠ ['.','.'] := by
    intro dots
    have lengths := congrArg List.length dots
    have some_ := List.length_pos_iff.mpr given
    have some' := List.length_pos_iff.mpr ended
    simp only [List.length_append,List.length_cons,List.length_nil] at lengths
    omega
  have name : fileName path = some (base ++ '.'::ext) := by
    rcases placed with bare | ⟨dir,inside⟩
    · rw [bare,fileName,segmentsBack_bare slashless counts]
      simp [parent]
    · rw [inside,fileName,segmentsBack_named dir slashless counts]
      simp [parent]
  rw [fileStem,extension,name,Option.map_some,Option.bind_some,cutAtDot_append given plain]
  exact ⟨rfl,rfl⟩

example : fileName "/a/b.tar.gz/".toList = some "b.tar.gz".toList := by decide
example : extension "/a/.jpg".toList = none := by decide
example : parent "/a/b/./c".toList = some "/a/b".toList := by decide

end StorageHub.Library.Text
