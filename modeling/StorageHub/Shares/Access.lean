import StorageHub.Library.StdPath
import StorageHub.Scoped.Sandbox
import StorageHub.WriteCache.Policy

/-! The path a visitor of a share asks for, and where under the share's base it
leads. -/
namespace StorageHub.Shares
open Library Scoped WriteCache

/-! ### Normalizing -/

def dotDot : Text := ['.','.']

def invalidPath : Text := "INVALID_PATH".toList

def notADirectory : Text := "NOT_A_DIRECTORY".toList

/-- The segments that are neither empty nor a dot. -/
def keptSegments (path : Text) : List Text :=
  ((path.splitOn '/').map trim).filter fun segment => !(segment.isEmpty || segment == ['.'])

def rooted (segments : List Text) : Text :=
  if segments.isEmpty then ['/'] else '/'::['/'].intercalate segments

def normalizeAbsolutePath (path : Text) : Text :=
  let trimmed := trim path
  if trimmed.isEmpty || trimmed == ['/'] then ['/'] else rooted (keptSegments (withSlashes trimmed))

/-- The slashes are made one before the escapes are read. -/
def decodeSharePath (decode : Text → Option Text) (raw : Text) : Except Text Text :=
  let normalized := withSlashes raw
  if normalized.any (· == '%') then (decode normalized).elim (.error invalidPath) .ok else .ok normalized

def collectSegments : List Text → Except Text (List Text)
  | [] => .ok []
  | raw::rest =>
    let segment := trim raw
    if segment.isEmpty || segment == ['.'] then collectSegments rest
    else if segment == dotDot || segment.any isControl then .error invalidPath
    else (collectSegments rest).map (segment::·)

def normalizeShareRelativePath (decode : Text → Option Text) (requestedPath : Text) : Except Text Text := do
  let decoded ← decodeSharePath decode (trim requestedPath)
  let segments ← collectSegments (decoded.splitOn '/')
  pure (rooted segments)

def isPathWithinRoot (root candidate : Text) : Bool :=
  let root := normalizeAbsolutePath root
  let candidate := normalizeAbsolutePath candidate
  root == ['/'] || candidate == root ||
    (Text.stripPrefix root candidate).any fun rest => Text.startsWith ['/'] rest

def resolveShareDescendantPath (decode : Text → Option Text) (basePath requestedPath : Text)
    (baseIsDir : Bool) : Except Text Text := do
  let basePath := normalizeAbsolutePath basePath
  let relativePath ← normalizeShareRelativePath decode requestedPath
  if relativePath == ['/'] then .ok basePath
  else if !baseIsDir then .error notADirectory
  else
    let candidate := if basePath == ['/'] then relativePath
      else Text.trimEnd '/' basePath ++ '/'::Text.trimStart '/' relativePath
    if isPathWithinRoot basePath candidate then .ok candidate else .error invalidPath

/-! ### Segments -/

/-- The segments between slashes of either kind. -/
def bothSplit (path : Text) : List Text := (withSlashes path).splitOn '/'

theorem mem_trim {c : Char} {s : Text} (member : c ∈ trim s) : c ∈ s :=
  List.dropWhile_subset _ ((List.rdropWhile_prefix _ _).subset member)

theorem dropWhile_rdropWhile {p : Char → Bool} {s : Text} (start : s.dropWhile p = s) :
    (s.rdropWhile p).dropWhile p = s.rdropWhile p := by
  cases kept : s.rdropWhile p with
  | nil => rfl
  | cons c rest =>
    have initial : c::rest <+: s := by
      rw [← kept]
      exact List.rdropWhile_prefix _ _
    obtain ⟨tail,split⟩ := initial
    rw [List.dropWhile_cons]
    split
    next blank =>
      rw [← split,List.cons_append,List.dropWhile_cons,if_pos blank] at start
      have shorter := congrArg List.length start
      have bound := (List.dropWhile_suffix p (l := rest ++ tail)).length_le
      simp only [List.length_cons] at shorter
      omega
    next => rfl

theorem trim_trim (s : Text) : trim (trim s) = trim s := by
  have start : (s.dropWhile isWhitespace).dropWhile isWhitespace = s.dropWhile isWhitespace :=
    List.dropWhile_idempotent (p := isWhitespace) s
  rw [trim,trim,dropWhile_rdropWhile start,List.rdropWhile_idempotent]

/-- What a segment is once its blanks are gone: it holds no slash, and something. -/
structure Segment (segment : Text) : Prop where
  trimmed : trim segment = segment
  filled : segment ≠ []
  slashFree : '/' ∉ segment

theorem Segment.first {segment : Text} (seg : Segment segment) :
    Text.trimStart '/' segment = segment := by
  apply Paths.trimStart_of_head
  intro slash
  exact seg.slashFree (List.mem_of_mem_head? slash)

theorem Segment.last {segment : Text} (seg : Segment segment) :
    ∃ init c, segment = init ++ [c] ∧ c ≠ '/' ∧ isWhitespace c = false := by
  rcases List.eq_nil_or_concat segment with empty | ⟨init,c,split⟩
  · exact absurd empty seg.filled
  · rw [List.concat_eq_append] at split
    refine ⟨init,c,split,?_,?_⟩
    · intro slash
      exact seg.slashFree (by rw [split,slash]; exact List.mem_append_right _ List.mem_cons_self)
    · have stops := List.rdropWhile_last_not isWhitespace (segment.dropWhile isWhitespace)
        (by rw [← trim,seg.trimmed]; exact seg.filled)
      have whole : (segment.dropWhile isWhitespace).rdropWhile isWhitespace = init ++ [c] := by
        rw [← trim,seg.trimmed,split]
      simpa [whole] using stops

theorem mem_keptSegments {path segment : Text} (member : segment ∈ keptSegments path) :
    Segment segment ∧ segment ≠ ['.'] ∧ ∃ raw ∈ path.splitOn '/', segment = trim raw := by
  obtain ⟨given,kept⟩ := List.mem_filter.mp member
  obtain ⟨raw,piece,rfl⟩ := List.mem_map.mp given
  simp only [Bool.not_eq_true',Bool.or_eq_false_iff,List.isEmpty_eq_false_iff,beq_eq_false_iff_ne] at kept
  refine ⟨⟨trim_trim raw,kept.1,fun slash => Text.not_mem_of_splitOn piece (mem_trim slash)⟩,kept.2,raw,piece,rfl⟩

theorem keptSegments_append (a b : Text) : keptSegments (a ++ '/'::b) = keptSegments a ++ keptSegments b := by
  rw [keptSegments,List.splitOn_append_cons_self,List.map_append,List.filter_append]
  rfl

theorem keptSegments_slash (rest : Text) : keptSegments ('/'::rest) = keptSegments rest :=
  keptSegments_append [] rest

/-- A segment without slashes is one part of the path, unless it counts for nothing. -/
theorem keptSegments_segment {segment : Text} (seg : Segment segment) (named : segment ≠ ['.']) :
    keptSegments segment = [segment] := by
  have single : segment.splitOn '/' = [segment] := List.splitOn_eq_singleton seg.slashFree
  have kept : ∀ other ∈ [segment], (!(other.isEmpty || other == ['.'])) = true := by
    simp [seg.filled,named]
  rw [keptSegments,single,List.map_singleton,seg.trimmed]
  exact List.filter_eq_self.mpr kept

/-- What a text that is split into segments at slashes is made of. -/
theorem split_rooted {α : Type} (parts : Text → List α)
    (append : ∀ a b, parts (a ++ '/'::b) = parts a ++ parts b) (segments : List Text) :
    segments ≠ [] → parts (rooted segments) = parts [] ++ segments.flatMap parts := by
  intro given
  have joined : ∀ segments : List Text, segments ≠ [] →
      parts (['/'].intercalate segments) = segments.flatMap parts := by
    intro segments given
    induction segments with
    | nil => exact absurd rfl given
    | cons first rest ih =>
      cases rest with
      | nil => simp
      | cons second others =>
        rw [List.intercalate_cons_cons,List.append_assoc,List.singleton_append,append,
          ih (List.cons_ne_nil _ _)]
        rfl
  rw [rooted,if_neg (by simpa using given),← List.nil_append ('/'::_),append,joined segments given]

theorem keptSegments_rooted (segments : List Text) :
    keptSegments (rooted segments) = segments.flatMap keptSegments := by
  by_cases empty : segments = []
  · rw [empty]
    decide
  · exact split_rooted keptSegments keptSegments_append segments empty

theorem withSlashes_rooted (segments : List Text) :
    withSlashes (rooted segments) = rooted (segments.map withSlashes) := by
  have joined : withSlashes (['/'].intercalate segments) = ['/'].intercalate (segments.map withSlashes) := by
    induction segments with
    | nil => rfl
    | cons first rest ih =>
      cases rest with
      | nil => simp
      | cons second others =>
        rw [List.map_cons,List.map_cons,List.intercalate_cons_cons,List.intercalate_cons_cons,← List.map_cons,← ih]
        simp [withSlashes]
  cases segments with
  | nil => rfl
  | cons first rest =>
    rw [rooted,if_neg (by simp),rooted,if_neg (by simp),← joined]
    rfl

theorem joined_append {front back : List Text} (given : front ≠ []) (given' : back ≠ []) :
    ['/'].intercalate (front ++ back) = ['/'].intercalate front ++ '/'::['/'].intercalate back := by
  induction front with
  | nil => exact absurd rfl given
  | cons first rest ih =>
    cases rest with
    | nil =>
      rw [List.singleton_append,List.intercalate_cons_of_ne_nil given',List.intercalate_singleton,
        List.append_assoc,List.singleton_append]
    | cons second others =>
      rw [List.cons_append,List.cons_append,List.intercalate_cons_cons,← List.cons_append,
        ih (List.cons_ne_nil _ _),List.intercalate_cons_cons,List.append_assoc]
      simp

theorem rooted_eq {segments : List Text} (given : segments ≠ []) :
    rooted segments = '/'::['/'].intercalate segments :=
  if_neg (by simpa using given)

theorem rooted_append {front back : List Text} (given : front ≠ []) (given' : back ≠ []) :
    rooted (front ++ back) = rooted front ++ '/'::['/'].intercalate back := by
  rw [rooted_eq (by simp [given]),rooted_eq given,joined_append given given',List.cons_append]

theorem joined_last {segments : List Text} (segs : ∀ s ∈ segments, Segment s) (given : segments ≠ []) :
    ∃ init c, ['/'].intercalate segments = init ++ [c] ∧ c ≠ '/' ∧ isWhitespace c = false := by
  rcases List.eq_nil_or_concat segments with empty | ⟨front,last,split⟩
  · exact absurd empty given
  · rw [List.concat_eq_append] at split
    obtain ⟨init,c,ending,other,solid⟩ := (segs last (by simp [split])).last
    by_cases single : front = []
    · refine ⟨init,c,?_,other,solid⟩
      rw [split,single,List.nil_append,List.intercalate_singleton,ending]
    · refine ⟨['/'].intercalate front ++ '/'::init,c,?_,other,solid⟩
      rw [split,joined_append single (List.cons_ne_nil _ _),List.intercalate_singleton,ending]
      simp

theorem trim_rooted {segments : List Text} (segs : ∀ s ∈ segments, Segment s) :
    trim (rooted segments) = rooted segments := by
  by_cases empty : segments = []
  · rw [empty]
    decide
  · obtain ⟨init,c,ending,-,solid⟩ := joined_last segs empty
    have start : (rooted segments).dropWhile isWhitespace = rooted segments := by
      rw [rooted_eq empty,List.dropWhile_cons,if_neg (by decide)]
    rw [trim,start,rooted_eq empty,ending,← List.cons_append,List.rdropWhile_concat_neg _ _ _ (by simp [solid])]

theorem normalizeAbsolutePath_eq (path : Text) :
    normalizeAbsolutePath path = rooted (keptSegments (withSlashes (trim path))) := by
  unfold normalizeAbsolutePath
  dsimp only
  split
  next root =>
    rcases Bool.or_eq_true_iff.mp root with empty | slash
    · rw [List.isEmpty_iff.mp empty]
      decide
    · rw [beq_iff_eq.mp slash]
      decide
  next => rfl

theorem normalize_rooted {segments : List Text} (segs : ∀ s ∈ segments, Segment s) :
    normalizeAbsolutePath (rooted segments) = rooted (segments.flatMap fun s => keptSegments (withSlashes s)) := by
  rw [normalizeAbsolutePath_eq,trim_rooted segs,withSlashes_rooted,keptSegments_rooted,List.flatMap_map]

/-! ### Where a request leads -/

theorem trim_cons {c : Char} (blank : isWhitespace c = true) (s : Text) : trim (c::s) = trim s := by
  rw [trim,List.dropWhile_cons,if_pos blank,trim]

theorem trim_concat {c : Char} (blank : isWhitespace c = true) (s : Text) : trim (s ++ [c]) = trim s := by
  rw [trim,trim,List.dropWhile_append]
  split
  next empty =>
    rw [List.isEmpty_iff.mp empty,List.dropWhile_cons,if_pos blank]
    rfl
  next => rw [List.rdropWhile_concat_pos _ _ _ blank]

theorem blank_slashes {c : Char} (blank : isWhitespace c = true) :
    c ≠ '/' ∧ withSlashes [c] = [c] := by
  have other : c ≠ '/' := by
    intro slash
    rw [slash] at blank
    cases blank
  have plain : c ≠ '\\' := by
    intro slash
    rw [slash] at blank
    cases blank
  exact ⟨other,by simp [withSlashes,plain]⟩

theorem segments_cons {c : Char} (blank : isWhitespace c = true) (s : Text) :
    (bothSplit (c::s)).map trim = (bothSplit s).map trim := by
  obtain ⟨other,same⟩ := blank_slashes blank
  have parts : withSlashes (c::s) = c::withSlashes s := by
    rw [← List.singleton_append,withSlashes,List.map_append]
    exact congrArg (· ++ withSlashes s) same
  rw [bothSplit,bothSplit,parts,List.splitOn_cons_eq_if_modifyHead,if_neg (by simpa using other)]
  obtain ⟨first,others,pieces⟩ := List.exists_cons_of_ne_nil (List.splitOn_ne_nil '/' (withSlashes s))
  rw [pieces,List.modifyHead_cons,List.map_cons,List.map_cons,trim_cons blank]

theorem splitOn_concat (s : Text) {c : Char} (other : c ≠ '/') :
    ∃ front last, s.splitOn '/' = front ++ [last] ∧ (s ++ [c]).splitOn '/' = front ++ [last ++ [c]] := by
  induction s with
  | nil =>
    refine ⟨[],[],rfl,?_⟩
    exact List.splitOn_eq_singleton (by simpa using Ne.symm other)
  | cons d rest ih =>
    obtain ⟨front,last,before,after⟩ := ih
    rw [List.cons_append,List.splitOn_cons_eq_if_modifyHead,List.splitOn_cons_eq_if_modifyHead,before,after]
    split
    next => exact ⟨[]::front,last,rfl,rfl⟩
    next =>
      cases front with
      | nil => exact ⟨[],d::last,rfl,rfl⟩
      | cons first others => exact ⟨(d::first)::others,last,rfl,rfl⟩

theorem segments_concat {c : Char} (blank : isWhitespace c = true) (s : Text) :
    (bothSplit (s ++ [c])).map trim = (bothSplit s).map trim := by
  obtain ⟨other,same⟩ := blank_slashes blank
  have parts : withSlashes (s ++ [c]) = withSlashes s ++ [c] := by
    rw [withSlashes,List.map_append]
    exact congrArg (withSlashes s ++ ·) same
  obtain ⟨front,last,before,after⟩ := splitOn_concat (withSlashes s) other
  rw [bothSplit,bothSplit,parts,before,after,List.map_append,List.map_append,List.map_singleton,
    List.map_singleton,trim_concat blank]

/-- The blanks around a path do not count. -/
theorem segments_trim (path : Text) : (bothSplit (trim path)).map trim = (bothSplit path).map trim := by
  have back (s : Text) : (bothSplit (s.rdropWhile isWhitespace)).map trim = (bothSplit s).map trim := by
    induction s using List.reverseRecOn with
    | nil => rfl
    | append_singleton init c ih =>
      by_cases blank : isWhitespace c = true
      · rw [List.rdropWhile_concat_pos _ _ _ blank,segments_concat blank,ih]
      · rw [List.rdropWhile_concat_neg _ _ _ blank]
  have front (s : Text) : (bothSplit (s.dropWhile isWhitespace)).map trim = (bothSplit s).map trim := by
    induction s with
    | nil => rfl
    | cons c rest ih =>
      rw [List.dropWhile_cons]
      split
      next blank => rw [segments_cons blank,ih]
      next => rfl
  rw [trim,back,front]

theorem normalizeAbsolutePath_rooted (path : Text) :
    normalizeAbsolutePath path = rooted (keptSegments (withSlashes path)) := by
  have same := segments_trim path
  rw [bothSplit,bothSplit] at same
  rw [normalizeAbsolutePath_eq,keptSegments,same]
  rfl

theorem mem_of_splitOn {s piece : Text} {c d : Char} (member : piece ∈ s.splitOn c) (inside : d ∈ piece) :
    d ∈ s := by
  induction s generalizing piece with
  | nil =>
    rw [List.splitOn_nil,List.mem_singleton] at member
    rw [member] at inside
    exact inside
  | cons e rest ih =>
    rw [List.splitOn_cons_eq_if_modifyHead] at member
    split at member
    next =>
      rcases List.mem_cons.mp member with first | later
      · rw [first] at inside
        exact (List.not_mem_nil inside).elim
      · exact List.mem_cons_of_mem _ (ih later inside)
    next =>
      obtain ⟨first,others,pieces⟩ := List.exists_cons_of_ne_nil (List.splitOn_ne_nil c rest)
      rw [pieces] at member ih
      rcases List.mem_cons.mp member with here | later
      · rw [here] at inside
        rcases List.mem_cons.mp inside with same | more
        · rw [same]
          exact List.mem_cons_self
        · exact List.mem_cons_of_mem _ (ih List.mem_cons_self more)
      · exact List.mem_cons_of_mem _ (ih (List.mem_cons_of_mem _ later) inside)

/-- The segments of a normalized base hold slashes of neither kind. -/
theorem base_segment {path segment : Text} (member : segment ∈ keptSegments (withSlashes path)) :
    Segment segment ∧ bothSplit segment = [segment] ∧ keptSegments (withSlashes segment) = [segment] := by
  obtain ⟨seg,named,raw,piece,same⟩ := mem_keptSegments member
  have plain : withSlashes segment = segment := by
    apply withSlashes_plain
    intro backslash
    rw [same] at backslash
    exact withSlashes_no_backslash path (mem_of_splitOn piece (mem_trim backslash))
  refine ⟨seg,?_,?_⟩
  · rw [bothSplit,plain]
    exact List.splitOn_eq_singleton seg.slashFree
  · rw [plain]
    exact keptSegments_segment seg named

theorem dotDot_mem_keptSegments {path : Text} :
    dotDot ∈ keptSegments path ↔ ∃ raw ∈ path.splitOn '/', trim raw = dotDot := by
  rw [keptSegments,List.mem_filter,List.mem_map]
  have kept : (!(dotDot.isEmpty || dotDot == ['.'])) = true := by decide
  simp only [kept,and_true]

theorem mem_bothSplit_rooted {segments : List Text} (given : segments ≠ []) {segment : Text} :
    segment ∈ bothSplit (rooted segments) ↔ segment = [] ∨ ∃ s ∈ segments, segment ∈ bothSplit s := by
  have parts := split_rooted (fun s => bothSplit s) (by
    intro a b
    simp only [bothSplit,withSlashes,List.map_append,List.map_cons]
    exact List.splitOn_append_cons_self _ _) segments given
  rw [parts,List.mem_append,List.mem_flatMap]
  have blank : bothSplit [] = [[]] := by decide
  rw [blank,List.mem_singleton]

theorem collectSegments_ok {raws segments : List Text} (collected : collectSegments raws = .ok segments) :
    segments = (raws.map trim).filter (fun segment => !(segment.isEmpty || segment == ['.'])) ∧
      ∀ raw ∈ raws, trim raw ≠ dotDot ∧ (trim raw).any isControl = false := by
  induction raws generalizing segments with
  | nil =>
    cases collected
    exact ⟨rfl,fun _ member => (List.not_mem_nil member).elim⟩
  | cons raw rest ih =>
    unfold collectSegments at collected
    dsimp only at collected
    rw [List.map_cons,List.filter_cons]
    split at collected
    next skipped =>
      obtain ⟨same,clean⟩ := ih collected
      refine ⟨?_,?_⟩
      · rw [if_neg (by rw [skipped]; decide)]
        exact same
      · intro other member
        rcases List.mem_cons.mp member with here | later
        · rw [here]
          rcases Bool.or_eq_true_iff.mp skipped with empty | dot
          · rw [List.isEmpty_iff.mp empty]
            decide
          · rw [beq_iff_eq.mp dot]
            decide
        · exact clean other later
    next kept =>
      split at collected
      next => cases collected
      next plain =>
        cases later : collectSegments rest with
        | error e =>
          rw [later] at collected
          cases collected
        | ok others =>
          rw [later] at collected
          cases collected
          obtain ⟨same,clean⟩ := ih later
          refine ⟨?_,?_⟩
          · rw [if_pos (by simpa using kept),same]
          · intro other member
            rcases List.mem_cons.mp member with here | later
            · rw [here]
              simpa using plain
            · exact clean other later

theorem collectSegments_clean {raws : List Text}
    (clean : ∀ raw ∈ raws, trim raw ≠ dotDot ∧ (trim raw).any isControl = false) :
    ∃ segments, collectSegments raws = .ok segments := by
  induction raws with
  | nil => exact ⟨[],rfl⟩
  | cons raw rest ih =>
    obtain ⟨others,later⟩ := ih fun other member => clean other (List.mem_cons_of_mem _ member)
    obtain ⟨named,printable⟩ := clean raw List.mem_cons_self
    unfold collectSegments
    dsimp only
    split
    next => exact ⟨others,later⟩
    next =>
      rw [if_neg (by simp [named,printable]),later]
      exact ⟨trim raw::others,rfl⟩

theorem descendant_eq {front back : List Text} (segs : ∀ s ∈ front, Segment s) (segs' : ∀ s ∈ back, Segment s)
    (given : back ≠ []) :
    (if rooted front == ['/'] then rooted back
      else Text.trimEnd '/' (rooted front) ++ '/'::Text.trimStart '/' (rooted back)) = rooted (front ++ back) := by
  by_cases empty : front = []
  · rw [empty]
    rfl
  · obtain ⟨init,c,ending,other,-⟩ := joined_last segs empty
    have below : rooted front ≠ ['/'] := by
      rw [rooted_eq empty,ending]
      simp
    have trimmed : Text.trimEnd '/' (rooted front) = rooted front := by
      rw [rooted_eq empty,ending,← List.cons_append]
      exact Paths.trimEnd_of_last other
    have bare : Text.trimStart '/' (rooted back) = ['/'].intercalate back := by
      obtain ⟨first,rest,start⟩ := List.exists_cons_of_ne_nil given
      have seg := segs' first (by rw [start]; exact List.mem_cons_self)
      obtain ⟨d,tail,leading⟩ := List.exists_cons_of_ne_nil seg.filled
      have plain : d ≠ '/' := by
        intro slash
        exact seg.slashFree (by rw [leading,slash]; exact List.mem_cons_self)
      rw [rooted_eq given,start,leading,List.intercalate_cons_cons_left]
      simp [Text.trimStart,plain]
    rw [if_neg (by simpa using below),trimmed,bare,rooted_append empty given]

theorem within_descendant {front back : List Text} (segs : ∀ s ∈ front ++ back, Segment s)
    (plain : ∀ s ∈ front, keptSegments (withSlashes s) = [s]) :
    isPathWithinRoot (rooted front) (rooted (front ++ back)) = true := by
  have base : normalizeAbsolutePath (rooted front) = rooted front := by
    rw [normalize_rooted fun s member => segs s (List.mem_append_left _ member),List.flatMap_congr plain]
    simp
  have longer : ∃ more, normalizeAbsolutePath (rooted (front ++ back)) = rooted (front ++ more) := by
    refine ⟨back.flatMap fun s => keptSegments (withSlashes s),?_⟩
    rw [normalize_rooted segs,List.flatMap_append,List.flatMap_congr plain]
    simp
  obtain ⟨more,candidate⟩ := longer
  unfold isPathWithinRoot
  dsimp only
  rw [base,candidate]
  by_cases top : front = []
  · rw [top]
    rfl
  by_cases nothing : more = []
  · rw [nothing,List.append_nil]
    simp
  · rw [rooted_append top nothing,Text.stripPrefix_append]
    simp [Text.startsWith]

/-- A request that gets through, by what it decodes to: it escapes nowhere by a
segment that slashes set off, and asks a file for nothing below it. -/
structure Accepted (decode : Text → Option Text) (requestedPath : Text) (baseIsDir : Bool) (decoded : Text) :
    Prop where
  decodes : decodeSharePath decode (trim requestedPath) = .ok decoded
  clean : ∀ raw ∈ decoded.splitOn '/', trim raw ≠ dotDot ∧ (trim raw).any isControl = false
  room : baseIsDir = true ∨ ∀ raw ∈ decoded.splitOn '/', trim raw = [] ∨ trim raw = ['.']

theorem keptSegments_nil_iff {path : Text} :
    keptSegments path = [] ↔ ∀ raw ∈ path.splitOn '/', trim raw = [] ∨ trim raw = ['.'] := by
  simp only [keptSegments,List.filter_eq_nil_iff,List.forall_mem_map,Bool.not_eq_true',Bool.not_eq_false,
    Bool.or_eq_true,List.isEmpty_iff,beq_iff_eq]

theorem rooted_root_iff {segments : List Text} (segs : ∀ s ∈ segments, Segment s) :
    rooted segments = ['/'] ↔ segments = [] := by
  refine ⟨fun root => ?_,fun empty => by rw [empty]; rfl⟩
  by_contra given
  obtain ⟨init,c,ending,-⟩ := joined_last segs given
  rw [rooted_eq given,ending] at root
  simp at root

theorem normalizeShareRelativePath_ok {decode : Text → Option Text} {requestedPath relativePath : Text} :
    normalizeShareRelativePath decode requestedPath = .ok relativePath ↔
      ∃ decoded, decodeSharePath decode (trim requestedPath) = .ok decoded ∧
        (∀ raw ∈ decoded.splitOn '/', trim raw ≠ dotDot ∧ (trim raw).any isControl = false) ∧
        relativePath = rooted (keptSegments decoded) := by
  unfold normalizeShareRelativePath
  cases read : decodeSharePath decode (trim requestedPath) with
  | error e => simp [bind,Except.bind]
  | ok decoded =>
    cases collected : collectSegments (decoded.splitOn '/') with
    | error e =>
      have unclean : ¬∀ raw ∈ decoded.splitOn '/', trim raw ≠ dotDot ∧ (trim raw).any isControl = false := by
        intro clean
        obtain ⟨segments,passed⟩ := collectSegments_clean clean
        rw [passed] at collected
        cases collected
      simp only [bind,Except.bind,collected,reduceCtorEq,false_iff]
      rintro ⟨other,decodes,clean,-⟩
      rw [← Except.ok.inj decodes] at clean
      exact unclean clean
    | ok segments =>
      obtain ⟨same,clean⟩ := collectSegments_ok collected
      have kept : segments = keptSegments decoded := same
      simp only [bind,Except.bind,collected,pure,Except.pure,Except.ok.injEq,kept]
      constructor
      · intro done
        exact ⟨decoded,rfl,clean,done.symm⟩
      · rintro ⟨other,decodes,-,done⟩
        rw [done,decodes]

/-- An accepted request leads to its own segments below the base's. -/
theorem resolve_ok_iff {decode : Text → Option Text} {basePath requestedPath p : Text} {baseIsDir : Bool} :
    resolveShareDescendantPath decode basePath requestedPath baseIsDir = .ok p ↔
      ∃ decoded, Accepted decode requestedPath baseIsDir decoded ∧
        p = rooted (keptSegments (withSlashes basePath) ++ keptSegments decoded) := by
  have segs : ∀ s ∈ keptSegments (withSlashes basePath), Segment s := fun s member => (base_segment member).1
  unfold resolveShareDescendantPath
  rw [normalizeAbsolutePath_rooted]
  cases relative : normalizeShareRelativePath decode requestedPath with
  | error e =>
    simp only [bind,Except.bind,reduceCtorEq,false_iff,not_exists,not_and]
    intro decoded accepted
    have passed := normalizeShareRelativePath_ok.mpr ⟨decoded,accepted.decodes,accepted.clean,rfl⟩
    rw [relative] at passed
    cases passed
  | ok relativePath =>
    obtain ⟨decoded,decodes,clean,rfl⟩ := normalizeShareRelativePath_ok.mp relative
    have segs' : ∀ s ∈ keptSegments decoded, Segment s := fun s member => (mem_keptSegments member).1
    have only {other : Text} (accepted : Accepted decode requestedPath baseIsDir other) : other = decoded := by
      have same := accepted.decodes
      rw [decodes] at same
      exact (Except.ok.inj same).symm
    simp only [bind,Except.bind]
    by_cases top : keptSegments decoded = []
    · rw [top,if_pos (by rfl)]
      constructor
      · intro done
        refine ⟨decoded,⟨decodes,clean,.inr (keptSegments_nil_iff.mp top)⟩,?_⟩
        rw [top,List.append_nil]
        exact (Except.ok.inj done).symm
      · rintro ⟨other,accepted,done⟩
        rw [done,only accepted,top,List.append_nil]
    · have below : (rooted (keptSegments decoded) == ['/']) = false :=
        beq_eq_false_iff_ne.mpr fun root => top ((rooted_root_iff segs').mp root)
      rw [below,if_neg Bool.false_ne_true]
      cases baseIsDir with
      | false =>
        rw [if_pos (by rfl)]
        constructor
        · intro done
          cases done
        · rintro ⟨other,accepted,-⟩
          rw [only accepted] at accepted
          rcases accepted.room with dir | nothing
          · cases dir
          · exact absurd (keptSegments_nil_iff.mpr nothing) top
      | true =>
        have both : ∀ s ∈ keptSegments (withSlashes basePath) ++ keptSegments decoded, Segment s := by
          intro s member
          rcases List.mem_append.mp member with front | back
          · exact segs s front
          · exact segs' s back
        have within := within_descendant both fun s member => (base_segment member).2.2
        rw [if_neg (by decide),descendant_eq segs segs' top,if_pos within]
        constructor
        · intro done
          exact ⟨decoded,⟨decodes,clean,.inl rfl⟩,(Except.ok.inj done).symm⟩
        · rintro ⟨other,accepted,done⟩
          rw [done,only accepted]

/-- What a share promises: the path is the base or lies below it, and no segment of
it leads back up. -/
structure Contained (basePath p : Text) : Prop where
  within : p = normalizeAbsolutePath basePath ∨ Text.trimEnd '/' (normalizeAbsolutePath basePath) ++ ['/'] <+: p
  level : dotDot ∉ bothSplit p

theorem contained_within {basePath : Text} {back : List Text} (segs : ∀ s ∈ back, Segment s) :
    rooted (keptSegments (withSlashes basePath) ++ back) = normalizeAbsolutePath basePath ∨
      Text.trimEnd '/' (normalizeAbsolutePath basePath) ++ ['/'] <+:
        rooted (keptSegments (withSlashes basePath) ++ back) := by
  have segs' : ∀ s ∈ keptSegments (withSlashes basePath), Segment s := fun s member => (base_segment member).1
  rw [normalizeAbsolutePath_rooted]
  by_cases nothing : back = []
  · rw [nothing,List.append_nil]
    exact .inl rfl
  · right
    rw [← descendant_eq segs' segs nothing]
    split
    next top =>
      rw [beq_iff_eq.mp top,rooted_eq nothing]
      exact ⟨_,rfl⟩
    next =>
      refine ⟨Text.trimStart '/' (rooted back),?_⟩
      rw [List.append_assoc,List.singleton_append]

theorem hidden_iff {decoded : Text} :
    (∃ s ∈ keptSegments decoded, dotDot ∈ bothSplit s) ↔
      ∃ raw ∈ decoded.splitOn '/', dotDot ∈ bothSplit (trim raw) := by
  constructor
  · rintro ⟨s,member,hidden⟩
    obtain ⟨-,-,raw,piece,same⟩ := mem_keptSegments member
    exact ⟨raw,piece,by rw [← same]; exact hidden⟩
  · rintro ⟨raw,piece,hidden⟩
    refine ⟨trim raw,List.mem_filter.mpr ⟨List.mem_map_of_mem piece,?_⟩,hidden⟩
    rw [Bool.not_eq_true']
    by_contra skipped
    rcases Bool.or_eq_true_iff.mp (Bool.not_eq_false _ ▸ skipped) with empty | dot
    · rw [List.isEmpty_iff.mp empty] at hidden
      revert hidden
      decide
    · rw [beq_iff_eq.mp dot] at hidden
      revert hidden
      decide

theorem level_iff {basePath decoded : Text} :
    dotDot ∉ bothSplit (rooted (keptSegments (withSlashes basePath) ++ keptSegments decoded)) ↔
      (∀ raw ∈ bothSplit basePath, trim raw ≠ dotDot) ∧
        ∀ raw ∈ decoded.splitOn '/', dotDot ∉ bothSplit (trim raw) := by
  have front : (∃ s ∈ keptSegments (withSlashes basePath), dotDot ∈ bothSplit s) ↔
      ∃ raw ∈ bothSplit basePath, trim raw = dotDot := by
    rw [bothSplit,← dotDot_mem_keptSegments]
    constructor
    · rintro ⟨s,member,hidden⟩
      rw [(base_segment member).2.1,List.mem_singleton] at hidden
      rw [hidden]
      exact member
    · intro member
      exact ⟨dotDot,member,by decide⟩
  have found : dotDot ∈ bothSplit (rooted (keptSegments (withSlashes basePath) ++ keptSegments decoded)) ↔
      ∃ s ∈ keptSegments (withSlashes basePath) ++ keptSegments decoded, dotDot ∈ bothSplit s := by
    by_cases top : keptSegments (withSlashes basePath) ++ keptSegments decoded = []
    · rw [top]
      decide
    · rw [mem_bothSplit_rooted top]
      exact or_iff_right (by decide)
  rw [found]
  simp only [List.mem_append,or_and_right,exists_or,front,hidden_iff]
  push Not
  rfl

/-- A request stays below the base exactly when no segment of it that is accepted
hides the two dots beside a backslash, and no blanks hide them in the base. -/
theorem contained_iff (decode : Text → Option Text) (basePath requestedPath : Text) (baseIsDir : Bool) :
    (∀ p, resolveShareDescendantPath decode basePath requestedPath baseIsDir = .ok p → Contained basePath p) ↔
      ∀ decoded, Accepted decode requestedPath baseIsDir decoded →
        (∀ raw ∈ bothSplit basePath, trim raw ≠ dotDot) ∧
          ∀ raw ∈ decoded.splitOn '/', dotDot ∉ bothSplit (trim raw) := by
  have segs (decoded : Text) : ∀ s ∈ keptSegments decoded, Segment s := fun s member => (mem_keptSegments member).1
  constructor
  · intro safe decoded accepted
    exact level_iff.mp (safe _ (resolve_ok_iff.mpr ⟨decoded,accepted,rfl⟩)).level
  · intro plain p resolved
    obtain ⟨decoded,accepted,rfl⟩ := resolve_ok_iff.mp resolved
    exact ⟨contained_within (segs decoded),level_iff.mpr (plain decoded accepted)⟩

example : resolveShareDescendantPath decodeAscii "/Docs".toList "/%2e%2e/secret.txt".toList true =
    .error invalidPath := by decide +kernel

/-- An escaped backslash becomes one only after the slashes were made one. -/
theorem escaped_backslash_ascends :
    (∀ raw ∈ bothSplit "/Docs".toList, raw ≠ ['.'] ∧ raw ≠ dotDot) ∧
      resolveShareDescendantPath decodeAscii "/Docs".toList "%2e%2e%5Csecret.txt".toList true =
        .ok "/Docs/..\\secret.txt".toList ∧
      ¬Contained "/Docs".toList "/Docs/..\\secret.txt".toList := by
  refine ⟨?_,?_,?_⟩
  · decide +kernel
  · decide +kernel
  · intro contained
    apply contained.level
    decide +kernel

end StorageHub.Shares
