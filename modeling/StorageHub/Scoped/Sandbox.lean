import StorageHub.Scoped.World

/-! The check every path of a request passes before it is used, and where the
paths it accepts lie. -/
namespace StorageHub.Scoped
open Library Paths

/-! ### Validation -/

/-- `char::is_control`. -/
def isControl (c : Char) : Bool := c.toNat < 0x20 || (0x7F ≤ c.toNat && c.toNat < 0xA0)

def controlCharacters : VfsError := .internal "Security violation: control characters in path".toList

def notAbsolute : VfsError := .internal "Security violation: path must be absolute".toList

def emptySegment (p : Text) : VfsError :=
  .internal ("Security violation: empty path segment in '".toList ++ p ++ "'".toList)

def dotSegment (p : Text) : VfsError :=
  .internal ("Security violation: dot segment detected in '".toList ++ p ++ "'".toList)

def invalidEncoding : VfsError :=
  .internal "Security violation: invalid percent encoding in path".toList

/-- Empty segments are let pass at the front and before a trailing slash. -/
def validateSegmentsFrom (p : Text) (endsWithSlash : Bool) : Nat → List Text → Except VfsError Unit
  | _, [] => .ok ()
  | idx, seg::rest =>
    if seg = [] then
      if idx = 0 ∨ (endsWithSlash ∧ rest.isEmpty) then validateSegmentsFrom p endsWithSlash (idx + 1) rest
      else .error (emptySegment p)
    else if seg = ".".toList ∨ seg = "..".toList then .error (dotSegment p)
    else validateSegmentsFrom p endsWithSlash (idx + 1) rest

def validateSegments (p : Text) : Except VfsError Unit :=
  if !Text.startsWith ['/'] p then .error notAbsolute
  else if p = ['/'] then .ok ()
  else
    let endsWithSlash := Text.endsWith ['/'] p && decide (1 < Text.byteLength p)
    validateSegmentsFrom p endsWithSlash 0 (p.splitOn '/')

def withLeadingSlash (path : Text) : Text := if Text.startsWith ['/'] path then path else '/'::path

/-- The check again on the decoded text, where it has escapes. `decode` is the
percent decoding of a text, nothing where that is no UTF-8. -/
def validateDecoded (decode : Text → Option Text) (normalized : Text) : Except VfsError Unit :=
  if '%' ∈ normalized then
    match decode normalized with
    | none => .error invalidEncoding
    | some decoded => validateSegments decoded
  else .ok ()

def validateFileOperation (decode : Text → Option Text) (path : Text) : Except VfsError Text := do
  let normalized := withSlashes (withLeadingSlash path)
  if (withLeadingSlash path).any isControl then throw controlCharacters
  validateSegments normalized
  validateDecoded decode normalized
  pure (if normalized = ['/'] then normalized else Text.trimEnd '/' normalized)

theorem isControl_slash : isControl '/' = false := by decide

/-! ### Segments -/

/-- Segments without dots, none of them empty but perhaps the last. -/
structure DotFree (segments : List Text) : Prop where
  named : ∀ seg ∈ segments, seg ≠ ".".toList ∧ seg ≠ "..".toList
  filled : ∀ seg ∈ segments.dropLast, seg ≠ []

theorem validateSegmentsFrom_ok {p : Text} {endsWithSlash : Bool} {idx : Nat} {segments : List Text}
    (valid : validateSegmentsFrom p endsWithSlash (idx + 1) segments = .ok ()) : DotFree segments := by
  induction segments generalizing idx with
  | nil => exact ⟨fun _ member => (List.not_mem_nil member).elim,fun _ member => (List.not_mem_nil member).elim⟩
  | cons seg rest ih =>
    unfold validateSegmentsFrom at valid
    split at valid
    next empty =>
      split at valid
      next last =>
        obtain ⟨-,single⟩ := last.resolve_left (Nat.succ_ne_zero idx)
        have alone : rest = [] := List.isEmpty_iff.mp single
        rw [alone,empty]
        refine ⟨?_,fun _ member => (List.not_mem_nil member).elim⟩
        intro other member
        rw [List.mem_singleton.mp member]
        exact ⟨by decide,by decide⟩
      next => cases valid
    next given =>
      split at valid
      next => cases valid
      next plain =>
        obtain ⟨named,filled⟩ := ih valid
        refine ⟨?_,?_⟩
        · intro other member
          rcases List.mem_cons.mp member with here | later
          · rw [here]
            exact not_or.mp plain
          · exact named other later
        · intro other member
          cases rest with
          | nil => cases member
          | cons next others =>
            rw [List.dropLast_cons_cons] at member
            rcases List.mem_cons.mp member with here | later
            · rw [here]
              exact given
            · exact filled other later

/-- And such segments pass, if an empty last one stands for a trailing slash. -/
theorem validateSegmentsFrom_dotFree {p : Text} {endsWithSlash : Bool} {idx : Nat} {segments : List Text}
    (clean : DotFree segments) (trailing : segments.getLast? = some [] → endsWithSlash = true) :
    validateSegmentsFrom p endsWithSlash (idx + 1) segments = .ok () := by
  induction segments generalizing idx with
  | nil => rfl
  | cons seg rest ih =>
    have later : DotFree rest := by
      refine ⟨fun other member => clean.named other (List.mem_cons_of_mem _ member),?_⟩
      intro other member
      apply clean.filled other
      cases rest with
      | nil => cases member
      | cons next others =>
        rw [List.dropLast_cons_cons]
        exact List.mem_cons_of_mem _ member
    have trailing' : rest.getLast? = some [] → endsWithSlash = true := by
      intro last
      apply trailing
      rw [List.getLast?_cons,last]
      rfl
    have passed : validateSegmentsFrom p endsWithSlash (idx + 1 + 1) rest = .ok () := ih later trailing'
    unfold validateSegmentsFrom
    split
    next empty =>
      cases rest with
      | nil =>
        rw [if_pos (.inr ⟨trailing (by rw [empty]; rfl),rfl⟩)]
        exact passed
      | cons next others => exact absurd empty (clean.filled seg (by rw [List.dropLast_cons_cons]; exact List.mem_cons_self))
    next => rw [if_neg (not_or.mpr (clean.named seg List.mem_cons_self)),passed]

theorem splitOn_slash (rest : Text) : ('/'::rest).splitOn '/' = [] :: rest.splitOn '/' := by
  rw [List.splitOn_cons_eq_if_modifyHead]
  rfl

theorem splitOn_trailing (init : Text) : (init ++ ['/']).splitOn '/' = init.splitOn '/' ++ [[]] := by
  rw [List.splitOn_append_cons_self,List.splitOn_nil]

theorem splitOn_last (init : Text) {c : Char} (other : c ≠ '/') :
    ((init ++ [c]).splitOn '/').getLast? ≠ some [] := by
  induction init with
  | nil => simp [List.splitOn_cons_eq_if_modifyHead,other]
  | cons d init ih =>
    rw [List.cons_append,List.splitOn_cons_eq_if_modifyHead]
    obtain ⟨seg,segments,split⟩ := List.exists_cons_of_ne_nil (List.splitOn_ne_nil '/' (init ++ [c]))
    rw [split] at ih ⊢
    split
    · rw [List.getLast?_cons_cons]
      exact ih
    · rw [List.modifyHead_cons]
      cases segments with
      | nil => simp
      | cons next others =>
        rw [List.getLast?_cons_cons] at ih ⊢
        exact ih

/-- An empty last segment stands after a slash. -/
theorem splitOn_empty_last {s : Text} (given : s ≠ []) (last : (s.splitOn '/').getLast? = some []) :
    ∃ init, s = init ++ ['/'] := by
  rcases List.eq_nil_or_concat s with empty | ⟨init,c,split⟩
  · exact absurd empty given
  · rw [List.concat_eq_append] at split
    by_cases slash : c = '/'
    · exact ⟨init,by rw [split,slash]⟩
    · rw [split] at last
      exact absurd last (splitOn_last init slash)

theorem validateSegments_ok {p : Text} :
    validateSegments p = .ok () ↔ ∃ rest, p = '/'::rest ∧ DotFree (rest.splitOn '/') := by
  unfold validateSegments
  constructor
  · intro valid
    split at valid
    next => cases valid
    next absolute =>
      rw [Bool.not_eq_true,Bool.not_eq_false_eq_eq_true,Text.startsWith_iff] at absolute
      obtain ⟨rest,leading⟩ := absolute
      refine ⟨rest,leading.symm,?_⟩
      split at valid
      next root =>
        rw [root] at leading
        have empty : rest = [] := (List.cons.inj leading).2
        rw [empty]
        exact ⟨by decide,by decide⟩
      next =>
        dsimp only at valid
        rw [← leading,List.singleton_append,splitOn_slash] at valid
        unfold validateSegmentsFrom at valid
        rw [if_pos rfl,if_pos (.inl rfl)] at valid
        exact validateSegmentsFrom_ok valid
  · rintro ⟨rest,leading,clean⟩
    have absolute : Text.startsWith ['/'] p = true := by
      rw [leading]
      rfl
    rw [absolute,Bool.not_true,if_neg Bool.false_ne_true]
    split
    · rfl
    · rename_i nested
      dsimp only
      rw [leading,splitOn_slash]
      unfold validateSegmentsFrom
      rw [if_pos rfl,if_pos (.inl rfl)]
      apply validateSegmentsFrom_dotFree clean
      intro last
      have given : rest ≠ [] := by
        intro empty
        rw [empty] at leading
        exact nested leading
      obtain ⟨init,split⟩ := splitOn_empty_last given last
      obtain ⟨c,tail,start⟩ := List.exists_cons_of_ne_nil given
      have counted : Text.byteLength ('/'::rest) = '/'.utf8Size + (c.utf8Size + Text.byteLength tail) := by
        rw [start]
        simp [Text.byteLength]
      have positive : 0 < '/'.utf8Size := Char.utf8Size_pos '/'
      have positive' : 0 < c.utf8Size := c.utf8Size_pos
      rw [Bool.and_eq_true,decide_eq_true_eq]
      refine ⟨?_,by omega⟩
      rw [Text.endsWith,List.isSuffixOf_iff_suffix,split]
      exact ⟨'/'::init,rfl⟩

/-! ### Accepted paths -/

/-- Segments as an accepted path has them. -/
def Named (segments : List Text) : Prop :=
  ∀ seg ∈ segments, seg ≠ [] ∧ seg ≠ ".".toList ∧ seg ≠ "..".toList

/-- Without the trailing slash no segment is empty. -/
theorem named_of_dotFree {rest : Text} (given : rest ≠ []) (clean : DotFree (rest.splitOn '/')) :
    ∃ kept, Text.trimEnd '/' ('/'::rest) = '/'::kept ∧ Named (kept.splitOn '/') ∧
      (rest = kept ∨ rest = kept ++ ['/']) := by
  have fixed {kept : Text} (named : Named (kept.splitOn '/')) : Text.trimEnd '/' ('/'::kept) = '/'::kept := by
    rcases List.eq_nil_or_concat kept with empty | ⟨init,c,split⟩
    · rw [empty,List.splitOn_nil] at named
      exact absurd rfl (named [] List.mem_cons_self).1
    · rw [List.concat_eq_append] at split
      have other : c ≠ '/' := by
        intro slash
        rw [split,slash,splitOn_trailing] at named
        exact absurd rfl (named [] (List.mem_append_right _ List.mem_cons_self)).1
      rw [split,← List.cons_append]
      exact trimEnd_of_last other
  by_cases trailing : (rest.splitOn '/').getLast? = some []
  · obtain ⟨kept,split⟩ := splitOn_empty_last given trailing
    have named : Named (kept.splitOn '/') := by
      intro seg member
      rw [split,splitOn_trailing] at clean
      have inside : seg ∈ (kept.splitOn '/' ++ [[]]).dropLast := by
        rw [List.dropLast_concat]
        exact member
      exact ⟨clean.filled seg inside,clean.named seg (List.mem_append_left _ member)⟩
    refine ⟨kept,?_,named,.inr split⟩
    have shorter : Text.trimEnd '/' (('/'::kept) ++ ['/']) = Text.trimEnd '/' ('/'::kept) := by
      rw [Text.trimEnd,List.rdropWhile_concat_pos _ _ _ (by simp)]
      rfl
    rw [split,← List.cons_append,shorter]
    exact fixed named
  · have named : Named (rest.splitOn '/') := by
      intro seg member
      refine ⟨?_,clean.named seg member⟩
      rintro rfl
      have whole := List.dropLast_append_getLast? _ (List.getLast?_eq_some_getLast (List.splitOn_ne_nil '/' rest))
      rw [← whole,List.mem_append,List.mem_singleton] at member
      rcases member with early | last
      · exact clean.filled [] early rfl
      · rw [List.getLast?_eq_some_getLast (List.splitOn_ne_nil '/' rest),← last] at trailing
        exact trailing rfl
    exact ⟨rest,fixed named,named,.inl rfl⟩

theorem withSlashes_no_backslash (path : Text) : '\\' ∉ withSlashes path := by
  intro member
  obtain ⟨c,-,same⟩ := List.mem_map.mp member
  split at same
  · cases same
  · rename_i other
    exact other same

theorem withSlashes_plain {path : Text} (plain : '\\' ∉ path) : withSlashes path = path := by
  have kept : path.map (fun c => if c = '\\' then '/' else c) = path.map id := by
    apply List.map_congr_left
    intro c member
    have other : c ≠ '\\' := fun same => plain (same ▸ member)
    rw [if_neg other,id]
  rw [withSlashes,kept,List.map_id]

theorem withSlashes_control {path : Text} (plain : path.any isControl = false) :
    (withSlashes path).any isControl = false := by
  rw [List.any_eq_false] at plain ⊢
  intro c member
  obtain ⟨d,present,same⟩ := List.mem_map.mp member
  split at same
  · rw [← same,isControl_slash]
    exact Bool.false_ne_true
  · rw [← same]
    exact plain d present

theorem translatePath_physicalPath (e : Engine) {path : Text} (shaped : FileShaped path) :
    e.translatePath (physicalPath e.userId path) = path := by
  have plain : withSlashes (physicalPath e.userId path) = physicalPath e.userId path := by
    apply withSlashes_plain
    rw [physicalPath_fileShaped e.userId shaped,List.mem_append,not_or]
    exact ⟨e.portableUser,shaped.2.2.2⟩
  rw [Engine.translatePath,plain]
  obtain ⟨rest,rfl,head,init,last,rfl,final⟩ := fileShaped_cons shaped
  have split : e.userId ++ '/'::(init ++ [last]) = (e.userId ++ ['/']) ++ (init ++ [last]) := by simp
  rw [physicalPath_cons e.userId head,split,Text.stripPrefix_append]
  dsimp only
  rw [trimStart_of_head head,trimEnd_of_last final]

theorem translatePath_root (e : Engine) : e.translatePath (physicalPath e.userId ['/']) = ['/'] := by
  have physical : physicalPath e.userId ['/'] = e.userId ++ ['/'] := rfl
  have plain : withSlashes (e.userId ++ ['/']) = e.userId ++ ['/'] := by
    apply withSlashes_plain
    rw [List.mem_append,not_or]
    exact ⟨e.portableUser,by decide⟩
  have stripped := Text.stripPrefix_append (e.userId ++ ['/']) []
  rw [List.append_nil] at stripped
  rw [physical,Engine.translatePath,plain,stripped]
  rfl

/-- What percent decoding does: a text without escapes stays, and a slash is part
of none. -/
structure PercentDecoding (decode : Text → Option Text) : Prop where
  plain : ∀ s, '%' ∉ s → decode s = some s
  slash : ∀ a b, decode (a ++ '/'::b) = (decode a).bind fun x => (decode b).map fun y => x ++ '/'::y

/-- What a path in the sandbox looks like, as it is and decoded. -/
structure Sandboxed (decode : Text → Option Text) (path : Text) : Prop where
  segments : path = ['/'] ∨ ∃ rest, path = '/'::rest ∧ Named (rest.splitOn '/')
  trailing : path = ['/'] ∨ path.getLast? ≠ some '/'
  backslash : '\\' ∉ path
  control : path.any isControl = false
  decoded : ∃ rest, decode path = some ('/'::rest) ∧ DotFree (rest.splitOn '/')
  again : validateFileOperation decode path = .ok path

theorem validateDecoded_ok {decode : Text → Option Text} {n : Text} :
    validateDecoded decode n = .ok () ↔
      ('%' ∈ n → ∃ d, decode n = some d ∧ validateSegments d = .ok ()) := by
  unfold validateDecoded
  split
  next escaped =>
    cases decode n with
    | none => simp [escaped]
    | some d => simp [escaped]
  next plain => simp [plain]

/-- What an accepted path has passed. -/
theorem validateFileOperation_ok {decode : Text → Option Text} {path r : Text} :
    validateFileOperation decode path = .ok r ↔
      (withLeadingSlash path).any isControl = false ∧
      validateSegments (withSlashes (withLeadingSlash path)) = .ok () ∧
      validateDecoded decode (withSlashes (withLeadingSlash path)) = .ok () ∧
      r = if withSlashes (withLeadingSlash path) = ['/'] then withSlashes (withLeadingSlash path)
        else Text.trimEnd '/' (withSlashes (withLeadingSlash path)) := by
  unfold validateFileOperation
  generalize withSlashes (withLeadingSlash path) = n
  cases control : (withLeadingSlash path).any isControl with
  | true => simp [throw,throwThe,MonadExceptOf.throw,bind,Except.bind]
  | false =>
    cases segments : validateSegments n with
    | error e => simp [bind,Except.bind,segments]
    | ok u =>
      cases inner : validateDecoded decode n with
      | error e => simp [bind,Except.bind,segments,inner]
      | ok u' => simp [bind,Except.bind,segments,inner,pure,Except.pure,eq_comm]

theorem Named.dotFree {segments : List Text} (named : Named segments) : DotFree segments :=
  ⟨fun seg member => (named seg member).2,fun seg member => (named seg (List.dropLast_subset _ member)).1⟩

theorem DotFree.init {segments : List Text} {last : Text} (clean : DotFree (segments ++ [last])) :
    DotFree segments := by
  refine ⟨fun seg member => clean.named seg (List.mem_append_left _ member),?_⟩
  intro seg member
  apply clean.filled seg
  rw [List.dropLast_concat]
  exact List.dropLast_subset _ member

/-- A path of named segments is shaped like a file. -/
theorem fileShaped_of_named {rest : Text} (named : Named (rest.splitOn '/')) (plain : '\\' ∉ rest) :
    FileShaped ('/'::rest) := by
  have given : rest ≠ [] := by
    rintro rfl
    rw [List.splitOn_nil] at named
    exact (named [] List.mem_cons_self).1 rfl
  refine ⟨rfl,?_,?_,?_⟩
  · intro slash
    obtain ⟨c,tail,start⟩ := List.exists_cons_of_ne_nil given
    rw [start] at slash named
    have leading : c = '/' := by simpa using slash
    rw [leading,splitOn_slash] at named
    exact (named [] List.mem_cons_self).1 rfl
  · intro slash
    rcases List.eq_nil_or_concat rest with empty | ⟨init,c,split⟩
    · exact given empty
    · rw [List.concat_eq_append] at split
      rw [split,← List.cons_append,List.getLast?_append] at slash
      have last : c = '/' := by simpa using slash
      rw [split,last,splitOn_trailing] at named
      exact (named [] (List.mem_append_right _ List.mem_cons_self)).1 rfl
  · rw [List.mem_cons,not_or]
    exact ⟨by decide,plain⟩

section accepted
variable {decode : Text → Option Text} (law : PercentDecoding decode)
include law

theorem decode_slash (rest : Text) : decode ('/'::rest) = (decode rest).map ('/'::·) := by
  have split := law.slash [] rest
  rw [law.plain [] List.not_mem_nil] at split
  exact split

/-- What a path decodes to once its trailing slash is gone. -/
theorem decoded_kept {rest kept : Text} (same : rest = kept ∨ rest = kept ++ ['/'])
    (named : Named (kept.splitOn '/')) (passed : validateDecoded decode ('/'::rest) = .ok ()) :
    ∃ tail, decode ('/'::kept) = some ('/'::tail) ∧ DotFree (tail.splitOn '/') := by
  by_cases escaped : '%' ∈ kept
  · have escaped' : '%' ∈ '/'::rest := by
      rcases same with same | same
      · rw [same]
        exact List.mem_cons_of_mem _ escaped
      · rw [same]
        exact List.mem_cons_of_mem _ (List.mem_append_left _ escaped)
    obtain ⟨d,found,valid⟩ := validateDecoded_ok.mp passed escaped'
    obtain ⟨tail,leading,clean⟩ := validateSegments_ok.mp valid
    rcases same with same | same
    · rw [same,leading] at found
      exact ⟨tail,found,clean⟩
    · have cut := law.slash ('/'::kept) []
      rw [law.plain [] List.not_mem_nil,decode_slash law] at cut
      rw [same,← List.cons_append,cut] at found
      cases inner : decode kept with
      | none =>
        rw [inner] at found
        cases found
      | some y =>
        rw [inner] at found
        have whole : '/'::(y ++ ['/']) = '/'::tail := (Option.some.inj found).trans leading
        rw [← (List.cons.inj whole).2,splitOn_trailing] at clean
        refine ⟨y,?_,clean.init⟩
        rw [decode_slash law,inner]
        rfl
  · have plain : '%' ∉ '/'::kept := by
      rw [List.mem_cons,not_or]
      exact ⟨by decide,escaped⟩
    exact ⟨kept,law.plain _ plain,named.dotFree⟩

omit law in
/-- A path of this shape is accepted as it is. -/
theorem validateFileOperation_same {rest tail : Text} (named : Named (rest.splitOn '/')) (plain : '\\' ∉ rest)
    (control : ('/'::rest).any isControl = false) (found : decode ('/'::rest) = some ('/'::tail))
    (clean : DotFree (tail.splitOn '/')) : validateFileOperation decode ('/'::rest) = .ok ('/'::rest) := by
  have shaped := fileShaped_of_named named plain
  have absolute : withLeadingSlash ('/'::rest) = '/'::rest := by
    rw [withLeadingSlash,if_pos (by rfl)]
  rw [validateFileOperation_ok,absolute,withSlashes_plain shaped.2.2.2]
  refine ⟨control,validateSegments_ok.mpr ⟨rest,rfl,named.dotFree⟩,?_,?_⟩
  · exact validateDecoded_ok.mpr fun _ => ⟨_,found,validateSegments_ok.mpr ⟨tail,rfl,clean⟩⟩
  · obtain ⟨rest',same,-,init,last,split,other⟩ := fileShaped_cons shaped
    have kept : Text.trimEnd '/' ('/'::rest) = '/'::rest := by
      rw [same,split,← List.cons_append]
      exact trimEnd_of_last other
    rw [kept,ite_self]

omit law in
/-- The root, or named segments after one slash; a trailing slash is gone. -/
theorem accepted_cases {path r : Text} (valid : validateFileOperation decode path = .ok r) :
    r = ['/'] ∨ ∃ kept rest, r = '/'::kept ∧ Named (kept.splitOn '/') ∧ '\\' ∉ kept ∧
      ('/'::kept).any isControl = false ∧ (rest = kept ∨ rest = kept ++ ['/']) ∧
        validateDecoded decode ('/'::rest) = .ok () := by
  obtain ⟨control,segments,decoded,result⟩ := validateFileOperation_ok.mp valid
  have control' := withSlashes_control control
  have slashes := withSlashes_no_backslash (withLeadingSlash path)
  generalize withSlashes (withLeadingSlash path) = n at segments decoded result control' slashes
  obtain ⟨rest,leading,clean⟩ := validateSegments_ok.mp segments
  rw [leading] at result control' slashes decoded
  rcases eq_or_ne rest [] with empty | given
  · left
    rw [result,empty,if_pos rfl]
  · right
    obtain ⟨kept,trimmed,named,same⟩ := named_of_dotFree given clean
    have nested : '/'::rest ≠ ['/'] := fun root => given (List.cons.inj root).2
    rw [if_neg nested,trimmed] at result
    have part : kept.Sublist rest := by
      rcases same with same | same
      · rw [same]
      · rw [same]
        exact List.sublist_append_left _ _
    have plain : '\\' ∉ kept := fun member => slashes (List.mem_cons_of_mem _ (part.subset member))
    have uncontrolled : ('/'::kept).any isControl = false := by
      rw [List.any_eq_false] at control' ⊢
      intro c member
      exact control' c ((part.cons_cons '/').subset member)
    exact ⟨kept,rest,result,named,plain,uncontrolled,same,decoded⟩

/-- Every path the validator accepts is in the sandbox. -/
theorem accepted_sandboxed {path r : Text} (valid : validateFileOperation decode path = .ok r) :
    Sandboxed decode r := by
  rcases accepted_cases valid with root | ⟨kept,rest,result,named,plain,control,same,decoded⟩
  · have noEscape : '%' ∉ ['/'] := by decide
    rw [root]
    refine ⟨.inl rfl,.inl rfl,by decide,by decide,⟨[],law.plain _ noEscape,⟨by decide,by decide⟩⟩,?_⟩
    rw [validateFileOperation_ok]
    exact ⟨by decide,by rfl,validateDecoded_ok.mpr fun escaped => absurd escaped noEscape,by rfl⟩
  · have shaped := fileShaped_of_named named plain
    obtain ⟨tail,found,free⟩ := decoded_kept law same named decoded
    rw [result]
    exact ⟨.inr ⟨kept,rfl,named⟩,.inr shaped.2.2.1,shaped.2.2.2,control,⟨tail,found,free⟩,
      validateFileOperation_same named plain control found free⟩

end accepted

theorem Sandboxed.shaped {decode : Text → Option Text} {path : Text} (safe : Sandboxed decode path) :
    path = ['/'] ∨ FileShaped path := by
  rcases safe.segments with root | ⟨rest,leading,named⟩
  · exact .inl root
  · right
    have plain := safe.backslash
    rw [leading] at plain ⊢
    exact fileShaped_of_named named fun member => plain (List.mem_cons_of_mem _ member)

/-- `get_physical_path`, which validates the path first. -/
def Engine.physicalPathOf (e : Engine) (decode : Text → Option Text) (path : Text) : Except VfsError Text := do
  let validated ← validateFileOperation decode path
  pure (e.getPhysicalPath validated)

/-- Accepted paths stay accepted as they are, their physical paths lie in the
user's directory, and listed entries translate back to them. -/
theorem sandbox_sound {decode : Text → Option Text} (law : PercentDecoding decode) (e : Engine) {path r : Text}
    (valid : validateFileOperation decode path = .ok r) :
    Sandboxed decode r ∧ e.physicalPathOf decode r = .ok (e.getPhysicalPath r) ∧
      Text.startsWith (e.userId ++ ['/']) (e.getPhysicalPath r) = true ∧
      ∀ info, info.path = e.getPhysicalPath r → (e.translateFileInfo info).path = r := by
  have safe := accepted_sandboxed law valid
  refine ⟨safe,?_,?_,?_⟩
  · rw [Engine.physicalPathOf,safe.again]
    rfl
  · rw [Text.startsWith_iff]
    exact ⟨Text.trimStart '/' r,by rw [Engine.getPhysicalPath,physicalPath]; simp⟩
  · intro info same
    rw [Engine.translateFileInfo]
    change e.translatePath info.path = r
    rw [same,Engine.getPhysicalPath]
    rcases safe.shaped with root | shaped
    · rw [root]
      exact translatePath_root e
    · exact translatePath_physicalPath e shaped

/-! ### Decoding of ASCII -/

def hexDigit (c : Char) : Option Nat :=
  if '0' ≤ c ∧ c ≤ '9' then some (c.toNat - '0'.toNat)
  else if 'a' ≤ c ∧ c ≤ 'f' then some (c.toNat - 'a'.toNat + 10)
  else if 'A' ≤ c ∧ c ≤ 'F' then some (c.toNat - 'A'.toNat + 10)
  else none

/-- The character an escape of two digits stands for, if it is an ASCII one. -/
def escapeValue (a b : Char) : Option (Option Char) :=
  match hexDigit a, hexDigit b with
  | some high, some low =>
    some (if high * 16 + low < 128 then some (Char.ofNat (high * 16 + low)) else none)
  | _, _ => none

/-- Percent decoding of texts that escape ASCII alone. -/
def decodeAscii : Text → Option Text
  | '%'::a::b::rest =>
    match escapeValue a b with
    | some (some c) => (decodeAscii rest).map (c::·)
    | some none => none
    | none => (decodeAscii (a::b::rest)).map ('%'::·)
  | c::rest => (decodeAscii rest).map (c::·)
  | [] => some []

theorem escapeValue_slash (c : Char) : escapeValue c '/' = none ∧ escapeValue '/' c = none := by
  have none_ : hexDigit '/' = none := by decide
  unfold escapeValue
  rw [none_]
  exact ⟨by cases hexDigit c <;> rfl,rfl⟩

theorem decodeAscii_cons {c : Char} (other : c ≠ '%') (rest : Text) :
    decodeAscii (c::rest) = (decodeAscii rest).map (c::·) := by
  cases rest with
  | nil => rw [decodeAscii.eq_2]; simp [other]
  | cons d tail => rw [decodeAscii.eq_2]; simp [other]

theorem decodeAscii_unescaped {a b : Char} (rest : Text) (none_ : escapeValue a b = none) :
    decodeAscii ('%'::a::b::rest) = (decodeAscii (a::b::rest)).map ('%'::·) := by
  rw [decodeAscii.eq_1,none_]

theorem decodeAscii_law : PercentDecoding decodeAscii := by
  constructor
  · intro s plain
    induction s with
    | nil => rfl
    | cons c rest ih =>
      rw [List.mem_cons,not_or] at plain
      rw [decodeAscii_cons (Ne.symm plain.1),ih plain.2]
      rfl
  · intro a b
    have slash := decodeAscii_cons (c := '/') (by decide) b
    fun_induction decodeAscii a with
    | case1 x y rest c value ih =>
      rw [List.cons_append,List.cons_append,List.cons_append,decodeAscii.eq_1,value]
      dsimp only
      rw [ih]
      cases decodeAscii rest with
      | none => rfl
      | some left => cases decodeAscii b <;> rfl
    | case2 x y rest value =>
      rw [List.cons_append,List.cons_append,List.cons_append,decodeAscii.eq_1,value]
      rfl
    | case3 x y rest value ih =>
      rw [List.cons_append,List.cons_append,List.cons_append,decodeAscii_unescaped _ value]
      rw [List.cons_append,List.cons_append] at ih
      rw [ih]
      cases decodeAscii (x::y::rest) with
      | none => rfl
      | some left => cases decodeAscii b <;> rfl
    | case4 c rest short ih =>
      -- Not the start of an escape, before or after the slash is added.
      have peeled : decodeAscii (c::(rest ++ '/'::b)) = (decodeAscii (rest ++ '/'::b)).map (c::·) := by
        by_cases percent : c = '%'
        · subst percent
          match rest, short with
          | [], _ =>
            cases b with
            | nil => rfl
            | cons d tail => exact decodeAscii_unescaped tail (escapeValue_slash d).2
          | [x], _ => exact decodeAscii_unescaped b (escapeValue_slash x).1
          | x::y::tail, short => exact absurd rfl (short x y tail rfl)
        · exact decodeAscii_cons percent _
      rw [List.cons_append,peeled,ih]
      cases decodeAscii rest with
      | none => rfl
      | some left => cases decodeAscii b <;> rfl
    | case5 =>
      rw [List.nil_append,slash]
      cases decodeAscii b <;> rfl

theorem sandbox_sound_escaped :
    Sandboxed decodeAscii "/docs%2fa".toList ∧
      plainEngine.physicalPathOf decodeAscii "/docs%2fa".toList =
        .ok (plainEngine.getPhysicalPath "/docs%2fa".toList) ∧
      Text.startsWith (plainEngine.userId ++ ['/']) (plainEngine.getPhysicalPath "/docs%2fa".toList) = true ∧
      ∀ info, info.path = plainEngine.getPhysicalPath "/docs%2fa".toList →
        (plainEngine.translateFileInfo info).path = "/docs%2fa".toList :=
  have valid : validateFileOperation decodeAscii "docs%2fa/".toList = .ok "/docs%2fa".toList := by
    decide +kernel
  sandbox_sound decodeAscii_law plainEngine valid

/-! ### Where a path lies -/

/-- A file of the user's temp directory, by its relative path, or of the pool. -/
inductive FilePlace
  | temp (relative : Text)
  | pool (physical : Text)
  deriving DecidableEq,Repr

/-- Where reads and writes of a validated path go. -/
def Engine.locationOf (e : Engine) (path : Text) : FilePlace :=
  if isTempPath path then .temp (tempPath path) else .pool (e.getPhysicalPath path)

/-- `second` is `first` with a slash after the temp namespace. -/
def SlashApart (first second : Text) : Prop :=
  ∃ rest, first = logicalTempPrefix ++ rest ∧ second = logicalTempPrefix ++ '/'::rest

theorem isTempPath_iff {path : Text} : isTempPath path = true ↔ ∃ rest, path = logicalTempPrefix ++ rest := by
  rw [isTempPath,Text.startsWith_iff]
  constructor
  · rintro ⟨rest,split⟩
    exact ⟨rest,split.symm⟩
  · rintro ⟨rest,split⟩
    exact ⟨rest,split.symm⟩

theorem tempPath_append (rest : Text) : tempPath (logicalTempPrefix ++ rest) = Text.trimStart '/' rest := by
  rw [tempPath,Text.stripPrefix_append]

theorem named_no_double {rest x y : Text} (named : Named (rest.splitOn '/')) : rest ≠ x ++ '/' :: '/' :: y := by
  intro split
  rw [split,List.splitOn_append_cons_self,splitOn_slash] at named
  exact (named [] (List.mem_append_right _ List.mem_cons_self)).1 rfl

/-- What is left of an accepted path after the temp namespace has at most one
slash in front. -/
theorem accepted_rest {decode : Text → Option Text} {path rest : Text}
    (valid : validateFileOperation decode path = .ok (logicalTempPrefix ++ rest)) :
    Text.trimStart '/' rest = rest ∨ rest = '/' :: Text.trimStart '/' rest := by
  cases rest with
  | nil => exact .inl rfl
  | cons c tail =>
    by_cases slash : c = '/'
    · right
      subst slash
      rw [List.cons.injEq]
      refine ⟨rfl,?_⟩
      have single : tail.head? ≠ some '/' := by
        intro again
        obtain ⟨more,start⟩ := List.head?_eq_some_iff.mp again
        rcases accepted_cases valid with root | ⟨kept,-,leading,named,-⟩
        · revert root
          rw [start]
          exact fun root => by cases (List.cons.inj root).2
        · apply named_no_double (x := logicalTempPrefix.tail) (y := more) named
          have whole : logicalTempPrefix = '/'::logicalTempPrefix.tail := by decide
          rw [whole,List.cons_append] at leading
          rw [← (List.cons.inj leading).2,start]
      have peeled : Text.trimStart '/' ('/'::tail) = Text.trimStart '/' tail := by simp [Text.trimStart]
      rw [peeled,trimStart_of_head single]
    · exact .inl (trimStart_of_head (by simpa using slash))

theorem physicalPath_accepted {decode : Text → Option Text} (e : Engine) {path r : Text}
    (valid : validateFileOperation decode path = .ok r) : e.getPhysicalPath r = e.userId ++ r := by
  rw [Engine.getPhysicalPath]
  rcases accepted_cases valid with root | ⟨kept,-,leading,named,plain,-⟩
  · rw [root]
    rfl
  · rw [leading]
    exact physicalPath_fileShaped e.userId (fileShaped_of_named named plain)

/-- Two accepted paths lie at different places unless one is the other with a
slash after the temp namespace. -/
theorem locations_apart_iff {decode : Text → Option Text} (e : Engine) {path path' p q : Text}
    (valid : validateFileOperation decode path = .ok p) (valid' : validateFileOperation decode path' = .ok q)
    (differ : p ≠ q) : e.locationOf p ≠ e.locationOf q ↔ ¬SlashApart p q ∧ ¬SlashApart q p := by
  have lasting {a b : Text} (pool : isTempPath a = false ∨ isTempPath b = false) : ¬SlashApart a b := by
    rintro ⟨rest,first,second⟩
    rcases pool with pool | pool
    · rw [isTempPath_iff.mpr ⟨rest,first⟩] at pool
      cases pool
    · rw [isTempPath_iff.mpr ⟨'/'::rest,second⟩] at pool
      cases pool
  unfold Engine.locationOf
  cases temp : isTempPath p with
  | false =>
    have apart := lasting (b := q) (.inl temp)
    have apart' := lasting (a := q) (.inr temp)
    refine ⟨fun _ => ⟨apart,apart'⟩,fun _ => ?_⟩
    cases temp' : isTempPath q with
    | false =>
      intro same
      injection same with physical
      rw [physicalPath_accepted e valid,physicalPath_accepted e valid'] at physical
      exact differ (List.append_cancel_left physical)
    | true =>
      intro same
      cases same
  | true =>
    cases temp' : isTempPath q with
    | false =>
      refine ⟨fun _ => ⟨lasting (.inr temp'),lasting (.inl temp')⟩,fun _ same => ?_⟩
      cases same
    | true =>
      obtain ⟨a,first⟩ := isTempPath_iff.mp temp
      obtain ⟨b,second⟩ := isTempPath_iff.mp temp'
      rw [first] at valid differ ⊢
      rw [second] at valid' differ ⊢
      have peeled (s : Text) : Text.trimStart '/' ('/'::s) = Text.trimStart '/' s := by simp [Text.trimStart]
      simp only [if_true,tempPath_append]
      constructor
      · intro apart
        refine ⟨?_,?_⟩
        · rintro ⟨rest,left,right⟩
          rw [List.append_cancel_left left,List.append_cancel_left right,peeled] at apart
          exact apart rfl
        · rintro ⟨rest,right,left⟩
          rw [List.append_cancel_left left,List.append_cancel_left right,peeled] at apart
          exact apart rfl
      · rintro ⟨apart,apart'⟩ same
        injection same with relative
        rcases accepted_rest valid with plain | slash
        · rcases accepted_rest valid' with plain' | slash'
          · exact differ (by rw [← plain,← plain',relative])
          · exact apart ⟨a,rfl,by rw [slash',← relative,plain]⟩
        · rcases accepted_rest valid' with plain' | slash'
          · exact apart' ⟨b,rfl,by rw [slash,relative,plain']⟩
          · exact differ (by rw [slash,slash',relative])

theorem locations_apart_siblings :
    plainEngine.locationOf "/.virtual/tmp/a".toList ≠ plainEngine.locationOf "/.virtual/tmp/b".toList ↔
      ¬SlashApart "/.virtual/tmp/a".toList "/.virtual/tmp/b".toList ∧
        ¬SlashApart "/.virtual/tmp/b".toList "/.virtual/tmp/a".toList :=
  have valid : validateFileOperation decodeAscii "/.virtual/tmp/a".toList = .ok "/.virtual/tmp/a".toList := by
    decide +kernel
  have valid' : validateFileOperation decodeAscii "/.virtual/tmp/b".toList = .ok "/.virtual/tmp/b".toList := by
    decide +kernel
  locations_apart_iff plainEngine valid valid' (by decide +kernel)

/-- A name that merely starts like the temp namespace lies on a file in it. -/
theorem temp_names_collide :
    validateFileOperation decodeAscii "/.virtual/tmpa".toList = .ok "/.virtual/tmpa".toList ∧
      validateFileOperation decodeAscii "/.virtual/tmp/a".toList = .ok "/.virtual/tmp/a".toList ∧
      plainEngine.locationOf "/.virtual/tmpa".toList = plainEngine.locationOf "/.virtual/tmp/a".toList := by
  refine ⟨?_,?_,?_⟩ <;> decide +kernel

end StorageHub.Scoped
