import StorageHub.Library.Parts
import StorageHub.Mounts.RemoteStorage
import StorageHub.Mounts.SyncStorage
import StorageHub.Scoped.WriteRecovery

/-! The pool behind a mount as one side of a synchronisation: its objects are files, its
markers directories, and the keys of both are paths. -/
namespace StorageHub.Mounts
open Library WriteCache Paths Scoped Effect

/-! ### Keys -/

section keys
variable {path other : List Text} {text : Text}

/-- A text for a path, with its leading slash or without. -/
def LeadsTo (text : Text) (path : List Text) : Prop :=
  (∀ name ∈ path, Segment name) ∧ (text = relativeText path ∨ text = '/'::relativeText path)

theorem key_plain (given : path ≠ []) (segments : ∀ name ∈ path, Segment name) :
    hasTrailingSlash (relativeText path) = false := beq_eq_false_iff_ne.mpr (last_relativeText given segments)

theorem canonical_key (given : path ≠ []) (segments : ∀ name ∈ path, Segment name) :
    canonical (relativeText path) = relativeText path := trimStart_of_head (head_relativeText given segments)

theorem objectKey_key (given : path ≠ []) (segments : ∀ name ∈ path, Segment name) :
    objectKey (relativeText path) = relativeText path := by
  rw [objectKey,normalizeEntryPath_plain (key_plain given segments),canonical_key given segments]

/-- The texts of a path have its key, and no slash at the end. -/
theorem LeadsTo.key (leads : LeadsTo text path) (given : path ≠ []) :
    objectKey text = relativeText path ∧ hasTrailingSlash text = false := by
  obtain ⟨segments,rfl | rfl⟩ := leads
  · exact ⟨objectKey_key given segments,key_plain given segments⟩
  · have plain : hasTrailingSlash ('/'::relativeText path) = false := by
      apply beq_eq_false_iff_ne.mpr
      rw [List.getLast?_cons_of_ne_nil (relativeText_ne_nil given segments)]
      exact last_relativeText given segments
    refine ⟨?_,plain⟩
    rw [objectKey,normalizeEntryPath_plain plain,canonical,Text.trimStart,List.dropWhile_cons_of_pos (by rfl)]
    exact canonical_key given segments

/-- A slash at the end does not matter for the key. -/
theorem objectKey_slash (segments : ∀ name ∈ path, Segment name) : objectKey (relativeText path ++ ['/']) = relativeText path := by
  by_cases given : path = []
  · rw [given]
    decide
  · rw [objectKey,normalizeEntryPath_slash (relativeText_ne_nil given segments),canonical_key given segments]

theorem LeadsTo.dirKey (leads : LeadsTo text path) (given : path ≠ []) : objectKey (text ++ ['/']) = relativeText path := by
  obtain ⟨key,plain⟩ := leads.key given
  have nonempty : text ≠ [] := by
    rintro rfl
    obtain ⟨segments,none_ | slash⟩ := leads
    · exact relativeText_ne_nil given segments none_.symm
    · cases slash
  rw [objectKey,normalizeEntryPath_slash nonempty,← key,objectKey,normalizeEntryPath_plain plain]

/-- Above a name is what it is in. -/
theorem stdParentOrRoot_child (dir : Text) {name : Text} (segment : Segment name) :
    stdParentOrRoot (dir ++ '/'::name) = if Text.trimEnd '/' dir = [] then ['/'] else Text.trimEnd '/' dir := by
  have plain : (dir ++ '/'::name).getLast? ≠ some '/' := by
    rw [List.getLast?_append_of_ne_nil _ (List.cons_ne_nil _ _),List.getLast?_cons_of_ne_nil segment.given]
    intro last
    exact segment.slashless (List.mem_of_getLast? last)
  have upTo : (dir ++ '/'::name).rdropWhile (· != '/') = dir ++ ['/'] := by
    rw [Text.rdropWhile_append dir List.mem_cons_self,List.rdropWhile,List.reverse_cons,List.dropWhile_append_of_pos]
    · rfl
    · intro c member
      rw [List.mem_reverse] at member
      rw [bne_iff_ne]
      rintro rfl
      exact segment.slashless member
  have trimmed : Text.trimEnd '/' (dir ++ ['/']) = Text.trimEnd '/' dir := List.rdropWhile_concat_pos _ _ _ (by rfl)
  have filled : dir ++ '/'::name ≠ [] := List.append_ne_nil_of_right_ne_nil _ (List.cons_ne_nil _ _)
  have filled' : dir ++ ['/'] ≠ [] := List.append_ne_nil_of_right_ne_nil _ (List.cons_ne_nil _ _)
  rw [stdParentOrRoot,stdParent]
  dsimp only
  rw [trimEnd_plain plain,if_neg filled,upTo,trimmed]
  by_cases top : Text.trimEnd '/' dir = []
  · rw [if_pos ⟨top,filled'⟩,if_pos top]
    rfl
  · rw [if_neg fun both => top both.1,if_neg top]
    rfl

/-- What lies below a key goes on with a name. -/
theorem split_of_below (given : path ≠ []) (segments : ∀ name ∈ path, Segment name)
    (segments' : ∀ name ∈ other, Segment name) (under : Text.below (relativeText path) (relativeText other) = true) :
    ∃ name rest, other = path ++ name::rest := by
  obtain ⟨rest,split⟩ := Text.below_iff.mp under
  have filled : other ≠ [] := by
    rintro rfl
    cases path with
    | nil => exact given rfl
    | cons name names =>
      have short := congrArg List.length split
      rw [List.length_append,List.length_cons] at short
      simp [relativeText] at short
  have pieces := splitOn_relativeText filled segments'
  rw [split,List.splitOn_append_cons_self,splitOn_relativeText given segments] at pieces
  cases later : rest.splitOn '/' with
  | nil => exact absurd later (List.splitOn_ne_nil _ _)
  | cons name names => exact ⟨name,names,by rw [← pieces,later]⟩

end keys

/-! ### The sight of a bucket -/

namespace Bucket

def sight (b : Bucket) : Sight := fun path =>
  if parts (relativeText path) = path then
    match b.objects.lookup (relativeText path) with
    | some object => some (.file object.data (some object.modified))
    | none => (b.markers.lookup (relativeText path)).map fun _ => .dir
  else none

/-- The keys are those of paths, and none is that of an object and of a marker. -/
structure Keyed (b : Bucket) : Prop where
  object {key : Text} : b.objects.lookup key ≠ none →
    ∃ path, path ≠ [] ∧ (∀ name ∈ path, Segment name) ∧ key = relativeText path
  marker {key : Text} : b.markers.lookup key ≠ none → ∃ path, (∀ name ∈ path, Segment name) ∧ key = relativeText path
  apart {key : Text} : b.objects.lookup key ≠ none → b.markers.lookup key = none

variable {b b' : Bucket} {path : List Text}

theorem sight_eq (b : Bucket) (segments : ∀ name ∈ path, Segment name) : b.sight path =
    match b.objects.lookup (relativeText path) with
    | some object => some (.file object.data (some object.modified))
    | none => (b.markers.lookup (relativeText path)).map fun _ => .dir := by
  rw [sight,if_pos (parts_relativeText segments)]

theorem Keyed.spelled (keyed : b.Keyed) {key : Text} (present : b.objects.lookup key ≠ none ∨ b.markers.lookup key ≠ none) :
    ∃ path, (∀ name ∈ path, Segment name) ∧ key = relativeText path := by
  rcases present with object | marker
  · obtain ⟨path,-,rest⟩ := keyed.object object
    exact ⟨path,rest⟩
  · exact keyed.marker marker

theorem Keyed.named (keyed : b.Keyed) (there : b.sight path ≠ none) : ∀ name ∈ path, Segment name := by
  rw [sight] at there
  split at there
  next spelled =>
    have present : b.objects.lookup (relativeText path) ≠ none ∨ b.markers.lookup (relativeText path) ≠ none := by
      by_contra nothing
      rw [not_or,not_not,not_not] at nothing
      rw [nothing.1,nothing.2] at there
      exact there rfl
    obtain ⟨path',segments,same⟩ := keyed.spelled present
    rw [same,parts_relativeText segments] at spelled
    rw [← spelled]
    exact segments
  next => exact absurd rfl there

theorem Keyed.top (keyed : b.Keyed) : b.objects.lookup [] = none := by
  by_contra present
  obtain ⟨path,given,segments,same⟩ := keyed.object present
  exact relativeText_ne_nil given segments same.symm

/-- The files that are seen are the objects. -/
theorem file_iff (segments : ∀ name ∈ path, Segment name) {data : Bytes} {modified : Option Int} :
    b.sight path = some (.file data modified) ↔
      ∃ object, b.objects.lookup (relativeText path) = some object ∧ object.data = data ∧ some object.modified = modified := by
  rw [b.sight_eq segments]
  cases b.objects.lookup (relativeText path) with
  | none => cases b.markers.lookup (relativeText path) <;> simp
  | some object => simp

/-- Two buckets that agree on a key show the same at its path. -/
theorem sight_congr (objects : b'.objects.lookup (relativeText path) = b.objects.lookup (relativeText path))
    (markers : b'.markers.lookup (relativeText path) = b.markers.lookup (relativeText path)) : b'.sight path = b.sight path := by
  rw [sight,sight,objects,markers]

end Bucket

/-! ### Calls of the operator -/

namespace Remote
variable {α : Type} {P C : Bucket → Prop} {Q : α → Bucket → Prop} {E : VfsError → Bucket → Prop}

theorem call_meets {f : Bucket → Except VfsError (α × Bucket)} (onDone : ∀ b a b', P b → f b = .ok (a,b') → Q a b')
    (onFail : ∀ e b, P b → E e b) (onCrash : ∀ b, P b → C b) : Meets P (call f) Q E C := by
  apply Meets.perform
  · intro env b a b' holds done
    cases env with
    | some kind => cases done
    | none =>
      cases made : f b with
      | ok answer =>
        rw [made] at done
        cases done
        exact onDone b _ _ holds made
      | error e => rw [made] at done; cases done
  · intro env b e b' holds failed
    cases env with
    | some kind => cases failed; exact onFail _ _ holds
    | none =>
      cases made : f b with
      | ok answer => rw [made] at failed; cases failed
      | error e' => rw [made] at failed; cases failed; exact onFail _ _ holds
  · exact onCrash

theorem ask_meets {f : Bucket → Option α} (onDone : ∀ b a, P b → f b = some a → Q a b) (onFail : ∀ e b, P b → E e b)
    (onCrash : ∀ b, P b → C b) : Meets P (ask f) Q E C := by
  apply call_meets _ onFail onCrash
  intro b a b' holds done
  cases found : f b with
  | none => rw [found] at done; cases done
  | some a' => rw [found] at done; cases done; exact onDone b _ holds found

theorem operate_ensures {f : Bucket → Option Bucket} {Q : Unit → Bucket → Prop}
    (onDone : ∀ b b', P b → f b = some b' → Q () b') : Ensures P (operate f) Q := by
  apply call_meets _ (fun _ _ _ => trivial) (fun _ _ => trivial)
  intro b a b' holds done
  cases made : f b with
  | none => rw [made] at done; cases done
  | some b'' => rw [made] at done; cases done; exact onDone b _ holds made

end Remote

/-! ### Deletions -/

namespace Bucket
variable {b b' : Bucket} {path : List Text}

/-- The bucket without some keys of objects and of markers. -/
structure Without (objects markers : Text → Prop) (b b' : Bucket) : Prop where
  goneObject {key : Text} : objects key → b'.objects.lookup key = none
  keptObject {key : Text} : ¬objects key → b'.objects.lookup key = b.objects.lookup key
  goneMarker {key : Text} : markers key → b'.markers.lookup key = none
  keptMarker {key : Text} : ¬markers key → b'.markers.lookup key = b.markers.lookup key

theorem Without.trans {b'' : Bucket} {objects markers objects' markers' : Text → Prop} (first : Without objects markers b b')
    (second : Without objects' markers' b' b'') :
    Without (fun key => objects key ∨ objects' key) (fun key => markers key ∨ markers' key) b b'' := by
  constructor
  · intro key gone
    by_cases later : objects' key
    · exact second.goneObject later
    · rw [second.keptObject later]
      exact first.goneObject (gone.resolve_right later)
  · intro key kept
    rw [not_or] at kept
    rw [second.keptObject kept.2,first.keptObject kept.1]
  · intro key gone
    by_cases later : markers' key
    · exact second.goneMarker later
    · rw [second.keptMarker later]
      exact first.goneMarker (gone.resolve_right later)
  · intro key kept
    rw [not_or] at kept
    rw [second.keptMarker kept.2,first.keptMarker kept.1]

theorem Without.congr {objects markers objects' markers' : Text → Prop} (without : Without objects markers b b')
    (same : ∀ key, objects key ↔ objects' key) (same' : ∀ key, markers key ↔ markers' key) :
    Without objects' markers' b b' :=
  ⟨fun gone => without.goneObject ((same _).mpr gone),fun kept => without.keptObject fun gone => kept ((same _).mp gone),
    fun gone => without.goneMarker ((same' _).mpr gone),fun kept => without.keptMarker fun gone => kept ((same' _).mp gone)⟩

theorem Without.keyed {objects markers : Text → Prop} (without : Without objects markers b b') (keyed : b.Keyed) : b'.Keyed := by
  have object {key : Text} (present : b'.objects.lookup key ≠ none) : b.objects.lookup key ≠ none := by
    by_cases gone : objects key
    · exact absurd (without.goneObject gone) present
    · rw [← without.keptObject gone]
      exact present
  have marker {key : Text} (present : b'.markers.lookup key ≠ none) : b.markers.lookup key ≠ none := by
    by_cases gone : markers key
    · exact absurd (without.goneMarker gone) present
    · rw [← without.keptMarker gone]
      exact present
  refine ⟨fun present => keyed.object (object present),fun present => keyed.marker (marker present),?_⟩
  intro key present
  by_contra both
  exact marker both (keyed.apart (object present))

/-- The keys that are listed below a directory. -/
theorem mem_listRecursive {dir : Text} {entry : Text × ObjectMetadata} : entry ∈ b.listRecursive dir ↔
    (objectKey dir = [] ∨ Text.below (objectKey dir) entry.1 = true) ∧
      ((∃ object, b.objects.lookup entry.1 = some object ∧ metadata object = entry.2) ∨
        b.markers.lookup entry.1 ≠ none ∧ directory = entry.2) := by
  obtain ⟨key,meta_⟩ := entry
  rw [listRecursive,List.mem_append,List.mem_filterMap,List.mem_filterMap]
  constructor
  · rintro (⟨cell,member,listed⟩ | ⟨cell,member,listed⟩)
    · split at listed
      next inside =>
        cases listed
        rw [Bool.or_eq_true,List.isEmpty_iff] at inside
        exact ⟨inside,.inl ⟨cell.2,AList.mem_lookup_iff.mpr member,rfl⟩⟩
      next => cases listed
    · split at listed
      next inside =>
        cases listed
        rw [Bool.or_eq_true,List.isEmpty_iff] at inside
        have found : b.markers.lookup cell.1 = some cell.2 := AList.mem_lookup_iff.mpr member
        exact ⟨inside,.inr ⟨by rw [found]; exact Option.some_ne_none _,rfl⟩⟩
      next => cases listed
  · rintro ⟨inside,⟨object,found,rfl⟩ | ⟨present,rfl⟩⟩
    · left
      refine ⟨⟨key,object⟩,AList.mem_lookup_iff.mp found,?_⟩
      rw [if_pos (by rw [Bool.or_eq_true,List.isEmpty_iff]; exact inside)]
    · right
      obtain ⟨mark,found⟩ := Option.ne_none_iff_exists'.mp present
      refine ⟨⟨key,mark⟩,AList.mem_lookup_iff.mp found,?_⟩
      rw [if_pos (by rw [Bool.or_eq_true,List.isEmpty_iff]; exact inside)]

theorem delete_without {text key : Text} (named : objectKey text = key) (plain : hasTrailingSlash text = false) :
    Without (· = key) (fun _ => False) b (b.delete text) := by
  rw [delete,plain,named,if_neg Bool.false_ne_true]
  constructor
  · rintro _ rfl
    exact AList.lookup_erase _ _
  · exact fun differ => AList.lookup_erase_ne differ
  · exact False.elim
  · exact fun _ => rfl

theorem delete_marker_without {text key : Text} (named : objectKey text = key) (slash : hasTrailingSlash text = true) :
    Without (fun _ => False) (· = key) b (b.delete text) := by
  rw [delete,slash,named,if_pos rfl]
  constructor
  · exact False.elim
  · exact fun _ => rfl
  · rintro _ rfl
    exact AList.lookup_erase _ _
  · exact fun differ => AList.lookup_erase_ne differ

end Bucket

namespace RemotePool
open Bucket Remote
variable {path : List Text} {text : Text}

theorem hasTrailingSlash_append (text : Text) : hasTrailingSlash (text ++ ['/']) = true := by
  rw [hasTrailingSlash,List.getLast?_concat]
  rfl

theorem removeEntries_ensures {entries : List FileInfo} (named : ∀ entry ∈ entries,
    ∃ path, (∀ name ∈ path, Segment name) ∧ entry.path = relativeText path ∧ (entry.isDir = false → path ≠ [])) (b : Bucket) :
    Ensures (· = b) (removeEntries entries) fun _ => Without
      (fun key => ∃ entry ∈ entries, entry.isDir = false ∧ entry.path = key)
      (fun key => ∃ entry ∈ entries, entry.isDir = true ∧ entry.path = key) b := by
  induction entries generalizing b with
  | nil =>
    apply Meets.pure
    rintro _ rfl
    constructor <;> simp
  | cons entry rest ih =>
    obtain ⟨path,segments,same,file⟩ := named entry List.mem_cons_self
    have plain : hasTrailingSlash entry.path = false := by
      rw [same]
      by_cases given : path = []
      · rw [given]
        rfl
      · exact key_plain given segments
    have later (b' : Bucket) := ih (fun other member => named other (List.mem_cons_of_mem _ member)) b'
    rw [removeEntries]
    have first : Ensures (· = b) (operate fun b => some (b.delete
        (if (entry.isDir && !hasTrailingSlash entry.path) = true then entry.path ++ ['/'] else entry.path))) fun _ =>
        Without (fun key => entry.isDir = false ∧ entry.path = key) (fun key => entry.isDir = true ∧ entry.path = key) b := by
      apply operate_ensures
      intro before b' same' done
      rw [same'] at done
      cases done
      rw [plain,Bool.not_false,Bool.and_true]
      cases dir : entry.isDir with
      | true =>
        have marker := @delete_marker_without b _ _ (objectKey_slash segments) (hasTrailingSlash_append (relativeText path))
        rw [if_pos rfl,same]
        simpa [eq_comm] using marker
      | false =>
        have object := @delete_without b _ _ (objectKey_key (file dir) segments) (key_plain (file dir) segments)
        rw [if_neg Bool.false_ne_true,same]
        simpa [eq_comm] using object
    apply Meets.bind first
    intro _
    apply meets_from
    intro b' without
    apply ensures_of_meets (later b') (fun _ same => same)
    intro _ b'' without'
    have both := without.trans without'
    simpa [List.exists_mem_cons_iff] using both

section reads
variable {P : Bucket → Prop}

/-- What is asked is answered, and the bucket is as it was. -/
theorem map_ask_meets {α β : Type} (f : Bucket → Option α) (g : α → β) :
    Meets P (g <$> ask f) (fun answer b => P b ∧ ∃ a, f b = some a ∧ answer = g a) (fun _ => P) P := by
  rw [map_eq_pure_bind]
  have asked : Meets P (ask f) (fun a b => P b ∧ f b = some a) (fun _ => P) P :=
    ask_meets (fun _ _ holds found => ⟨holds,found⟩) (fun _ _ holds => holds) fun _ holds => holds
  apply asked.bind
  intro a
  apply Meets.pure
  rintro b ⟨holds,found⟩
  exact ⟨holds,a,found,rfl⟩

theorem read_meets (path : Text) :
    Meets P (read path) (fun answer b => P b ∧ b.read path = some answer.1) (fun _ => P) P := by
  have asked : Meets P (ask fun b => b.read path) (fun data b => P b ∧ b.read path = some data) (fun _ => P) P :=
    ask_meets (fun _ _ holds found => ⟨holds,found⟩) (fun _ _ holds => holds) fun _ holds => holds
  rw [read]
  apply asked.bind
  intro data
  have told : Meets (fun b => P b ∧ b.read path = some data) (stat path) (fun _ b => P b ∧ b.read path = some data)
      (fun _ => P) P :=
    (map_ask_meets _ _).consequence (fun _ holds => holds) (fun _ _ holds => holds.1) (fun _ _ holds => holds.1)
      fun _ holds => holds.1
  apply told.bind
  intro info
  exact Meets.pure fun _ holds => holds

end reads

/-- A listed entry tells of its key. -/
theorem entryInfo_path {key : Text} {meta_ : ObjectMetadata} (segments : ∀ name ∈ path, Segment name)
    (named : key = relativeText path) : (entryInfo (key,meta_)).path = relativeText path := by
  rw [entryInfo,toFileInfo]
  dsimp only
  rw [named]
  by_cases given : path = []
  · rw [given]
    rfl
  · exact normalizeEntryPath_plain (key_plain given segments)

/-- What is listed below a directory has a path. -/
theorem mem_infos {b : Bucket} (keyed : b.Keyed) {dir : Text} {info : FileInfo} :
    info ∈ (b.listRecursive dir).map entryInfo ↔ ∃ path, (∀ name ∈ path, Segment name) ∧
      (objectKey dir = [] ∨ Text.below (objectKey dir) (relativeText path) = true) ∧
      ((∃ object, b.objects.lookup (relativeText path) = some object ∧ info = entryInfo (relativeText path,metadata object)) ∨
        b.markers.lookup (relativeText path) ≠ none ∧ info = entryInfo (relativeText path,directory)) := by
  rw [List.mem_map]
  constructor
  · rintro ⟨⟨key,meta_⟩,member,rfl⟩
    obtain ⟨inside,there⟩ := mem_listRecursive.mp member
    have present : b.objects.lookup key ≠ none ∨ b.markers.lookup key ≠ none := by
      rcases there with ⟨object,found,-⟩ | ⟨marker,-⟩
      · exact .inl (by rw [found]; exact Option.some_ne_none _)
      · exact .inr marker
    obtain ⟨path,segments,rfl⟩ := keyed.spelled present
    refine ⟨path,segments,inside,?_⟩
    rcases there with ⟨object,found,same⟩ | ⟨marker,same⟩
    · exact .inl ⟨object,found,by rw [same]⟩
    · exact .inr ⟨marker,by rw [same]⟩
  · rintro ⟨path,segments,inside,⟨object,found,rfl⟩ | ⟨marker,rfl⟩⟩
    · exact ⟨_,mem_listRecursive.mpr ⟨inside,.inl ⟨object,found,rfl⟩⟩,rfl⟩
    · exact ⟨_,mem_listRecursive.mpr ⟨inside,.inr ⟨marker,rfl⟩⟩,rfl⟩

/-- The entries below a path are its objects and its markers. -/
theorem infos_below {b : Bucket} (keyed : b.Keyed) {dir : Text} (given : path ≠ []) (segments : ∀ name ∈ path, Segment name)
    (named : objectKey dir = relativeText path) (key : Text) (isDir : Bool) :
    (∃ info ∈ (b.listRecursive dir).map entryInfo, info.isDir = isDir ∧ info.path = key) ↔
      (if isDir then b.markers.lookup key ≠ none else b.objects.lookup key ≠ none) ∧
        Text.below (relativeText path) key = true := by
  have filled : relativeText path ≠ [] := relativeText_ne_nil given segments
  constructor
  · rintro ⟨info,member,rfl,rfl⟩
    rw [mem_infos keyed,named] at member
    obtain ⟨below,segments',inside,⟨object,found,rfl⟩ | ⟨marker,rfl⟩⟩ := member
    · rw [entryInfo_path segments' rfl]
      refine ⟨?_,inside.resolve_left filled⟩
      change b.objects.lookup (relativeText below) ≠ none
      rw [found]
      exact Option.some_ne_none _
    · rw [entryInfo_path segments' rfl]
      exact ⟨marker,inside.resolve_left filled⟩
  · rintro ⟨present,under⟩
    cases isDir with
    | true =>
      have marker : b.markers.lookup key ≠ none := present
      obtain ⟨below,segments',rfl⟩ := keyed.marker marker
      refine ⟨entryInfo (relativeText below,directory),?_,rfl,entryInfo_path segments' rfl⟩
      rw [mem_infos keyed,named]
      exact ⟨below,segments',.inr under,.inr ⟨marker,rfl⟩⟩
    | false =>
      have there : b.objects.lookup key ≠ none := present
      obtain ⟨below,-,segments',rfl⟩ := keyed.object there
      obtain ⟨object,found⟩ := Option.ne_none_iff_exists'.mp there
      refine ⟨entryInfo (relativeText below,metadata object),?_,rfl,entryInfo_path segments' rfl⟩
      rw [mem_infos keyed,named]
      exact ⟨below,segments',.inr under,.inl ⟨object,found,rfl⟩⟩

/-- A tree is removed with the marker of its root, and nothing beside it. -/
theorem removeTree_ensures {b : Bucket} (keyed : b.Keyed) (leads : LeadsTo text path) (given : path ≠ []) :
    Ensures (· = b) (removeTree text) fun _ => Without
      (fun key => b.objects.lookup key ≠ none ∧ Text.below (relativeText path) key = true)
      (fun key => (b.markers.lookup key ≠ none ∧ Text.below (relativeText path) key = true) ∨ key = relativeText path) b := by
  obtain ⟨key,plain⟩ := leads.key given
  have normal : normalizeEntryPath text = text := normalizeEntryPath_plain plain
  have notTop : text ≠ ['/'] := by
    rintro rfl
    cases plain
  have last : text.getLast? ≠ some '/' := beq_eq_false_iff_ne.mp plain
  have listKey := leads.dirKey given
  rw [removeTree]
  dsimp only
  rw [normal,if_neg notTop,trimEnd_plain last]
  have listed : Ensures (· = b) (listRecursive (text ++ ['/'])) fun infos b' =>
      b' = b ∧ infos = (b.listRecursive (text ++ ['/'])).map entryInfo := by
    apply ensures_of_meets (map_ask_meets _ _) fun _ same => same
    rintro infos _ ⟨rfl,entries,found,same⟩
    cases found
    exact ⟨rfl,same⟩
  apply Meets.bind listed
  intro infos
  apply meets_fact
  rintro rfl
  -- none of the entries is the path itself
  have entries (info : FileInfo) : info ∈ ((((b.listRecursive (text ++ ['/'])).map entryInfo).filter fun entry =>
      normalizeEntryPath entry.path != text).mergeSort
        fun a b => decide (Text.byteLength a.path ≤ Text.byteLength b.path)).reverse ↔
      info ∈ (b.listRecursive (text ++ ['/'])).map entryInfo := by
    rw [List.mem_reverse,(List.mergeSort_perm _ _).mem_iff,List.mem_filter,bne_iff_ne]
    refine ⟨And.left,fun member => ⟨member,?_⟩⟩
    intro same
    obtain ⟨below,segments,inside,there⟩ := (mem_infos keyed).mp member
    have named : info.path = relativeText below := by
      rcases there with ⟨object,-,rfl⟩ | ⟨-,rfl⟩
      · exact entryInfo_path segments rfl
      · exact entryInfo_path segments rfl
    rw [listKey] at inside
    obtain ⟨name,rest,rfl⟩ := split_of_below given leads.1 segments (inside.resolve_left (relativeText_ne_nil given leads.1))
    have longer : path ++ name::rest ≠ [] := List.append_ne_nil_of_right_ne_nil _ (List.cons_ne_nil _ _)
    rw [named,normalizeEntryPath_plain (key_plain longer segments)] at same
    have key' := (objectKey_key longer segments).symm.trans ((congrArg objectKey same).trans key)
    exact List.cons_ne_nil _ _ (List.append_right_eq_self.mp (relativeText_inj segments leads.1 key'))
  have named (info : FileInfo) (member : info ∈ ((((b.listRecursive (text ++ ['/'])).map entryInfo).filter fun entry =>
      normalizeEntryPath entry.path != text).mergeSort
        fun a b => decide (Text.byteLength a.path ≤ Text.byteLength b.path)).reverse) :
      ∃ path, (∀ name ∈ path, Segment name) ∧ info.path = relativeText path ∧ (info.isDir = false → path ≠ []) := by
    obtain ⟨below,segments,-,⟨object,found,rfl⟩ | ⟨-,rfl⟩⟩ := (mem_infos keyed).mp ((entries info).mp member)
    · refine ⟨below,segments,entryInfo_path segments rfl,?_⟩
      rintro - rfl
      rw [show relativeText [] = [] from rfl,keyed.top] at found
      cases found
    · refine ⟨below,segments,entryInfo_path segments rfl,?_⟩
      intro file
      cases file
  apply Meets.bind (removeEntries_ensures named b)
  intro _
  apply meets_from
  intro b₁ without
  apply operate_ensures
  intro b₂ b₃ same done
  rw [same] at done
  cases done
  have marker := @delete_marker_without b₁ _ _ listKey (hasTrailingSlash_append text)
  apply (without.trans marker).congr
  · intro key'
    have inside := infos_below keyed given leads.1 listKey key' false
    simp only [entries,or_false]
    exact inside
  · intro key'
    have inside := infos_below keyed given leads.1 listKey key' true
    simp only [entries]
    rw [inside]
    rfl

theorem stat_isDir {b : Bucket} (leads : LeadsTo text path) (given : path ≠ []) {m : ObjectMetadata}
    (found : b.stat text = some m) : m.isDir = false ↔ b.objects.lookup (relativeText path) ≠ none := by
  obtain ⟨key,plain⟩ := leads.key given
  rw [Bucket.stat,key,plain] at found
  cases there : b.objects.lookup (relativeText path) with
  | some object =>
    rw [there] at found
    cases found
    simp [metadata]
  | none =>
    rw [there] at found
    dsimp only at found
    split at found
    next => cases found; simp [directory]
    next => cases found

theorem delete_ensures {b : Bucket} (keyed : b.Keyed) (leads : LeadsTo text path) (given : path ≠ []) :
    Ensures (· = b) (delete text) fun _ b' => b'.Keyed ∧ Deleted path b.sight b'.sight := by
  obtain ⟨key,plain⟩ := leads.key given
  have same {b' : Bucket} (keyed' : b'.Keyed) {other : List Text} (there : (∀ name ∈ other, Segment name) →
      b'.sight other = b.sight other ∨ b'.sight other = none ∧
        (b.sight other = some .dir ∨ path <+: other ∧ ¬b.sight.hasFile path)) :
      b'.sight other = b.sight other ∨ b'.sight other = none ∧
        (b.sight other = some .dir ∨ path <+: other ∧ ¬b.sight.hasFile path) := by
    by_cases segments : ∀ name ∈ other, Segment name
    · exact there segments
    · left
      have none_ : b.sight other = none := by
        by_contra present
        exact segments (keyed.named present)
      have none_' : b'.sight other = none := by
        by_contra present
        exact segments (keyed'.named present)
      rw [none_,none_']
  have told : Ensures (· = b) (stat text) fun info b' => b' = b ∧
      (info.isDir = false ↔ b.objects.lookup (relativeText path) ≠ none) := by
    apply ensures_of_meets (map_ask_meets _ _) fun _ same => same
    rintro info _ ⟨rfl,m,found,rfl⟩
    exact ⟨rfl,stat_isDir leads given found⟩
  rw [delete]
  apply Meets.bind told
  intro info
  apply meets_fact
  intro file
  cases dir : info.isDir with
  | true =>
    have absent : b.objects.lookup (relativeText path) = none := by
      by_contra present
      rw [file.mpr present] at dir
      cases dir
    rw [if_pos rfl]
    apply Meets.bind (removeTree_ensures keyed leads given)
    intro _
    apply Meets.pure
    intro b' without
    have keyed' := without.keyed keyed
    refine ⟨keyed',?_,fun other differ => same keyed' fun segments => ?_⟩
    · rw [b'.sight_eq leads.1,without.goneMarker (.inr rfl)]
      have object : b'.objects.lookup (relativeText path) = none := by
        by_cases gone : b.objects.lookup (relativeText path) ≠ none ∧
            Text.below (relativeText path) (relativeText path) = true
        · exact absurd absent gone.1
        · rw [without.keptObject gone,absent]
      rw [object]
      rfl
    · cases under : Text.below (relativeText path) (relativeText other) with
      | true =>
        right
        obtain ⟨name,rest,whole⟩ := split_of_below given leads.1 segments under
        have object : b'.objects.lookup (relativeText other) = none := by
          by_cases gone : b.objects.lookup (relativeText other) = none
          · rw [without.keptObject (fun both => both.1 gone),gone]
          · exact without.goneObject ⟨gone,under⟩
        have marker : b'.markers.lookup (relativeText other) = none := by
          by_cases gone : b.markers.lookup (relativeText other) = none
          · rw [without.keptMarker _,gone]
            rintro (both | equal)
            · exact both.1 gone
            · exact differ (relativeText_inj segments leads.1 equal)
          · exact without.goneMarker (.inl ⟨gone,under⟩)
        refine ⟨by rw [b'.sight_eq segments,object,marker]; rfl,.inr ⟨⟨_,whole.symm⟩,?_⟩⟩
        rintro ⟨data,modified,there⟩
        obtain ⟨object,found,-⟩ := (file_iff leads.1).mp there
        rw [absent] at found
        cases found
      | false =>
        left
        apply sight_congr
        · apply without.keptObject
          rw [under]
          exact fun both => Bool.false_ne_true both.2
        · apply without.keptMarker
          rw [under]
          rintro (both | equal)
          · exact Bool.false_ne_true both.2
          · exact differ (relativeText_inj segments leads.1 equal)
  | false =>
    rw [if_neg Bool.false_ne_true]
    have there := file.mp dir
    have deleted : Ensures (· = b) (operate fun b => some (b.delete text)) fun _ =>
        Without (· = relativeText path) (fun _ => False) b := by
      apply operate_ensures
      intro before after equal done
      rw [equal] at done
      cases done
      exact delete_without key plain
    apply Meets.bind deleted
    intro _
    apply Meets.pure
    intro b' without
    have keyed' := without.keyed keyed
    refine ⟨keyed',?_,fun other differ => same keyed' fun segments => .inl ?_⟩
    · rw [b'.sight_eq leads.1,without.goneObject rfl,without.keptMarker id,keyed.apart there]
      rfl
    · apply sight_congr
      · exact without.keptObject fun equal => differ (relativeText_inj segments leads.1 equal)
      · exact without.keptMarker id

theorem createDirAll_ensures {b : Bucket} (keyed : b.Keyed) (leads : LeadsTo text path) (free : ¬b.sight.hasFile path) :
    Ensures (· = b) (createDirAll text) fun _ b' => b'.Keyed ∧ b'.sight path = some .dir ∧
      ∀ place, b'.sight place = b.sight place ∨ DirsMade path b.sight b'.sight place := by
  have segments := leads.1
  have absent : b.objects.lookup (relativeText path) = none := by
    by_contra present
    obtain ⟨object,found⟩ := Option.ne_none_iff_exists'.mp present
    exact free ⟨_,_,(file_iff segments).mpr ⟨object,found,rfl,rfl⟩⟩
  have named : objectKey (if hasTrailingSlash text then text else text ++ ['/']) = relativeText path := by
    by_cases given : path = []
    · subst given
      obtain ⟨-,rfl | rfl⟩ := leads
      · decide
      · decide
    · rw [(leads.key given).2,if_neg Bool.false_ne_true]
      exact leads.dirKey given
  have created : Ensures (· = b) (operate fun b => some (b.createDir (if hasTrailingSlash text then text else text ++ ['/'])))
      fun _ b' => b'.objects = b.objects ∧ b'.markers = b.markers.insert (relativeText path) () := by
    apply operate_ensures
    intro before after same done
    rw [same] at done
    cases done
    exact ⟨rfl,by rw [createDir,named]⟩
  rw [createDirAll]
  apply Meets.bind created
  intro _
  apply ensures_of_meets (map_ask_meets _ _) fun _ holds => holds
  rintro _ b' ⟨⟨objects,markers⟩,-⟩
  have marker (key : Text) : b'.markers.lookup key = if key = relativeText path then some () else b.markers.lookup key := by
    rw [markers,Store.lookup_insert_eq]
  have there : b'.sight path = some .dir := by
    rw [b'.sight_eq segments,objects,absent,marker,if_pos rfl]
    rfl
  refine ⟨?_,there,?_⟩
  · refine ⟨?_,?_,?_⟩
    · intro key present
      rw [objects] at present
      exact keyed.object present
    · intro key present
      rw [marker] at present
      split at present
      next same => exact ⟨path,segments,same⟩
      next => exact keyed.marker present
    · intro key present
      rw [objects] at present
      rw [marker,if_neg (by rintro rfl; exact present absent)]
      exact keyed.apart present
  · intro place
    by_cases same : relativeText place = relativeText path
    · by_cases spelled : parts (relativeText place) = place
      · rw [same,parts_relativeText segments] at spelled
        subst spelled
        cases old : b.markers.lookup (relativeText path) with
        | some mark =>
          left
          apply sight_congr (by rw [objects])
          rw [marker,if_pos rfl,old]
        | none =>
          right
          refine ⟨?_,there,List.prefix_rfl⟩
          rw [b.sight_eq segments,absent,old]
          rfl
      · left
        rw [sight,sight,if_neg spelled,if_neg spelled]
    · left
      apply sight_congr (by rw [objects])
      rw [marker,if_neg same]

/-- The other path that a write uses: that of the temporary object. -/
def poolScratch (path place : List Text) : Prop :=
  ∃ dir name, path = dir ++ [name] ∧ place = dir ++ [name ++ ".tmp".toList]

theorem leads_tmp {dir : List Text} {name : Text} (leads : LeadsTo text (dir ++ [name])) :
    LeadsTo (text ++ ".tmp".toList) (dir ++ [name ++ ".tmp".toList]) := by
  have append : relativeText (dir ++ [name ++ ".tmp".toList]) = relativeText (dir ++ [name]) ++ ".tmp".toList := by
    have alone (name : Text) : relativeText [name] = name := List.intercalate_singleton
    by_cases top : dir = []
    · rw [top,List.nil_append,List.nil_append,alone,alone]
    · rw [relativeText_append top (List.cons_ne_nil _ _),relativeText_append top (List.cons_ne_nil _ _),alone,alone,
        List.append_assoc]
      rfl
  constructor
  · intro other member
    rcases List.mem_append.mp member with before | here
    · exact leads.1 other (List.mem_append_left _ before)
    · rw [List.mem_singleton.mp here]
      have segment := leads.1 name (List.mem_append_right _ List.mem_cons_self)
      refine ⟨List.append_ne_nil_of_left_ne_nil segment.given _,?_,?_⟩
      · intro slash
        rcases List.mem_append.mp slash with inside | inside
        · exact segment.slashless inside
        · exact absurd inside (by decide)
      · intro dot
        have short := congrArg List.length dot
        rw [List.length_append] at short
        simp at short
  · rw [append]
    rcases leads.2 with rfl | rfl
    · exact .inl rfl
    · exact .inr rfl

theorem writeStream_ensures {b : Bucket} (keyed : b.Keyed) (data : Bytes) (leads : LeadsTo text path) (given : path ≠ [])
    (free : b.sight path ≠ some .dir) :
    Ensures (· = b) (writeStream text data) fun _ b' => b'.Keyed ∧
      (∃ modified, b'.sight path = some (.file data modified)) ∧
      ∀ place, place ≠ path → b'.sight place = b.sight place ∨ DirsMade path b.sight b'.sight place ∨
        b'.sight place = none ∧ poolScratch path place := by
  obtain ⟨dir,name,rfl⟩ : ∃ dir name, path = dir ++ [name] := by
    rcases List.eq_nil_or_concat path with nothing | ⟨dir,name,split⟩
    · exact absurd nothing given
    · exact ⟨dir,name,split.trans (List.concat_eq_append ..)⟩
  have temp := leads_tmp leads
  have given' : dir ++ [name ++ ".tmp".toList] ≠ [] := List.append_ne_nil_of_right_ne_nil _ (List.cons_ne_nil _ _)
  obtain ⟨key,-⟩ := leads.key given
  obtain ⟨tempKey,-⟩ := temp.key given'
  have written : Ensures (· = b) (operate fun b => some (b.write (text ++ ".tmp".toList) data)) fun _ b' =>
      b' = b.write (text ++ ".tmp".toList) data := by
    apply operate_ensures
    intro before after same done
    rw [same] at done
    cases done
    rfl
  have renamed : Ensures (· = b.write (text ++ ".tmp".toList) data)
      (operate fun b => b.rename (text ++ ".tmp".toList) text) fun _ b' => b'.markers = b.markers ∧ ∀ other,
        b'.objects.lookup other = if other = relativeText (dir ++ [name]) then some ⟨data,b.clock + 1⟩
          else if other = relativeText (dir ++ [name ++ ".tmp".toList]) then none else b.objects.lookup other := by
    apply operate_ensures
    intro before after same done
    rw [same,Bucket.rename,Bucket.write,tempKey,key] at done
    dsimp only at done
    rw [AList.lookup_insert] at done
    cases done
    refine ⟨rfl,?_⟩
    intro other
    dsimp only
    rw [Store.lookup_insert_eq,Store.lookup_erase_eq,Store.lookup_insert_eq]
    split
    next => rfl
    next =>
      split
      next => rfl
      next => rfl
  rw [writeStream]
  apply Meets.bind written
  intro _
  apply Meets.bind renamed
  intro _
  apply ensures_of_meets (map_ask_meets _ _) fun _ holds => holds
  rintro _ b' ⟨⟨markers,objects⟩,-⟩
  have noMarker : b.markers.lookup (relativeText (dir ++ [name])) = none := by
    by_contra present
    have absent : b.objects.lookup (relativeText (dir ++ [name])) = none := by
      by_contra there
      exact present (keyed.apart there)
    obtain ⟨mark,found⟩ := Option.ne_none_iff_exists'.mp present
    apply free
    rw [b.sight_eq leads.1,absent,found]
    rfl
  refine ⟨⟨?_,?_,?_⟩,⟨some (b.clock + 1),?_⟩,?_⟩
  · intro other present
    rw [objects] at present
    split at present
    next same => exact ⟨_,given,leads.1,same⟩
    next =>
      split at present
      next => exact absurd rfl present
      next => exact keyed.object present
  · intro other present
    rw [markers] at present
    exact keyed.marker present
  · intro other present
    rw [markers]
    rw [objects] at present
    split at present
    next same =>
      rw [same]
      exact noMarker
    next =>
      split at present
      next => exact absurd rfl present
      next => exact keyed.apart present
  · rw [b'.sight_eq leads.1,objects,if_pos rfl]
  · intro place differ
    by_cases spelled : parts (relativeText place) = place
    · have other : relativeText place ≠ relativeText (dir ++ [name]) := by
        intro same
        rw [same,parts_relativeText leads.1] at spelled
        exact differ spelled.symm
      by_cases used : relativeText place = relativeText (dir ++ [name ++ ".tmp".toList])
      · rw [used,parts_relativeText temp.1] at spelled
        subst spelled
        cases marker : b.markers.lookup (relativeText (dir ++ [name ++ ".tmp".toList])) with
        | none =>
          right
          right
          refine ⟨?_,dir,name,rfl,rfl⟩
          rw [b'.sight_eq temp.1,objects,if_neg other,if_pos rfl,markers,marker]
          rfl
        | some mark =>
          left
          have absent : b.objects.lookup (relativeText (dir ++ [name ++ ".tmp".toList])) = none := by
            by_contra there
            rw [keyed.apart there] at marker
            cases marker
          rw [b'.sight_eq temp.1,b.sight_eq temp.1,objects,if_neg other,if_pos rfl,absent,markers]
      · left
        apply sight_congr _ (by rw [markers])
        rw [objects,if_neg other,if_neg used]
    · left
      rw [sight,sight,if_neg spelled,if_neg spelled]

/-- The entries of a directory are for its children. -/
theorem list_children {b : Bucket} (keyed : b.Keyed) (leads : LeadsTo text path) (given : path ≠ []) {info : FileInfo}
    (member : info ∈ (b.list text).map entryInfo) : ∃ name, LeadsTo info.path (path ++ [name]) := by
  obtain ⟨key,-⟩ := leads.key given
  -- an entry and the child that it is in
  have inside (entry : Text × ObjectMetadata) (listed : entry ∈ b.listRecursive text) :
      ∃ name rest, (∀ other ∈ path ++ name::rest, Segment other) ∧ entry.1 = relativeText (path ++ name::rest) ∧
        childOf (relativeText path) entry.1 = (relativeText (path ++ [name]),!rest.isEmpty) := by
    obtain ⟨under,there⟩ := mem_listRecursive.mp listed
    have present : b.objects.lookup entry.1 ≠ none ∨ b.markers.lookup entry.1 ≠ none := by
      rcases there with ⟨object,found,-⟩ | ⟨marker,-⟩
      · exact .inl (by rw [found]; exact Option.some_ne_none _)
      · exact .inr marker
    obtain ⟨whole,segments,same⟩ := keyed.spelled present
    rw [key,same] at under
    obtain ⟨name,rest,rfl⟩ := split_of_below given leads.1 segments
      (under.resolve_left (relativeText_ne_nil given leads.1))
    refine ⟨name,rest,segments,same,?_⟩
    have slashless := (segments name (List.mem_append_right _ List.mem_cons_self)).slashless
    have alone : relativeText [name] = name := List.intercalate_singleton
    have passes (c : Char) (member : c ∈ name) : (c != '/') = true := by
      rw [bne_iff_ne]
      rintro rfl
      exact slashless member
    have child : relativeText (path ++ [name]) = relativeText path ++ '/'::name := by
      rw [relativeText_append given (List.cons_ne_nil _ _),alone]
    rw [childOf,same,relativeText_append given (List.cons_ne_nil _ _),if_neg (relativeText_ne_nil given leads.1),child]
    have cut : (relativeText path ++ '/'::relativeText (name::rest)).drop (relativeText path ++ ['/']).length =
        relativeText (name::rest) := by
      have whole : relativeText path ++ '/'::relativeText (name::rest) =
          (relativeText path ++ ['/']) ++ relativeText (name::rest) := List.append_cons ..
      rw [whole,List.drop_left]
    rw [cut]
    cases rest with
    | nil =>
      rw [alone,List.takeWhile_eq_self_iff.mpr passes]
      have none_ : List.contains name '/' = false := by simpa using slashless
      rw [none_,List.append_assoc]
      rfl
    | cons next later =>
      have split : relativeText (name::next::later) = name ++ '/'::relativeText (next::later) := by
        rw [show name::next::later = [name] ++ next::later from rfl,
          relativeText_append (List.cons_ne_nil _ _) (List.cons_ne_nil _ _),alone]
      have some_ : List.contains (name ++ '/'::relativeText (next::later)) '/' = true := by simp
      rw [split,some_,List.takeWhile_append_of_pos passes,List.takeWhile_cons_of_neg (by decide),List.append_nil,
        List.append_assoc]
      rfl
  have child {name : Text} {rest : List Text} (segments : ∀ other ∈ path ++ name::rest, Segment other) :
      ∀ other ∈ path ++ [name], Segment other := by
    intro other member
    rcases List.mem_append.mp member with before | here
    · exact leads.1 other before
    · rw [List.mem_singleton.mp here]
      exact segments name (List.mem_append_right _ List.mem_cons_self)
  obtain ⟨entry,listed,rfl⟩ := List.mem_map.mp member
  rw [Bucket.list,key] at listed
  rcases List.mem_append.mp listed with file | dir
  · obtain ⟨among,last⟩ := List.mem_filter.mp file
    obtain ⟨name,rest,segments,same,split⟩ := inside entry among
    rw [split] at last
    cases rest with
    | nil => exact ⟨name,child segments,.inl (entryInfo_path (child segments) same)⟩
    | cons next later =>
      rw [List.isEmpty_cons] at last
      cases last
  · obtain ⟨key',among,rfl⟩ := List.mem_map.mp dir
    obtain ⟨entry,above,rfl⟩ := List.mem_map.mp (List.mem_dedup.mp among)
    obtain ⟨name,rest,segments,-,split⟩ := inside entry (List.mem_filter.mp above).1
    rw [split]
    exact ⟨name,child segments,.inl (entryInfo_path (child segments) rfl)⟩

/-- A file that is seen is an object. -/
theorem stat_of_file {b : Bucket} (keyed : b.Keyed) (leads : LeadsTo text path) (file : b.sight.hasFile path) :
    ∃ object, b.stat text = some (metadata object) := by
  obtain ⟨data,modified,there⟩ := file
  obtain ⟨object,found,-⟩ := (file_iff leads.1).mp there
  have given : path ≠ [] := by
    rintro rfl
    rw [show relativeText [] = [] from rfl,keyed.top] at found
    cases found
  obtain ⟨key,plain⟩ := leads.key given
  refine ⟨object,?_⟩
  rw [Bucket.stat,key,plain,found]

theorem listed_all {b : Bucket} (keyed : b.Keyed) : Listed ['/'] LeadsTo b.sight ((b.listRecursive ['/']).map entryInfo) := by
  have top : objectKey ['/'] = [] := by decide
  have relative {path : List Text} (segments : ∀ name ∈ path, Segment name) :
      relativePath ['/'] (relativeText path) = relativeText path := by
    rw [relativePath,if_pos rfl]
    by_cases given : path = []
    · rw [given]
      rfl
    · exact trimStart_of_head (head_relativeText given segments)
  constructor
  · intro info member
    obtain ⟨path,segments,-,⟨object,found,rfl⟩ | ⟨marker,rfl⟩⟩ := (mem_infos keyed).mp member
    · refine ⟨path,.file object.data (some object.modified),?_,⟨segments,.inl (entryInfo_path segments rfl)⟩,?_,?_⟩
      · rw [entryInfo_path segments rfl,relative segments]
      · rw [b.sight_eq segments,found]
      · exact ⟨rfl,rfl,rfl⟩
    · refine ⟨path,.dir,?_,⟨segments,.inl (entryInfo_path segments rfl)⟩,?_,rfl⟩
      · rw [entryInfo_path segments rfl,relative segments]
      · have absent : b.objects.lookup (relativeText path) = none := by
          by_contra there
          exact marker (keyed.apart there)
        obtain ⟨mark,found⟩ := Option.ne_none_iff_exists'.mp marker
        rw [b.sight_eq segments,absent,found]
        rfl
  · intro path given there
    have segments := keyed.named there
    rw [b.sight_eq segments] at there
    cases found : b.objects.lookup (relativeText path) with
    | some object =>
      refine ⟨entryInfo (relativeText path,metadata object),?_,?_⟩
      · rw [mem_infos keyed]
        exact ⟨path,segments,.inl top,.inl ⟨object,found,rfl⟩⟩
      · rw [entryInfo_path segments rfl,relative segments]
    | none =>
      rw [found] at there
      refine ⟨entryInfo (relativeText path,directory),?_,?_⟩
      · rw [mem_infos keyed]
        refine ⟨path,segments,.inl top,.inr ⟨?_,rfl⟩⟩
        intro nothing
        rw [nothing] at there
        exact there rfl
      · rw [entryInfo_path segments rfl,relative segments]

/-- What is seen of a bucket alone. -/
theorem seen_alone {mine other : Sight} {b : Bucket} (seen : Seen Bucket.Keyed Bucket.sight nothingBeside mine other b) :
    b.Keyed ∧ b.sight = mine ∧ ∀ {b' : Bucket}, b'.Keyed → Stays Bucket.Keyed nothingBeside other b' :=
  ⟨seen.2.1,seen.1,fun keyed => ⟨keyed,seen.2.2⟩⟩

end RemotePool

open RemotePool Remote in
/-- The pool keeps the law of a side: its calls do on the tree that is seen of the bucket
what they are named for. -/
theorem remoteStorage_side :
    Side remoteStorage ['/'] LeadsTo poolScratch Bucket.Keyed Bucket.sight nothingBeside where
  named keyed there := keyed.named there
  directory := by
    rintro b keyed ⟨data,modified,there⟩
    obtain ⟨object,found,-⟩ := (Bucket.file_iff fun _ member => by cases member).mp there
    rw [show relativeText [] = [] from rfl,keyed.top] at found
    cases found
  top := ⟨fun _ member => (by cases member),.inr rfl⟩
  one := by
    rintro text path path' ⟨segments,spelled⟩ ⟨segments',spelled'⟩
    have clash {path path' : List Text} (segments' : ∀ name ∈ path', Segment name)
        (same : '/'::relativeText path = relativeText path') : False := by
      by_cases given : path' = []
      · rw [given] at same
        cases same
      · apply head_relativeText given segments'
        rw [← same]
        rfl
    rcases spelled with rfl | rfl
    · rcases spelled' with same | same
      · exact relativeText_inj segments segments' same
      · exact (clash segments same.symm).elim
    · rcases spelled' with same | same
      · exact (clash segments' same).elim
      · exact relativeText_inj segments segments' (List.cons.inj same).2
  inside := by
    intro path given segments
    rw [joinRoot_eq _ given segments]
    exact ⟨segments,.inr rfl⟩
  parent := by
    intro path name segments segment
    have alone : relativeText [name] = name := List.intercalate_singleton
    have all : ∀ other ∈ path ++ [name], Segment other := by
      intro other member
      rcases List.mem_append.mp member with before | here
      · exact segments other before
      · rw [List.mem_singleton.mp here]
        exact segment
    have longer : path ++ [name] ≠ [] := List.append_ne_nil_of_right_ne_nil _ (List.cons_ne_nil _ _)
    rw [joinRoot_eq _ longer all]
    by_cases given : path = []
    · left
      rw [given,List.nil_append,alone]
      exact stdParentOrRoot_child [] segment
    · right
      rw [relativeText_append given (List.cons_ne_nil _ _),alone]
      have above : stdParentOrRoot ('/'::relativeText path ++ '/'::name) = '/'::relativeText path := by
        have plain : ('/'::relativeText path).getLast? ≠ some '/' := by
          rw [List.getLast?_cons_of_ne_nil (relativeText_ne_nil given segments)]
          exact last_relativeText given segments
        rw [stdParentOrRoot_child _ segment,trimEnd_plain plain,if_neg (List.cons_ne_nil _ _)]
      exact ⟨segments,.inr above⟩
  exists_ := by
    intro text mine other
    change Meets _ (ask fun b => some (b.stat text).isSome) _ _ _
    apply ask_meets
    · intro b found seen answer
      cases answer
      refine ⟨seen,?_⟩
      intro absent
      have nothing : b.stat text = none := by
        rw [Option.isSome_eq_false_iff,Option.isNone_iff_eq_none] at absent
        exact absent
      obtain ⟨keyed,same,-⟩ := seen_alone seen
      constructor
      · rintro path leads ⟨data,modified,there⟩
        rw [← same] at there
        obtain ⟨object,found⟩ := stat_of_file keyed leads ⟨data,modified,there⟩
        rw [nothing] at found
        cases found
      · rintro rfl
        have root : b.isDirectory (objectKey ['/']) = true := rfl
        rw [Bucket.stat,root] at nothing
        split at nothing
        next slash => cases slash
        next => cases nothing
    · exact fun _ _ seen => seen
    · exact fun _ seen => seen
  stat := by
    intro text path mine other leads
    apply (map_ask_meets _ _).consequence (fun _ seen => seen) _ (fun _ _ seen => seen) fun _ seen => seen
    rintro info b ⟨seen,m,found,rfl⟩
    refine ⟨seen,?_⟩
    obtain ⟨keyed,rfl,-⟩ := seen_alone seen
    intro file
    obtain ⟨object,same⟩ := stat_of_file keyed leads file
    rw [found] at same
    cases same
    rfl
  list := by
    intro text path mine other leads given
    apply (map_ask_meets _ _).consequence (fun _ seen => seen) _ (fun _ _ seen => seen) fun _ seen => seen
    rintro infos b ⟨seen,entries,found,rfl⟩
    cases found
    exact ⟨seen,fun info member => list_children seen.2.1 leads given member⟩
  listRecursive := by
    intro mine other
    apply (map_ask_meets _ _).consequence (fun _ seen => seen) _ (fun _ _ seen => seen) fun _ seen => seen
    rintro infos b ⟨seen,entries,found,rfl⟩
    cases found
    obtain ⟨keyed,rfl,-⟩ := seen_alone seen
    exact ⟨seen,listed_all keyed⟩
  readStream := by
    intro text path mine other leads given
    apply (read_meets text).consequence (fun _ seen => seen) _ (fun _ _ seen => seen) fun _ seen => seen
    rintro answer b ⟨seen,found⟩
    refine ⟨seen,?_⟩
    obtain ⟨keyed,rfl,-⟩ := seen_alone seen
    rw [Bucket.read,(leads.key given).1] at found
    obtain ⟨object,there,same⟩ := Option.map_eq_some_iff.mp found
    exact ⟨some object.modified,(Bucket.file_iff leads.1).mpr ⟨object,there,same,rfl⟩⟩
  createDirAll := by
    intro text path mine other leads free
    apply meets_from
    intro b seen
    obtain ⟨keyed,rfl,stays⟩ := seen_alone seen
    apply ensures_of_meets (createDirAll_ensures keyed leads free) fun _ same => same
    exact fun _ b' holds => ⟨stays holds.1,holds.2⟩
  writeStream := by
    intro text path mine other data leads given free
    apply meets_from
    intro b seen
    obtain ⟨keyed,rfl,stays⟩ := seen_alone seen
    apply ensures_of_meets (writeStream_ensures keyed data leads given free) fun _ same => same
    exact fun _ b' holds => ⟨stays holds.1,holds.2⟩
  delete := by
    intro text path mine other leads given
    apply meets_from
    intro b seen
    obtain ⟨keyed,rfl,stays⟩ := seen_alone seen
    apply ensures_of_meets (delete_ensures keyed leads given) fun _ same => same
    exact fun _ b' holds => ⟨stays holds.1,holds.2⟩

end StorageHub.Mounts
