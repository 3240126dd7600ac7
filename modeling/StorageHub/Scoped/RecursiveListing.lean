import StorageHub.Scoped.IndexFrames
import StorageHub.Scoped.PendingListed
import StorageHub.Scoped.WriteRecovery

/-! Recursive listings. The index answers by a LIKE that takes the directory
itself along, the storage by the mere prefix of its physical path, and the
temporary namespace by its children. -/
namespace StorageHub.Scoped
open Library WriteCache Paths Protected Vfs Effect

/-- Below a directory; anything but the root is below the root. -/
def StrictlyUnder (dir path : Text) : Prop :=
  if dir = ['/'] then path ≠ ['/'] else Text.below dir path = true

instance (dir path : Text) : Decidable (StrictlyUnder dir path) :=
  inferInstanceAs (Decidable (if dir = ['/'] then path ≠ ['/'] else Text.below dir path = true))

section under
variable {dir path : Text}

theorem strictlyUnder_root : StrictlyUnder ['/'] path ↔ path ≠ ['/'] := by
  rw [StrictlyUnder,if_pos rfl]

theorem strictlyUnder_nested (nested : dir ≠ ['/']) :
    StrictlyUnder dir path ↔ ∃ rest, path = dir ++ '/'::rest := by
  rw [StrictlyUnder,if_neg nested,Text.below_iff]

end under

namespace Engine
variable (e : Engine)

/-- What is listed is of the user: a row, an entry of the storage below the
user's directory, or one of the user's temporary files. -/
def Owns (w : World) (info : VfsFileInfo) : Prop :=
  (∃ row ∈ w.index, row.userId = e.userId ∧ info = infoOfRow row) ∨
    (∃ d, (d = w.primary ∨ e.backup = some d) ∧
      ∃ entry ∈ d.entriesWhere (Text.startsWith (e.userId ++ ['/'])), info = e.entryInfo entry) ∨
    ∃ entry ∈ w.temp.entriesWhere fun _ => true,
      info.name = lastSegment entry.1 ∧ info.isDir = entry.2.isDir ∧ info.size = entry.2.size

/-- Whatever a listing returns is strictly under the directory and of the user. -/
def StaysInside (dir : Text) (w : World) : Prop := ∀ cs infos w' rest,
  e.listRecursiveImpl dir w cs = .done infos w' rest →
    ∀ info ∈ infos, StrictlyUnder dir info.path ∧ e.Owns w info

/-! ### What strays -/

/-- A row the index returns that does not lie below the directory: its own, or
one that the pattern takes for one below it. -/
def RowStrays (dir : Text) (row : IndexRow) : Prop :=
  row.userId = e.userId ∧ row.fileTrashedAt = none ∧
    (row.path = dir ∨ dir ≠ ['/'] ∧ Text.like e.caseSensitiveLike (dir ++ ['/','%']) row.path = true ∧
      Text.below dir row.path = false)

/-- A stored path that goes on after the physical path of the directory by
something other than a separator, and is not hidden. -/
def IsSibling (dir raw : Text) : Prop :=
  dir ≠ ['/'] ∧ ∃ c rest, raw = e.getPhysicalPath dir ++ c::rest ∧ c ≠ '/' ∧ c ≠ '\\' ∧
    isHiddenStoragePath (e.translatePath raw) = false

def rowsBelow (dir : Text) (w : World) : List IndexRow :=
  Index.listFilesRecursive e.caseSensitiveLike e.userId dir w.index

/-- The index answers for a protected directory, and for one the cache has not
written to when it knows something of it. -/
def IndexAnswers (dir : Text) (w : World) : Prop := ∃ plan, e.resolveProtectedPlan = .ok plan ∧
  ((plan.filter fun plan => plan.matchesPath dir) ≠ none ∨
    e.isDirtyDir (e.getPhysicalPath dir) w = false ∧ e.rowsBelow dir w ≠ [])

def StorageAnswers (dir : Text) (w : World) : Prop := ∃ plan, e.resolveProtectedPlan = .ok plan ∧
  (plan.filter fun plan => plan.matchesPath dir) = none ∧
    (e.isDirtyDir (e.getPhysicalPath dir) w = true ∨ e.rowsBelow dir w = [])

/-- Nothing strays in the source that answers. -/
structure NothingStrays (dir : Text) (w : World) : Prop where
  rows : isTempPath dir = false → e.IndexAnswers dir w → ∀ row ∈ w.index, ¬e.RowStrays dir row
  stored : isTempPath dir = false → e.StorageAnswers dir w → ∀ d, d = w.primary ∨ e.backup = some d →
    ∀ raw, d.Has raw → ¬e.IsSibling dir raw

variable {e} {dir : Text} {w : World}

/-! ### Rows -/

theorem mem_rowsBelow (valid : dir = ['/'] ∨ FileShaped dir) {row : IndexRow} :
    row ∈ e.rowsBelow dir w ↔ row ∈ w.index ∧ row.userId = e.userId ∧ row.fileTrashedAt = none ∧
      (dir = ['/'] ∨ row.path = dir ∨ Text.like e.caseSensitiveLike (dir ++ ['/','%']) row.path = true) := by
  have trimmed : dir = ['/'] ∨ Text.trimEnd '/' dir = dir :=
    valid.imp_right fun shaped => trimEnd_plain shaped.2.2.1
  rw [rowsBelow,Index.listFilesRecursive,List.mem_filter]
  simp only [Bool.and_eq_true,Bool.or_eq_true,beq_iff_eq,Option.isNone_iff_eq_none,Index.at_,Index.likeBelow,
    and_assoc]
  apply and_congr_right
  intro _
  apply and_congr_right
  intro owner
  apply and_congr_right
  intro _
  rcases trimmed with root | trimmed
  · simp [root]
  · rw [trimmed]
    simp [owner,or_assoc]

/-- Rows stay inside exactly when none that is listed strays. -/
theorem rows_inside_iff (valid : dir = ['/'] ∨ FileShaped dir) :
    (∀ row ∈ e.rowsBelow dir w, StrictlyUnder dir row.path) ↔ ∀ row ∈ w.index, ¬e.RowStrays dir row := by
  have placed {row : IndexRow} (listed : row ∈ e.rowsBelow dir w) :
      StrictlyUnder dir row.path ↔ ¬e.RowStrays dir row := by
    obtain ⟨-,owner,live,selected⟩ := (mem_rowsBelow valid).mp listed
    rw [StrictlyUnder,RowStrays]
    by_cases root : dir = ['/']
    · simp [root,owner,live]
    · rw [if_neg root]
      rcases selected with here | here | matched
      · exact absurd here root
      · have apart : Text.below dir row.path = false := by
          rw [Bool.eq_false_iff]
          intro under
          obtain ⟨rest,split⟩ := Text.below_iff.mp under
          rw [here] at split
          simp at split
        simp [here,owner,live,here ▸ apart]
      · cases under : Text.below dir row.path with
        | false => simp [owner,live,root,matched]
        | true =>
          obtain ⟨rest,split⟩ := Text.below_iff.mp under
          simp [split]
  constructor
  · intro inside row member strays
    have listed : row ∈ e.rowsBelow dir w := by
      obtain ⟨owner,live,selected⟩ := strays
      apply (mem_rowsBelow valid).mpr
      exact ⟨member,owner,live,.inr (selected.imp_right fun stray => stray.2.1)⟩
    exact (placed listed).mp (inside row listed) strays
  · intro none_ row listed
    exact (placed listed).mpr (none_ row ((mem_rowsBelow valid).mp listed).1)

/-! ### Stored entries -/

theorem translatePath_owned (e : Engine) (rest : Text) : e.translatePath (e.userId ++ '/'::rest) =
    '/'::Text.trimEnd '/' (Text.trimStart '/' (withSlashes rest)) := by
  have split : withSlashes (e.userId ++ '/'::rest) = (e.userId ++ ['/']) ++ withSlashes rest := by
    have user : withSlashes e.userId = e.userId := withSlashes_plain e.portableUser
    have slash : withSlashes ['/'] = ['/'] := rfl
    rw [List.append_cons,withSlashes,List.map_append,List.map_append]
    change withSlashes e.userId ++ withSlashes ['/'] ++ withSlashes rest = _
    rw [user,slash]
  rw [translatePath,split,Text.stripPrefix_append]

/-- What follows a directory in a stored path follows it in the listed one, but
for slashes at the end. -/
theorem translatePath_append (e : Engine) (shaped : FileShaped dir) (more : Text) :
    e.translatePath (e.getPhysicalPath dir ++ more) = dir ++ Text.trimEnd '/' (withSlashes more) := by
  have fixed := trimEnd_plain shaped.2.2.1
  have portable := shaped.2.2.2
  obtain ⟨body,rfl,head,init,last,rfl,final⟩ := fileShaped_cons shaped
  have physical : e.getPhysicalPath ('/'::(init ++ [last])) = e.userId ++ '/'::(init ++ [last]) :=
    physicalPath_cons e.userId head
  have kept : withSlashes (init ++ [last] ++ more) = init ++ [last] ++ withSlashes more := by
    have plain : withSlashes (init ++ [last]) = init ++ [last] :=
      withSlashes_plain fun member => portable (List.mem_cons_of_mem _ member)
    rw [withSlashes,List.map_append]
    change withSlashes (init ++ [last]) ++ _ = _
    rw [plain]
    rfl
  have started : (init ++ [last] ++ withSlashes more).head? ≠ some '/' := by
    rw [List.append_assoc,List.head?_append]
    rw [List.head?_append] at head
    cases init with
    | nil => simpa using head
    | cons c rest => simpa using head
  rw [physical,List.append_assoc,List.cons_append,translatePath_owned,kept,trimStart_of_head started,
    trimEnd_append (trimEnd_of_last final)]
  rfl

/-- What is returned of a storage. -/
def storedBelow (e : Engine) (dir : Text) (d : Disk) : List VfsFileInfo :=
  ((d.listPrefix (e.getPhysicalPath dir)).map e.entryInfo).filter fun info =>
    !isHiddenStoragePath info.path && info.path != dir

theorem mem_storedBelow {d : Disk} {info : VfsFileInfo} : info ∈ e.storedBelow dir d ↔
    ∃ entry ∈ d.listPrefix (e.getPhysicalPath dir), info = e.entryInfo entry ∧
      isHiddenStoragePath info.path = false ∧ info.path ≠ dir := by
  rw [storedBelow,List.mem_filter,List.mem_map]
  constructor
  · rintro ⟨⟨entry,member,rfl⟩,kept⟩
    rw [Bool.and_eq_true,Bool.not_eq_true',bne_iff_ne] at kept
    exact ⟨entry,member,rfl,kept⟩
  · rintro ⟨entry,member,rfl,kept⟩
    rw [Bool.and_eq_true,Bool.not_eq_true',bne_iff_ne]
    exact ⟨⟨entry,member,rfl⟩,kept⟩

theorem entryInfo_path (e : Engine) (entry : Text × Metadata) :
    (e.entryInfo entry).path = e.translatePath entry.1 := rfl

/-- An entry whose path goes on by a separator is listed below the directory, if
it is not the directory itself. -/
theorem listed_under (shaped : FileShaped dir) {c : Char} {rest : Text} (separator : c = '/' ∨ c = '\\')
    (other : e.translatePath (e.getPhysicalPath dir ++ c::rest) ≠ dir) :
    ∃ tail, e.translatePath (e.getPhysicalPath dir ++ c::rest) = dir ++ '/'::tail := by
  have first : withSlashes (c::rest) = '/'::withSlashes rest := by
    rcases separator with rfl | rfl
    · rfl
    · rfl
  rw [translatePath_append e shaped,first] at other ⊢
  rcases trimEnd_slash (withSlashes rest) with nothing | ⟨tail,trimmed⟩
  · rw [nothing,List.append_nil] at other
    exact absurd rfl other
  · exact ⟨tail,by rw [trimmed]⟩

/-- A sibling is listed under its own name. -/
theorem sibling_listed (shaped : FileShaped dir) {c : Char} {rest : Text} (slash : c ≠ '/') (back : c ≠ '\\') :
    ∃ tail, e.translatePath (e.getPhysicalPath dir ++ c::rest) = dir ++ c::tail := by
  have first : withSlashes (c::rest) = c::withSlashes rest := by
    rw [withSlashes,List.map_cons,if_neg back]
    rfl
  obtain ⟨tail,trimmed⟩ := trimEnd_cons slash (withSlashes rest)
  exact ⟨tail,by rw [translatePath_append e shaped,first,trimmed]⟩

theorem stored_inside_iff (valid : dir = ['/'] ∨ FileShaped dir) {d : Disk} :
    (∀ info ∈ e.storedBelow dir d, StrictlyUnder dir info.path) ↔
      ∀ raw, d.Has raw → ¬e.IsSibling dir raw := by
  constructor
  · intro inside raw has sibling
    obtain ⟨nested,c,rest,rfl,slash,back,shown⟩ := sibling
    have shaped := valid.resolve_left nested
    obtain ⟨tail,path⟩ : ∃ tail, e.translatePath (e.getPhysicalPath dir ++ c::rest) = _ :=
      sibling_listed shaped slash back
    obtain ⟨entry,member,here⟩ : ∃ entry ∈ d.listPrefix (e.getPhysicalPath dir),
        entry.1 = e.getPhysicalPath dir ++ c::rest := by
      have under : Text.startsWith (e.getPhysicalPath dir) (e.getPhysicalPath dir ++ c::rest) = true :=
        Text.startsWith_iff.mpr (List.prefix_append _ _)
      rcases has with file | here
      · obtain ⟨data,found⟩ := Option.isSome_iff_exists.mp file
        exact ⟨(_,⟨false,data.length⟩),mem_entriesWhere.mpr ⟨under,.inl ⟨data,found,rfl⟩⟩,rfl⟩
      · exact ⟨(_,⟨true,0⟩),mem_entriesWhere.mpr ⟨under,.inr ⟨here,rfl⟩⟩,rfl⟩
    have own : (e.entryInfo entry).path = dir ++ c::tail := by rw [entryInfo_path,here,path]
    have listed : e.entryInfo entry ∈ e.storedBelow dir d := by
      apply mem_storedBelow.mpr
      refine ⟨entry,member,rfl,?_,?_⟩
      · rw [entryInfo_path,here]
        exact shown
      · rw [own]
        simp
    obtain ⟨more,under⟩ := (strictlyUnder_nested nested).mp (inside _ listed)
    rw [own] at under
    exact slash (List.cons.inj (List.append_cancel_left under)).1
  · intro apart info listed
    obtain ⟨entry,member,rfl,shown,other⟩ := mem_storedBelow.mp listed
    obtain ⟨started,kind⟩ := mem_entriesWhere.mp member
    have has : d.Has entry.1 := by
      rcases kind with ⟨data,found,-⟩ | ⟨here,-⟩
      · exact .inl (Option.isSome_iff_exists.mpr ⟨data,found⟩)
      · exact .inr here
    by_cases nested : dir = ['/']
    · rw [nested] at other ⊢
      exact strictlyUnder_root.mpr other
    · have shaped := valid.resolve_left nested
      rw [entryInfo_path] at shown other ⊢
      obtain ⟨more,split⟩ := Text.startsWith_iff.mp started
      rw [← split] at shown other ⊢
      cases more with
      | nil =>
        have itself := translatePath_append e shaped []
        have nothing : Text.trimEnd '/' (withSlashes []) = [] := rfl
        rw [nothing,List.append_nil dir] at itself
        exact absurd itself other
      | cons c rest =>
        have separator : c = '/' ∨ c = '\\' := by
          by_contra neither
          rw [not_or] at neither
          exact apart entry.1 has ⟨nested,c,rest,split.symm,neither.1,neither.2,by rw [← split]; exact shown⟩
        exact (strictlyUnder_nested nested).mpr (listed_under shaped separator other)

/-! ### What a run returns -/

theorem tempList_done {cs rest : List (Choice EngineEnv)} {infos : List VfsFileInfo} {w' : World}
    (done : tempList dir w cs = .done infos w' rest) :
    infos = (w.temp.listChildren (tempPath dir)).map fun entry =>
      fileInfo (Text.trimEnd '/' dir ++ '/'::lastSegment entry.1) entry.2 := by
  obtain ⟨-,env,made⟩ := call_done done
  split at made
  next => exact (Except.ok.inj (Prod.mk.inj made).1).symm
  next => cases (Prod.mk.inj made).1

theorem listRecursivePhysical_done {cs rest : List (Choice EngineEnv)} {infos : List VfsFileInfo} {w' : World}
    (done : e.listRecursivePhysical dir w cs = .done infos w' rest) :
    ∃ d, (d = w.primary ∨ e.backup = some d) ∧ infos = e.storedBelow dir d := by
  obtain ⟨entries,_,_,listed,kept⟩ := bind_done w cs done
  cases kept
  obtain ⟨result,_,_,tried,answered⟩ := bind_done w cs listed
  rcases attempt_cases w cs tried with ⟨found,rfl,ran⟩ | ⟨err,rfl,-⟩
  · cases answered
    obtain ⟨rfl,rfl⟩ := query_done ran
    exact ⟨_,.inl rfl,rfl⟩
  · dsimp only at answered
    cases other : e.backup with
    | none =>
      rw [other] at answered
      cases answered
    | some backup =>
      rw [other] at answered
      obtain ⟨rfl,-⟩ := query_done answered
      exact ⟨backup,.inr rfl,rfl⟩

theorem listRecursiveImpl_done (lasting : isTempPath dir = false) {cs rest : List (Choice EngineEnv)}
    {infos : List VfsFileInfo} {w' : World} (done : e.listRecursiveImpl dir w cs = .done infos w' rest) :
    e.IndexAnswers dir w ∧ infos = (e.rowsBelow dir w).map infoOfRow ∨
      e.StorageAnswers dir w ∧ ∃ d, (d = w.primary ∨ e.backup = some d) ∧ infos = e.storedBelow dir d := by
  rw [listRecursiveImpl,if_neg (by rw [lasting]; exact Bool.false_ne_true)] at done
  obtain ⟨found,_,_,planned,done⟩ := bind_done w cs done
  cases resolved : e.resolveProtectedPlan with
  | error err =>
    rw [getProtectedPlan,resolved] at planned
    cases planned
  | ok plan =>
    rw [e.getProtectedPlan_run w dir cs resolved] at planned
    cases planned
    cases covered : plan.filter fun plan => plan.matchesPath dir with
    | some found =>
      rw [covered] at done
      obtain ⟨rows,_,_,asked,taken⟩ := bind_done w cs done
      obtain ⟨rfl,rfl⟩ := query_done asked
      cases taken
      exact .inl ⟨⟨plan,resolved,.inl (by rw [covered]; exact Option.some_ne_none _)⟩,rfl⟩
    | none =>
      rw [covered] at done
      dsimp only at done
      rw [bind_run (get_apply _ _)] at done
      split at done
      next dirty =>
        exact .inr ⟨⟨plan,resolved,covered,.inl dirty⟩,listRecursivePhysical_done done⟩
      next clean =>
        rw [Bool.not_eq_true] at clean
        obtain ⟨rows,_,_,asked,done⟩ := bind_done w cs done
        obtain ⟨rfl,rfl⟩ := query_done asked
        split at done
        next empty => exact .inr ⟨⟨plan,resolved,covered,.inr empty⟩,listRecursivePhysical_done done⟩
        next filled =>
          cases done
          exact .inl ⟨⟨plan,resolved,.inr ⟨clean,filled⟩⟩,rfl⟩

theorem rows_returned (lasting : isTempPath dir = false) (answers : e.IndexAnswers dir w) :
    e.listRecursiveImpl dir w [] = .done ((e.rowsBelow dir w).map infoOfRow) w [] := by
  obtain ⟨plan,resolved,covered⟩ := answers
  rw [listRecursiveImpl,if_neg (by rw [lasting]; exact Bool.false_ne_true),
    bind_run (e.getProtectedPlan_run w dir [] resolved)]
  cases kept : plan.filter fun plan => plan.matchesPath dir with
  | some found => rfl
  | none =>
    obtain ⟨clean,filled⟩ := covered.resolve_left fun some_ => some_ kept
    dsimp only
    rw [bind_run (get_apply _ _),clean,if_neg Bool.false_ne_true,bind_run (query_run _ w)]
    exact congrFun (congrFun (if_neg filled) w) []

/-- Whichever storage there is may have to answer. -/
theorem stored_returned (lasting : isTempPath dir = false) (answers : e.StorageAnswers dir w) {d : Disk}
    (asked : d = w.primary ∨ e.backup = some d) :
    ∃ cs, e.listRecursiveImpl dir w cs = .done (e.storedBelow dir d) w [] := by
  have listed : ∃ cs, e.listRecursivePhysical dir w cs = .done (e.storedBelow dir d) w [] := by
    rcases asked with rfl | other
    · exact ⟨[],rfl⟩
    · refine ⟨[.proceed ⟨⟨false,0⟩,.internal []⟩],?_⟩
      have refused : (query fun w => w.primary.listPrefix (e.getPhysicalPath dir)).attempt w
          [.proceed ⟨⟨false,0⟩,.internal []⟩] = .done (.error (.internal [])) w [] := rfl
      have answered : e.orBackup (query fun w => w.primary.listPrefix (e.getPhysicalPath dir))
          (fun backup => query fun _ => backup.listPrefix (e.getPhysicalPath dir)) w
          [.proceed ⟨⟨false,0⟩,.internal []⟩] = .done (d.listPrefix (e.getPhysicalPath dir)) w [] := by
        rw [orBackup,bind_run refused,other]
        rfl
      exact bind_run answered
  obtain ⟨cs,listed⟩ := listed
  obtain ⟨plan,resolved,uncovered,reached⟩ := answers
  have entered (cs : List (Choice EngineEnv)) : e.listRecursiveImpl dir w cs =
      (if e.isDirtyDir (e.getPhysicalPath dir) w then e.listRecursivePhysical dir
        else do
          let rows ← query fun w => Index.listFilesRecursive e.caseSensitiveLike e.userId dir w.index
          if rows = [] then e.listRecursivePhysical dir else pure (rows.map infoOfRow)) w cs := by
    rw [listRecursiveImpl,if_neg (by rw [lasting]; exact Bool.false_ne_true),
      bind_run (e.getProtectedPlan_run w dir cs resolved),uncovered]
    rfl
  cases dirty : e.isDirtyDir (e.getPhysicalPath dir) w with
  | true => exact ⟨cs,by rw [entered,dirty,if_pos rfl,listed]⟩
  | false =>
    have empty : e.rowsBelow dir w = [] := reached.resolve_left (by rw [dirty]; exact Bool.false_ne_true)
    refine ⟨.proceed default::cs,?_⟩
    have asked : query (fun w => Index.listFilesRecursive e.caseSensitiveLike e.userId dir w.index) w
        (.proceed default::cs) = .done (e.rowsBelow dir w) w cs := rfl
    rw [entered,dirty,if_neg Bool.false_ne_true,bind_run asked,if_pos empty,listed]

/-! ### Whose it is -/

theorem rows_owned {row : IndexRow} (valid : dir = ['/'] ∨ FileShaped dir) (listed : row ∈ e.rowsBelow dir w) :
    e.Owns w (infoOfRow row) := by
  obtain ⟨member,owner,-⟩ := (mem_rowsBelow valid).mp listed
  exact .inl ⟨row,member,owner,rfl⟩

theorem stored_owned {d : Disk} (asked : d = w.primary ∨ e.backup = some d) {info : VfsFileInfo}
    (listed : info ∈ e.storedBelow dir d) : e.Owns w info := by
  obtain ⟨entry,member,rfl,-⟩ := mem_storedBelow.mp listed
  obtain ⟨started,kind⟩ := mem_entriesWhere.mp member
  refine .inr (.inl ⟨d,asked,entry,mem_entriesWhere.mpr ⟨?_,kind⟩,rfl⟩)
  have physical : e.getPhysicalPath dir = (e.userId ++ ['/']) ++ Text.trimStart '/' dir := by
    rw [List.append_assoc]
    rfl
  rw [physical] at started
  exact Text.startsWith_iff.mpr ((List.prefix_append _ _).trans (Text.startsWith_iff.mp started))

/-- A name is the last segment of the path it ends. -/
theorem lastSegment_name (path whole : Text) : lastSegment (path ++ '/'::lastSegment whole) = lastSegment whole := by
  have plain : ∀ c ∈ (lastSegment whole).reverse, (c != '/') = true := by
    intro c member
    exact @List.mem_rtakeWhile_imp _ (· != '/') whole c (List.mem_reverse.mp member)
  rw [lastSegment_append List.mem_cons_self]
  generalize lastSegment whole = name at plain ⊢
  have ends : List.takeWhile (· != '/') ['/'] = [] := rfl
  rw [lastSegment,Text.afterLast,List.rtakeWhile,List.reverse_cons,List.takeWhile_append_of_pos plain,ends,
    List.append_nil,List.reverse_reverse]

theorem temp_inside (lasting : isTempPath dir = true) (valid : dir = ['/'] ∨ FileShaped dir)
    {entry : Text × Metadata} (listed : entry ∈ w.temp.listChildren (tempPath dir)) :
    StrictlyUnder dir (Text.trimEnd '/' dir ++ '/'::lastSegment entry.1) ∧
      e.Owns w (fileInfo (Text.trimEnd '/' dir ++ '/'::lastSegment entry.1) entry.2) := by
  have nested : dir ≠ ['/'] := by
    intro root
    rw [root] at lasting
    exact absurd lasting (by decide)
  have shaped := valid.resolve_left nested
  obtain ⟨child,kind⟩ := mem_entriesWhere.mp listed
  constructor
  · rw [trimEnd_plain shaped.2.2.1]
    exact (strictlyUnder_nested nested).mpr ⟨_,rfl⟩
  · refine .inr (.inr ⟨entry,mem_entriesWhere.mpr ⟨rfl,kind⟩,?_,rfl,rfl⟩)
    exact lastSegment_name _ _

/-- A recursive listing stays inside its directory exactly when nothing strays in
the source that answers. -/
theorem listRecursive_inside_iff (e : Engine) (w : World) (valid : dir = ['/'] ∨ FileShaped dir) :
    e.StaysInside dir w ↔ e.NothingStrays dir w := by
  constructor
  · intro inside
    constructor
    · intro lasting answers
      apply (rows_inside_iff valid).mp
      intro row listed
      exact (inside _ _ _ _ (rows_returned lasting answers) _ (List.mem_map_of_mem listed)).1
    · intro lasting answers d asked
      apply (stored_inside_iff valid).mp
      intro info listed
      obtain ⟨cs,returned⟩ := stored_returned lasting answers asked
      exact (inside _ _ _ _ returned info listed).1
  · intro nothing cs infos w' rest done info member
    cases lasting : isTempPath dir with
    | true =>
      rw [listRecursiveImpl,if_pos lasting] at done
      rw [tempList_done done] at member
      obtain ⟨entry,listed,rfl⟩ := List.mem_map.mp member
      exact temp_inside lasting valid listed
    | false =>
      rcases listRecursiveImpl_done lasting done with ⟨answers,rfl⟩ | ⟨answers,d,asked,rfl⟩
      · obtain ⟨row,listed,rfl⟩ := List.mem_map.mp member
        exact ⟨(rows_inside_iff valid).mpr (nothing.rows lasting answers) row listed,rows_owned valid listed⟩
      · exact ⟨(stored_inside_iff valid).mpr (nothing.stored lasting answers d asked) info member,
          stored_owned asked member⟩

/-- A directory of one file the index knows. -/
theorem listRecursive_inside_indexed :
    plainEngine.StaysInside "/a".toList (worldOf [] [] [Index.liveRow 1 "/a/x" false]) := by
  apply (@listRecursive_inside_iff "/a".toList plainEngine _ (.inr (by decide))).mpr
  constructor
  · intro _ _ row member
    rw [List.mem_singleton.mp member]
    rintro ⟨-,-,here | ⟨-,-,apart⟩⟩
    · exact absurd here (by decide)
    · exact absurd apart (by decide)
  · rintro _ ⟨plan,-,-,dirty | empty⟩
    · cases dirty
    · exact absurd empty (by decide +kernel)

/-- Two directories of which one name starts the other. -/
theorem sibling_leaks : ¬plainEngine.StaysInside "/a".toList
    (worldOf [("u/a/x".toList,[1]),("u/ab/y".toList,[2])] ["u".toList,"u/a".toList,"u/ab".toList] []) := by
  intro inside
  have returned := (inside [] _ _ _ rfl ⟨"y".toList,"/ab/y".toList,false,1,0,none,none⟩ (by decide +kernel)).1
  exact absurd returned (by decide +kernel)

end Engine
end StorageHub.Scoped
