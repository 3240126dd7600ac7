import StorageHub.Scoped.StreamWrite
import StorageHub.Scoped.Recovery

/-! The recovery of a write, and the file beside the target it deletes. -/
namespace StorageHub.Scoped
open Library WriteCache Paths Protected Vfs Effect

/-! ### Deleting a tree -/

theorem byteLength_append (a b : Text) :
    Text.byteLength (a ++ b) = Text.byteLength a + Text.byteLength b := by
  simp [Text.byteLength]

theorem byteLength_below {dir path : Text} (under : Text.below dir path = true) :
    Text.byteLength dir < Text.byteLength path := by
  obtain ⟨rest,split⟩ := Text.below_iff.mp under
  have slash : Text.byteLength ['/'] = 1 := by decide
  rw [split,List.append_cons,byteLength_append,byteLength_append,slash]
  omega

theorem normalizeEntryPath_slash {path : Text} (nonempty : path ≠ []) :
    normalizeEntryPath (path ++ ['/']) = path := by
  have longer : path ++ ['/'] ≠ ['/'] := by
    intro same
    apply nonempty
    simpa using same
  rw [normalizeEntryPath,if_neg longer]
  simp

theorem normalizeEntryPath_plain {path : Text} (plain : hasTrailingSlash path = false) :
    normalizeEntryPath path = path := by
  have last : path.getLast? ≠ some '/' := beq_eq_false_iff_ne.mp plain
  rw [normalizeEntryPath,if_neg last,ite_self]

/-- Whether a listed entry is there as listed, and nothing else at its path. -/
def EntryAt (d : Disk) (entry : Text × Metadata) : Prop :=
  if entry.2.isDir then d.files.lookup entry.1 = none ∧ (d.dirs.lookup entry.1).isSome = true
  else (d.files.lookup entry.1).isSome = true ∧ d.dirs.lookup entry.1 = none

def Disk.Has (d : Disk) (path : Text) : Prop :=
  (d.files.lookup path).isSome = true ∨ (d.dirs.lookup path).isSome = true

/-- Entries in an order in which they can be deleted: the deeper before those
above, with all that is below a directory among them. -/
structure Removable (entries : List (Text × Metadata)) (d : Disk) : Prop where
  deepFirst : entries.Pairwise fun a b => Text.byteLength b.1 ≤ Text.byteLength a.1
  distinct : entries.Pairwise fun a b => a.1 ≠ b.1
  plain : ∀ entry ∈ entries, entry.1 ≠ [] ∧ hasTrailingSlash entry.1 = false
  present : ∀ entry ∈ entries, EntryAt d entry
  covers : ∀ q, d.Has q → ∀ entry ∈ entries, Text.below entry.1 q = true → ∃ other ∈ entries, other.1 = q

/-- The path an entry is deleted by. -/
def deletePath (entry : Text × Metadata) : Text := if entry.2.isDir then entry.1 ++ ['/'] else entry.1

section removing
variable {d : Disk} {entry : Text × Metadata} {rest entries : List (Text × Metadata)}

theorem Removable.nothing_below (ready : Removable (entry::rest) d) {q : Text} (present : d.Has q) :
    Text.below entry.1 q = false := by
  rw [Bool.eq_false_iff]
  intro under
  have deeper := byteLength_below under
  obtain ⟨other,member,same⟩ := ready.covers q present entry List.mem_cons_self under
  rcases List.mem_cons.mp member with rfl | later
  · rw [same] at deeper
    omega
  · have shorter := (List.pairwise_cons.mp ready.deepFirst).1 other later
    rw [same] at shorter
    omega

/-- The first entry can be deleted. -/
theorem Removable.delete_first (ready : Removable (entry::rest) d) :
    ∃ d', d.delete (deletePath entry) = some d' ∧ (∀ q, q ≠ entry.1 →
      d'.files.lookup q = d.files.lookup q ∧ d'.dirs.lookup q = d.dirs.lookup q) ∧
        d'.files.lookup entry.1 = none ∧ d'.dirs.lookup entry.1 = none := by
  obtain ⟨nonempty,plain⟩ := ready.plain entry List.mem_cons_self
  have here := ready.present entry List.mem_cons_self
  rw [EntryAt] at here
  by_cases dir : entry.2.isDir = true
  · rw [if_pos dir] at here
    have files : d.files.keys.any (Text.below entry.1) = false := by
      rw [List.any_eq_false]
      intro q member under
      have present : d.Has q := .inl (AList.lookup_isSome.mpr (AList.mem_keys.mpr member))
      rw [ready.nothing_below present] at under
      cases under
    have dirs : d.dirs.keys.any (Text.below entry.1) = false := by
      rw [List.any_eq_false]
      intro q member under
      have present : d.Has q := .inr (AList.lookup_isSome.mpr (AList.mem_keys.mpr member))
      rw [ready.nothing_below present] at under
      cases under
    have there : (d.dirs.lookup entry.1).isNone = false := by
      rw [← Option.not_isSome,here.2]
      rfl
    refine ⟨{ d with dirs := d.dirs.erase entry.1 },?_,?_,here.1,AList.lookup_erase _ _⟩
    · unfold Disk.delete
      dsimp only
      rw [deletePath,if_pos dir,normalizeEntryPath_slash nonempty,here.1]
      dsimp only
      rw [there,files,dirs]
      rfl
    · intro q other
      exact ⟨rfl,AList.lookup_erase_ne other⟩
  · rw [if_neg dir] at here
    obtain ⟨data,found⟩ := Option.isSome_iff_exists.mp here.1
    refine ⟨{ d with files := d.files.erase entry.1 },?_,?_,AList.lookup_erase _ _,here.2⟩
    · unfold Disk.delete
      dsimp only
      rw [deletePath,if_neg dir,normalizeEntryPath_plain plain,found]
      dsimp only
      rw [plain]
      rfl
    · intro q other
      exact ⟨AList.lookup_erase_ne other,rfl⟩

theorem Removable.tail {d' : Disk} (ready : Removable (entry::rest) d)
    (others : ∀ q, q ≠ entry.1 → d'.files.lookup q = d.files.lookup q ∧
      d'.dirs.lookup q = d.dirs.lookup q)
    (gone : d'.files.lookup entry.1 = none ∧ d'.dirs.lookup entry.1 = none) : Removable rest d' where
  deepFirst := (List.pairwise_cons.mp ready.deepFirst).2
  distinct := (List.pairwise_cons.mp ready.distinct).2
  plain other member := ready.plain other (List.mem_cons_of_mem entry member)
  present other member := by
    have differs : other.1 ≠ entry.1 := fun same =>
      (List.pairwise_cons.mp ready.distinct).1 other member same.symm
    have before := ready.present other (List.mem_cons_of_mem entry member)
    rw [EntryAt,(others other.1 differs).1,(others other.1 differs).2]
    exact before
  covers q present other member under := by
    have differs : q ≠ entry.1 := by
      rintro rfl
      rw [Disk.Has,gone.1,gone.2] at present
      rcases present with file | dir
      · cases file
      · cases dir
    rw [Disk.Has,(others q differs).1,(others q differs).2] at present
    obtain ⟨found,among,same⟩ := ready.covers q present other (List.mem_cons_of_mem entry member) under
    rcases List.mem_cons.mp among with rfl | later
    · exact absurd same.symm differs
    · exact ⟨found,later,same⟩

end removing

namespace Engine
variable (e : Engine)

/-- Undisturbed, the entries are deleted one after the other, and nothing takes
their place. -/
theorem removeEntries_run {entries : List (Text × Metadata)} (w : World)
    (ready : Removable entries w.primary) :
    ∃ w', e.removeEntries entries w [] = .done () w' [] ∧
      (∀ entry ∈ entries, w'.primary.files.lookup entry.1 = none) ∧
      ∀ q, w.primary.files.lookup q = none → w'.primary.files.lookup q = none := by
  induction entries generalizing w with
  | nil => exact ⟨w,rfl,by simp,fun _ absent => absent⟩
  | cons entry rest ih =>
    obtain ⟨d',deleted,others,file,dir⟩ := ready.delete_first
    have second (readCache : Store Text Bytes) : primaryDelete (deletePath entry)
        { w with shared := { w.shared with readCache } } [] =
          .done () ({ w with shared := { w.shared with readCache } }.setPrimary d') [] := by
      apply operate_run granted_nil
      have same : World.primary { w with shared := { w.shared with readCache } } = w.primary := rfl
      rw [same,deleted]
      rfl
    have start : e.removeEntries (entry::rest) w [] = (primaryDelete (deletePath entry) >>= fun _ =>
        e.removeEntries rest) { w with shared := { w.shared with readCache :=
          (if e.readCache.isSome then w.shared.readCache.erase (deletePath entry)
            else w.shared.readCache) } } [] := rfl
    have next : Removable rest d' := ready.tail others ⟨file,dir⟩
    rw [start]
    generalize (if e.readCache.isSome then w.shared.readCache.erase (deletePath entry)
      else w.shared.readCache) = readCache
    rw [bind_run (second readCache)]
    obtain ⟨w',ran,gone,stays⟩ :=
      ih (World.setPrimary { w with shared := { w.shared with readCache } } d') next
    refine ⟨w',ran,?_,?_⟩
    · intro other member
      rcases List.mem_cons.mp member with rfl | later
      · exact stays other.1 file
      · exact gone other later
    · intro q absent
      apply stays
      by_cases here : q = entry.1
      · rw [here]
        exact file
      · exact ((others q here).1).trans absent

end Engine

/-! ### A tree as it is listed -/

theorem mem_entriesWhere {d : Disk} {test : Text → Bool} {entry : Text × Metadata} :
    entry ∈ d.entriesWhere test ↔ test entry.1 = true ∧
      ((∃ data, d.files.lookup entry.1 = some data ∧ entry.2 = ⟨false,data.length⟩) ∨
        ((d.dirs.lookup entry.1).isSome = true ∧ entry.2 = ⟨true,0⟩)) := by
  obtain ⟨path,m⟩ := entry
  unfold Disk.entriesWhere
  rw [List.mem_append,List.mem_filterMap,List.mem_filterMap]
  constructor
  · intro listed
    rcases listed with ⟨cell,member,made⟩ | ⟨cell,member,made⟩
    · split at made
      next passes =>
        cases made
        exact ⟨passes,.inl ⟨cell.2,AList.mem_lookup_iff.mpr member,rfl⟩⟩
      next => cases made
    · split at made
      next passes =>
        cases made
        have found := AList.mem_lookup_iff.mpr member
        exact ⟨passes,.inr ⟨Option.isSome_iff_exists.mpr ⟨_,found⟩,rfl⟩⟩
      next => cases made
  · rintro ⟨passes,⟨data,found,same⟩ | ⟨present,same⟩⟩
    · exact .inl ⟨⟨path,data⟩,AList.mem_lookup_iff.mp found,by rw [if_pos passes,← same]⟩
    · obtain ⟨u,found⟩ := Option.isSome_iff_exists.mp present
      exact .inr ⟨⟨path,u⟩,AList.mem_lookup_iff.mp found,by rw [if_pos passes,← same]⟩

/-- No path of the disk ends in a slash. -/
def Disk.Slashless (d : Disk) : Prop := ∀ q, d.Has q → hasTrailingSlash q = false

theorem entriesWhere_distinct {d : Disk} (tree : d.FileTree) (test : Text → Bool) :
    (d.entriesWhere test).Pairwise fun a b => a.1 ≠ b.1 := by
  have once {ν : Type} (cells : Store Text ν) (m : ν → Metadata) :
      (cells.entries.filterMap fun cell =>
        if test cell.1 then some (cell.1,m cell.2) else none).Pairwise fun a b => a.1 ≠ b.1 := by
    apply List.Pairwise.filterMap _ _ (List.pairwise_map.mp cells.nodupKeys)
    intro a b differ a' made b' made'
    split at made
    · split at made'
      · cases made
        cases made'
        exact differ
      · cases made'
    · cases made
  unfold Disk.entriesWhere
  rw [List.pairwise_append]
  refine ⟨once d.files fun data => ⟨false,data.length⟩,once d.dirs fun _ => ⟨true,0⟩,?_⟩
  intro a listed b listed' same
  obtain ⟨cell,member,made⟩ := List.mem_filterMap.mp listed
  obtain ⟨cell',member',made'⟩ := List.mem_filterMap.mp listed'
  split at made
  · split at made'
    · cases made
      cases made'
      dsimp only at same
      have absent := tree.apart cell.1 cell.2 (AList.mem_lookup_iff.mpr member)
      rw [same,AList.mem_lookup_iff.mpr member'] at absent
      cases absent
    · cases made'
  · cases made

/-- What is below a directory, deepest first, can be deleted entry by entry. -/
theorem listed_removable {d : Disk} (tree : d.FileTree) (slashless : d.Slashless) (root : Text) :
    Removable ((d.listRecursive root).mergeSort fun a b =>
      decide (Text.byteLength a.1 ≤ Text.byteLength b.1)).reverse d := by
  have among {entry : Text × Metadata} : entry ∈ ((d.listRecursive root).mergeSort fun a b =>
      decide (Text.byteLength a.1 ≤ Text.byteLength b.1)).reverse ↔ entry ∈ d.listRecursive root := by
    rw [List.mem_reverse,List.mem_mergeSort]
  constructor
  · rw [List.pairwise_reverse]
    have sorted := @List.pairwise_mergeSort _
      (fun a b : Text × Metadata => decide (Text.byteLength a.1 ≤ Text.byteLength b.1))
      (fun a b c first second => by
        rw [decide_eq_true_eq] at first second ⊢
        exact first.trans second)
      (fun a b => by
        rw [Bool.or_eq_true,decide_eq_true_eq,decide_eq_true_eq]
        exact Nat.le_total _ _) (d.listRecursive root)
    exact sorted.imp fun ordered => of_decide_eq_true ordered
  · rw [List.pairwise_reverse]
    have distinct := entriesWhere_distinct tree (Text.below root)
    have sorted := ((d.listRecursive root).mergeSort_perm fun a b =>
      decide (Text.byteLength a.1 ≤ Text.byteLength b.1)).pairwise_iff
        (fun {a b : Text × Metadata} (differ : a.1 ≠ b.1) => differ.symm)
    exact (sorted.mpr distinct).imp fun differ => differ.symm
  · intro entry listed
    obtain ⟨under,kind⟩ := mem_entriesWhere.mp (among.mp listed)
    constructor
    · intro empty
      rw [empty] at under
      obtain ⟨rest,split⟩ := Text.below_iff.mp under
      simp at split
    · apply slashless
      rcases kind with ⟨data,found,-⟩ | ⟨present,-⟩
      · exact .inl (Option.isSome_iff_exists.mpr ⟨data,found⟩)
      · exact .inr present
  · intro entry listed
    rw [EntryAt]
    rcases (mem_entriesWhere.mp (among.mp listed)).2 with ⟨data,found,same⟩ | ⟨present,same⟩
    · rw [same]
      exact ⟨Option.isSome_iff_exists.mpr ⟨data,found⟩,tree.apart entry.1 data found⟩
    · rw [same]
      refine ⟨?_,present⟩
      cases found : d.files.lookup entry.1 with
      | none => rfl
      | some data =>
        rw [tree.apart entry.1 data found] at present
        cases present
  · intro q present entry listed under
    have inside : Text.below root q = true := by
      obtain ⟨rest,split⟩ := Text.below_iff.mp (mem_entriesWhere.mp (among.mp listed)).1
      obtain ⟨rest',split'⟩ := Text.below_iff.mp under
      exact Text.below_iff.mpr ⟨rest ++ '/'::rest',by rw [split',split]; simp⟩
    rcases present with file | dir
    · obtain ⟨data,found⟩ := Option.isSome_iff_exists.mp file
      exact ⟨(q,⟨false,data.length⟩),among.mpr (mem_entriesWhere.mpr ⟨inside,.inl ⟨data,found,rfl⟩⟩),rfl⟩
    · exact ⟨(q,⟨true,0⟩),among.mpr (mem_entriesWhere.mpr ⟨inside,.inr ⟨dir,rfl⟩⟩),rfl⟩

/-! ### What a deletion below one path keeps -/

section frames
variable {I : World → Prop}

theorem upsertFileWithLocation_keeps (ignores : IgnoresIndex I) (e : Engine) (path : Text)
    (info : VfsFileInfo) (location : Location) :
    Keeps I (e.upsertFileWithLocation path info location) := by
  have fresh : Keeps I freshUuid := by
    apply Keeps.get.bind
    intro w
    exact (Keeps.modify fun w holds => ignores w w.index _ holds).bind fun _ => Keeps.pure _
  exact fresh.bind fun id => transact_keeps ignores _

theorem syncIndexForPath_keeps (ignores : IgnoresIndex I) (e : Engine) (path : Text) :
    Keeps I (e.syncIndexForPath path) := by
  apply ((e.statImpl_readOnly path).keeps I).bind
  intro info
  exact upsertFileWithLocation_keeps ignores e path info _

theorem rebuildProtectedWrite_keeps (ignores : IgnoresIndex I) (e : Engine) (path : Text) (size : Nat)
    (record : Option WalProtectedWriteMeta) (missing : Text) :
    Keeps I (e.rebuildProtectedWrite path size record missing) := by
  unfold Engine.rebuildProtectedWrite
  split
  · exact Keeps.fail _
  · apply ((e.poolExists_readOnly _).keeps I).bind
    intro present
    split
    · apply ((e.poolStat_readOnly _).keeps I).bind
      intro info
      exact upsertFileWithLocation_keeps ignores e path _ _
    · exact Keeps.fail _

theorem recoverProtectedWrite_keeps (ignores : IgnoresIndex I) (e : Engine) (path : Text) (size : Nat)
    (record : Option WalProtectedWriteMeta) (status : WalStatus) :
    Keeps I (e.recoverProtectedWrite path size record status) := by
  apply ((e.getIndexMetadata_readOnly path).keeps I).bind
  intro row
  split
  · exact Keeps.pure ()
  · split
    · exact Keeps.pure ()
    · split
      · exact rebuildProtectedWrite_keeps ignores e path size record _
      · exact rebuildProtectedWrite_keeps ignores e path size record _

/-- Once the temporary file is dealt with only the index is settled. -/
theorem settleWrite_keeps (ignores : IgnoresIndex I) (e : Engine) (path : Text) (exists_ : Bool) :
    Keeps I (if exists_ then e.syncIndexForPath path else e.indexDeleteFile path) := by
  split
  · exact syncIndexForPath_keeps ignores e path
  · exact transact_keeps ignores _

/-- Deleting anything at or below a path stays in the predicate. -/
def SurvivesDelete (root : Text) (I : World → Prop) : Prop :=
  ∀ w d' path, Text.within root (normalizeEntryPath path) = true → I w →
    w.primary.delete path = some d' → I (w.setPrimary d')

theorem primaryDelete_keeps {path : Text}
    (kept : ∀ w d', I w → w.primary.delete path = some d' → I (w.setPrimary d')) :
    Keeps I (Engine.primaryDelete path) := by
  apply meets_operate
  · intro w w' holds made
    obtain ⟨d',deleted,rfl⟩ := Option.map_eq_some_iff.mp made
    exact kept w d' holds deleted
  · exact fun _ _ holds => holds
  · exact fun _ holds => holds

theorem within_normalizeEntryPath {root path : Text} (nonempty : root ≠ [])
    (under : Text.below root path = true) : Text.within root (normalizeEntryPath path) = true := by
  obtain ⟨rest,rfl⟩ := Text.below_iff.mp under
  have longer : root ++ '/'::rest ≠ ['/'] := by
    intro same
    cases root with
    | nil => exact nonempty rfl
    | cons c root => simp at same
  rw [normalizeEntryPath,if_neg longer]
  split
  · cases rest with
    | nil => simp
    | cons c rest =>
      rw [List.dropLast_append_of_ne_nil (List.cons_ne_nil _ _)]
      exact Text.within_append
  · exact Text.within_append

theorem within_deletePath {root : Text} {entry : Text × Metadata} (nonempty : root ≠ [])
    (under : Text.below root entry.1 = true) :
    Text.within root (normalizeEntryPath (deletePath entry)) = true := by
  unfold deletePath
  split
  · obtain ⟨rest,split⟩ := Text.below_iff.mp under
    rw [normalizeEntryPath_slash (by rw [split]; simp),split]
    exact Text.within_append
  · exact within_normalizeEntryPath nonempty under

variable {root : Text}

theorem removeEntries_keeps (ignores : IgnoresReadCache I) (survives : SurvivesDelete root I) (e : Engine)
    (nonempty : root ≠ []) {entries : List (Text × Metadata)}
    (below : ∀ entry ∈ entries, Text.below root entry.1 = true) : Keeps I (e.removeEntries entries) := by
  induction entries with
  | nil => exact Keeps.pure ()
  | cons entry rest ih =>
    have here : Keeps I (Engine.primaryDelete (deletePath entry)) := primaryDelete_keeps fun w d' =>
      survives w d' _ (within_deletePath nonempty (below entry List.mem_cons_self))
    have later := ih fun other member => below other (List.mem_cons_of_mem entry member)
    exact (invalidate_keeps ignores e _).bind fun _ => here.bind fun _ => later

theorem below_of_listed {d : Disk} {entry : Text × Metadata} (listed : entry ∈ d.listRecursive root) :
    Text.below root entry.1 = true := (mem_entriesWhere.mp listed).1

theorem removeTree_keeps (ignores : IgnoresReadCache I) (survives : SurvivesDelete root I) (e : Engine)
    (nonempty : root ≠ []) (plain : hasTrailingSlash root = false) : Keeps I (e.removeTree root) := by
  have last : root.getLast? ≠ some '/' := beq_eq_false_iff_ne.mp plain
  have other : root ≠ ['/'] := fun same => last (by rw [same]; rfl)
  have unslashed : Text.trimEnd '/' root = root := by
    rcases List.eq_nil_or_concat root with empty | ⟨init,final,split⟩
    · exact absurd empty nonempty
    · rw [List.concat_eq_append] at split
      rw [split] at last ⊢
      rw [List.getLast?_append] at last
      exact Paths.trimEnd_of_last fun same => last (by rw [same]; rfl)
  have listing : Meets I (e.orBackup (query fun w => w.primary.listRecursive root)
      fun backup => query fun _ => backup.listRecursive root)
      (fun entries w => (∀ entry ∈ entries, Text.below root entry.1 = true) ∧ I w)
      (fun _ => I) I := by
    intro w cs holds
    have reads := (e.orBackup_readOnly (query_readOnly fun w => w.primary.listRecursive root)
      fun backup => query_readOnly fun _ => backup.listRecursive root).keeps I w cs holds
    cases outcome : e.orBackup (query fun w => w.primary.listRecursive root)
        (fun backup => query fun _ => backup.listRecursive root) w cs with
    | failed err w' rest => rw [outcome] at reads; exact reads
    | crashed w' => rw [outcome] at reads; exact reads
    | done entries w' rest =>
      rw [outcome] at reads
      refine ⟨?_,reads⟩
      obtain ⟨result,middle,later,first,second⟩ := bind_done w cs outcome
      rcases attempt_cases w cs first with ⟨listed,rfl,asked⟩ | ⟨err,rfl,asked⟩
      · obtain ⟨rfl,-⟩ := query_done asked
        cases second
        exact fun entry listed => below_of_listed listed
      · cases replica : e.backup with
        | none =>
          simp only [replica] at second
          cases second
        | some backup =>
          simp only [replica] at second
          obtain ⟨rfl,-⟩ := query_done second
          exact fun entry listed => below_of_listed listed
  have top : Keeps I (Engine.primaryDelete (root ++ ['/'])) := primaryDelete_keeps fun w d' =>
    survives w d' _ (by rw [normalizeEntryPath_slash nonempty]; exact Text.within_self root)
  unfold Engine.removeTree
  dsimp only
  rw [normalizeEntryPath_plain plain,if_neg other,unslashed]
  apply Meets.bind listing
  intro entries w cs both
  have each : ∀ entry ∈ (entries.mergeSort fun a b : Text × Metadata =>
      decide (Text.byteLength a.1 ≤ Text.byteLength b.1)).reverse, Text.below root entry.1 = true := by
    intro entry member
    rw [List.mem_reverse,List.mem_mergeSort] at member
    exact both.1 entry member
  exact ((removeEntries_keeps ignores survives e nonempty each).bind fun _ =>
    (invalidate_keeps ignores e root).bind fun _ => top) w cs both.2

theorem poolDelete_keeps (ignores : IgnoresReadCache I) (survives : SurvivesDelete root I) (e : Engine)
    (nonempty : root ≠ []) (plain : hasTrailingSlash root = false) : Keeps I (e.poolDelete root) := by
  have here : Keeps I (Engine.primaryDelete root) := primaryDelete_keeps fun w d' =>
    survives w d' _ (by rw [normalizeEntryPath_plain plain]; exact Text.within_self root)
  apply ((e.poolStat_readOnly root).keeps I).bind
  intro info
  apply (invalidate_keeps ignores e root).bind
  intro _
  split
  · exact (removeTree_keeps ignores survives e nonempty plain).bind fun _ => Keeps.pure info
  · exact here.bind fun _ => Keeps.pure info

end frames

/-! ### Keeping the files -/

/-- The files are some given ones. -/
def FilesAre (files : Store Text Bytes) (w : World) : Prop := w.primary.files = files

theorem filesAre_of_eq {w w' : World} (same : w' = w) : FilesAre w.primary.files w' := by
  rw [same]
  rfl

/-- There is no file at a path. -/
def FileGone (q : Text) (w : World) : Prop := w.primary.files.lookup q = none

theorem delete_cases {d d' : Disk} {path : Text} (deleted : d.delete path = some d') :
    d'.files = d.files ∨ (d.files.lookup (normalizeEntryPath path)).isSome = true ∧
      d'.files = d.files.erase (normalizeEntryPath path) := by
  unfold Disk.delete at deleted
  dsimp only at deleted
  split at deleted
  next data found =>
    split at deleted
    next => cases deleted
    next =>
      cases deleted
      exact .inr ⟨by rw [found]; rfl,rfl⟩
  next absent =>
    split at deleted
    next => cases deleted; exact .inl rfl
    next =>
      split at deleted
      next => cases deleted
      next => cases deleted; exact .inl rfl

theorem filesAre_delete {files : Store Text Bytes} {w : World} {d' : Disk} {path : Text}
    (vacant : files.lookup (normalizeEntryPath path) = none) (holds : FilesAre files w)
    (deleted : w.primary.delete path = some d') : FilesAre files (w.setPrimary d') := by
  rcases delete_cases deleted with same | ⟨present,-⟩
  · exact same.trans holds
  · rw [FilesAre] at holds
    rw [holds,vacant] at present
    cases present

theorem filesAre_survives {files : Store Text Bytes} {root : Text}
    (vacant : ∀ q, Text.within root q = true → files.lookup q = none) :
    SurvivesDelete root (FilesAre files) := fun _ _ _ inside holds deleted =>
  filesAre_delete (vacant _ inside) holds deleted

theorem fileGone_survives (root q : Text) : SurvivesDelete root (FileGone q) := by
  intro w d' path _ holds deleted
  rcases delete_cases deleted with same | ⟨-,same⟩
  · exact (congrArg (AList.lookup q) same).trans holds
  · refine (congrArg (AList.lookup q) same).trans ?_
    rw [Store.lookup_erase_eq]
    split
    · rfl
    · exact holds

theorem filesAre_ignoresReadCache (files : Store Text Bytes) : IgnoresReadCache (FilesAre files) :=
  fun _ _ holds => holds

theorem filesAre_ignoresIndex (files : Store Text Bytes) : IgnoresIndex (FilesAre files) :=
  fun _ _ _ holds => holds

theorem fileGone_ignoresReadCache (q : Text) : IgnoresReadCache (FileGone q) := fun _ _ holds => holds

theorem fileGone_ignoresIndex (q : Text) : IgnoresIndex (FileGone q) := fun _ _ _ holds => holds

/-! ### The temporary name -/

theorem tempPathOf_plain (path : Text) : hasTrailingSlash (tempPathOf path) = false := by
  have last : ".tmp".toList.getLast? = some 'p' := by decide
  rw [hasTrailingSlash,tempPathOf,List.getLast?_append,last]
  rfl

theorem tempPathOf_ne_nil (path : Text) : tempPathOf path ≠ [] := by
  have nonempty : ".tmp".toList ≠ [] := by decide
  rw [tempPathOf]
  exact List.append_ne_nil_of_right_ne_nil path nonempty

theorem tempPathOf_not_within {path q : Text} (inside : Text.within (tempPathOf path) q = true) :
    q ≠ path := by
  have four : ".tmp".toList.length = 4 := by decide
  intro same
  have long : (tempPathOf path).length ≤ q.length := by
    rcases Text.within_iff.mp inside with rfl | ⟨rest,rfl⟩
    · exact le_refl _
    · rw [List.length_append]
      omega
  rw [same,tempPathOf,List.length_append,four] at long
  omega

/-- The temporary file of a write is the one beside its physical path. -/
theorem getPhysicalPath_temp (e : Engine) (path : Text) :
    e.getPhysicalPath (tempPathOf path) = tempPathOf (e.getPhysicalPath path) := by
  have kept (suffix : Text) (head : suffix.head? ≠ some '/') (nonempty : suffix ≠ []) (s : Text) :
      Text.trimStart '/' (s ++ suffix) = Text.trimStart '/' s ++ suffix := by
    induction s with
    | nil => exact Paths.trimStart_of_head head
    | cons c s ih =>
      by_cases slash : c = '/'
      · have first : Text.trimStart '/' (c::(s ++ suffix)) = Text.trimStart '/' (s ++ suffix) := by
          simp [Text.trimStart,slash]
        have second : Text.trimStart '/' (c::s) = Text.trimStart '/' s := by
          simp [Text.trimStart,slash]
        rw [List.cons_append,first,second,ih]
      · have first : Text.trimStart '/' (c::s) = c::s := Paths.trimStart_of_head (by simp [slash])
        have second : Text.trimStart '/' (c::s ++ suffix) = c::s ++ suffix :=
          Paths.trimStart_of_head (by simp [slash])
        rw [first,second]
  have trimmed := kept ".tmp".toList (by decide) (by decide) path
  rw [Engine.getPhysicalPath,Engine.getPhysicalPath,Paths.physicalPath,Paths.physicalPath,tempPathOf,
    tempPathOf,trimmed,List.append_assoc,List.cons_append]

/-! ### What the checks of a recovery find -/

namespace Engine
variable (e : Engine)

theorem poolExists_sound {path : Text} {w w' : World} {cs rest : List (Choice EngineEnv)}
    (found : e.poolExists path w cs = .done true w' rest) : e.poolPresent w path = true := by
  unfold poolPresent
  obtain ⟨pending,middle,later,first,second⟩ := bind_done w cs found
  cases first
  cases record : e.pendingRecord path w with
  | some inner => rfl
  | none =>
    rw [record] at second
    obtain ⟨result,after,later',asked,answered⟩ := bind_done w _ second
    have stays := readOnly_done ((query_readOnly fun w => w.primary.exists_ path).attempt) asked
    rcases attempt_cases _ _ asked with ⟨there,rfl,queried⟩ | ⟨err,rfl,failed⟩
    · obtain ⟨rfl,-⟩ := query_done queried
      cases present : w.primary.exists_ path with
      | true => rfl
      | false =>
        simp only [present] at answered
        cases replica : e.backup with
        | none => simp only [replica] at answered; cases answered
        | some backup =>
          simp only [replica] at answered
          obtain ⟨other,-⟩ := query_done answered
          simp [← other]
    · cases replica : e.backup with
      | none => simp only [replica] at answered; cases answered
      | some backup =>
        simp only [replica] at answered
        obtain ⟨other,-⟩ := query_done answered
        simp [← other]

/-- What `exists` finds in some run it finds when no call fails. -/
theorem existsImpl_seen {path : Text} {w w' : World} {cs rest : List (Choice EngineEnv)} {b : Bool}
    (answered : e.existsImpl path w cs = .done b w' rest) :
    ∃ b', e.existsImpl path w [] = .done b' w [] ∧ (b = true → b' = true) := by
  rw [existsImpl,bind_run (e.pendingStat_run w path cs)] at answered
  rw [existsImpl,bind_run (e.pendingStat_run w path [])]
  cases pending : (if isTempPath path then none else
      (e.pendingRecord (e.getPhysicalPath path) w).map fun inner =>
        e.translateFileInfo (fileInfo (e.getPhysicalPath path) ⟨false,inner.size⟩)) with
  | some info => exact ⟨true,rfl,fun _ => rfl⟩
  | none =>
    rw [pending] at answered
    dsimp only at answered ⊢
    by_cases temp : isTempPath path = true
    · rw [if_pos temp] at answered ⊢
      cases answered
      exact ⟨_,rfl,fun found => found⟩
    · rw [if_neg temp] at answered ⊢
      obtain ⟨row,middle,later,first,second⟩ := bind_done w cs answered
      obtain ⟨rfl,rfl⟩ := query_done first
      rw [bind_run (e.getIndexMetadata_run _ path)]
      have pooled {cs' : List (Choice EngineEnv)}
          (done : e.poolExists (e.getPhysicalPath path) middle cs' = .done b w' rest) :
          ∃ b', e.poolExists (e.getPhysicalPath path) middle [] = .done b' middle [] ∧
            (b = true → b' = true) := by
        refine ⟨_,e.poolExists_run middle _,?_⟩
        rintro rfl
        exact e.poolExists_sound done
      cases row : Index.getFileMetadata e.userId path middle.index with
      | some found =>
        rw [row] at second
        exact pooled second
      | none =>
        rw [row] at second
        dsimp only at second ⊢
        obtain ⟨plan,after,later',resolved,third⟩ := bind_done middle _ second
        obtain ⟨domain,start,later'',made,kept⟩ := bind_done middle _ resolved
        cases plans : e.resolveProtectedPlan with
        | error err => rw [plans] at made; cases made
        | ok domain' =>
          rw [plans] at made
          cases made
          cases kept
          rw [bind_run (e.getProtectedPlan_run _ path [] plans)]
          cases chosen : domain.filter fun plan => plan.matchesPath path with
          | none =>
            rw [chosen] at third
            exact pooled third
          | some plan =>
            rw [chosen] at third
            dsimp only at third ⊢
            by_cases top : path = plan.root
            · rw [if_pos top] at third ⊢
              exact ⟨true,rfl,fun _ => rfl⟩
            · rw [if_neg top] at third ⊢
              exact pooled third

theorem existsImpl_nil (path : Text) (w : World) :
    (∃ b, e.existsImpl path w [] = .done b w []) ∨ (e.existsImpl path w []).value? = none := by
  cases outcome : e.existsImpl path w [] with
  | done b w' rest =>
    obtain ⟨b',undisturbed,-⟩ := e.existsImpl_seen outcome
    rw [← outcome]
    exact .inl ⟨b',undisturbed⟩
  | failed err w' rest => exact .inr rfl
  | crashed w' => exact .inr rfl

/-- Whether the checks of a recovery find the temporary file when no call fails. -/
def tempSeen (w : World) (path : Text) : Bool :=
  (e.existsImpl path w []).value?.isSome && (e.existsImpl (tempPathOf path) w []).value? == some true

/-- Whether deleting a physical path deletes a file: one there, or one below
when no pending write passes for a file there. -/
def DeletionLoses (w : World) (physical : Text) : Prop :=
  (w.primary.files.lookup physical).isSome = true ∨
    e.pendingRecord physical w = none ∧ w.primary.files.keys.any (Text.below physical) = true

/-- The user's protected root, when the path is in it. -/
def protectedRoot (path : Text) : Option Text :=
  (e.settings.bind (·.protectedRoot)).filter fun root => matchesRoot root path

/-- When the recovery of a write touches no file but its own: its physical part
is done, the path is protected, its checks do not find the temporary name, or
nothing is lost by deleting that. -/
def RecoveryClean (w : World) (path : Text) (status : WalStatus) : Prop :=
  status.hasPhysicalDone = true ∨ (e.protectedRoot path).isSome = true ∨ e.tempSeen w path = false ∨
    ¬e.DeletionLoses w (e.getPhysicalPath (tempPathOf path))

theorem protectedRootForPath_readOnly (path : Text) : ReadOnly (e.protectedRootForPath path) :=
  e.getUserSettings_readOnly.bind fun _ => ReadOnly.pure _

theorem protectedRootForPath_done {path : Text} {root : Option Text} {w w' : World}
    {cs rest : List (Choice EngineEnv)} (done : e.protectedRootForPath path w cs = .done root w' rest) :
    root = e.protectedRoot path := by
  obtain ⟨settings,middle,later,first,second⟩ := bind_done w cs done
  obtain ⟨rfl,-⟩ := query_done first
  cases second
  rfl

/-! ### Clean recoveries -/

/-- A clean-up keeps the files when it loses none. -/
theorem cleanupOrphanTemp_keeps {w : World} {path : Text}
    (harmless : ¬e.DeletionLoses w (e.getPhysicalPath (tempPathOf path))) :
    Meets (· = w) (e.cleanupOrphanTemp (tempPathOf path)) (fun _ => FilesAre w.primary.files)
      (fun _ => FilesAre w.primary.files) (FilesAre w.primary.files) := by
  rw [DeletionLoses,getPhysicalPath_temp,not_or] at harmless
  rw [cleanupOrphanTemp,getPhysicalPath_temp]
  generalize e.getPhysicalPath path = physical at harmless
  have plain := tempPathOf_plain physical
  have here : w.primary.files.lookup (tempPathOf physical) = none := by
    rw [← Option.not_isSome_iff_eq_none]
    exact harmless.1
  have only : Keeps (FilesAre w.primary.files) (primaryDelete (tempPathOf physical)) :=
    primaryDelete_keeps fun w' d' =>
      filesAre_delete (by rw [normalizeEntryPath_plain plain]; exact here)
  have deleted : Meets (· = w) (e.poolDelete (tempPathOf physical))
      (fun _ => FilesAre w.primary.files) (fun _ => FilesAre w.primary.files)
      (FilesAre w.primary.files) := by
    rintro w' cs rfl
    cases record : e.pendingRecord (tempPathOf physical) w' with
    | some inner =>
      -- the pending write is taken for the file that is deleted
      have asked : e.poolStat (tempPathOf physical) w' cs =
          .done (fileInfo (tempPathOf physical) ⟨false,inner.size⟩) w' cs := by
        have pending : e.poolPendingStat (tempPathOf physical) w' cs =
            .done ((e.pendingRecord (tempPathOf physical) w').map fun inner =>
              fileInfo (tempPathOf physical) ⟨false,inner.size⟩) w' cs := rfl
        rw [poolStat,bind_run pending,record]
        rfl
      rw [poolDelete,bind_run asked]
      exact ((invalidate_keeps (filesAre_ignoresReadCache _) e _).bind fun _ =>
        only.bind fun _ => Keeps.pure _) w' cs rfl
    | none =>
      have vacant : ∀ q, Text.within (tempPathOf physical) q = true → w'.primary.files.lookup q = none := by
        apply Store.anyWithin_false.mp
        apply Disk.anyWithin_of_below here
        rw [Bool.eq_false_iff]
        exact fun below => harmless.2 ⟨record,below⟩
      exact poolDelete_keeps (filesAre_ignoresReadCache _) (filesAre_survives vacant) e
        (tempPathOf_ne_nil physical) plain w' cs rfl
  apply Meets.bind (Q := fun _ => (· = w))
  · exact meets_readOnly (e.poolExists_readOnly _) (fun _ _ same => filesAre_of_eq same)
      fun _ same => filesAre_of_eq same
  · intro present
    split
    · exact deleted.bind fun _ => Keeps.pure ()
    · exact Meets.pure fun _ same => filesAre_of_eq same

theorem existsImpl_meets (w : World) (path : Text) : Meets (· = w) (e.existsImpl path)
    (fun b w' => w' = w ∧ ∃ b', e.existsImpl path w [] = .done b' w [] ∧ (b = true → b' = true))
    (fun _ => FilesAre w.primary.files) (FilesAre w.primary.files) := by
  rintro w' cs rfl
  have stays := e.existsImpl_readOnly path w' w' cs rfl
  cases outcome : e.existsImpl path w' cs with
  | done b after rest =>
    rw [outcome] at stays
    exact ⟨stays,e.existsImpl_seen outcome⟩
  | failed err after rest =>
    rw [outcome] at stays
    exact filesAre_of_eq stays
  | crashed after =>
    rw [outcome] at stays
    exact filesAre_of_eq stays

theorem recoverRegularWrite_keeps {w : World} {path : Text} {status : WalStatus}
    (clean : status.hasPhysicalDone = true ∨ e.tempSeen w path = false ∨
      ¬e.DeletionLoses w (e.getPhysicalPath (tempPathOf path))) :
    Meets (· = w) (e.recoverRegularWrite path status) (fun _ => FilesAre w.primary.files)
      (fun _ => FilesAre w.primary.files) (FilesAre w.primary.files) := by
  have settles (exists_ : Bool) : Keeps (FilesAre w.primary.files)
      (if exists_ then e.syncIndexForPath path else e.indexDeleteFile path) :=
    settleWrite_keeps (filesAre_ignoresIndex _) e path exists_
  have checked : Meets (fun w' => w' = w ∧ (e.existsImpl path w []).value?.isSome = true)
      (e.existsImpl (tempPathOf path))
      (fun tempExists w' => w' = w ∧ (tempExists = true → e.tempSeen w path = true))
      (fun _ => FilesAre w.primary.files) (FilesAre w.primary.files) := by
    rintro w' cs ⟨rfl,answered⟩
    have result := e.existsImpl_meets w' (tempPathOf path) w' cs rfl
    cases outcome : e.existsImpl (tempPathOf path) w' cs with
    | done found after rest =>
      rw [outcome] at result
      obtain ⟨stays,b',undisturbed,sound⟩ := result
      refine ⟨stays,fun seen => ?_⟩
      rw [tempSeen,answered,undisturbed,sound seen]
      rfl
    | failed err after rest => rw [outcome] at result; exact result
    | crashed after => rw [outcome] at result; exact result
  apply (e.existsImpl_meets w path).bind
  intro target
  apply Meets.bind (Q := fun tempExists w' => w' = w ∧ (tempExists = true → e.tempSeen w path = true))
  · apply checked.consequence _ (fun _ _ both => both) (fun _ _ kept => kept) fun _ kept => kept
    rintro w' ⟨rfl,b,undisturbed,-⟩
    exact ⟨rfl,by rw [undisturbed]; rfl⟩
  · intro tempExists
    split
    next => exact Meets.pure fun _ both => filesAre_of_eq both.1
    next =>
      split
      next =>
        intro w' cs both
        exact settles target w' cs (filesAre_of_eq both.1)
      next unfinished =>
        apply Meets.bind (Q := fun _ => FilesAre w.primary.files)
        · apply meets_when
          · intro seen
            rintro w' cs ⟨rfl,found⟩
            have harmless : ¬e.DeletionLoses w' (e.getPhysicalPath (tempPathOf path)) := by
              rcases clean with done | unseen | harmless
              · exact absurd done unfinished
              · rw [found seen] at unseen
                cases unseen
              · exact harmless
            exact e.cleanupOrphanTemp_keeps harmless w' cs rfl
          · exact fun _ _ both => filesAre_of_eq both.1
        · exact fun _ => settles target

theorem recoverWrite_keeps {w : World} {path : Text} (size : Nat)
    (record : Option WalProtectedWriteMeta) {status : WalStatus}
    (clean : e.RecoveryClean w path status) :
    Meets (· = w) (e.recoverWrite path size record status) (fun _ => FilesAre w.primary.files)
      (fun _ => FilesAre w.primary.files) (FilesAre w.primary.files) := by
  intro w' cs same
  subst same
  have stays := e.protectedRootForPath_readOnly path w' w' cs rfl
  rw [recoverWrite,bind_apply]
  cases outcome : e.protectedRootForPath path w' cs with
  | done root after rest =>
    rw [outcome] at stays
    have root_eq := e.protectedRootForPath_done outcome
    subst stays
    cases root with
    | some root =>
      exact recoverProtectedWrite_keeps (filesAre_ignoresIndex _) e path size record status after rest rfl
    | none =>
      apply e.recoverRegularWrite_keeps (w := after) _ after rest rfl
      rcases clean with done | guarded | other
      · exact .inl done
      · rw [← root_eq] at guarded
        cases guarded
      · exact .inr other
  | failed err after rest =>
    rw [outcome] at stays
    exact filesAre_of_eq stays
  | crashed after =>
    rw [outcome] at stays
    exact filesAre_of_eq stays

/-! ### Recoveries that lose a file -/

theorem poolStat_run {w : World} {path : Text} {m : Metadata} (quiet : e.pendingRecord path w = none)
    (found : w.primary.stat path = some m) : e.poolStat path w [] = .done (fileInfo path m) w [] := by
  have pending : e.poolPendingStat path w [] =
      .done ((e.pendingRecord path w).map fun inner => fileInfo path ⟨false,inner.size⟩) w [] := rfl
  have asked : primaryStat path w [] = .done (fileInfo path m) w [] := by
    rw [primaryStat,call_run,found]
  rw [poolStat,bind_run pending,quiet]
  exact bind_run (attempt_done asked)

theorem poolStat_pending {w : World} {path : Text} {inner : PendingWriteMutable}
    (record : e.pendingRecord path w = some inner) :
    e.poolStat path w [] = .done (fileInfo path ⟨false,inner.size⟩) w [] := by
  have pending : e.poolPendingStat path w [] =
      .done ((e.pendingRecord path w).map fun inner => fileInfo path ⟨false,inner.size⟩) w [] := rfl
  rw [poolStat,bind_run pending,record]
  rfl

theorem exists_of_stat {d : Disk} {path : Text} {m : Metadata} (found : d.stat path = some m) :
    d.exists_ path = true := by
  rw [Disk.exists_,found]
  rfl

section losing
variable {w : World} {physical : Text}

/-- A directory with files below it is there as one. -/
theorem stat_above (tree : w.primary.FileTree) (nonempty : physical ≠ [])
    (plain : hasTrailingSlash physical = false) {q : Text} {data : Bytes}
    (found : w.primary.files.lookup q = some data) (under : Text.below physical q = true) :
    w.primary.stat physical = some ⟨true,0⟩ := by
  have above := tree.grounded q data found physical (mem_ancestors.mpr ⟨nonempty,under⟩)
  obtain ⟨u,dir⟩ := Option.isSome_iff_exists.mp above
  have file : w.primary.files.lookup physical = none := by
    cases here : w.primary.files.lookup physical with
    | none => rfl
    | some content =>
      rw [(tree.nothing_below nonempty here under).1] at found
      cases found
  unfold Disk.stat
  dsimp only
  rw [normalizeEntryPath_plain plain,file,dir]
  rfl

theorem removeTree_gone (tree : w.primary.FileTree) (slashless : w.primary.Slashless)
    (plain : hasTrailingSlash physical = false) {q : Text} {data : Bytes}
    (found : w.primary.files.lookup q = some data) (under : Text.below physical q = true) :
    FileGone q (e.removeTree physical w []).state := by
  have listed : e.orBackup (query fun w => w.primary.listRecursive physical)
      (fun backup => query fun _ => backup.listRecursive physical) w [] =
        .done (w.primary.listRecursive physical) w [] := rfl
  unfold removeTree
  dsimp only
  rw [normalizeEntryPath_plain plain,bind_run listed]
  obtain ⟨w',ran,gone,-⟩ := e.removeEntries_run w (listed_removable tree slashless physical)
  have member : (q,(⟨false,data.length⟩ : Metadata)) ∈ w.primary.listRecursive physical :=
    mem_entriesWhere.mpr ⟨under,.inl ⟨data,found,rfl⟩⟩
  rw [bind_run ran]
  have reached : FileGone q w' := by
    apply gone (q,⟨false,data.length⟩)
    rw [List.mem_reverse,List.mem_mergeSort]
    exact member
  have top (path : Text) : Keeps (FileGone q) (primaryDelete path) := primaryDelete_keeps fun w' d' =>
    fileGone_survives (normalizeEntryPath path) q w' d' path (Text.within_self _)
  exact ((invalidate_keeps (fileGone_ignoresReadCache q) e physical).bind fun _ => top _).state [] reached

/-- Undisturbed, the deletion goes through and takes a file with it. -/
theorem poolDelete_gone (tree : w.primary.FileTree) (slashless : w.primary.Slashless)
    (nonempty : physical ≠ []) (plain : hasTrailingSlash physical = false)
    (loses : e.DeletionLoses w physical) :
    e.poolPresent w physical = true ∧ ∃ q, Text.within physical q = true ∧
      (w.primary.files.lookup q).isSome = true ∧ FileGone q (e.poolDelete physical w []).state := by
  rcases loses with here | ⟨quiet,below⟩
  · obtain ⟨data,found⟩ := Option.isSome_iff_exists.mp here
    have stat := Disk.stat_file found plain
    refine ⟨by rw [poolPresent,exists_of_stat stat,Bool.or_true,Bool.true_or],
      physical,Text.within_self physical,here,?_⟩
    obtain ⟨m,file,asked⟩ : ∃ m : Metadata, m.isDir = false ∧
        e.poolStat physical w [] = .done (fileInfo physical m) w [] := by
      cases record : e.pendingRecord physical w with
      | some inner => exact ⟨_,rfl,e.poolStat_pending record⟩
      | none => exact ⟨_,rfl,e.poolStat_run record stat⟩
    have reached (readCache : Store Text Bytes) : FileGone physical (primaryDelete physical
        { w with shared := { w.shared with readCache } } []).state := by
      have deleted : w.primary.delete physical =
          some { w.primary with files := w.primary.files.erase physical } := by
        unfold Disk.delete
        dsimp only
        rw [normalizeEntryPath_plain plain,found]
        dsimp only
        rw [plain]
        rfl
      have ran : primaryDelete physical { w with shared := { w.shared with readCache } } [] =
          .done () (World.setPrimary { w with shared := { w.shared with readCache } }
            { w.primary with files := w.primary.files.erase physical }) [] := by
        apply operate_run granted_nil
        have same : World.primary { w with shared := { w.shared with readCache } } = w.primary := rfl
        rw [same,deleted]
        rfl
      rw [ran]
      exact AList.lookup_erase _ _
    rw [poolDelete,bind_run asked]
    have whole := Keeps.bind_state (k := fun _ => (pure (fileInfo physical m) : Vfs VfsFileInfo))
      (fun _ => Keeps.pure _) (reached (if e.readCache.isSome then w.shared.readCache.erase physical
        else w.shared.readCache))
    have plainFile : (fileInfo physical m).isDir = false := file
    rw [plainFile]
    exact whole
  · obtain ⟨q,member,under⟩ := List.any_eq_true.mp below
    have present := AList.lookup_isSome.mpr (AList.mem_keys.mpr member)
    obtain ⟨data,found⟩ := Option.isSome_iff_exists.mp present
    have stat := stat_above tree nonempty plain found under
    refine ⟨by rw [poolPresent,exists_of_stat stat,Bool.or_true,Bool.true_or],
      q,by rw [Text.within,under,Bool.or_true],present,?_⟩
    rw [poolDelete,bind_run (e.poolStat_run quiet stat)]
    exact Keeps.bind_state (fun _ => Keeps.pure _) (e.removeTree_gone (w := { w with shared :=
      { w.shared with readCache := if e.readCache.isSome then w.shared.readCache.erase physical
        else w.shared.readCache } }) tree slashless plain found under)

theorem recoverWrite_loses {path : Text} (size : Nat) (record : Option WalProtectedWriteMeta)
    {status : WalStatus} (tree : w.primary.FileTree) (slashless : w.primary.Slashless)
    (unfinished : status.hasPhysicalDone = false) (regular : e.protectedRoot path = none)
    (seen : e.tempSeen w path = true)
    (loses : e.DeletionLoses w (e.getPhysicalPath (tempPathOf path))) :
    ∃ q, q ≠ e.getPhysicalPath path ∧ (w.primary.files.lookup q).isSome = true ∧
      FileGone q (e.recoverWrite path size record status w []).state := by
  rw [getPhysicalPath_temp] at loses
  obtain ⟨there,q,inside,present,gone⟩ := e.poolDelete_gone tree slashless
    (tempPathOf_ne_nil (e.getPhysicalPath path)) (tempPathOf_plain (e.getPhysicalPath path)) loses
  refine ⟨q,tempPathOf_not_within inside,present,?_⟩
  have root : e.protectedRootForPath path w [] = .done (e.protectedRoot path) w [] := rfl
  rw [recoverWrite,bind_run root,regular]
  rw [tempSeen,Bool.and_eq_true,beq_iff_eq] at seen
  obtain ⟨target,checked⟩ : ∃ b, e.existsImpl path w [] = .done b w [] := by
    rcases e.existsImpl_nil path w with answered | silent
    · exact answered
    · rw [silent] at seen
      cases seen.1
  have checked' : e.existsImpl (tempPathOf path) w [] = .done true w [] := by
    rcases e.existsImpl_nil (tempPathOf path) w with ⟨b,answered⟩ | silent
    · rw [answered] at seen
      rw [answered,Option.some.inj seen.2]
    · rw [silent] at seen
      cases seen.2
  have unsettled : status.hasMetadataDone = false := by
    cases status with
    | metadataDone => cases unfinished
    | completed => cases unfinished
    | _ => rfl
  have cleaned : FileGone q (e.cleanupOrphanTemp (tempPathOf path) w []).state := by
    rw [cleanupOrphanTemp,getPhysicalPath_temp,bind_run (e.poolExists_run w _),there]
    exact Keeps.bind_state (fun _ => Keeps.pure ()) gone
  have rest : e.recoverRegularWrite path status w [] = (e.cleanupOrphanTemp (tempPathOf path) >>=
      fun _ => if target then e.syncIndexForPath path else e.indexDeleteFile path) w [] := by
    rw [recoverRegularWrite,bind_run checked]
    refine (bind_run checked').trans ?_
    simp only [unsettled,unfinished,Bool.false_eq_true,if_false]
    rfl
  dsimp only
  rw [rest]
  exact Keeps.bind_state (fun _ => settleWrite_keeps (fileGone_ignoresIndex q) e path target) cleaned

end losing

/-- The recovery of a write leaves every other file alone, however it goes,
exactly when it is clean. -/
theorem recoverWrite_kept_iff {w : World} {path : Text} {size : Nat}
    {record : Option WalProtectedWriteMeta} {status : WalStatus} (tree : w.primary.FileTree)
    (slashless : w.primary.Slashless) :
    (∀ cs q, q ≠ e.getPhysicalPath path →
      (e.recoverWrite path size record status w cs).state.primary.files.lookup q =
        w.primary.files.lookup q) ↔ e.RecoveryClean w path status := by
  constructor
  · intro kept
    by_contra unclean
    rw [RecoveryClean,not_or,not_or,not_or,not_not] at unclean
    obtain ⟨unfinished,regular,seen,loses⟩ := unclean
    obtain ⟨q,other,present,gone⟩ := e.recoverWrite_loses size record tree slashless
      (Bool.eq_false_iff.mpr unfinished) (Option.not_isSome_iff_eq_none.mp regular)
      (Bool.not_eq_false _ ▸ seen) loses
    rw [FileGone,kept [] q other] at gone
    rw [gone] at present
    cases present
  · intro clean cs q _
    have ended := e.recoverWrite_keeps size record clean w cs rfl
    have files : FilesAre w.primary.files (e.recoverWrite path size record status w cs).state := by
      cases outcome : e.recoverWrite path size record status w cs with
      | done u after rest => rw [outcome] at ended; exact ended
      | failed err after rest => rw [outcome] at ended; exact ended
      | crashed after => rw [outcome] at ended; exact ended
    exact congrArg (AList.lookup q) files

end Engine

/-! ### Streamed writes and their recovery -/

/-- A streamed write leaves every other path alone exactly when it is clean, and
so does the recovery of a write, however its calls go, with every other file. -/
theorem stream_and_recovery_frame_iff (e : Engine) :
    (∀ (kind : WriterKind) (w : World) (path : Text) (stream : ByteStream) (cs : List (Choice EngineEnv)),
      OthersKept path w.primary (e.poolWriteChunks kind path stream w cs).state.primary ↔
        StreamClean kind w.primary path stream cs) ∧
    ∀ (w : World) (path : Text) (size : Nat) (record : Option WalProtectedWriteMeta) (status : WalStatus),
      w.primary.FileTree → w.primary.Slashless →
        ((∀ cs q, q ≠ e.getPhysicalPath path →
          (e.recoverWrite path size record status w cs).state.primary.files.lookup q =
            w.primary.files.lookup q) ↔ e.RecoveryClean w path status) := by
  constructor
  · exact fun kind w path stream cs => poolWriteChunks_kept_iff e kind w path stream cs
  · exact fun w path size record status tree slashless => e.recoverWrite_kept_iff tree slashless

/-- A user's file beside the file that is written. -/
def besideWorld : World :=
  worldOf [("u/a.tmp".toList,[7]),("u/a".toList,[1])] ["u".toList] []

theorem stream_and_recovery_frame_beside :
    (∀ cs q, q ≠ plainEngine.getPhysicalPath "/a".toList →
      (plainEngine.recoverWrite "/a".toList 1 none .physicalDone besideWorld cs).state.primary.files.lookup q =
        besideWorld.primary.files.lookup q) ↔
      plainEngine.RecoveryClean besideWorld "/a".toList .physicalDone := by
  apply (stream_and_recovery_frame_iff plainEngine).2
  · apply Disk.FileTree.of_entries
    · decide +kernel
    · decide +kernel
    · decide +kernel
  · have files : ∀ cell ∈ besideWorld.primary.files.entries, hasTrailingSlash cell.1 = false := by
      decide +kernel
    have dirs : ∀ cell ∈ besideWorld.primary.dirs.entries, hasTrailingSlash cell.1 = false := by
      decide +kernel
    intro q present
    rcases present with file | dir
    · obtain ⟨data,found⟩ := Option.isSome_iff_exists.mp file
      exact files ⟨q,data⟩ (AList.mem_lookup_iff.mp found)
    · obtain ⟨u,found⟩ := Option.isSome_iff_exists.mp dir
      exact dirs ⟨q,u⟩ (AList.mem_lookup_iff.mp found)

/-- A complete stream to `/a` and the recovery of a pending write to it each
delete the user's file `a.tmp`. -/
theorem beside_file_lost :
    besideWorld.primary.files.lookup "u/a.tmp".toList = some [7] ∧
      (plainEngine.poolWriteChunks .inPlace "u/a".toList [.ok [2]] besideWorld []).value?.isSome = true ∧
      (plainEngine.poolWriteChunks .inPlace "u/a".toList [.ok [2]] besideWorld []).state.primary.files.lookup
        "u/a.tmp".toList = none ∧
      (plainEngine.recoverWrite "/a".toList 1 none .pending besideWorld []).value?.isSome = true ∧
      (plainEngine.recoverWrite "/a".toList 1 none .pending besideWorld []).state.primary.files.lookup
        "u/a.tmp".toList = none := by
  decide +kernel

end StorageHub.Scoped
