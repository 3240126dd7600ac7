import StorageHub.Scoped.PendingListed
import StorageHub.Scoped.Sandbox
import StorageHub.Scoped.ListingSpec
import StorageHub.Scoped.RecursiveListing

/-! Clearing the thumbnails of a directory: what the listing shows of a directory
whose entries are hidden from listings. -/
namespace StorageHub.Thumbnails
open Library WriteCache Paths Protected Scoped Vfs Effect

/-! ### Clearing -/

def thumbnailDirName : Text := ".fileuni-thumbnail".toList

def legacyThumbnailDirName : Text := ".thumbs".toList

def disabledName : Text := ".disabled".toList

def normalizeLogicalPath (path : Text) : Text := withLeadingSlash path

def buildNamedThumbnailDir (dirPath dirName : Text) : Text :=
  if dirPath = ['/'] then '/'::dirName else Text.trimEnd '/' dirPath ++ '/'::dirName

def buildThumbDir (dirPath : Text) : Text := buildNamedThumbnailDir dirPath thumbnailDirName

def buildLegacyThumbDir (dirPath : Text) : Text := buildNamedThumbnailDir dirPath legacyThumbnailDirName

section
variable (e : Engine) (config : ListConfig) (decode : Text → Option Text)

/-- The operations of the engine check the path they are given first. -/
def validated {α : Type} (path : Text) (operation : Text → Vfs α) : Vfs α := do
  let normalized ← Effect.ofExcept (validateFileOperation decode path)
  operation normalized

/-- The results of the deletions; they are ignored, but counted. -/
def deleteEntries : List VfsFileInfo → Vfs (List (Except VfsError VfsFileInfo))
  | [] => pure []
  | entry::rest =>
    if entry.name = disabledName then deleteEntries rest
    else do
      let result ← (validated decode entry.path e.deleteImpl).attempt
      let results ← deleteEntries rest
      pure (result::results)

def clearThumbDir (thumbDir : Text) : Vfs (List (Except VfsError VfsFileInfo)) := do
  if ← validated decode thumbDir e.existsImpl then do
    let entries ← validated decode thumbDir (e.listImpl config)
    deleteEntries e decode entries
  else pure []

/-- `clear_directory_thumbnails` where the thumbnails lie with their directory. It
returns how many results there are. -/
def clearDirectoryThumbnails (dirPath : Text) : Vfs (List (Except VfsError VfsFileInfo)) := do
  let dirPath := normalizeLogicalPath dirPath
  let first ← clearThumbDir e config decode (buildThumbDir dirPath)
  let second ← clearThumbDir e config decode (buildLegacyThumbDir dirPath)
  pure (first ++ second)

end

/-! ### What there is to clear -/

section
variable (e : Engine) (decode : Text → Option Text)

/-- Where the thumbnail directories of a directory are. -/
def places (dirPath : Text) : List Text :=
  [buildThumbDir (normalizeLogicalPath dirPath),buildLegacyThumbDir (normalizeLogicalPath dirPath)].filterMap
    fun thumbDir => (validateFileOperation decode thumbDir).toOption

def tempEntries (place : Text) (w : World) : List VfsFileInfo :=
  if (w.temp.dirs.lookup (tempPath place)).isSome then Engine.tempInfos place w else []

/-- The names of the files directly in a place: in the temporary directory, in the
index below the protected root, else on the storage. -/
def filesIn (place : Text) (w : World) : List Text :=
  if isTempPath place then ((tempEntries place w).filter fun entry => !entry.isDir).map (·.name)
  else if e.covers place then ((e.rowsIn place w).filter fun row => !row.isDir).map (·.name)
  else ((e.storedEntries place w).filter fun entry => !entry.2.isDir).map fun entry => lastSegment entry.1

def remaining (place : Text) (w : World) : List Text := (filesIn e place w).filter (· != disabledName)

/-- The thumbnails of a directory are gone, and as many were counted as there were. -/
structure Cleared (dirPath : Text) (w w' : World) (n : Nat) : Prop where
  gone : ∀ place ∈ places decode dirPath, remaining e place w' = []
  counted : n = ((places decode dirPath).map fun place => (remaining e place w).length).sum

/-- What the engine keeps: the write cache has no thumbnail, a row of the index
lies in its parent, and no path has a backslash. -/
structure Kept (dirPath : Text) (w : World) : Prop where
  uncached : ∀ r record, w.shared.records.lookup r = some record →
    isThumbnailCachePath record.target.logicalPath = false
  placed : ∀ place ∈ places decode dirPath, ∀ row ∈ e.rowsIn place w,
    ∃ name, name ≠ [] ∧ '/' ∉ name ∧ row.path = place ++ '/'::name
  plain : ∀ path ∈ w.temp.files.keys ++ w.temp.dirs.keys, '\\' ∉ path

/-- In the temporary directory there are only files to clear and no protection
comes in between; elsewhere there is nothing to clear. -/
def Clearable (place : Text) (w : World) : Prop :=
  if isTempPath place then ∀ entry ∈ tempEntries place w, entry.name ≠ disabledName →
    entry.isDir = false ∧ e.covers entry.path = false
  else remaining e place w = []

end

/-! ### Thumbnail paths -/

theorem contains_append (before pattern after : Text) : Text.contains pattern (before ++ (pattern ++ after)) = true := by
  induction before with
  | nil =>
    cases whole : pattern ++ after with
    | nil =>
      obtain ⟨rfl,-⟩ := List.append_eq_nil_iff.mp whole
      rfl
    | cons c cs =>
      have here : pattern.isPrefixOf (c::cs) = true := by
        rw [← whole,List.isPrefixOf_iff_prefix]
        exact List.prefix_append _ _
      rw [List.nil_append,Text.contains,here,Bool.true_or]
  | cons c cs ih => rw [List.cons_append,Text.contains,ih,Bool.or_true]

/-- A place of thumbnails: it ends with one of the two names. -/
def IsPlace (place : Text) : Prop :=
  ∃ pre, place = pre ++ '/'::thumbnailDirName ∨ place = pre ++ '/'::legacyThumbnailDirName

/-- What lies in a directory of thumbnails is a path of the thumbnail cache. -/
theorem thumbnailCachePath_of_last {path : Text} {c : Char} (last : path.getLast? = some c) (other : c ≠ '/')
    (inside : Text.contains "/.fileuni-thumbnail/".toList path = true ∨
      Text.contains "/.thumbs/".toList path = true) : isThumbnailCachePath path = true := by
  have fixed : Text.trimEnd '/' path = path := by
    apply trimEnd_plain
    rw [last]
    exact fun same => other (Option.some.inj same)
  unfold isThumbnailCachePath
  rw [fixed]
  dsimp only
  rcases inside with named | named
  · rw [named,Bool.or_true,Bool.true_or,Bool.true_or]
  · rw [named,Bool.or_true,Bool.true_or]

theorem below_thumbnail {place name : Text} (thumbs : IsPlace place) (filled : name ≠ [])
    (plain : name.getLast? ≠ some '/') : isThumbnailCachePath (place ++ '/'::name) = true := by
  have last : (place ++ '/'::name).getLast? = some (name.getLast filled) := by
    rw [List.getLast?_append_of_ne_nil _ (List.cons_ne_nil '/' name),List.getLast?_cons_of_ne_nil filled,
      List.getLast?_eq_some_getLast filled]
  have other : name.getLast filled ≠ '/' := by
    intro same
    rw [List.getLast?_eq_some_getLast filled,same] at plain
    exact plain rfl
  apply thumbnailCachePath_of_last last other
  obtain ⟨pre,rfl | rfl⟩ := thumbs
  · left
    have split : pre ++ '/'::thumbnailDirName ++ '/'::name = pre ++ ("/.fileuni-thumbnail/".toList ++ name) := by
      rw [List.append_assoc]
      rfl
    rw [split]
    exact contains_append pre "/.fileuni-thumbnail/".toList name
  · right
    have split : pre ++ '/'::legacyThumbnailDirName ++ '/'::name = pre ++ ("/.thumbs/".toList ++ name) := by
      rw [List.append_assoc]
      rfl
    rw [split]
    exact contains_append pre "/.thumbs/".toList name

/-- An entry of a place is hidden. -/
theorem child_hidden {place name : Text} (thumbs : IsPlace place) (filled : name ≠ []) (plain : '/' ∉ name) :
    isHiddenStoragePath (place ++ '/'::name) = true := by
  have last : name.getLast? ≠ some '/' := by
    rw [List.getLast?_eq_some_getLast filled]
    exact fun same => plain (Option.some.inj same ▸ List.getLast_mem filled)
  rw [isHiddenStoragePath,below_thumbnail thumbs filled last,Bool.true_or]

/-- What the names of the thumbnail directories of a directory stand behind. -/
def placeBase (dirPath : Text) : Text :=
  withSlashes (if normalizeLogicalPath dirPath = ['/'] then [] else Text.trimEnd '/' (normalizeLogicalPath dirPath))

theorem withLeadingSlash_cons (path : Text) : ∃ rest, withLeadingSlash path = '/'::rest := by
  unfold withLeadingSlash
  split
  next started =>
    obtain ⟨rest,split⟩ := Text.startsWith_iff.mp started
    exact ⟨rest,split.symm⟩
  next => exact ⟨path,rfl⟩

theorem withLeadingSlash_kept (rest : Text) : withLeadingSlash ('/'::rest) = '/'::rest := by
  have started : Text.startsWith ['/'] ('/'::rest) = true := Text.startsWith_iff.mpr ⟨rest,rfl⟩
  rw [withLeadingSlash,if_pos started]

theorem buildNamedThumbnailDir_slashes {name : Text} (dirPath : Text) (back : '\\' ∉ name) :
    withSlashes (withLeadingSlash (buildNamedThumbnailDir (normalizeLogicalPath dirPath) name)) =
      placeBase dirPath ++ '/'::name := by
  have back' : '\\' ∉ '/'::name := by
    rw [List.mem_cons,not_or]
    exact ⟨by decide,back⟩
  unfold buildNamedThumbnailDir placeBase
  by_cases root : normalizeLogicalPath dirPath = ['/']
  · rw [if_pos root,if_pos root,withLeadingSlash_kept,withSlashes_plain back']
    rfl
  · rw [if_neg root,if_neg root]
    have started : ∃ rest, Text.trimEnd '/' (normalizeLogicalPath dirPath) ++ '/'::name = '/'::rest := by
      obtain ⟨rest,leading⟩ := withLeadingSlash_cons dirPath
      rw [normalizeLogicalPath,leading]
      rcases trimEnd_slash rest with gone | ⟨tail,kept⟩
      · exact ⟨name,by rw [gone]; rfl⟩
      · exact ⟨tail ++ '/'::name,by rw [kept]; rfl⟩
    obtain ⟨rest,leading⟩ := started
    rw [leading,withLeadingSlash_kept,← leading]
    conv_rhs => rw [← withSlashes_plain back']
    exact List.map_append

theorem getLast_named {pre name : Text} (filled : name ≠ []) (plain : '/' ∉ name) :
    (pre ++ '/'::name).getLast? ≠ some '/' := by
  rw [List.getLast?_append_of_ne_nil _ (List.cons_ne_nil '/' name),List.getLast?_cons_of_ne_nil filled,
    List.getLast?_eq_some_getLast filled]
  intro same
  exact plain (Option.some.inj same ▸ List.getLast_mem filled)

/-- Where an accepted thumbnail directory is. -/
theorem validated_named {decode : Text → Option Text} {dirPath name place : Text} (filled : name ≠ [])
    (plain : '/' ∉ name) (back : '\\' ∉ name)
    (valid : validateFileOperation decode (buildNamedThumbnailDir (normalizeLogicalPath dirPath) name) = .ok place) :
    place = placeBase dirPath ++ '/'::name := by
  obtain ⟨-,-,-,result⟩ := validateFileOperation_ok.mp valid
  rw [buildNamedThumbnailDir_slashes dirPath back] at result
  have nested : placeBase dirPath ++ '/'::name ≠ ['/'] := by
    intro same
    have last : (placeBase dirPath ++ '/'::name).getLast? ≠ some '/' := getLast_named filled plain
    rw [same] at last
    exact last rfl
  rw [result,if_neg nested,trimEnd_plain (getLast_named filled plain)]

theorem isPlace_fileuni (base : Text) : IsPlace (base ++ '/'::thumbnailDirName) := ⟨base,.inl rfl⟩

theorem isPlace_legacy (base : Text) : IsPlace (base ++ '/'::legacyThumbnailDirName) := ⟨base,.inr rfl⟩

theorem IsPlace.last {place : Text} (thumbs : IsPlace place) : place.getLast? ≠ some '/' := by
  obtain ⟨pre,rfl | rfl⟩ := thumbs
  · exact getLast_named (by decide) (by decide)
  · exact getLast_named (by decide) (by decide)

theorem IsPlace.nested {place : Text} (thumbs : IsPlace place) : place ≠ ['/'] := by
  intro root
  have last := thumbs.last
  rw [root] at last
  exact last rfl

/-! ### What a listing leaves out -/

/-- A path whose parent is a place is an entry of it, unless it is spelled with a slash at its end. -/
theorem child_of_rsplit {place path parent name : Text} (thumbs : IsPlace place)
    (cut : Text.rsplitOnce '/' path = some (parent,name)) (above : (if parent = [] then ['/'] else parent) = place) :
    path = place ++ '/'::name ∧ '/' ∉ name := by
  obtain ⟨whole,plain⟩ := Text.rsplitOnce_some cut
  have same : parent = place := by
    by_cases top : parent = []
    · rw [if_pos top] at above
      exact absurd above.symm thumbs.nested
    · rw [if_neg top] at above
      exact above
  rw [← same]
  exact ⟨whole,plain⟩

/-- A listing of a place keeps nothing. -/
theorem keepsEntry_place {place : Text} (thumbs : IsPlace place) (info : VfsFileInfo) :
    Engine.keepsEntry place info = false := by
  rw [← Bool.not_eq_true]
  intro kept
  unfold Engine.keepsEntry at kept
  cases cut : Text.rsplitOnce '/' info.path with
  | none =>
    rw [cut,Bool.and_false] at kept
    cases kept
  | some split =>
    rw [cut] at kept
    simp only [Bool.and_eq_true,Bool.not_eq_true',beq_iff_eq,bne_iff_ne] at kept
    obtain ⟨⟨⟨shown,-⟩,unspelled⟩,above⟩ := kept
    obtain ⟨whole,plain⟩ := child_of_rsplit thumbs cut above
    by_cases filled : split.2 = []
    · have root : (place != ['/']) = true := bne_iff_ne.mpr thumbs.nested
      rw [whole,filled,root,beq_self_eq_true] at unspelled
      cases unspelled
    · rw [whole,child_hidden thumbs filled plain] at shown
      cases shown

theorem keepsEntry_none {place : Text} (thumbs : IsPlace place) (infos : List VfsFileInfo) :
    infos.filter (Engine.keepsEntry place) = [] := by
  rw [List.filter_eq_nil_iff]
  intro info _
  rw [keepsEntry_place thumbs info]
  exact Bool.false_ne_true

/-- No listed path but the root ends in a slash. -/
theorem translatePath_last (e : Engine) (raw : Text) :
    e.translatePath raw = ['/'] ∨ (e.translatePath raw).getLast? ≠ some '/' := by
  have rooted (s : Text) : '/'::Text.trimEnd '/' s = ['/'] ∨ ('/'::Text.trimEnd '/' s).getLast? ≠ some '/' := by
    cases trimmed : Text.trimEnd '/' s with
    | nil => exact .inl rfl
    | cons c rest =>
      right
      rw [List.getLast?_cons_cons,← trimmed]
      exact trimEnd_last s
  unfold Engine.translatePath
  dsimp only
  split
  next => exact rooted _
  next =>
    split
    next => exact .inl rfl
    next =>
      split
      next => exact rooted _
      next => exact rooted _

/-- A sync of a place indexes nothing. -/
theorem syncRows_place (e : Engine) {place : Text} (thumbs : IsPlace place) (now : Int) (firstId : Nat)
    (entries : List (Text × Metadata)) : e.syncRows place now firstId entries = [] := by
  rw [List.eq_nil_iff_forall_not_mem]
  intro row member
  obtain ⟨entry,-,id,made,shown,-,above⟩ := Engine.mem_syncRows member
  have listed : row.path = e.translatePath entry.1 := by
    rw [made]
    rfl
  unfold parentOf at above
  cases cut : Text.rsplitOnce '/' row.path with
  | none =>
    rw [cut] at above
    exact thumbs.nested above.symm
  | some split =>
    rw [cut] at above
    obtain ⟨whole,plain⟩ := child_of_rsplit thumbs cut above
    by_cases filled : split.2 = []
    · have last := translatePath_last e entry.1
      rw [← listed,whole,filled] at last
      rcases last with root | other
      · have length := congrArg List.length root
        rw [List.length_append] at length
        have empty : place = [] := List.length_eq_zero_iff.mp (by simpa using length)
        obtain ⟨pre,split | split⟩ := thumbs
        · simp [split] at empty
        · simp [split] at empty
      · simp at other
    · rw [whole,child_hidden thumbs filled plain] at shown
      cases shown

/-! ### Thumbnails and the write cache -/

/-- A path is its parent, unless that is the root, and something after a slash. -/
theorem parentPath_split {path : Text} (plain : path.getLast? ≠ some '/') (nested : parentPath path ≠ ['/']) :
    ∃ rest, rest ≠ [] ∧ rest.getLast? ≠ some '/' ∧ path = parentPath path ++ '/'::rest := by
  have whole : ∃ rest, path = parentPath path ++ '/'::rest := by
    unfold parentPath stdParent at nested ⊢
    dsimp only at nested ⊢
    rw [trimEnd_plain plain] at nested ⊢
    by_cases empty : path = []
    · rw [if_pos empty] at nested
      exact absurd rfl nested
    · rw [if_neg empty] at nested ⊢
      by_cases top : Text.trimEnd '/' (path.rdropWhile (· != '/')) = [] ∧ path.rdropWhile (· != '/') ≠ []
      · rw [if_pos top] at nested
        exact absurd rfl nested
      · rw [if_neg top] at nested ⊢
        cases parent : Text.trimEnd '/' (path.rdropWhile (· != '/')) with
        | nil =>
          rw [parent] at nested
          exact absurd rfl nested
        | cons c init =>
          have upTo : path.rdropWhile (· != '/') ≠ [] := by
            intro gone
            rw [gone] at parent
            cases parent
          have last : (path.rdropWhile (· != '/')).getLast upTo = '/' := by
            have stops := List.rdropWhile_last_not (· != '/') path upTo
            simpa using stops
          obtain ⟨slashes,split,only⟩ := trimEnd_split (path.rdropWhile (· != '/'))
          have path_ : path = path.rdropWhile (· != '/') ++ path.rtakeWhile (· != '/') :=
            List.rdropWhile_append_rtakeWhile.symm
          cases slashes with
          | nil =>
            rw [List.append_nil] at split
            have trimmed := trimEnd_last (path.rdropWhile (· != '/'))
            rw [← split,List.getLast?_eq_some_getLast upTo,last] at trimmed
            exact absurd rfl trimmed
          | cons slash slashes =>
            refine ⟨slashes ++ path.rtakeWhile (· != '/'),?_⟩
            dsimp only
            conv_lhs => rw [path_,split,parent,only slash List.mem_cons_self]
            rw [List.append_assoc]
            rfl
  obtain ⟨rest,split⟩ := whole
  have last : ('/'::rest).getLast? ≠ some '/' := by
    rw [split,List.getLast?_append_of_ne_nil _ (List.cons_ne_nil '/' rest)] at plain
    exact plain
  have filled : rest ≠ [] := by
    rintro rfl
    exact last rfl
  rw [List.getLast?_cons_of_ne_nil filled] at last
  exact ⟨rest,filled,last,split⟩

/-- A write to a thumbnail is never cached. -/
theorem tryEnqueueWriteCache_thumbnail (e : Engine) {path : Text} (thumb : isThumbnailCachePath path = true)
    (data : Bytes) : e.tryEnqueueWriteCache path data = pure none := by
  have uncached : e.shouldUseWriteCache path data.length = false := by
    rw [Engine.shouldUseWriteCache,thumb,Bool.or_true,Bool.true_or,if_pos rfl]
  unfold Engine.tryEnqueueWriteCache
  rw [uncached]
  split <;> rfl

/-- Without thumbnails in the write cache no write is pending in a place. -/
theorem pendingInfos_place (e : Engine) {place : Text} {w : World} (thumbs : IsPlace place) (shaped : FileShaped place)
    (uncached : ∀ r record, w.shared.records.lookup r = some record →
      isThumbnailCachePath record.target.logicalPath = false) : e.pendingInfos place w = [] := by
  unfold Engine.pendingInfos Engine.poolPendingChildren
  split
  · rfl
  · rw [List.map_eq_nil_iff]
    cases e.writeCache with
    | none => rfl
    | some m =>
      dsimp only
      rw [List.map_eq_nil_iff,List.filter_eq_nil_iff]
      intro record listed filed
      obtain ⟨cell,-,found⟩ := List.mem_filterMap.mp listed
      rw [beq_iff_eq,Engine.getPhysicalPath] at filed
      have nested : place ≠ ['/'] := thumbs.nested
      have owner := user_of_parent e.plainUser (.inr shaped) (fun root => absurd root nested) filed
      have path : record.target.path = e.userId ++ record.target.logicalPath := by
        rw [CacheTarget.path,owner,physicalPath_fileShaped e.userId record.target.shaped]
      rw [physicalPath_fileShaped e.userId shaped] at filed
      have last : record.target.path.getLast? ≠ some '/' := by
        have nonempty : record.target.logicalPath ≠ [] := by
          intro empty
          have started := record.target.shaped.1
          rw [empty] at started
          cases started
        rw [path,List.getLast?_append_of_ne_nil _ nonempty]
        exact record.target.shaped.2.2.1
      have below : parentPath record.target.path ≠ ['/'] := by
        rw [filed]
        intro same
        obtain ⟨rest,split,-,init,final,ends,-⟩ := fileShaped_cons shaped
        have length := congrArg List.length same
        rw [split,ends] at length
        simp at length
        omega
      obtain ⟨rest,filled,plain,split⟩ := parentPath_split last below
      rw [filed,path,List.append_assoc] at split
      have thumb := below_thumbnail thumbs filled plain
      rw [← List.append_cancel_left split,uncached cell.2 record found] at thumb
      cases thumb

/-! ### Clearing what lies on the storage -/

section lasting
variable (e : Engine)

/-- What has become of a world in which nothing of any place was touched. -/
structure Untouched (w w' : World) : Prop where
  shared : w'.shared = w.shared
  dirs : w'.dirs = w.dirs
  temp : w'.temp = w.temp
  rows : ∀ q, e.covers q = true → e.rowsIn q w' = e.rowsIn q w

variable {e} {config : ListConfig} {decode : Text → Option Text} {place : Text} {w : World}

theorem untouched_self (w : World) : Untouched e w w := ⟨rfl,rfl,rfl,fun _ _ => rfl⟩

theorem getProtectedPlan_covers {path : Text} {w' : World} {cs rest : List (Choice EngineEnv)}
    {found : Option ProtectedPathPlan} (done : e.getProtectedPlan path w cs = .done found w' rest) :
    w' = w ∧ found.isSome = e.covers path := by
  cases resolved : e.resolveProtectedPlan with
  | error err =>
    rw [Engine.getProtectedPlan,resolved] at done
    cases done
  | ok plan =>
    rw [e.getProtectedPlan_run w path cs resolved] at done
    cases done
    refine ⟨rfl,?_⟩
    rw [Engine.covers,resolved]
    cases plan with
    | none => rfl
    | some plan =>
      change (Option.filter _ _).isSome = plan.matchesPath path
      cases matched : plan.matchesPath path with
      | true => rw [Option.filter_some,matched]; rfl
      | false => rw [Option.filter_some,matched]; rfl

/-- Refreshing the index of a place takes no row away from the places below the protected root. -/
theorem syncIndexEntries_untouched (thumbs : IsPlace place) (free : e.covers place = false) :
    Keeps (Untouched e w) (e.syncIndexEntries place) := by
  apply ((e.getProtectedPlan_readOnly place).keeps _).bind
  intro plan
  split
  · exact (indexListing_readOnly place).keeps _
  · apply ((poolList_readOnly _).keeps _).bind
    intro entries
    apply Keeps.get.bind
    intro before
    apply Keeps.bind
    · exact Keeps.modify fun _ same => ⟨same.shared,same.dirs,same.temp,same.rows⟩
    · intro _
      apply Keeps.bind _ fun _ => Keeps.pure _
      apply meets_transact
      · intro now w' index same made
        rw [syncRows_place e thumbs] at made
        cases made
        refine ⟨same.shared,same.dirs,same.temp,fun q covered => ?_⟩
        rw [← same.rows q covered]
        have apart : q ≠ place := by
          rintro rfl
          rw [free] at covered
          cases covered
        unfold Engine.rowsIn Index.listFiles Index.pruneDirectory
        dsimp only
        rw [List.foldl_nil,List.filter_filter]
        apply List.filter_congr
        intro row _
        by_cases here : row.parentPath = q
        · have other : (row.parentPath == place) = false := by
            rw [here]
            exact beq_false_of_ne apart
          rw [other,Bool.and_false,Bool.false_and,Bool.not_false,Bool.and_true]
        · have elsewhere : (row.parentPath == q) = false := beq_false_of_ne here
          rw [elsewhere,Bool.and_false,Bool.false_and,Bool.false_and]
      · exact fun _ _ same => same
      · exact fun _ same => same

theorem executeSyncDecision_untouched (thumbs : IsPlace place) (free : e.covers place = false) :
    Keeps (Untouched e w) (e.executeSyncDecision config place) := by
  apply ((e.getProtectedPlan_readOnly place).keeps _).bind
  intro plan
  split
  · exact Keeps.pure none
  · split
    · exact Keeps.map some (syncIndexEntries_untouched thumbs free)
    · exact Keeps.pure none

theorem physicalListing_place (thumbs : IsPlace place) : Ensures (Untouched e w) (e.physicalListing place)
    fun infos w' => infos = [] ∧ Untouched e w w' := by
  apply ensures_after ((poolList_readOnly _).keeps _)
  intro entries
  apply Meets.pure
  exact fun w' same => ⟨keepsEntry_none thumbs _,same⟩

theorem storedListing_place (thumbs : IsPlace place) (free : e.covers place = false) :
    Ensures (Untouched e w) (e.storedListing config place) fun infos w' => infos = [] ∧ Untouched e w w' := by
  apply ensures_after Keeps.get
  intro before
  split
  · exact physicalListing_place thumbs
  · apply ensures_after (executeSyncDecision_untouched thumbs free)
    intro _
    apply ensures_after ((query_readOnly _).keeps _)
    intro rows
    split
    · exact physicalListing_place thumbs
    · apply Meets.pure
      exact fun w' same => ⟨keepsEntry_none thumbs _,same⟩

/-- Outside the temporary directory a place is listed as empty. -/
theorem listImpl_place (lasting : isTempPath place = false) (thumbs : IsPlace place)
    (uncached : e.pendingInfos place w = [])
    (placed : ∀ row ∈ e.rowsIn place w, ∃ name, name ≠ [] ∧ '/' ∉ name ∧ row.path = place ++ '/'::name)
    {w₀ w' : World} {cs rest : List (Choice EngineEnv)} {infos : List VfsFileInfo} (same : Untouched e w w₀)
    (done : e.listImpl config place w₀ cs = .done infos w' rest) : infos = [] ∧ Untouched e w w' := by
  rw [Engine.listImpl,lasting,if_neg Bool.false_ne_true] at done
  obtain ⟨plan,middle,later,planned,done⟩ := bind_done w₀ cs done
  obtain ⟨rfl,found⟩ := getProtectedPlan_covers planned
  cases plan with
  | some plan =>
    obtain ⟨rows,_,_,asked,taken⟩ := bind_done _ _ done
    obtain ⟨rfl,rfl⟩ := query_done asked
    cases taken
    refine ⟨?_,same⟩
    have kept : e.rowsIn place w' = e.rowsIn place w := same.rows place found.symm
    rw [Engine.rowsIn] at kept
    rw [kept,List.map_eq_nil_iff,List.filter_eq_nil_iff]
    intro row member
    obtain ⟨name,filled,plain,path⟩ := placed row member
    rw [path,child_hidden thumbs filled plain]
    exact Bool.false_ne_true
  | none =>
    have free : e.covers place = false := found.symm
    obtain ⟨results,after,later',stored,done⟩ := bind_done _ _ done
    obtain ⟨rfl,same'⟩ := (storedListing_place thumbs free).of_done same stored
    obtain ⟨pending,after',later'',asked,done⟩ := bind_done _ _ done
    rw [Engine.pendingChildren,lasting,if_neg Bool.false_ne_true,bind_run (get_apply _ _)] at asked
    cases asked
    have nothing : (e.poolPendingChildren (e.getPhysicalPath place) after).map e.translateFileInfo = [] := by
      rw [← uncached,Engine.pendingInfos,lasting,if_neg Bool.false_ne_true]
      unfold Engine.poolPendingChildren
      rw [same'.shared]
    rw [nothing,if_pos rfl] at done
    cases done
    exact ⟨rfl,same'⟩

theorem validated_done {α : Type} {path : Text} {operation : Text → Vfs α} {w' : World}
    {cs rest : List (Choice EngineEnv)} {a : α} (done : validated decode path operation w cs = .done a w' rest) :
    ∃ normalized, validateFileOperation decode path = .ok normalized ∧
      operation normalized w cs = .done a w' rest := by
  cases checked : validateFileOperation decode path with
  | error err =>
    rw [validated,checked] at done
    cases done
  | ok normalized =>
    rw [validated,checked] at done
    exact ⟨normalized,rfl,done⟩

/-- What a run of `clear_thumb_dir` has found. -/
theorem clearThumbDir_done {thumbDir : Text} {w' : World} {cs rest : List (Choice EngineEnv)}
    {results : List (Except VfsError VfsFileInfo)}
    (done : clearThumbDir e config decode thumbDir w cs = .done results w' rest) :
    ∃ place, validateFileOperation decode thumbDir = .ok place ∧
      ((∃ later, e.existsImpl place w cs = .done false w later ∧ results = [] ∧ w' = w) ∨
        ∃ later entries middle later', e.existsImpl place w cs = .done true w later ∧
          e.listImpl config place w later = .done entries middle later' ∧
            deleteEntries e decode entries middle later' = .done results w' rest) := by
  obtain ⟨present,middle,later,asked,done⟩ := bind_done w cs done
  obtain ⟨place,valid,asked⟩ := validated_done asked
  obtain rfl := readOnly_done (e.existsImpl_readOnly place) asked
  refine ⟨place,valid,?_⟩
  cases present with
  | false =>
    cases done
    exact .inl ⟨_,asked,rfl,rfl⟩
  | true =>
    obtain ⟨entries,after,later',listed,done⟩ := bind_done _ _ done
    obtain ⟨place',valid',listed⟩ := validated_done listed
    rw [valid] at valid'
    cases valid'
    exact .inr ⟨later,entries,after,later',asked,listed,done⟩

/-- Outside the temporary directory nothing is deleted. -/
theorem clearThumbDir_lasting {thumbDir : Text} (valid : validateFileOperation decode thumbDir = .ok place)
    (lasting : isTempPath place = false) (thumbs : IsPlace place) (uncached : e.pendingInfos place w = [])
    (placed : ∀ row ∈ e.rowsIn place w, ∃ name, name ≠ [] ∧ '/' ∉ name ∧ row.path = place ++ '/'::name)
    {w₀ w' : World} {cs rest : List (Choice EngineEnv)} {results : List (Except VfsError VfsFileInfo)}
    (same : Untouched e w w₀) (done : clearThumbDir e config decode thumbDir w₀ cs = .done results w' rest) :
    results = [] ∧ Untouched e w w' := by
  obtain ⟨place',valid',ran⟩ := clearThumbDir_done done
  rw [valid] at valid'
  cases valid'
  rcases ran with ⟨_,_,rfl,rfl⟩ | ⟨_,entries,middle,_,_,listed,deleted⟩
  · exact ⟨rfl,same⟩
  · obtain ⟨rfl,same'⟩ := listImpl_place lasting thumbs uncached placed same listed
    cases deleted
    exact ⟨rfl,same'⟩

theorem remaining_untouched {w' : World} (lasting : isTempPath place = false) (same : Untouched e w w') :
    remaining e place w' = remaining e place w := by
  unfold remaining filesIn
  rw [lasting,if_neg Bool.false_ne_true,if_neg Bool.false_ne_true]
  by_cases covered : e.covers place = true
  · rw [if_pos covered,if_pos covered,same.rows place covered]
  · rw [if_neg covered,if_neg covered]
    unfold Engine.storedEntries World.primary
    rw [same.shared,same.dirs]

end lasting

/-! ### Removals from a disk -/

section erasing
variable {ν β : Type}

theorem lookup_eraseAll_mem {keys : List Text} {k : Text} (member : k ∈ keys) (s : Store Text ν) :
    (keys.foldl (fun s p => s.erase p) s).lookup k = none := by
  have stays (keys : List Text) (s : Store Text ν) (gone : s.lookup k = none) :
      (keys.foldl (fun s p => s.erase p) s).lookup k = none := by
    induction keys generalizing s with
    | nil => exact gone
    | cons key keys ih =>
      apply ih
      rw [Store.lookup_erase_eq,gone,ite_self]
  induction keys generalizing s with
  | nil => cases member
  | cons key keys ih =>
    rw [List.foldl_cons]
    rcases List.mem_cons.mp member with rfl | later
    · apply stays
      rw [Store.lookup_erase_eq,if_pos rfl]
    · exact ih later (s.erase key)

theorem lookup_eraseAll {keys : List Text} {k : Text} (absent : k ∉ keys) (s : Store Text ν) :
    (keys.foldl (fun s p => s.erase p) s).lookup k = s.lookup k := by
  induction keys generalizing s with
  | nil => rfl
  | cons key keys ih =>
    rw [List.mem_cons,not_or] at absent
    rw [List.foldl_cons,ih absent.2,Store.lookup_erase_eq,if_neg absent.1]

theorem filterMap_kerase {f : (Sigma fun _ : Text => ν) → Option β} {key : Text} (dropped : ∀ v, f ⟨key,v⟩ = none)
    (cells : List (Sigma fun _ : Text => ν)) : (cells.kerase key).filterMap f = cells.filterMap f := by
  induction cells with
  | nil => rfl
  | cons cell cells ih =>
    by_cases same : cell.1 = key
    · rw [List.kerase_cons_eq same.symm,List.filterMap_cons_none]
      obtain ⟨k,v⟩ := cell
      cases same
      exact dropped v
    · rw [List.kerase_cons_ne (Ne.symm same)]
      cases kept : f cell with
      | none => rw [List.filterMap_cons_none kept,List.filterMap_cons_none kept,ih]
      | some b => rw [List.filterMap_cons_some kept,List.filterMap_cons_some kept,ih]

theorem filterMap_eraseAll {f : (Sigma fun _ : Text => ν) → Option β} {keys : List Text}
    (dropped : ∀ key ∈ keys, ∀ v, f ⟨key,v⟩ = none) (s : Store Text ν) :
    (keys.foldl (fun s p => s.erase p) s).entries.filterMap f = s.entries.filterMap f := by
  induction keys generalizing s with
  | nil => rfl
  | cons key keys ih =>
    rw [List.foldl_cons,ih (fun key' member => dropped key' (List.mem_cons_of_mem _ member))]
    exact filterMap_kerase (dropped key List.mem_cons_self) s.entries

end erasing

section removal
variable {x : Text} {d d' : Disk}

/-- A removal erases paths at or below its own, and its own. -/
theorem tempRemove_erases (removed : tempRemove x d = some d') : ∃ files dirs : List Text,
    d' = ⟨files.foldl (fun s p => s.erase p) d.files,dirs.foldl (fun s p => s.erase p) d.dirs⟩ ∧
      (∀ q ∈ files, Text.within x q = true) ∧ (∀ q ∈ dirs, Text.within x q = true) ∧
        d'.files.lookup x = none := by
  unfold tempRemove at removed
  split at removed
  next =>
    cases removed
    refine ⟨_,_,rfl,fun q member => (List.mem_filter.mp member).2,fun q member => (List.mem_filter.mp member).2,?_⟩
    by_cases present : x ∈ d.files.keys
    · exact lookup_eraseAll_mem (List.mem_filter.mpr ⟨present,Text.within_self x⟩) _
    · rw [lookup_eraseAll (fun member => present (List.mem_filter.mp member).1)]
      exact AList.lookup_eq_none.mpr (fun member => present (AList.mem_keys.mp member))
  next =>
    split at removed
    next =>
      cases removed
      refine ⟨[x],[],rfl,?_,?_,?_⟩
      · intro q member
        rw [List.mem_singleton.mp member]
        exact Text.within_self x
      · intro q member
        cases member
      · exact AList.lookup_erase x d.files
    next => cases removed

theorem tempRemove_outside (removed : tempRemove x d = some d') {q : Text} (outside : Text.within x q = false) :
    d'.files.lookup q = d.files.lookup q ∧ d'.dirs.lookup q = d.dirs.lookup q := by
  obtain ⟨files,dirs,rfl,inside,inside',-⟩ := tempRemove_erases removed
  constructor
  · apply lookup_eraseAll
    intro member
    rw [inside q member] at outside
    cases outside
  · apply lookup_eraseAll
    intro member
    rw [inside' q member] at outside
    cases outside

theorem tempRemove_absent (removed : tempRemove x d = some d') (q : Text) :
    (d.files.lookup q = none → d'.files.lookup q = none) ∧ (d.dirs.lookup q = none → d'.dirs.lookup q = none) := by
  obtain ⟨files,dirs,rfl,-,-,-⟩ := tempRemove_erases removed
  have stays {ν : Type} (keys : List Text) (s : Store Text ν) (gone : s.lookup q = none) :
      (keys.foldl (fun s p => s.erase p) s).lookup q = none := by
    by_cases member : q ∈ keys
    · exact lookup_eraseAll_mem member s
    · rw [lookup_eraseAll member,gone]
  exact ⟨stays files _,stays dirs _⟩

theorem tempRemove_entriesWhere (removed : tempRemove x d = some d') {test : Text → Bool}
    (apart : ∀ q, Text.within x q = true → test q = false) : d'.entriesWhere test = d.entriesWhere test := by
  obtain ⟨files,dirs,rfl,inside,inside',-⟩ := tempRemove_erases removed
  unfold Disk.entriesWhere
  dsimp only
  rw [filterMap_eraseAll,filterMap_eraseAll]
  · intro q member _
    rw [apart q (inside' q member)]
    rfl
  · intro q member _
    rw [apart q (inside q member)]
    rfl

end removal

/-! ### Clearing a place of the temporary directory -/

/-- What successful deletions of logical paths of the temporary directory make of it: one
below the protected root leaves its files alone. -/
inductive Deleted (e : Engine) : List Text → Disk → Disk → Prop
  | nil (d : Disk) : Deleted e [] d d
  | covered {q : Text} {rest : List Text} {d d' : Disk} (covers : e.covers q = true) (later : Deleted e rest d d') :
    Deleted e (q::rest) d d'
  | removed {q : Text} {rest : List Text} {d next d' : Disk} (free : e.covers q = false)
    (removed : tempRemove (tempPath q) d = some next) (later : Deleted e rest next d') : Deleted e (q::rest) d d'

namespace Deleted
variable {e : Engine} {paths : List Text} {d d' : Disk}

theorem outside (deleted : Deleted e paths d d') {x : Text}
    (apart : ∀ q ∈ paths, e.covers q = false → Text.within (tempPath q) x = false) :
    d'.files.lookup x = d.files.lookup x ∧ d'.dirs.lookup x = d.dirs.lookup x := by
  induction deleted with
  | nil d => exact ⟨rfl,rfl⟩
  | covered covers later ih => exact ih fun q member => apart q (List.mem_cons_of_mem _ member)
  | removed free removed later ih =>
    obtain ⟨files,dirs⟩ := ih fun q member => apart q (List.mem_cons_of_mem _ member)
    obtain ⟨files',dirs'⟩ := tempRemove_outside removed (apart _ List.mem_cons_self free)
    exact ⟨files.trans files',dirs.trans dirs'⟩

theorem absent (deleted : Deleted e paths d d') (x : Text) :
    (d.files.lookup x = none → d'.files.lookup x = none) ∧ (d.dirs.lookup x = none → d'.dirs.lookup x = none) := by
  induction deleted with
  | nil d => exact ⟨id,id⟩
  | covered covers later ih => exact ih
  | removed free removed later ih =>
    obtain ⟨files,dirs⟩ := tempRemove_absent removed x
    exact ⟨fun gone => ih.1 (files gone),fun gone => ih.2 (dirs gone)⟩

theorem gone (deleted : Deleted e paths d d') {q : Text} (member : q ∈ paths) (free : e.covers q = false) :
    d'.files.lookup (tempPath q) = none := by
  induction deleted with
  | nil d => cases member
  | covered covers later ih =>
    rcases List.mem_cons.mp member with rfl | inside
    · rw [free] at covers
      cases covers
    · exact ih inside
  | removed _ removed later ih =>
    rcases List.mem_cons.mp member with rfl | inside
    · obtain ⟨-,-,-,-,-,erased⟩ := tempRemove_erases removed
      exact (later.absent _).1 erased
    · exact ih inside

theorem entriesWhere (deleted : Deleted e paths d d') {test : Text → Bool}
    (apart : ∀ q ∈ paths, ∀ x, Text.within (tempPath q) x = true → test x = false) :
    d'.entriesWhere test = d.entriesWhere test := by
  induction deleted with
  | nil d => rfl
  | covered covers later ih => exact ih fun q member => apart q (List.mem_cons_of_mem _ member)
  | removed free removed later ih =>
    rw [ih fun q member => apart q (List.mem_cons_of_mem _ member)]
    exact tempRemove_entriesWhere removed (apart _ List.mem_cons_self)

end Deleted

/-- A thumbnail directory of the temporary directory: `root` is the part in front of
its name there. -/
structure TempPlace (place root name : Text) : Prop where
  temp : isTempPath place = true
  named : name = thumbnailDirName ∨ name = legacyThumbnailDirName
  path : ∀ rest, tempPath (place ++ rest) = root ++ name ++ rest
  portable : '\\' ∉ place
  last : place.getLast? ≠ some '/'

namespace TempPlace
variable {place root name : Text} (at_ : TempPlace place root name)
include at_

theorem tempPath : Scoped.tempPath place = root ++ name := by
  have whole := at_.path []
  rwa [List.append_nil,List.append_nil] at whole

theorem filled : name ≠ [] ∧ '/' ∉ name := by
  rcases at_.named with rfl | rfl
  · decide
  · decide

theorem unslashed : hasTrailingSlash (root ++ name) = false := by
  obtain ⟨filled,plain⟩ := at_.filled
  rw [hasTrailingSlash]
  apply beq_false_of_ne
  rw [List.getLast?_append_of_ne_nil _ filled,List.getLast?_eq_some_getLast filled]
  exact fun same => plain (Option.some.inj same ▸ List.getLast_mem filled)

end TempPlace

theorem exists_of_dir {d : Disk} {path : Text} (plain : hasTrailingSlash path = false)
    (found : (d.dirs.lookup path).isSome = true) : d.exists_ path = true := by
  rw [Disk.exists_,Disk.stat,normalizeEntryPath_plain plain]
  cases d.files.lookup path with
  | none => rw [Option.isSome_map,found]
  | some data => rw [plain]; rfl

/-- Whether a name is in front of a slash or not matters to no path of the temporary
directory. -/
theorem isTempPath_named {base name : Text} (named : name = thumbnailDirName ∨ name = legacyThumbnailDirName)
    (temp : isTempPath (base ++ '/'::name) = true) : ∃ rest, base = logicalTempPrefix ++ rest := by
  have apart : ∀ tail ∈ logicalTempPrefix.tails, tail ≠ [] → tail.isPrefixOf ('/'::thumbnailDirName) = false ∧
      tail.isPrefixOf ('/'::legacyThumbnailDirName) = false := by decide
  obtain ⟨rest,split⟩ := isTempPath_iff.mp temp
  rcases List.append_eq_append_iff.mp split with ⟨tail,whole,left⟩ | ⟨tail,whole,-⟩
  · by_cases more : tail = []
    · exact ⟨[],by rw [whole,more,List.append_nil,List.append_nil]⟩
    · have inside : tail ∈ logicalTempPrefix.tails := (List.mem_tails _ _).mpr ⟨base,whole.symm⟩
      obtain ⟨first,second⟩ := apart tail inside more
      have started : tail.isPrefixOf ('/'::name) = true := by
        rw [List.isPrefixOf_iff_prefix]
        exact ⟨rest,left.symm⟩
      rcases named with rfl | rfl
      · rw [first] at started
        cases started
      · rw [second] at started
        cases started
  · exact ⟨tail,whole⟩

theorem trimStart_stop {c : Char} (other : c ≠ '/') (slashes rest : Text) :
    Text.trimStart '/' (slashes ++ '/'::c::rest) = Text.trimStart '/' (slashes ++ ['/']) ++ c::rest := by
  have stops : (c == '/') = false := beq_false_of_ne other
  unfold Text.trimStart
  induction slashes with
  | nil =>
    rw [List.nil_append,List.nil_append,List.dropWhile_cons_of_pos (by rfl),List.dropWhile_cons_of_neg]
    · rfl
    · rw [stops]
      exact Bool.false_ne_true
  | cons d slashes ih =>
    by_cases slash : d = '/'
    · rw [List.cons_append,List.cons_append,List.dropWhile_cons_of_pos (by simpa using slash),
        List.dropWhile_cons_of_pos (by simpa using slash),ih]
    · rw [List.cons_append,List.cons_append,List.dropWhile_cons_of_neg (by simpa using slash),
        List.dropWhile_cons_of_neg (by simpa using slash)]
      simp

/-- The two thumbnail directories of a temporary directory have one root. -/
theorem tempPlace_of_base {base : Text} {rest : Text} (split : base = logicalTempPrefix ++ rest)
    (portable : '\\' ∉ base) {name : Text} (named : name = thumbnailDirName ∨ name = legacyThumbnailDirName) :
    TempPlace (base ++ '/'::name) (Text.trimStart '/' (rest ++ ['/'])) name := by
  have dotted : ∃ more, name = '.'::more := by
    rcases named with rfl | rfl
    · exact ⟨_,rfl⟩
    · exact ⟨_,rfl⟩
  obtain ⟨more,rfl⟩ := dotted
  constructor
  · exact isTempPath_iff.mpr ⟨rest ++ '/' :: '.' :: more,by rw [split,List.append_assoc]⟩
  · exact named
  · intro later
    rw [split,List.append_assoc,List.append_assoc,tempPath_append,List.append_assoc]
    exact trimStart_stop (by decide) rest (more ++ later)
  · rw [List.mem_append,not_or]
    refine ⟨portable,?_⟩
    rcases named with same | same
    · rw [same]
      decide
    · rw [same]
      decide
  · rcases named with same | same
    · rw [same]
      exact getLast_named (by decide) (by decide)
    · rw [same]
      exact getLast_named (by decide) (by decide)

theorem isChild_iff {dir path : Text} :
    Disk.isChild dir path = true ↔ ∃ name, name ≠ [] ∧ '/' ∉ name ∧ path = dir ++ '/'::name := by
  have plain (name : Text) : name.all (· != '/') = true ↔ '/' ∉ name := by
    rw [List.all_eq_true]
    constructor
    · intro all member
      have other := all '/' member
      simp at other
    · intro absent c member
      rw [bne_iff_ne]
      exact fun same => absent (same ▸ member)
  unfold Disk.isChild
  constructor
  · intro child
    split at child
    next name found =>
      rw [Bool.and_eq_true,Bool.not_eq_true',plain,List.isEmpty_eq_false_iff] at child
      refine ⟨name,child.1,child.2,?_⟩
      rw [Text.stripPrefix_some found,List.append_assoc]
      rfl
    next => cases child
  · rintro ⟨name,filled,slashless,rfl⟩
    have split : dir ++ '/'::name = dir ++ ['/'] ++ name := by rw [List.append_assoc]; rfl
    rw [split,Text.stripPrefix_append]
    dsimp only
    rw [Bool.and_eq_true,Bool.not_eq_true',plain,List.isEmpty_eq_false_iff]
    exact ⟨filled,slashless⟩

theorem lastSegment_child {dir name : Text} (plain : '/' ∉ name) : lastSegment (dir ++ '/'::name) = name := by
  have plain' : ∀ c ∈ name.reverse, (c != '/') = true := by
    intro c member
    rw [bne_iff_ne]
    exact fun same => plain (same ▸ List.mem_reverse.mp member)
  have ends : List.takeWhile (· != '/') ['/'] = [] := rfl
  rw [lastSegment_append List.mem_cons_self,lastSegment,Text.afterLast,List.rtakeWhile,List.reverse_cons,
    List.takeWhile_append_of_pos plain',ends,List.append_nil,List.reverse_reverse]

/-- An entry of a place: its name, and where it is in the temporary directory. -/
theorem mem_tempEntries {place root name : Text} (at_ : TempPlace place root name) {w : World}
    {info : VfsFileInfo} : info ∈ tempEntries place w ↔
      (w.temp.dirs.lookup (root ++ name)).isSome = true ∧ ∃ entry, entry ≠ [] ∧ '/' ∉ entry ∧
        ((∃ data, w.temp.files.lookup (root ++ name ++ '/'::entry) = some data ∧
            info = fileInfo (place ++ '/'::entry) ⟨false,data.length⟩) ∨
          (w.temp.dirs.lookup (root ++ name ++ '/'::entry)).isSome = true ∧
            info = fileInfo (place ++ '/'::entry) ⟨true,0⟩) := by
  unfold tempEntries Engine.tempInfos
  rw [at_.tempPath,trimEnd_plain at_.last]
  by_cases known : (w.temp.dirs.lookup (root ++ name)).isSome = true
  · rw [if_pos known,List.mem_map]
    constructor
    · rintro ⟨cell,listed,rfl⟩
      obtain ⟨child,kind⟩ := mem_entriesWhere.mp listed
      obtain ⟨entry,filled,plain,path⟩ := isChild_iff.mp child
      rw [path] at kind
      rw [path,lastSegment_child plain]
      refine ⟨known,entry,filled,plain,?_⟩
      rcases kind with ⟨data,found,same⟩ | ⟨dir,same⟩
      · exact .inl ⟨data,found,by rw [same]⟩
      · exact .inr ⟨dir,by rw [same]⟩
    · rintro ⟨-,entry,filled,plain,kind⟩
      have child : Disk.isChild (root ++ name) (root ++ name ++ '/'::entry) = true :=
        isChild_iff.mpr ⟨entry,filled,plain,rfl⟩
      rcases kind with ⟨data,found,rfl⟩ | ⟨dir,rfl⟩
      · refine ⟨(root ++ name ++ '/'::entry,⟨false,data.length⟩),?_,by rw [lastSegment_child plain]⟩
        exact mem_entriesWhere.mpr ⟨child,.inl ⟨data,found,rfl⟩⟩
      · refine ⟨(root ++ name ++ '/'::entry,⟨true,0⟩),?_,by rw [lastSegment_child plain]⟩
        exact mem_entriesWhere.mpr ⟨child,.inr ⟨dir,rfl⟩⟩
  · rw [if_neg known]
    constructor
    · intro member
      cases member
    · intro listed
      exact absurd listed.1 known

/-- The paths that are deleted when a place is cleared. -/
def victims (place : Text) (w : World) : List Text :=
  ((tempEntries place w).filter fun entry => entry.name != disabledName).map (·.path)

section counting
variable (e : Engine) {place : Text} {w : World}

theorem remaining_temp (temp : isTempPath place = true) : remaining e place w =
    (((tempEntries place w).filter fun entry => entry.name != disabledName).filter fun entry => !entry.isDir).map
      (·.name) := by
  rw [remaining,filesIn,if_pos temp,List.filter_map,List.filter_filter,List.filter_filter]
  congr 1
  apply List.filter_congr
  intro entry _
  exact Bool.and_comm _ _

theorem remaining_le (temp : isTempPath place = true) : (remaining e place w).length ≤ (victims place w).length := by
  rw [remaining_temp e temp,victims,List.length_map,List.length_map]
  exact List.length_filter_le _ _

/-- As many files as entries means that there are only files. -/
theorem all_files (temp : isTempPath place = true) :
    (victims place w).length = (remaining e place w).length ↔
      ∀ entry ∈ tempEntries place w, entry.name ≠ disabledName → entry.isDir = false := by
  rw [remaining_temp e temp,victims,List.length_map,List.length_map,eq_comm,List.length_filter_eq_length_iff]
  constructor
  · intro all entry member other
    have kept := all entry (List.mem_filter.mpr ⟨member,bne_iff_ne.mpr other⟩)
    rwa [Bool.not_eq_true'] at kept
  · intro all entry member
    obtain ⟨listed,other⟩ := List.mem_filter.mp member
    rw [Bool.not_eq_true']
    exact all entry listed (bne_iff_ne.mp other)

end counting

section clearing
variable {e : Engine} {place root name : Text} (at_ : TempPlace place root name) {w w' : World}
include at_

/-- A victim lies in the place under a name of its own. -/
theorem victims_named {q : Text} (member : q ∈ victims place w) : ∃ entry, entry ≠ [] ∧ '/' ∉ entry ∧
    q = place ++ '/'::entry ∧ tempPath q = root ++ name ++ '/'::entry ∧
      ((w.temp.files.lookup (root ++ name ++ '/'::entry)).isSome = true ∨
        (w.temp.dirs.lookup (root ++ name ++ '/'::entry)).isSome = true) := by
  obtain ⟨info,listed,rfl⟩ := List.mem_map.mp member
  obtain ⟨-,entry,filled,plain,kind⟩ := (mem_tempEntries at_).mp (List.mem_filter.mp listed).1
  rcases kind with ⟨data,found,rfl⟩ | ⟨dir,rfl⟩
  · exact ⟨entry,filled,plain,rfl,at_.path _,.inl (Option.isSome_iff_exists.mpr ⟨data,found⟩)⟩
  · exact ⟨entry,filled,plain,rfl,at_.path _,.inr dir⟩

/-- What remains is a file of the place. -/
theorem mem_remaining {entry : Text} : entry ∈ remaining e place w ↔ entry ≠ disabledName ∧
    (w.temp.dirs.lookup (root ++ name)).isSome = true ∧ entry ≠ [] ∧ '/' ∉ entry ∧
      (w.temp.files.lookup (root ++ name ++ '/'::entry)).isSome = true := by
  rw [remaining_temp e at_.temp,List.mem_map]
  constructor
  · rintro ⟨info,listed,rfl⟩
    obtain ⟨listed,file⟩ := List.mem_filter.mp listed
    obtain ⟨listed,other⟩ := List.mem_filter.mp listed
    obtain ⟨known,entry,filled,plain,kind⟩ := (mem_tempEntries at_).mp listed
    rcases kind with ⟨data,found,rfl⟩ | ⟨dir,rfl⟩
    · have called : (fileInfo (place ++ '/'::entry) ⟨false,data.length⟩).name = entry := lastSegment_child plain
      rw [called] at other ⊢
      exact ⟨bne_iff_ne.mp other,known,filled,plain,Option.isSome_iff_exists.mpr ⟨data,found⟩⟩
    · cases file
  · rintro ⟨other,known,filled,plain,file⟩
    obtain ⟨data,found⟩ := Option.isSome_iff_exists.mp file
    have called : (fileInfo (place ++ '/'::entry) ⟨false,data.length⟩).name = entry := lastSegment_child plain
    refine ⟨fileInfo (place ++ '/'::entry) ⟨false,data.length⟩,?_,called⟩
    refine List.mem_filter.mpr ⟨List.mem_filter.mpr ⟨?_,?_⟩,rfl⟩
    · exact (mem_tempEntries at_).mpr ⟨known,entry,filled,plain,.inl ⟨data,found,rfl⟩⟩
    · rw [called]
      exact bne_iff_ne.mpr other

/-- Where there are only files to clear and nothing is protected, nothing remains. -/
theorem remaining_cleared (clearable : Clearable e place w) (deleted : Deleted e (victims place w) w.temp w'.temp) :
    remaining e place w' = [] := by
  rw [Clearable,if_pos at_.temp] at clearable
  rw [List.eq_nil_iff_forall_not_mem]
  intro entry member
  obtain ⟨other,known,filled,plain,file⟩ := (mem_remaining at_).mp member
  have there : (w.temp.dirs.lookup (root ++ name)).isSome = true := by
    rw [← Option.ne_none_iff_isSome] at known ⊢
    exact fun gone => known ((deleted.absent _).2 gone)
  have before : (w.temp.files.lookup (root ++ name ++ '/'::entry)).isSome = true := by
    rw [← Option.ne_none_iff_isSome] at file ⊢
    exact fun gone => file ((deleted.absent _).1 gone)
  obtain ⟨data,found⟩ := Option.isSome_iff_exists.mp before
  have listed : fileInfo (place ++ '/'::entry) ⟨false,data.length⟩ ∈ tempEntries place w :=
    (mem_tempEntries at_).mpr ⟨there,entry,filled,plain,.inl ⟨data,found,rfl⟩⟩
  have called : (fileInfo (place ++ '/'::entry) ⟨false,data.length⟩).name = entry := lastSegment_child plain
  have named : (fileInfo (place ++ '/'::entry) ⟨false,data.length⟩).name ≠ disabledName := by
    rw [called]
    exact other
  have victim : place ++ '/'::entry ∈ victims place w :=
    List.mem_map.mpr ⟨_,List.mem_filter.mpr ⟨listed,bne_iff_ne.mpr named⟩,rfl⟩
  have erased := deleted.gone victim (clearable _ listed named).2
  rw [at_.path] at erased
  rw [erased] at file
  cases file

/-- A victim takes nothing with it that is not its own. -/
theorem victim_apart {q entry : Text} (member : q ∈ victims place w) (plain : '/' ∉ entry)
    (other : q ≠ place ++ '/'::entry) : Text.within (tempPath q) (root ++ name ++ '/'::entry) = false := by
  obtain ⟨entry',-,plain',rfl,path,-⟩ := victims_named at_ member
  rw [path,← Bool.not_eq_true,Text.within_iff]
  rintro (same | ⟨rest,same⟩)
  · have names := List.append_cancel_left same
    rw [List.cons.injEq] at names
    exact other (by rw [names.2])
  · have split : root ++ name ++ '/'::entry' ++ '/'::rest = root ++ name ++ '/'::(entry' ++ '/'::rest) := by
      rw [List.append_assoc (root ++ name)]
      rfl
    rw [split] at same
    have names := List.append_cancel_left same
    rw [List.cons.injEq] at names
    apply plain
    rw [names.2]
    simp

/-- Nothing remains of as many files as there were victims only where there were only
files and none was protected. -/
theorem clearable_of_cleared (deleted : Deleted e (victims place w) w.temp w'.temp)
    (gone : remaining e place w' = []) (counted : (victims place w).length = (remaining e place w).length) :
    Clearable e place w := by
  have files := (all_files e at_.temp).mp counted
  rw [Clearable,if_pos at_.temp]
  intro info listed named
  refine ⟨files info listed named,?_⟩
  rw [← Bool.not_eq_true]
  intro covered
  obtain ⟨known,entry,filled,plain,kind⟩ := (mem_tempEntries at_).mp listed
  rcases kind with ⟨data,found,rfl⟩ | ⟨dir,rfl⟩
  · have apart : ∀ q ∈ victims place w, e.covers q = false →
        Text.within (tempPath q) (root ++ name ++ '/'::entry) = false := by
      intro q member free
      apply victim_apart at_ member plain
      intro same
      rw [same] at free
      have both : false = true := free.symm.trans covered
      cases both
    have above : ∀ q ∈ victims place w, e.covers q = false → Text.within (tempPath q) (root ++ name) = false := by
      intro q member _
      obtain ⟨entry',-,-,rfl,path,-⟩ := victims_named at_ member
      rw [path,← Bool.not_eq_true,Text.within_iff]
      rintro (same | ⟨rest,same⟩)
      · have length := congrArg List.length same
        simp at length
      · have length := congrArg List.length same
        simp at length
    have called : (fileInfo (place ++ '/'::entry) ⟨false,data.length⟩).name = entry := lastSegment_child plain
    rw [called] at named
    have stays : entry ∈ remaining e place w' := by
      apply (mem_remaining at_).mpr
      rw [(deleted.outside above).2,(deleted.outside apart).1]
      exact ⟨named,known,filled,plain,Option.isSome_iff_exists.mpr ⟨data,found⟩⟩
    rw [gone] at stays
    cases stays
  · have file := files _ listed named
    cases file

omit at_ in
/-- Clearing one place leaves the entries of the other. -/
theorem tempEntries_apart {p q name' : Text} (at_ : TempPlace p root name) (at' : TempPlace q root name')
    (differ : name ≠ name') (deleted : Deleted e (victims p w) w.temp w'.temp) :
    tempEntries q w' = tempEntries q w := by
  have apart (a b : Text) : root ++ name ++ '/'::a ≠ root ++ name' ++ '/'::b := by
    intro same
    rw [List.append_assoc,List.append_assoc] at same
    exact differ (Text.before_separator at_.filled.2 at'.filled.2 (List.append_cancel_left same))
  have entries : w'.temp.listChildren (root ++ name') = w.temp.listChildren (root ++ name') := by
    apply deleted.entriesWhere
    intro victim member x inside
    obtain ⟨entry,-,-,-,path,-⟩ := victims_named at_ member
    rw [← Bool.not_eq_true,isChild_iff]
    rintro ⟨entry',-,-,split⟩
    rw [path,Text.within_iff] at inside
    rcases inside with same | ⟨tail,same⟩
    · exact apart _ _ (same.symm.trans split)
    · rw [List.append_assoc _ _ ('/'::tail),List.cons_append] at same
      exact apart _ _ (same.symm.trans split)
  have dirs : w'.temp.dirs.lookup (root ++ name') = w.temp.dirs.lookup (root ++ name') := by
    apply (deleted.outside _).2
    intro victim member _
    obtain ⟨entry,-,-,-,path,-⟩ := victims_named at_ member
    rw [path,← Bool.not_eq_true,Text.within_iff]
    have inner (a : Text) : root ++ name' ≠ root ++ name ++ '/'::a := by
      intro same
      rw [List.append_assoc] at same
      apply at'.filled.2
      rw [List.append_cancel_left same]
      simp
    rintro (same | ⟨tail,same⟩)
    · exact inner _ same
    · rw [List.append_assoc _ _ ('/'::tail),List.cons_append] at same
      exact inner _ same
  unfold tempEntries Engine.tempInfos
  rw [at'.tempPath,entries,dirs]

end clearing

/-! ### Runs in the temporary directory -/

/-- The predicate does not look at the deletions on the storage. -/
def TempIs (d : Disk) (w : World) : Prop := w.temp = d

section runs
variable {e : Engine} {config : ListConfig} {decode : Text → Option Text} {d : Disk} {w w' : World}
  {cs rest : List (Choice EngineEnv)}

theorem tempIs_ignoresLog (d : Disk) : IgnoresLog (TempIs d) := fun _ _ _ same => same

theorem tempIs_ignoresIndex (d : Disk) : IgnoresIndex (TempIs d) := fun _ _ _ same => same

theorem invalidate_tempIs (e : Engine) (path : Text) : Keeps (TempIs d) (e.invalidateReadCache path) :=
  invalidate_keeps (fun _ _ same => same) e path

theorem primaryDelete_tempIs (path : Text) : Keeps (TempIs d) (Engine.primaryDelete path) :=
  primaryDelete_keeps fun _ _ same _ => same

theorem removeEntries_tempIs (e : Engine) (entries : List (Text × Metadata)) :
    Keeps (TempIs d) (e.removeEntries entries) := by
  induction entries with
  | nil => exact Keeps.pure ()
  | cons entry entries ih =>
    apply (invalidate_tempIs e _).bind
    intro _
    exact (primaryDelete_tempIs _).bind fun _ => ih

theorem poolDelete_tempIs (e : Engine) (path : Text) : Keeps (TempIs d) (e.poolDelete path) := by
  apply ((e.poolStat_readOnly path).keeps _).bind
  intro info
  apply (invalidate_tempIs e path).bind
  intro _
  split
  · apply Keeps.bind _ fun _ => Keeps.pure info
    apply ((e.orBackup_readOnly (query_readOnly _) fun _ => query_readOnly _).keeps _).bind
    intro entries
    apply (removeEntries_tempIs e _).bind
    intro _
    apply (invalidate_tempIs e _).bind
    exact fun _ => primaryDelete_tempIs _
  · exact (primaryDelete_tempIs path).bind fun _ => Keeps.pure info

theorem deleteBlobs_tempIs (e : Engine) (rows : List IndexRow) (deleted : List Text) :
    Keeps (TempIs d) (e.deleteBlobs rows deleted) := by
  induction rows generalizing deleted with
  | nil => exact Keeps.pure ()
  | cons item rows ih =>
    unfold Engine.deleteBlobs
    split
    · exact ih deleted
    · split
      · exact ih deleted
      · exact (poolDelete_tempIs e _).bind fun _ => ih _

/-- What is deleted below the protected root is no file of the temporary directory. -/
theorem protectedDeleteImpl_tempIs (e : Engine) (path : Text) : Keeps (TempIs d) (e.protectedDeleteImpl path) := by
  apply (checkMaintenance_readOnly.keeps _).bind
  intro _
  apply ((e.getIndexMetadata_readOnly path).keeps _).bind
  intro found
  split
  · exact Keeps.fail _
  · rename_i row
    have settled (descendants : List IndexRow) : Keeps (TempIs d) (do
        let reclaimedSize := filesSize descendants
        let walId ← e.beginWal (.delete path) (e.shouldSkipWalForPath path)
        e.deleteBlobs descendants []
        markWalPhysicalDone walId
        e.indexDeleteFile path
        completeWal walId
        when (0 < reclaimedSize) (regardless (e.updateQuota (-reclaimedSize)))
        pure (infoOfRow row)) := by
      apply (beginWal_keeps (tempIs_ignoresLog d) e _ _).bind
      intro walId
      apply (deleteBlobs_tempIs e descendants []).bind
      intro _
      apply (markWal_keeps (tempIs_ignoresLog d) walId _).bind
      intro _
      apply (transact_keeps (tempIs_ignoresIndex d) _).bind
      intro _
      apply (markWal_keeps (tempIs_ignoresLog d) walId _).bind
      intro _
      have counted : Keeps (TempIs d) (e.updateQuota (-filesSize descendants)) := by
        unfold Engine.updateQuota update
        exact call_keeps fun _ _ same => same
      apply Keeps.bind _ fun _ => Keeps.pure _
      unfold when
      split
      · exact regardless_keeps counted
      · exact Keeps.pure ()
    dsimp only
    split
    · exact ((query_readOnly _).keeps _).bind settled
    · exact settled [row]

theorem reclaimedSize_temp {path : Text} (temp : isTempPath path = true) (info : VfsFileInfo) :
    ReadOnly (e.reclaimedSize path info) := by
  unfold Engine.reclaimedSize
  split
  · apply ReadOnly.bind
    · rw [Engine.listRecursiveImpl,temp,if_pos rfl]
      apply call_readOnly
      intro env w
      split <;> rfl
    · exact fun _ => ReadOnly.pure _
  · exact ReadOnly.pure _

/-- A deletion in the temporary directory. -/
theorem deleteImpl_temp {path : Text} {info : VfsFileInfo} (temp : isTempPath path = true)
    (done : e.deleteImpl path w cs = .done info w' rest) :
    e.covers path = true ∧ w'.temp = w.temp ∨
      e.covers path = false ∧ tempRemove (tempPath path) w.temp = some w'.temp := by
  obtain ⟨u,w₁,_,checked,planning⟩ := bind_done w cs done
  obtain rfl := readOnly_done checkMaintenance_readOnly checked
  obtain ⟨plan,w₂,_,planned,deleting⟩ := bind_done _ _ planning
  obtain ⟨rfl,found⟩ := getProtectedPlan_covers planned
  cases plan with
  | some plan =>
    have kept : TempIs w₂.temp w' := keeps_done (protectedDeleteImpl_tempIs e path) rfl deleting
    exact .inl ⟨found.symm,kept⟩
  | none =>
    right
    refine ⟨found.symm,?_⟩
    obtain ⟨u₁,w₃,_,flushed,seeing⟩ := bind_done _ _ deleting
    rw [Engine.flushPendingWriteCacheForPath,temp,if_pos rfl] at flushed
    cases flushed
    obtain ⟨info',w₄,_,seen,sizing⟩ := bind_done _ _ seeing
    obtain rfl := readOnly_done (e.statImpl_readOnly path) seen
    obtain ⟨reclaimed,w₅,_,sized,beginning⟩ := bind_done _ _ sizing
    obtain rfl := readOnly_done (reclaimedSize_temp temp info') sized
    obtain ⟨walId,w₆,_,begun,removing⟩ := bind_done _ _ beginning
    have start : TempIs w₅.temp w₆ := keeps_done (beginWal_keeps (tempIs_ignoresLog _) e _ _) rfl begun
    rw [temp,if_pos rfl] at removing
    obtain ⟨u₂,w₇,_,deleted,returned⟩ := bind_done _ _ removing
    cases returned
    obtain ⟨u₃,w₈,_,operated,marked⟩ := bind_done _ _ deleted
    obtain ⟨-,env,made⟩ := call_done operated
    have settled : TempIs w₈.temp w' := by
      have marks : Keeps (TempIs w₈.temp) (do markWalPhysicalDone walId; completeWal walId) :=
        (markWal_keeps (tempIs_ignoresLog _) walId _).bind fun _ => markWal_keeps (tempIs_ignoresLog _) walId _
      exact keeps_done marks rfl marked
    have same : w₆.temp = w₅.temp := start
    rw [same] at made
    cases removed : tempRemove (tempPath path) w₅.temp with
    | none =>
      rw [removed] at made
      cases made
    | some next =>
      rw [removed] at made
      cases made
      have last : w'.temp = next := settled
      rw [last]

/-- A path the engine takes as it is. -/
theorem validated_same {path q : Text} (leading : ∃ rest, path = '/'::rest) (plain : '\\' ∉ path)
    (last : path.getLast? ≠ some '/') (valid : validateFileOperation decode path = .ok q) : q = path := by
  obtain ⟨-,-,-,result⟩ := validateFileOperation_ok.mp valid
  obtain ⟨rest,rfl⟩ := leading
  rw [withLeadingSlash_kept,withSlashes_plain plain] at result
  have nested : '/'::rest ≠ ['/'] := by
    intro root
    rw [root] at last
    exact last rfl
  rw [result,if_neg nested,trimEnd_plain last]

/-- The deletions of the entries, when none fails. -/
theorem deleteEntries_done {entries : List VfsFileInfo} {results : List (Except VfsError VfsFileInfo)}
    (temp : ∀ entry ∈ entries, isTempPath entry.path = true)
    (same : ∀ entry ∈ entries, ∀ q, validateFileOperation decode entry.path = .ok q → q = entry.path)
    (done : deleteEntries e decode entries w cs = .done results w' rest)
    (succeeded : ∀ result ∈ results, ∃ info, result = .ok info) :
    Deleted e ((entries.filter fun entry => entry.name != disabledName).map (·.path)) w.temp w'.temp ∧
      results.length = ((entries.filter fun entry => entry.name != disabledName).map (·.path)).length := by
  induction entries generalizing w cs results with
  | nil =>
    cases done
    exact ⟨.nil _,rfl⟩
  | cons entry entries ih =>
    have temp' := fun entry' member => temp entry' (List.mem_cons_of_mem entry member)
    have same' := fun entry' member => same entry' (List.mem_cons_of_mem entry member)
    unfold deleteEntries at done
    by_cases disabled : entry.name = disabledName
    · rw [if_pos disabled] at done
      rw [List.filter_cons_of_neg (by simp [disabled])]
      exact ih temp' same' done succeeded
    · rw [if_neg disabled] at done
      rw [List.filter_cons_of_pos (by simp [disabled]),List.map_cons]
      obtain ⟨result,w₁,_,tried,done⟩ := bind_done w cs done
      obtain ⟨results',w₂,_,others,done⟩ := bind_done _ _ done
      cases done
      obtain ⟨later,counted⟩ := ih temp' same' others fun r member => succeeded r (List.mem_cons_of_mem _ member)
      refine ⟨?_,by rw [List.length_cons,List.length_cons,counted]⟩
      rcases attempt_cases w cs tried with ⟨info,rfl,ran⟩ | ⟨err,rfl,-⟩
      · obtain ⟨q,valid,ran⟩ := validated_done ran
        obtain rfl := same entry List.mem_cons_self q valid
        rcases deleteImpl_temp (temp entry List.mem_cons_self) ran with ⟨covered,still⟩ | ⟨free,removed⟩
        · rw [still] at later
          exact .covered covered later
        · exact .removed free removed later
      · obtain ⟨info,failed⟩ := succeeded _ List.mem_cons_self
        cases failed

theorem tempEntries_congr {place : Text} (same : w'.temp = w.temp) : tempEntries place w' = tempEntries place w := by
  unfold tempEntries Engine.tempInfos
  rw [same]

theorem existsImpl_temp {place : Text} (temp : isTempPath place = true) {present : Bool}
    (done : e.existsImpl place w cs = .done present w' rest) : present = w.temp.exists_ (tempPath place) := by
  obtain ⟨pending,w₁,_,asked,answered⟩ := bind_done w cs done
  rw [Engine.pendingStat,temp,if_pos rfl] at asked
  cases asked
  dsimp only at answered
  rw [temp,if_pos rfl,bind_run (get_apply _ _)] at answered
  cases answered
  rfl

theorem listImpl_temp {place : Text} (temp : isTempPath place = true) {entries : List VfsFileInfo}
    (done : e.listImpl config place w cs = .done entries w' rest) : entries = tempEntries place w ∧ w' = w := by
  rw [Engine.listImpl,temp,if_pos rfl] at done
  obtain ⟨-,env,made⟩ := call_done done
  rw [tempEntries]
  split at made
  next known =>
    cases made
    rw [if_pos known]
    exact ⟨rfl,rfl⟩
  next => cases made

/-- Clearing a place of the temporary directory deletes its victims. -/
theorem clearThumbDir_temp {thumbDir place root name : Text} (at_ : TempPlace place root name)
    (valid : validateFileOperation decode thumbDir = .ok place)
    (plain : ∀ path ∈ w.temp.files.keys ++ w.temp.dirs.keys, '\\' ∉ path)
    {entries : List VfsFileInfo} (known : tempEntries place w = entries)
    {w₁ : World} (same : tempEntries place w₁ = entries) {results : List (Except VfsError VfsFileInfo)}
    (done : clearThumbDir e config decode thumbDir w₁ cs = .done results w' rest)
    (succeeded : ∀ result ∈ results, ∃ info, result = .ok info) :
    Deleted e (victims place w₁) w₁.temp w'.temp ∧ results.length = (victims place w₁).length := by
  obtain ⟨place',valid',ran⟩ := clearThumbDir_done done
  rw [valid] at valid'
  cases valid'
  rcases ran with ⟨_,absent,rfl,rfl⟩ | ⟨_,listed,middle,_,-,listing,deleting⟩
  · have nothing := existsImpl_temp at_.temp absent
    have missing : w'.temp.dirs.lookup (root ++ name) = none := by
      rw [← Option.not_isSome_iff_eq_none]
      intro found
      rw [at_.tempPath,exists_of_dir at_.unslashed found] at nothing
      cases nothing
    have empty : victims place w' = [] := by
      rw [victims,tempEntries,at_.tempPath,missing]
      rfl
    rw [empty]
    exact ⟨.nil _,rfl⟩
  · obtain ⟨rfl,rfl⟩ := listImpl_temp at_.temp listing
    have child : ∀ entry ∈ tempEntries place middle, ∃ name, name ≠ [] ∧ '/' ∉ name ∧ '\\' ∉ name ∧
        entry.path = place ++ '/'::name := by
      intro entry member
      rw [same,← known] at member
      obtain ⟨-,child,filled,slashless,kind⟩ := (mem_tempEntries at_).mp member
      have inside : root ++ name ++ '/'::child ∈ w.temp.files.keys ++ w.temp.dirs.keys := by
        rw [List.mem_append]
        rcases kind with ⟨data,found,-⟩ | ⟨dir,-⟩
        · exact .inl (AList.mem_keys.mp (AList.lookup_isSome.mp (Option.isSome_iff_exists.mpr ⟨data,found⟩)))
        · exact .inr (AList.mem_keys.mp (AList.lookup_isSome.mp dir))
      have portable : '\\' ∉ child := by
        intro back
        exact plain _ inside (List.mem_append_right _ (List.mem_cons_of_mem _ back))
      rcases kind with ⟨data,-,rfl⟩ | ⟨-,rfl⟩
      · exact ⟨child,filled,slashless,portable,rfl⟩
      · exact ⟨child,filled,slashless,portable,rfl⟩
    obtain ⟨tail,leading⟩ : ∃ tail, place = logicalTempPrefix ++ tail := isTempPath_iff.mp at_.temp
    apply deleteEntries_done _ _ deleting succeeded
    · intro entry member
      obtain ⟨child,-,-,-,path⟩ := child entry member
      rw [path,leading,List.append_assoc]
      exact isTempPath_iff.mpr ⟨_,rfl⟩
    · intro entry member q accepted
      obtain ⟨child,filled,slashless,portable,path⟩ := child entry member
      apply validated_same _ _ _ accepted
      · rw [path,leading]
        exact ⟨_,rfl⟩
      · rw [path,List.mem_append,List.mem_cons]
        rintro (back | slash | back)
        · exact at_.portable back
        · cases slash
        · exact portable back
      · rw [path]
        exact getLast_named filled slashless

end runs

/-! ### Both directories -/

section directory
variable {e : Engine} {config : ListConfig} {decode : Text → Option Text} {dirPath : Text} {w w' : World}
  {cs rest : List (Choice EngineEnv)} {results : List (Except VfsError VfsFileInfo)}

/-- Thumbnails are cleared, and as many counted as there were, exactly where they lie in the
temporary directory as files that no protection covers; elsewhere where there were none. -/
theorem thumbnails_cleared_iff (kept : Kept e decode dirPath w)
    (done : clearDirectoryThumbnails e config decode dirPath w cs = .done results w' rest)
    (succeeded : ∀ result ∈ results, ∃ info, result = .ok info) :
    Cleared e decode dirPath w w' results.length ↔ ∀ place ∈ places decode dirPath, Clearable e place w := by
  obtain ⟨first,w₁,later,cleared,others⟩ := bind_done w cs done
  obtain ⟨second,w₂,later',cleared',returned⟩ := bind_done _ _ others
  cases returned
  obtain ⟨p,valid,-⟩ := clearThumbDir_done cleared
  obtain ⟨q,valid',-⟩ := clearThumbDir_done cleared'
  have both : places decode dirPath = [p,q] := by
    rw [places,List.filterMap_cons_some (by rw [valid]; rfl),List.filterMap_cons_some (by rw [valid']; rfl)]
    rfl
  have at_ : p = placeBase dirPath ++ '/'::thumbnailDirName :=
    validated_named (by decide) (by decide) (by decide) valid
  have at' : q = placeBase dirPath ++ '/'::legacyThumbnailDirName :=
    validated_named (by decide) (by decide) (by decide) valid'
  have portable : '\\' ∉ placeBase dirPath := withSlashes_no_backslash _
  obtain ⟨uncached,placed,plain⟩ := kept
  rw [both] at placed
  have split : Cleared e decode dirPath w w' (first ++ second).length ↔ (remaining e p w' = [] ∧ remaining e q w' = []) ∧
      first.length + second.length = (remaining e p w).length + (remaining e q w).length := by
    rw [List.length_append]
    constructor
    · rintro ⟨gone,counted⟩
      rw [both] at gone counted
      refine ⟨⟨gone p (by simp),gone q (by simp)⟩,?_⟩
      simpa using counted
    · rintro ⟨⟨gone,gone'⟩,counted⟩
      constructor
      · rw [both]
        intro place member
        simp only [List.mem_cons,List.not_mem_nil,or_false] at member
        rcases member with rfl | rfl
        · exact gone
        · exact gone'
      · rw [both]
        simpa using counted
  have each : (∀ place ∈ places decode dirPath, Clearable e place w) ↔ Clearable e p w ∧ Clearable e q w := by
    rw [both]
    simp
  rw [split,each]
  cases temp : isTempPath p with
  | false =>
    have lasting : isTempPath q = false := by
      rw [← Bool.not_eq_true]
      intro inside
      rw [at'] at inside
      obtain ⟨tail,base⟩ := isTempPath_named (.inr rfl) inside
      have outside : isTempPath p = true := by
        rw [at_,base,List.append_assoc]
        exact isTempPath_iff.mpr ⟨_,rfl⟩
      rw [temp] at outside
      cases outside
    have thumbs : IsPlace p := at_ ▸ isPlace_fileuni _
    have thumbs' : IsPlace q := at' ▸ isPlace_legacy _
    have shaped {path place : Text} (valid : validateFileOperation decode path = .ok place) (thumbs : IsPlace place) :
        FileShaped place := by
      rcases accepted_cases valid with root | ⟨kept,-,leading,named,plain,-⟩
      · exact absurd root thumbs.nested
      · rw [leading]
        exact fileShaped_of_named named plain
    obtain ⟨rfl,same⟩ := clearThumbDir_lasting valid temp thumbs (pendingInfos_place e thumbs (shaped valid thumbs) uncached) (placed p (by simp))
      (untouched_self w) cleared
    obtain ⟨rfl,same'⟩ := clearThumbDir_lasting valid' lasting thumbs' (pendingInfos_place e thumbs' (shaped valid' thumbs') uncached) (placed q (by simp))
      same cleared'
    rw [remaining_untouched temp same',remaining_untouched lasting same']
    unfold Clearable
    rw [temp,lasting,if_neg Bool.false_ne_true,if_neg Bool.false_ne_true]
    constructor
    · exact fun cleared => cleared.1
    · rintro ⟨gone,gone'⟩
      refine ⟨⟨gone,gone'⟩,?_⟩
      rw [gone,gone']
      rfl
  | true =>
    rw [at_] at temp
    obtain ⟨tail,base⟩ := isTempPath_named (.inl rfl) temp
    have here := tempPlace_of_base base portable (.inl rfl)
    have there := tempPlace_of_base base portable (.inr rfl)
    rw [← at_] at here
    rw [← at'] at there
    have differ : thumbnailDirName ≠ legacyThumbnailDirName := by decide
    have succeeded₁ := fun result member => succeeded result (List.mem_append_left second member)
    have succeeded₂ := fun result member => succeeded result (List.mem_append_right first member)
    obtain ⟨deleted,counted⟩ := clearThumbDir_temp here valid plain rfl rfl cleared succeeded₁
    have waiting : tempEntries q w₁ = tempEntries q w := tempEntries_apart here there differ deleted
    obtain ⟨deleted',counted'⟩ := clearThumbDir_temp there valid' plain rfl waiting cleared' succeeded₂
    have settled : tempEntries p w' = tempEntries p w₁ := tempEntries_apart there here differ.symm deleted'
    have victims' : victims q w₁ = victims q w := by rw [victims,waiting,victims]
    have after : remaining e p w' = remaining e p w₁ := by
      rw [remaining_temp e here.temp,remaining_temp e here.temp,settled]
    have before : remaining e q w₁ = remaining e q w := by
      rw [remaining_temp e there.temp,remaining_temp e there.temp,waiting]
    have clear : Clearable e q w₁ ↔ Clearable e q w := by
      unfold Clearable
      rw [there.temp,if_pos rfl,if_pos rfl,waiting]
    rw [counted,counted',after,← before,← clear]
    have atMost := remaining_le e (w := w) here.temp
    have atMost' := remaining_le e (w := w₁) there.temp
    constructor
    · rintro ⟨⟨gone,gone'⟩,sums⟩
      refine ⟨clearable_of_cleared here deleted gone (by omega),?_⟩
      exact clearable_of_cleared there deleted' gone' (by omega)
    · rintro ⟨clearable,clearable'⟩
      refine ⟨⟨remaining_cleared here clearable deleted,remaining_cleared there clearable' deleted'⟩,?_⟩
      have only (place : Text) (world : World) (temp : isTempPath place = true) (clearable : Clearable e place world) :
          (victims place world).length = (remaining e place world).length := by
        rw [Clearable,if_pos temp] at clearable
        exact (all_files e temp).mpr fun entry member named => (clearable entry member named).1
      rw [only p w here.temp clearable,only q w₁ there.temp clearable']

end directory

/-! ### Two directories -/

/-- A picture with its thumbnail, in a directory of the storage. -/
def pictureWorld : World := worldOf
  [("u/d/a.jpg".toList,[1]),("u/d/.fileuni-thumbnail/a.webp".toList,[2])]
  ["u/d".toList,"u/d/.fileuni-thumbnail".toList] []

/-- The same thumbnail and a marker, in a directory of the temporary directory. -/
def temporaryWorld : World :=
  let files : Store Text Bytes := AList.insert "d/.fileuni-thumbnail/a.webp".toList [2]
    (AList.insert "d/.fileuni-thumbnail/.disabled".toList [] ∅)
  let dirs : Store Text Unit := AList.insert "d".toList () (AList.insert "d/.fileuni-thumbnail".toList () ∅)
  { worldOf [] [] [] with temp := ⟨files,dirs⟩ }

/-- The thumbnail in the temporary directory is cleared and counted. -/
theorem thumbnails_cleared_temporary : ∃ results w' rest,
    clearDirectoryThumbnails plainEngine plainConfig decodeAscii "/.virtual/tmp/d".toList temporaryWorld [] =
      .done results w' rest ∧ results.length = 1 ∧
        Cleared plainEngine decodeAscii "/.virtual/tmp/d".toList temporaryWorld w' results.length := by
  have value : (clearDirectoryThumbnails plainEngine plainConfig decodeAscii "/.virtual/tmp/d".toList
      temporaryWorld []).value?.isSome = true := by decide +kernel
  have all : ((clearDirectoryThumbnails plainEngine plainConfig decodeAscii "/.virtual/tmp/d".toList
      temporaryWorld []).value?.map fun results => (results.all fun result => result.toOption.isSome,results.length)) =
        some (true,1) := by decide +kernel
  obtain ⟨results,w',rest,done⟩ := Outcome.done_of_value value
  rw [done] at all
  obtain ⟨passed,one⟩ := Prod.mk.inj (Option.some.inj all)
  have succeeded : ∀ result ∈ results, ∃ info, result = .ok info := by
    intro result member
    have some_ := List.all_eq_true.mp passed result member
    cases result with
    | ok info => exact ⟨info,rfl⟩
    | error err => cases some_
  have kept : Kept plainEngine decodeAscii "/.virtual/tmp/d".toList temporaryWorld := by
    refine ⟨?_,?_,by decide +kernel⟩
    · intro r record found
      cases found
    · intro place _ row member
      cases member
  have clearable : ∀ place ∈ places decodeAscii "/.virtual/tmp/d".toList,
      Clearable plainEngine place temporaryWorld := by
    unfold Clearable
    decide +kernel
  exact ⟨results,w',rest,done,one,(thumbnails_cleared_iff kept done succeeded).mpr clearable⟩

/-- The one on the storage is hidden from the listing, and stays. -/
theorem thumbnail_left : ∃ w' rest,
    clearDirectoryThumbnails plainEngine plainConfig decodeAscii "/d".toList pictureWorld [] = .done [] w' rest ∧
      ¬Cleared plainEngine decodeAscii "/d".toList pictureWorld w' 0 := by
  have value : (clearDirectoryThumbnails plainEngine plainConfig decodeAscii "/d".toList
      pictureWorld []).value?.map List.length = some 0 := by decide +kernel
  have left : remaining plainEngine "/d/.fileuni-thumbnail".toList
      (clearDirectoryThumbnails plainEngine plainConfig decodeAscii "/d".toList pictureWorld []).state =
        ["a.webp".toList] := by decide +kernel
  have place : "/d/.fileuni-thumbnail".toList ∈ places decodeAscii "/d".toList := by decide +kernel
  cases outcome : clearDirectoryThumbnails plainEngine plainConfig decodeAscii "/d".toList pictureWorld [] with
  | done results w' rest =>
    rw [outcome] at value left
    obtain rfl := List.length_eq_zero_iff.mp (Option.some.inj value)
    refine ⟨w',rest,rfl,fun cleared => ?_⟩
    have gone := cleared.gone _ place
    have same : remaining plainEngine "/d/.fileuni-thumbnail".toList w' = ["a.webp".toList] := left
    rw [same] at gone
    cases gone
  | failed err w' rest =>
    rw [outcome] at value
    cases value
  | crashed w' =>
    rw [outcome] at value
    cases value

end StorageHub.Thumbnails
