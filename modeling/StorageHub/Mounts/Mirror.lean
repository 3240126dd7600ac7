import StorageHub.Mounts.TwoPools
import StorageHub.Library.Steady

/-! A mirror run: what the source lists is copied where it differs, and what only the
destination lists is deleted. -/
namespace StorageHub.Mounts
open Library WriteCache Paths Scoped Effect

/-- A file of the source that is copied, by what the two sides list. -/
def Copies (source target : Sight) (path : List Text) : Prop :=
  ∃ data modified, source path = some (.file data modified) ∧ ∀ data' modified',
    target path = some (.file data' modified') → compareModified modified modified' = .gt ∨ data.length ≠ data'.length

/-- Every file of the source is in the destination, with its content if it was copied. No
other file is there when extras are deleted, and every file stays that no copy uses up when
they are not. -/
structure Mirrors (scratch : List Text → List Text → Prop) (deleteExtras : Bool) (source target final : Sight) : Prop where
  present {path : List Text} : path ≠ [] → source.hasFile path → final.hasFile path
  content {path : List Text} {data : Bytes} {modified : Option Int} : path ≠ [] → Copies source target path →
    source path = some (.file data modified) → ∃ modified', final path = some (.file data modified')
  only {path : List Text} : deleteExtras = true → path ≠ [] → final.hasFile path → source.hasFile path
  spared {path : List Text} : deleteExtras = false → target.hasFile path →
    (∀ copied, Copies source target copied → ¬scratch copied path) → final.hasFile path

/-- A mirror can be made. No file of the source is used up by a copy or lies above
something else, nothing is a file on one side and a directory on the other, and what only the
destination lists lies above no file of the source, unless it is a file that no copy uses up. -/
structure Mirrorable (scratch : List Text → List Text → Prop) (source target : Sight) : Prop where
  unused {path other : List Text} : Copies source target path → source.hasFile other → ¬scratch path other
  tree {path below : List Text} : source.hasFile path → source below ≠ none → path <+: below → path = below
  apart {path : List Text} : source.hasFile path → target path ≠ some .dir
  solid {path : List Text} : target.hasFile path → source path ≠ some .dir
  clear {path above : List Text} : source.hasFile path → above <+: path → above ≠ path → above ≠ [] →
    target above ≠ none → source above = none →
    target.hasFile above ∧ ∀ copied, Copies source target copied → ¬scratch copied above

section mirror
variable {σ ω : Type} {srcStorage dstStorage : VfsStorage σ ω} {srcRoot dstRoot : Text}
  {srcLeads leads : Text → List Text → Prop} {srcScratch scratch : List Text → List Text → Prop}
  {inv : σ → Prop} {srcLook look : σ → Sight} {source target sight sight' sight'' : Sight} {path : List Text} {finished : Set (List Text)}
  {sourceMap dstMap : TreeMap} {hashing : Hashing} {debugList : List Text → Text} {fuel : Nat}

/-! ### The copies -/

/-- How far the copies have come. -/
structure Copied (scratch : List Text → List Text → Prop) (source target : Sight) (finished : Set (List Text))
    (sight : Sight) : Prop where
  arrived {path : List Text} {data : Bytes} {modified : Option Int} : path ∈ finished → Copies source target path →
    source path = some (.file data modified) → ∃ modified', sight path = some (.file data modified')
  kept {path : List Text} : target.hasFile path → (∀ copied, Copies source target copied → ¬scratch copied path) →
    sight.hasFile path
  only {path : List Text} : sight.hasFile path → target.hasFile path ∨ source.hasFile path
  free {path : List Text} : source.hasFile path → sight path ≠ some .dir

theorem hasFile_of {data : Bytes} {modified : Option Int} (here : sight path = some (.file data modified)) :
    sight.hasFile path := ⟨data,modified,here⟩

theorem hasFile_ne_none (file : sight.hasFile path) : sight path ≠ none := by
  obtain ⟨data,modified,here⟩ := file
  rw [here]
  exact Option.some_ne_none _

/-- A copy brings its file and uses up no other that is needed. -/
theorem Copied.write (able : Mirrorable scratch source target)
    (copied : Copied scratch source target finished sight) (copies : Copies source target path) {data : Bytes}
    {modified modified' : Option Int} (here : source path = some (.file data modified))
    (there : sight' path = some (.file data modified')) (written : Written scratch path sight sight') :
    Copied scratch source target (insert path finished) sight' := by
  have stays {place : List Text} (file : sight.hasFile place) (free : ¬scratch path place) (differ : place ≠ path) :
      sight' place = sight place := by
    rcases written place differ with same | ⟨none_,-⟩ | ⟨-,used⟩
    · exact same
    · exact absurd none_ (hasFile_ne_none file)
    · exact absurd used free
  constructor
  · intro place data₁ modified₁ member copies₁ here₁
    by_cases same : place = path
    · rw [same] at here₁ ⊢
      rw [here] at here₁
      cases here₁
      exact ⟨modified',there⟩
    · obtain ⟨modified₂,there₂⟩ := copied.arrived (Set.mem_of_mem_insert_of_ne member same) copies₁ here₁
      have free := able.unused copies (hasFile_of here₁)
      exact ⟨modified₂,(stays (hasFile_of there₂) free same).trans there₂⟩
  · intro place file free
    by_cases same : place = path
    · rw [same]
      exact hasFile_of there
    · obtain ⟨data₂,modified₂,there₂⟩ := copied.kept file free
      exact ⟨data₂,modified₂,(stays (hasFile_of there₂) (free path copies) same).trans there₂⟩
  · intro place file
    obtain ⟨data₂,modified₂,there₂⟩ := file
    by_cases same : place = path
    · rw [same]
      exact .inr (hasFile_of here)
    · rcases written place same with kept | ⟨-,dir,-⟩ | ⟨none_,-⟩
      · exact copied.only ⟨data₂,modified₂,kept.symm.trans there₂⟩
      · rw [dir] at there₂
        cases there₂
      · rw [none_] at there₂
        cases there₂
  · intro place file dir
    by_cases same : place = path
    · rw [same,there] at dir
      cases dir
    · rcases written place same with kept | ⟨-,-,above⟩ | ⟨none_,-⟩
      · exact copied.free file (kept.symm.trans dir)
      · have present : source path ≠ none := by rw [here]; exact Option.some_ne_none _
        exact same (able.tree file present above)
      · rw [none_] at dir
        cases dir

/-! ### The deletions -/

/-- What is listed by the destination alone. -/
def Extra (source target : Sight) (path : List Text) : Prop := path ≠ [] ∧ target path ≠ none ∧ source path = none

/-- How far the deletions have come since the copies. -/
structure Pruned (source target copied : Sight) (gone : Set (List Text)) (sight : Sight) : Prop where
  files {path : List Text} : source.hasFile path → sight path = copied path
  only {path : List Text} : sight.hasFile path → copied.hasFile path
  removed {path : List Text} : path ∈ gone → ¬sight.hasFile path
  waiting {path below : List Text} : Extra source target path → source.hasFile below → path <+: below → path ∉ gone →
    sight.hasFile path

/-- A deletion takes no file that the source has. -/
theorem Pruned.delete {copied : Sight} {gone : Set (List Text)} (pruned : Pruned source target copied gone sight)
    (whole : ∀ path, source.hasFile path → copied.hasFile path) (extra : Extra source target path) (fresh : path ∉ gone)
    (deleted : Deleted path sight sight') : Pruned source target copied (insert path gone) sight' := by
  -- what lies at or above a file of the source stays, if it is not the path itself
  have stays {place below : List Text} (file : sight.hasFile place) (needed : source.hasFile below)
      (above : place <+: below) (differ : place ≠ path) : sight' place = sight place := by
    rcases deleted.2 place differ with same | ⟨-,dir | ⟨within,noFile⟩⟩
    · exact same
    · obtain ⟨data,modified,there⟩ := file
      rw [dir] at there
      cases there
    · exact absurd (pruned.waiting extra needed (within.trans above) fresh) noFile
  have unlisted {place : List Text} (needed : source.hasFile place) : place ≠ path := by
    rintro rfl
    exact hasFile_ne_none needed extra.2.2
  have shrinks {place : List Text} (file : sight'.hasFile place) : sight.hasFile place := by
    obtain ⟨data,modified,there⟩ := file
    by_cases same : place = path
    · rw [same,deleted.1] at there
      cases there
    · rcases deleted.2 place same with kept | ⟨gone,-⟩
      · exact ⟨data,modified,kept.symm.trans there⟩
      · rw [gone] at there
        cases there
  constructor
  · intro place needed
    have file : sight.hasFile place := by
      obtain ⟨data,modified,there⟩ := whole place needed
      exact ⟨data,modified,(pruned.files needed).trans there⟩
    rw [stays file needed List.prefix_rfl (unlisted needed),pruned.files needed]
  · exact fun file => pruned.only (shrinks file)
  · intro place member file
    rcases Set.mem_insert_iff.mp member with rfl | before
    · obtain ⟨data,modified,there⟩ := file
      rw [deleted.1] at there
      cases there
    · exact pruned.removed before (shrinks file)
  · intro place below extra' needed above outside
    rw [Set.mem_insert_iff,not_or] at outside
    have file := pruned.waiting extra' needed above outside.2
    obtain ⟨data,modified,there⟩ := file
    exact ⟨data,modified,(stays (hasFile_of there) needed above outside.1).trans there⟩

/-! ### The decisions -/

/-- A file is copied as the two listings tell. -/
theorem shouldCopy_iff {info : FileInfo} (maps : Maps leads target dstMap)
    (named : ∀ path, target path ≠ none → ∀ name ∈ path, Segment name) (given : path ≠ [])
    (segments : ∀ name ∈ path, Segment name) {data : Bytes} {modified : Option Int}
    (here : source path = some (.file data modified)) (size : info.size = data.length) (time : info.modified = modified) :
    shouldCopy info (dstMap.get? (relativeText path)) = true ↔ Copies source target path := by
  have copies_iff : Copies source target path ↔ ∀ data' modified', target path = some (.file data' modified') →
      compareModified modified modified' = .gt ∨ data.length ≠ data'.length := by
    constructor
    · rintro ⟨data₁,modified₁,here₁,copies⟩
      rw [here] at here₁
      cases here₁
      exact copies
    · exact fun copies => ⟨data,modified,here,copies⟩
  rw [copies_iff]
  cases found : dstMap.get? (relativeText path) with
  | none =>
    have nothing := maps.absent given found
    rw [shouldCopy]
    simp [nothing]
  | some info' =>
    obtain ⟨item,there,tells,-⟩ := maps.found named segments found
    rw [shouldCopy,there]
    cases item with
    | dir =>
      have dir : info'.isDir = true := tells
      simp [dir]
    | file data' modified' =>
      obtain ⟨file,size',time'⟩ := tells
      rw [file,size,size',time,time']
      simp

/-! ### The extra paths -/

theorem pathDepth_append (front rest : Text) : pathDepth (front ++ '/'::rest) = pathDepth front + pathDepth rest := by
  rw [pathDepth,List.splitOn_append_cons_self,List.filter_append,List.length_append]
  rfl

theorem pathDepth_slashes {slashes : Text} (all : ∀ c ∈ slashes, c = '/') (front : Text) :
    pathDepth (front ++ slashes) = pathDepth front := by
  induction slashes using List.reverseRecOn with
  | nil => rw [List.append_nil]
  | append_singleton init last ih =>
    rw [all last (List.mem_append_right _ List.mem_cons_self),← List.append_assoc,pathDepth_append,
      ih fun c member => all c (List.mem_append_left _ member)]
    rfl

theorem pathDepth_trimEnd (text : Text) : pathDepth (Text.trimEnd '/' text) = pathDepth text := by
  obtain ⟨slashes,split,all⟩ := trimEnd_split text
  conv => rhs; rw [split]
  exact (pathDepth_slashes all _).symm

theorem pathDepth_relativeText (given : path ≠ []) (segments : ∀ name ∈ path, Segment name) :
    pathDepth (relativeText path) = path.length := by
  rw [pathDepth,splitOn_relativeText given segments,List.filter_eq_self.mpr]
  intro name member
  simp [(segments name member).given]

/-- What the source does not list is extra. -/
theorem isExtra_of_absent (dstRoot : Text) (given : path ≠ []) (segments : ∀ name ∈ path, Segment name)
    (absent : sourceMap.get? (relativeText path) = none) : isExtra dstRoot sourceMap (relativeText path) = true := by
  have some_ := relativeText_ne_nil given segments
  have parts := splitOn_relativeText given segments
  have noDot : relativeText path ≠ ['.'] := by
    intro same
    rw [same] at parts
    exact (segments ['.'] (by rw [← parts]; decide)).noDot rfl
  have noSlash : relativeText path ≠ ['.','/'] := by
    intro same
    rw [same] at parts
    exact (segments ['.'] (by rw [← parts]; decide)).noDot rfl
  have joined : Text.trimEnd '/' (joinRoot dstRoot (relativeText path)) =
      Text.trimEnd '/' dstRoot ++ '/'::relativeText path := by
    rw [joinRoot_eq dstRoot given segments]
    apply trimEnd_plain
    rw [List.getLast?_append_of_ne_nil _ (List.cons_ne_nil _ _),List.getLast?_cons_of_ne_nil some_]
    exact last_relativeText given segments
  have depth : pathDepth (Text.trimEnd '/' dstRoot) < pathDepth (Text.trimEnd '/' dstRoot ++ '/'::relativeText path) := by
    rw [pathDepth_append,pathDepth_relativeText given segments]
    have positive := List.length_pos_iff.mpr given
    omega
  have notDot : Text.trimEnd '/' dstRoot ++ '/'::relativeText path ≠ Text.trimEnd '/' dstRoot ++ ['/','.'] := by
    intro same
    exact noDot (List.cons.inj (List.append_cancel_left same)).2
  have notRoot : Text.trimEnd '/' dstRoot ++ '/'::relativeText path ≠ Text.trimEnd '/' dstRoot :=
    fun same => List.cons_ne_nil _ _ (List.append_right_eq_self.mp same)
  rw [isExtra,joined,absent]
  simp [some_,noDot,noSlash,notDot,depth]

/-! ### The run -/

section run
variable {entries : TreeMap}

/-- Only directories have come to be, and none where the source has a file. -/
def DirsDone (source target sight : Sight) : Prop :=
  ∀ place, sight place = target place ∨ target place = none ∧ sight place = some .dir ∧ ¬source.hasFile place

theorem DirsDone.file (done : DirsDone source target sight) : sight.hasFile path ↔ target.hasFile path := by
  unfold Sight.hasFile
  rcases done path with same | ⟨none_,dir,-⟩
  · rw [same]
  · rw [none_,dir]
    simp

theorem createDirs_ensures (side : Side dstStorage dstRoot leads scratch inv look srcLook) (mapped : Maps srcLeads source sourceMap)
    (named : ∀ path, source path ≠ none → ∀ name ∈ path, Segment name) (able : Mirrorable scratch source target)
    (dirs : ∀ entry ∈ entries, entry ∈ sourceMap ∧ entry.2.isDir = true) (fail : Text × FileInfo → VfsError → VfsError) :
    Ensures (fun s => Stays inv srcLook source s ∧ DirsDone source target (look s))
      (forEach (fun entry => (do
        let _ ← dstStorage.createDirAll (joinRoot dstRoot entry.1)
        pure ()).mapError (fail entry)) entries)
      fun _ s => Stays inv srcLook source s ∧ DirsDone source target (look s) := by
  apply @meets_forEach σ ω (fun _ => True) (Text × FileInfo) _
    (fun _ s => Stays inv srcLook source s ∧ DirsDone source target (look s)) (fun _ _ => True)
  intro entry rest member
  obtain ⟨inside,isDir⟩ := dirs entry member
  obtain ⟨path,item,key,-,here,tells⟩ := mapped.sound entry inside
  have segments := named path (by rw [here]; exact Option.some_ne_none _)
  have dir := dir_of_matches tells isDir
  rw [dir] at here
  have leading : leads (joinRoot dstRoot entry.1) path := by
    by_cases given : path = []
    · rw [key,given]
      exact side.top
    · rw [key]
      exact side.inside given segments
  apply Meets.mapError
  apply ensures_of_sights
  intro sight done
  have free : ¬sight.hasFile path := fun file => able.solid (done.file.mp file) here
  apply Meets.bind (side.createDirAll leading free)
  intro _
  apply Meets.pure
  rintro s ⟨same,-,adds⟩
  refine ⟨same,?_⟩
  intro place
  rcases adds place with kept | ⟨none_,dir',above⟩
  · rw [kept]
    exact done place
  · rcases done place with before | ⟨_,dir'',-⟩
    · refine .inr ⟨before.symm.trans none_,dir',?_⟩
      intro file
      have present : source path ≠ none := by rw [here]; exact Option.some_ne_none _
      rw [able.tree file present above] at file
      obtain ⟨data,modified,there⟩ := file
      rw [here] at there
      cases there
    · rw [none_] at dir''
      cases dir''

/-- What the copies of some entries, all but those that are left, have finished. -/
def finishedBy (entries left : TreeMap) : Set (List Text) :=
  {path | ∃ entry ∈ entries, entry.1 = relativeText path ∧ entry ∉ left}

theorem Copied.weaken {finished' : Set (List Text)} (copied : Copied scratch source target finished sight)
    (fewer : ∀ path, Copies source target path → path ∈ finished' → path ∈ finished) :
    Copied scratch source target finished' sight :=
  ⟨fun member copies => copied.arrived (fewer _ copies member) copies,copied.kept,copied.only,copied.free⟩

theorem copyFiles_ensures (side : Side dstStorage dstRoot leads scratch inv look srcLook)
    (src : Side srcStorage srcRoot srcLeads srcScratch inv srcLook look) (mapped : Maps srcLeads source sourceMap)
    (mapped' : Maps leads target dstMap) (named : ∀ path, source path ≠ none → ∀ name ∈ path, Segment name)
    (named' : ∀ path, target path ≠ none → ∀ name ∈ path, Segment name) (noFile : ¬source.hasFile [])
    (able : Mirrorable scratch source target)
    (files : ∀ entry ∈ entries, entry ∈ sourceMap ∧ entry.2.isDir = false)
    (fail : Text × FileInfo → VfsError → VfsError) :
    Ensures (fun s => Stays inv srcLook source s ∧ Copied scratch source target (finishedBy entries entries) (look s))
      (forEach (fun entry =>
        if shouldCopy entry.2 (dstMap.get? entry.1) then
          (copyFileBetween srcStorage entry.2.path dstStorage (joinRoot dstRoot entry.1)).mapError (fail entry)
        else pure ()) entries)
      fun _ s => Stays inv srcLook source s ∧ Copied scratch source target (finishedBy entries []) (look s) := by
  apply @meets_forEach σ ω (fun _ => True) (Text × FileInfo) _
    (fun left s => Stays inv srcLook source s ∧ Copied scratch source target (finishedBy entries left) (look s)) (fun _ _ => True)
  intro entry rest member
  obtain ⟨inside,file⟩ := files entry member
  obtain ⟨path,item,key,leading,here,tells⟩ := mapped.sound entry inside
  obtain ⟨data,modified,rfl,size,time⟩ := file_of_matches tells file
  have segments := named path (by rw [here]; exact Option.some_ne_none _)
  have given : path ≠ [] := by
    rintro rfl
    exact noFile (hasFile_of here)
  have more {place : List Text} (copies : Copies source target place) (finished : place ∈ finishedBy entries rest) :
      place = path ∨ place ∈ finishedBy entries (entry::rest) := by
    obtain ⟨other,listed,key',left⟩ := finished
    by_cases same : other = entry
    · left
      obtain ⟨_,_,there,-⟩ := copies
      have segments' := named place (by rw [there]; exact Option.some_ne_none _)
      rw [same,key] at key'
      exact relativeText_inj segments' segments key'.symm
    · right
      refine ⟨other,listed,key',?_⟩
      intro again
      rcases List.mem_cons.mp again with equal | later
      · exact same equal
      · exact left later
  have decides := shouldCopy_iff mapped' named' given segments here size time
  rw [← key] at decides
  split
  next yes =>
    have copies := decides.mp yes
    apply Meets.mapError
    apply ensures_of_sights
    intro sight copied
    obtain ⟨init,name,rfl⟩ : ∃ init name, path = init ++ [name] := by
      rcases List.eq_nil_or_concat path with nothing | ⟨init,name,split⟩
      · exact absurd nothing given
      · exact ⟨init,name,split.trans (List.concat_eq_append ..)⟩
    rw [key]
    apply ensures_of_meets (copyFileBetween_ensures side src leading given (fun other member => segments other (List.mem_append_left _ member))
      (segments name (List.mem_append_right _ List.mem_cons_self)) (copied.free (hasFile_of here)))
    · exact fun _ seen => seen
    · rintro _ s ⟨same,⟨data',modified₁,modified₂,here',arrived⟩,written⟩
      refine ⟨same,?_⟩
      rw [here] at here'
      cases here'
      apply (copied.write able copies here arrived written).weaken
      intro place copies' finished
      exact more copies' finished
  next no =>
    apply Meets.pure
    rintro s ⟨same,copied⟩
    refine ⟨same,copied.weaken ?_⟩
    intro place copies finished
    rcases more copies finished with rfl | before
    · exact absurd (decides.mpr copies) no
    · exact before

/-- The extra paths are the texts of what only the destination lists. -/
theorem extraPaths_spec (side : Side dstStorage dstRoot leads scratch inv look srcLook) (hashing : Hashing)
    (mapped : Maps srcLeads source sourceMap) (mapped' : Maps leads target dstMap)
    (named : ∀ path, source path ≠ none → ∀ name ∈ path, Segment name)
    (named' : ∀ path, target path ≠ none → ∀ name ∈ path, Segment name) :
    (∀ text ∈ extraPaths hashing dstRoot sourceMap dstMap, ∃ path, Extra source target path ∧
        text = joinRoot dstRoot (relativeText path)) ∧
      (∀ path, Extra source target path → joinRoot dstRoot (relativeText path) ∈
        extraPaths hashing dstRoot sourceMap dstMap) ∧
      (extraPaths hashing dstRoot sourceMap dstMap).Nodup := by
  have keys_perm : ((hashing.order dstMap).map fun entry => entry.1).Perm dstMap.keys :=
    (hashing.order_perm dstMap).map _
  -- a key that is extra is that of a path that only the destination lists
  have extra {key : Text} (member : key ∈ ((hashing.order dstMap).map fun entry => entry.1).filter
      (isExtra dstRoot sourceMap)) : ∃ path, Extra source target path ∧ key = relativeText path ∧
        leads (joinRoot dstRoot key) path := by
    obtain ⟨listed,isExtra_⟩ := List.mem_filter.mp member
    obtain ⟨entry,inside,rfl⟩ := List.mem_map.mp (keys_perm.mem_iff.mp listed)
    obtain ⟨path,item,key,-,there,-⟩ := mapped'.sound entry inside
    have present : target path ≠ none := by rw [there]; exact Option.some_ne_none _
    rw [isExtra] at isExtra_
    simp only [Bool.and_eq_true,decide_eq_true_eq,Option.isNone_iff_eq_none] at isExtra_
    obtain ⟨⟨⟨⟨⟨⟨nonempty,-⟩,-⟩,absent⟩,-⟩,-⟩,-⟩ := isExtra_
    have given : path ≠ [] := by
      rintro rfl
      exact nonempty key
    rw [key] at absent ⊢
    exact ⟨path,⟨given,present,mapped.absent given absent⟩,rfl,side.inside given (named' path present)⟩
  have member_iff {text : Text} : text ∈ extraPaths hashing dstRoot sourceMap dstMap ↔
      text ∈ (((hashing.order dstMap).map fun entry => entry.1).filter (isExtra dstRoot sourceMap)).map
        (joinRoot dstRoot) := (List.mergeSort_perm _ _).mem_iff
  refine ⟨?_,?_,?_⟩
  · intro text member
    obtain ⟨key,inside,rfl⟩ := List.mem_map.mp (member_iff.mp member)
    obtain ⟨path,only,rfl,-⟩ := extra inside
    exact ⟨path,only,rfl⟩
  · intro path only
    obtain ⟨given,present,absent⟩ := only
    apply member_iff.mpr
    apply List.mem_map_of_mem
    apply List.mem_filter.mpr
    refine ⟨keys_perm.mem_iff.mpr (mapped'.complete given present),?_⟩
    apply isExtra_of_absent dstRoot given (named' path present)
    apply TreeMap.get?_none.mpr
    intro listed
    obtain ⟨entry,inside,key⟩ := List.mem_map.mp listed
    obtain ⟨path',item,key',-,here,-⟩ := mapped.sound entry inside
    have segments' := named path' (by rw [here]; exact Option.some_ne_none _)
    rw [relativeText_inj (named' path present) segments' (key.symm.trans key'),here] at absent
    cases absent
  · apply (List.mergeSort_perm _ _).nodup_iff.mpr
    apply List.Nodup.map_on _ ((keys_perm.nodup_iff.mpr mapped'.once).filter _)
    intro key inside key' inside' same
    obtain ⟨path,-,rfl,leading⟩ := extra inside
    obtain ⟨path',-,rfl,leading'⟩ := extra inside'
    rw [same] at leading
    rw [side.one leading leading']

theorem deleteExtras_ensures (side : Side dstStorage dstRoot leads scratch inv look srcLook) (hashing : Hashing) (fuel : Nat)
    (mapped : Maps srcLeads source sourceMap) (mapped' : Maps leads target dstMap)
    (named : ∀ path, source path ≠ none → ∀ name ∈ path, Segment name)
    (named' : ∀ path, target path ≠ none → ∀ name ∈ path, Segment name) {copied : Sight}
    (whole : ∀ path, source.hasFile path → copied.hasFile path)
    (ready : ∀ path below, Extra source target path → source.hasFile below → path <+: below → copied.hasFile path) :
    Ensures (fun s => Stays inv srcLook source s ∧ look s = copied)
      (deleteExtraPaths hashing fuel dstStorage dstRoot sourceMap dstMap)
      fun _ s => Stays inv srcLook source s ∧ Pruned source target copied {path | Extra source target path} (look s) := by
  obtain ⟨sound,complete,once⟩ := extraPaths_spec side hashing mapped mapped' named named'
  unfold deleteExtraPaths
  -- gone are the extra paths that are not left
  let left_ (left : List Text) (sight : Sight) : Prop := left.Nodup ∧
    Pruned source target copied {path | Extra source target path ∧ joinRoot dstRoot (relativeText path) ∉ left} sight
  have loop := @meets_forEach σ ω (fun _ => True) Text
    (fun path => (deletePathRecursive dstStorage fuel path).mapError
      (whileDoing ("Failed to delete mirror extra path '".toList ++ path ++ "'".toList)))
    (fun left s => Stays inv srcLook source s ∧ left_ left (look s)) (fun _ _ => True) (extraPaths hashing dstRoot sourceMap dstMap) ?_
  · apply ensures_of_meets loop
    · rintro s ⟨same,rfl⟩
      refine ⟨same,once,fun _ => rfl,id,?_,?_⟩
      · rintro path ⟨extra,outside⟩
        exact absurd (complete path extra) outside
      · exact fun extra needed above _ => ready _ _ extra needed above
    · rintro _ s ⟨same,-,pruned⟩
      refine ⟨same,pruned.files,pruned.only,?_,?_⟩
      · exact fun extra => pruned.removed ⟨extra,List.not_mem_nil⟩
      · exact fun extra needed above outside => absurd extra outside
  · intro text rest member
    obtain ⟨path,extra,rfl⟩ := sound text member
    have leading := side.inside extra.1 (named' path extra.2.1)
    apply Meets.mapError
    apply ensures_of_sights (P := left_ _) (Q := fun _ => left_ rest)
    rintro sight ⟨single,pruned⟩
    obtain ⟨fresh,once'⟩ := List.nodup_cons.mp single
    apply ensures_of_meets (deletePathRecursive_ensures side fuel leading extra.1 sight)
    · exact fun _ seen => seen
    · rintro _ s ⟨same,deleted⟩
      refine ⟨same,once',?_⟩
      have next := pruned.delete whole extra (fun inside => inside.2 List.mem_cons_self) deleted
      have gone : {path | Extra source target path ∧ joinRoot dstRoot (relativeText path) ∉ rest} = insert path
          {other | Extra source target other ∧ joinRoot dstRoot (relativeText other) ∉
            joinRoot dstRoot (relativeText path) :: rest} := by
        ext other
        rw [Set.mem_insert_iff,Set.mem_ofPred_eq,Set.mem_ofPred_eq,List.mem_cons,not_or]
        constructor
        · rintro ⟨extra',outside⟩
          by_cases same : joinRoot dstRoot (relativeText other) = joinRoot dstRoot (relativeText path)
          · left
            have leading' := side.inside extra'.1 (named' other extra'.2.1)
            rw [same] at leading'
            exact side.one leading' leading
          · exact .inr ⟨extra',same,outside⟩
        · rintro (rfl | ⟨extra',-,outside⟩)
          · exact ⟨extra,fresh⟩
          · exact ⟨extra',outside⟩
      rw [gone]
      exact next

section roots
variable {before : Sight}

/-- What is at a root matters to no copy below it. -/
theorem copies_congr (same : ∀ place, place ≠ [] → target place = before place) (given : path ≠ []) :
    Copies source target path ↔ Copies source before path := by
  rw [Copies,Copies,same path given]

theorem given_of_copies (noFile : ¬source.hasFile []) (copies : Copies source target path) : path ≠ [] := by
  rintro rfl
  obtain ⟨data,modified,here,-⟩ := copies
  exact noFile (hasFile_of here)

theorem Mirrorable.congr (able : Mirrorable scratch source before)
    (same : ∀ place, place ≠ [] → target place = before place) (noFile : ¬source.hasFile []) (noFile' : ¬target.hasFile []) :
    Mirrorable scratch source target := by
  have copies {place : List Text} (copied : Copies source target place) : Copies source before place :=
    (copies_congr same (given_of_copies noFile copied)).mp copied
  constructor
  · exact fun copied file => able.unused (copies copied) file
  · exact able.tree
  · intro path file dir
    have given : path ≠ [] := by
      rintro rfl
      exact noFile file
    exact able.apart file ((same path given).symm.trans dir)
  · intro path file dir
    have given : path ≠ [] := by
      rintro rfl
      exact noFile' file
    obtain ⟨data,modified,there⟩ := file
    exact able.solid ⟨data,modified,(same path given).symm.trans there⟩ dir
  · intro path above file within differ given present absent
    rw [same above given] at present
    obtain ⟨file',free⟩ := able.clear file within differ given present absent
    obtain ⟨data,modified,there⟩ := file'
    exact ⟨⟨data,modified,(same above given).trans there⟩,fun copied made => free copied (copies made)⟩

theorem Mirrors.congr {deleteExtras : Bool} {final : Sight} (mirrors : Mirrors scratch deleteExtras source target final)
    (same : ∀ place, place ≠ [] → target place = before place) (noFile : ¬source.hasFile []) (noFile' : ¬before.hasFile []) :
    Mirrors scratch deleteExtras source before final := by
  refine ⟨mirrors.present,?_,mirrors.only,?_⟩
  · exact fun given copies here => mirrors.content given ((copies_congr same given).mpr copies) here
  · intro path kept file free
    have given : path ≠ [] := by
      rintro rfl
      exact noFile' file
    obtain ⟨data,modified,there⟩ := file
    apply mirrors.spared kept ⟨data,modified,(same path given).trans there⟩
    exact fun copied copies => free copied ((copies_congr same (given_of_copies noFile copies)).mp copies)

end roots

/-- Once all is copied the destination has every file of the source. -/
theorem Copied.whole (copied : Copied scratch source target finished sight) (able : Mirrorable scratch source target)
    (all : ∀ path, source.hasFile path → path ∈ finished) (file : source.hasFile path) : sight.hasFile path := by
  by_cases copies : Copies source target path
  · obtain ⟨data,modified,here⟩ := file
    obtain ⟨modified',there⟩ := copied.arrived (all path (hasFile_of here)) copies here
    exact hasFile_of there
  · apply copied.kept
    · -- what is not copied is a file there already
      by_contra nothing
      apply copies
      obtain ⟨data,modified,here⟩ := file
      exact ⟨data,modified,here,fun _ _ there => absurd (hasFile_of there) nothing⟩
    · exact fun _ copies' => able.unused copies' file

/-- What is seen below a root has its entry. -/
theorem Maps.entry {item : Item} (maps : Maps srcLeads source sourceMap)
    (named : ∀ path, source path ≠ none → ∀ name ∈ path, Segment name) (given : path ≠ []) (here : source path = some item) :
    ∃ entry ∈ sourceMap, entry.1 = relativeText path ∧ Matches entry.2 item := by
  have present : source path ≠ none := by rw [here]; exact Option.some_ne_none _
  obtain ⟨entry,member,key⟩ := List.mem_map.mp (maps.complete given present)
  obtain ⟨path',item',key',-,here',tells⟩ := maps.sound entry member
  have segments' := named path' (by rw [here']; exact Option.some_ne_none _)
  rw [relativeText_inj (named path present) segments' (key.symm.trans key'),here'] at here
  cases here
  exact ⟨entry,member,key,tells⟩

/-- The directories that are made put no file away. -/
theorem DirsDone.copied (done : DirsDone source target sight) (able : Mirrorable scratch source target)
    (none_ : ∀ path, path ∉ finished) : Copied scratch source target finished sight := by
  constructor
  · exact fun member => absurd member (none_ _)
  · exact fun file _ => done.file.mpr file
  · exact fun file => .inl (done.file.mp file)
  · intro path file dir
    rcases done path with same | ⟨-,-,free⟩
    · exact able.apart file (same.symm.trans dir)
    · exact free file

theorem Copied.mirrors (copied : Copied scratch source target finished sight) (able : Mirrorable scratch source target)
    (all : ∀ path, source.hasFile path → path ∈ finished) : Mirrors scratch false source target sight := by
  constructor
  · exact fun _ file => copied.whole able all file
  · exact fun _ copies here => copied.arrived (all _ (hasFile_of here)) copies here
  · exact fun extras => absurd extras Bool.false_ne_true
  · exact fun _ file free => copied.kept file free

theorem Pruned.mirrors (copied : Copied scratch source target finished sight) (able : Mirrorable scratch source target)
    (all : ∀ path, source.hasFile path → path ∈ finished)
    (pruned : Pruned source target sight {path | Extra source target path} sight') :
    Mirrors scratch true source target sight' := by
  constructor
  · intro path _ file
    obtain ⟨data,modified,there⟩ := copied.whole able all file
    exact ⟨data,modified,(pruned.files file).trans there⟩
  · intro path data modified _ copies here
    obtain ⟨modified',there⟩ := copied.arrived (all _ (hasFile_of here)) copies here
    exact ⟨modified',(pruned.files (hasFile_of here)).trans there⟩
  · intro path _ given file
    rcases copied.only (pruned.only file) with old | file'
    · cases here : source path with
      | none => exact absurd file (pruned.removed ⟨given,hasFile_ne_none old,here⟩)
      | some item =>
        cases item with
        | dir => exact absurd here (able.solid old)
        | file data modified => exact ⟨data,modified,here⟩
    · exact file'
  · exact fun kept => absurd kept.symm Bool.false_ne_true

end run
end mirror

end StorageHub.Mounts
