import StorageHub.Mounts.TwoPools

/-! A run in both directions: what one side alone has comes to the other, of two files at
one path the later one does, and nothing is lost on the way. -/
namespace StorageHub.Mounts
open Library WriteCache Paths Scoped Effect

/-- A file that is there on one side goes to the other: it is alone or later. Of files of
one time and of different sizes the one on the left goes, as `wins` tells. -/
def Goes (wins : Bool) (from_ to_ : Sight) (path : List Text) : Prop :=
  ∃ data modified, from_ path = some (.file data modified) ∧ (to_ path = none ∨
    ∃ data' modified', to_ path = some (.file data' modified') ∧ (compareModified modified modified' = .gt ∨
      compareModified modified modified' = .eq ∧ data.length ≠ data'.length ∧ wins = true))

/-- No file of either side lies above what is on one of them, and no copy uses up the root
or what is listed. -/
structure Mergeable (leftScratch rightScratch : List Text → List Text → Prop) (left right : Sight) : Prop where
  tree {path below : List Text} : left.hasFile path ∨ right.hasFile path → left below ≠ none ∨ right below ≠ none →
    path <+: below → path = below
  unusedLeft {path other : List Text} : Goes false right left path →
    other = [] ∨ left other ≠ none ∨ right other ≠ none → ¬leftScratch path other
  unusedRight {path other : List Text} : Goes true left right path →
    other = [] ∨ left other ≠ none ∨ right other ≠ none → ¬rightScratch path other

/-- No file is a directory on the other side. -/
def Agree (left right : Sight) (path : List Text) : Prop :=
  (left.hasFile path → right path ≠ some .dir) ∧ (right.hasFile path → left path ≠ some .dir)

/-- What a side has after a run that `from_` copies to it where `goes` says so. -/
structure Merged (goes : List Text → Prop) (from_ before after : Sight) : Prop where
  moved {path : List Text} {data : Bytes} {modified : Option Int} : path ≠ [] → goes path →
    from_ path = some (.file data modified) → ∃ modified', after path = some (.file data modified')
  kept {path : List Text} : path ≠ [] → ¬goes path →
    after path = before path ∨ before path = none ∧ after path = some .dir
  dir {path : List Text} : path ≠ [] → from_ path = some .dir → after path = some .dir

/-- Both sides after a run. Nothing was a file on one side and a directory on the other. -/
structure Synced (left right left' right' : Sight) : Prop where
  onLeft : Merged (Goes false right left) right left left'
  onRight : Merged (Goes true left right) left right right'
  agree {path : List Text} : path ≠ [] → Agree left right path

section goes
variable {wins : Bool} {from_ to_ : Sight} {path : List Text}

theorem Goes.file (goes : Goes wins from_ to_ path) : from_.hasFile path := by
  obtain ⟨data,modified,here,-⟩ := goes
  exact ⟨data,modified,here⟩

theorem Goes.noDir (goes : Goes wins from_ to_ path) : to_ path ≠ some .dir := by
  obtain ⟨data,modified,-,none_ | ⟨data',modified',there,-⟩⟩ := goes
  · rw [none_]
    exact Option.some_ne_none _ |>.symm
  · rw [there]
    simp

theorem compareModified_swap (left right : Option Int) :
    compareModified right left = (compareModified left right).swap := by
  cases left with
  | none => cases right <;> rfl
  | some a =>
    cases right with
    | none => rfl
    | some b =>
      change compare b a = (compare a b).swap
      exact Std.OrientedCmp.eq_swap

/-- No file goes both ways. -/
theorem Goes.oneWay (goes : Goes true from_ to_ path) : ¬Goes false to_ from_ path := by
  obtain ⟨data,modified,here,there⟩ := goes
  rintro ⟨data',modified',there',here'⟩
  rcases there with none_ | ⟨data₁,modified₁,there,later⟩
  · rw [none_] at there'
    cases there'
  · rw [there] at there'
    cases there'
    rcases here' with none_ | ⟨data₂,modified₂,again,later'⟩
    · rw [none_] at here
      cases here
    · rw [here] at again
      cases again
      have earlier : compareModified modified' modified = .gt := later'.resolve_right fun both =>
        Bool.false_ne_true both.2.2
      rw [compareModified_swap modified modified'] at earlier
      rcases later with after | ⟨same,-⟩
      · rw [after] at earlier
        cases earlier
      · rw [same] at earlier
        cases earlier

end goes

/-- What has a file on one side has one on the other. -/
theorem Merged.follows {wins : Bool} {from_ to_ from_' to_' : Sight} {path : List Text}
    (back : Merged (Goes (!wins) to_ from_) to_ from_ from_') (forth : Merged (Goes wins from_ to_) from_ to_ to_')
    (agree : from_.hasFile path → to_ path ≠ some .dir) (given : path ≠ []) (file : from_'.hasFile path) : to_'.hasFile path := by
  have still {data : Bytes} {modified : Option Int} (there : to_ path = some (.file data modified))
      (stays : ¬Goes wins from_ to_ path) : to_'.hasFile path := by
    rcases forth.kept given stays with same | ⟨none_,-⟩
    · exact ⟨data,modified,same.trans there⟩
    · rw [there] at none_
      cases none_
  by_cases sent : Goes wins from_ to_ path
  · obtain ⟨data,modified,here⟩ := sent.file
    obtain ⟨modified',arrived⟩ := forth.moved given sent here
    exact ⟨data,modified',arrived⟩
  · by_cases brought : Goes (!wins) to_ from_ path
    · obtain ⟨data,modified,there⟩ := brought.file
      exact still there sent
    · obtain ⟨data,modified,now⟩ := file
      have here : from_ path = some (.file data modified) := by
        rcases back.kept given brought with same | ⟨-,dir⟩
        · exact same.symm.trans now
        · rw [dir] at now
          cases now
      cases there : to_ path with
      | none => exact absurd ⟨data,modified,here,.inl there⟩ sent
      | some item =>
        cases item with
        | dir => exact absurd there (agree ⟨data,modified,here⟩)
        | file data' modified' => exact still there sent

theorem Synced.sameFiles {left right left' right' : Sight} (synced : Synced left right left' right') {path : List Text}
    (given : path ≠ []) : left'.hasFile path ↔ right'.hasFile path :=
  ⟨@Merged.follows true left right left' right' path synced.onLeft synced.onRight (synced.agree given).1 given,
    @Merged.follows false right left right' left' path synced.onRight synced.onLeft (synced.agree given).2 given⟩

section merge
variable {goes : List Text → Prop} {scratch : List Text → List Text → Prop} {from_ mine now now' : Sight}
  {path : List Text} {finished finished' : Set (List Text)}

/-- How far one side has come. -/
structure Half (goes : List Text → Prop) (from_ mine : Sight) (finished : Set (List Text)) (now : Sight) : Prop where
  moved {path : List Text} {data : Bytes} {modified : Option Int} : path ∈ finished → goes path →
    from_ path = some (.file data modified) → ∃ modified', now path = some (.file data modified')
  kept {path : List Text} : path ∉ finished ∨ ¬goes path →
    now path = mine path ∨ mine path = none ∧ now path = some .dir
  dir {path : List Text} : path ≠ [] → path ∈ finished → from_ path = some .dir → now path = some .dir
  free {path : List Text} : path ∉ finished → goes path → now path ≠ some .dir

/-- Where nothing is, nothing was. -/
theorem Half.absent (half : Half goes from_ mine finished now) (files : ∀ path, goes path → from_.hasFile path)
    (none_ : now path = none) : mine path = none ∧ (path ∈ finished → ¬goes path) := by
  have still : path ∈ finished → ¬goes path := by
    intro done goes_
    obtain ⟨data,modified,here⟩ := files path goes_
    obtain ⟨modified',there⟩ := half.moved done goes_ here
    rw [none_] at there
    cases there
  refine ⟨?_,still⟩
  by_cases done : path ∈ finished ∧ goes path
  · exact absurd done.2 (still done.1)
  · rw [not_and_or] at done
    rcases half.kept done with same | ⟨nothing,-⟩
    · exact same.symm.trans none_
    · exact nothing

/-- A path that neither side has finished with differently. -/
theorem Half.weaken (half : Half goes from_ mine finished now)
    (moved : ∀ path, goes path → (path ∈ finished' ↔ path ∈ finished))
    (dirs : ∀ path, path ≠ [] → from_ path = some .dir → path ∈ finished' → path ∈ finished ∨ now path = some .dir) :
    Half goes from_ mine finished' now := by
  constructor
  · exact fun done goes_ => half.moved ((moved _ goes_).mp done) goes_
  · intro path waits
    apply half.kept
    by_cases goes_ : goes path
    · left
      rw [← moved path goes_]
      exact waits.resolve_right (not_not.mpr goes_)
    · exact .inr goes_
  · intro path given done here
    rcases dirs path given here done with before | there
    · exact half.dir given before here
    · exact there
  · intro path waits goes_
    rw [moved path goes_] at waits
    exact half.free waits goes_

/-- A directory that comes to be is in no copy's way. -/
theorem Half.create (half : Half goes from_ mine finished now) (files : ∀ path, goes path → from_.hasFile path)
    (tree : ∀ other, from_.hasFile other → other <+: path → other = path) (here : from_ path = some .dir)
    (there : now' path = some .dir) (made : ∀ place, now' place = now place ∨ DirsMade path now now' place) :
    Half goes from_ mine (insert path finished) now' := by
  have stays {place : List Text} (present : now place ≠ none) : now' place = now place :=
    (made place).resolve_right fun new => present new.1
  have noFile {place : List Text} (goes_ : goes place) : place ≠ path := by
    rintro rfl
    obtain ⟨data,modified,file⟩ := files _ goes_
    rw [here] at file
    cases file
  have member {place : List Text} (goes_ : goes place) : place ∈ insert path finished ↔ place ∈ finished := by
    rw [Set.mem_insert_iff]
    exact or_iff_right (noFile goes_)
  constructor
  · intro place data modified done goes_ file
    obtain ⟨modified',now_⟩ := half.moved ((member goes_).mp done) goes_ file
    exact ⟨modified',(stays (by rw [now_]; exact Option.some_ne_none _)).trans now_⟩
  · intro place waits
    have waits' : place ∉ finished ∨ ¬goes place := by
      by_cases goes_ : goes place
      · rw [member goes_] at waits
        exact waits
      · exact .inr goes_
    rcases made place with same | ⟨none_,dir,-⟩
    · rw [same]
      exact half.kept waits'
    · exact .inr ⟨(half.absent files none_).1,dir⟩
  · intro place given done dir
    by_cases same : place = path
    · rw [same]
      exact there
    · have before := half.dir given (Set.mem_of_mem_insert_of_ne done same) dir
      rw [stays (by rw [before]; exact Option.some_ne_none _)]
      exact before
  · intro place waits goes_
    rw [member goes_] at waits
    rcases made place with same | ⟨-,-,above⟩
    · rw [same]
      exact half.free waits goes_
    · exact absurd (tree place (files place goes_) above) (noFile goes_)

/-- A copy brings its file, and no other is lost. -/
theorem Half.copy (half : Half goes from_ mine finished now) (files : ∀ path, goes path → from_.hasFile path)
    (tree : ∀ other, from_.hasFile other → other <+: path → other = path)
    (unused : ∀ other, mine other ≠ none ∨ from_ other ≠ none → ¬scratch path other) {data : Bytes}
    {modified modified' : Option Int} (here : from_ path = some (.file data modified))
    (there : now' path = some (.file data modified')) (goes_ : goes path) (written : Written scratch path now now') :
    Half goes from_ mine (insert path finished) now' := by
  -- what is listed on a side stays
  have stays {place : List Text} (differ : place ≠ path) (listed : mine place ≠ none ∨ from_ place ≠ none)
      (present : now place ≠ none) : now' place = now place := by
    rcases written place differ with same | ⟨none_,-⟩ | ⟨-,used⟩
    · exact same
    · exact absurd none_ present
    · exact absurd used (unused place listed)
  constructor
  · intro place data' modified₁ done goes' file
    by_cases same : place = path
    · rw [same,here] at file
      cases file
      rw [same]
      exact ⟨modified',there⟩
    · obtain ⟨modified₂,now_⟩ := half.moved (Set.mem_of_mem_insert_of_ne done same) goes' file
      have listed : from_ place ≠ none := by rw [file]; exact Option.some_ne_none _
      exact ⟨modified₂,(stays same (.inr listed) (by rw [now_]; exact Option.some_ne_none _)).trans now_⟩
  · intro place waits
    by_cases same : place = path
    · rw [same] at waits
      rcases waits with outside | still
      · exact absurd (Set.mem_insert path finished) outside
      · exact absurd goes_ still
    · have waits' : place ∉ finished ∨ ¬goes place :=
        waits.imp (fun outside done => outside (Set.mem_insert_of_mem _ done)) id
      rcases written place same with equal | ⟨none_,dir,-⟩ | ⟨gone,used⟩
      · rw [equal]
        exact half.kept waits'
      · exact .inr ⟨(half.absent files none_).1,dir⟩
      · left
        rw [gone]
        by_contra listed
        exact unused place (.inl (Ne.symm listed)) used
  · intro place given done dir
    have differ : place ≠ path := by
      rintro rfl
      rw [here] at dir
      cases dir
    have before := half.dir given (Set.mem_of_mem_insert_of_ne done differ) dir
    have listed : from_ place ≠ none := by rw [dir]; exact Option.some_ne_none _
    rw [stays differ (.inr listed) (by rw [before]; exact Option.some_ne_none _)]
    exact before
  · intro place waits goes' dir
    rw [Set.mem_insert_iff,not_or] at waits
    rcases written place waits.1 with equal | ⟨-,-,above⟩ | ⟨gone,-⟩
    · rw [equal] at dir
      exact half.free waits.2 goes' dir
    · exact waits.1 (tree place (files place goes') above)
    · rw [gone] at dir
      cases dir

end merge

/-! ### One path -/

section paths
variable {σ ω : Type} {storage from_ : VfsStorage σ ω} {root fromRoot : Text} {leads fromLeads : Text → List Text → Prop}
  {scratch fromScratch : List Text → List Text → Prop} {inv : σ → Prop} {look beside : σ → Sight}
  {goes goes' : List Text → Prop} {mine other : Sight} {path : List Text} {finished : Set (List Text)} {s : σ}

/-- How far both sides have come. -/
structure Progress (inv : σ → Prop) (goes goes' : List Text → Prop) (look beside : σ → Sight) (mine other : Sight)
    (finished : Set (List Text)) (s : σ) : Prop where
  sane : inv s
  here : Half goes other mine finished (look s)
  there : Half goes' mine other finished (beside s)

theorem Progress.swap (progress : Progress inv goes goes' look beside mine other finished s) :
    Progress inv goes' goes beside look other mine finished s := ⟨progress.sane,progress.there,progress.here⟩

/-- A directory of the other side is made on this one. -/
theorem createHere_ensures (side : Side storage root leads scratch inv look beside)
    (files : ∀ path, goes path → other.hasFile path) (files' : ∀ path, goes' path → mine.hasFile path)
    (tree : ∀ place, other.hasFile place → place <+: path → place = path) (segments : ∀ name ∈ path, Segment name)
    (dir : other path = some .dir) (free : ¬mine.hasFile path) :
    Ensures (Progress inv goes goes' look beside mine other finished)
      (storage.createDirAll (joinRoot root (relativeText path)) >>= fun _ => pure ())
      fun _ => Progress inv goes goes' look beside mine other (insert path finished) := by
  have leading : leads (joinRoot root (relativeText path)) path := by
    by_cases given : path = []
    · rw [given]
      exact side.top
    · exact side.inside given segments
  have noGoing : ¬goes path := by
    intro going
    obtain ⟨data,modified,file⟩ := files path going
    rw [dir] at file
    cases file
  have noGoing' : ¬goes' path := fun going => free (files' path going)
  apply meets_from
  rintro s ⟨sane,here,there⟩
  have clear : ¬(look s).hasFile path := by
    rintro ⟨data,modified,file⟩
    rcases here.kept (.inr noGoing) with same | ⟨-,made⟩
    · exact free ⟨data,modified,same.symm.trans file⟩
    · rw [made] at file
      cases file
  have created : Ensures (· = s) (storage.createDirAll (joinRoot root (relativeText path))) _ :=
    ensures_of_meets (side.createDirAll leading clear) (fun s' same => by rw [same]; exact ⟨rfl,sane,rfl⟩)
      fun _ _ holds => holds
  apply Meets.bind created
  intro _
  apply Meets.pure
  rintro s' ⟨⟨sane',same⟩,made,others⟩
  refine ⟨sane',here.create files tree dir made others,?_⟩
  rw [same]
  apply there.weaken
  · intro place going
    rw [Set.mem_insert_iff]
    apply or_iff_right
    rintro rfl
    exact noGoing' going
  · intro place _ _ member
    rcases Set.mem_insert_iff.mp member with rfl | before
    · right
      rcases there.kept (.inr noGoing') with same | ⟨-,made⟩
      · rw [same]
        exact dir
      · exact made
    · exact .inl before

/-- A file of the other side is copied to this one. -/
theorem copyHere_ensures (side : Side storage root leads scratch inv look beside)
    (source : Side from_ fromRoot fromLeads fromScratch inv beside look)
    (files : ∀ path, goes path → other.hasFile path)
    (tree : ∀ place, other.hasFile place → place <+: path → place = path)
    (unused : ∀ place, mine place ≠ none ∨ other place ≠ none → ¬scratch path place)
    (segments : ∀ name ∈ path, Segment name) (given : path ≠ []) (fresh : path ∉ finished) (going : goes path)
    (noGoing : ¬goes' path) (noDir : mine path ≠ some .dir) {text : Text} (leading : fromLeads text path) :
    Ensures (Progress inv goes goes' look beside mine other finished)
      (copyFileBetween from_ text storage (joinRoot root (relativeText path)))
      fun _ => Progress inv goes goes' look beside mine other (insert path finished) := by
  obtain ⟨init,name,split⟩ : ∃ init name, path = init ++ [name] := by
    rcases List.eq_nil_or_concat path with nothing | ⟨init,name,split⟩
    · exact absurd nothing given
    · exact ⟨init,name,split.trans (List.concat_eq_append ..)⟩
  have above : ∀ other ∈ init, Segment other := by
    intro other member
    exact segments other (by rw [split]; exact List.mem_append_left _ member)
  have last : Segment name := segments name (by rw [split]; exact List.mem_append_right _ List.mem_cons_self)
  apply meets_from
  rintro s ⟨sane,here,there⟩
  have clear : look s path ≠ some .dir := here.free fresh going
  have copied : Ensures (Seen inv look beside (look s) (beside s)) _ _ :=
    copyFileBetween_ensures side source leading given above last (by rw [← split]; exact clear)
  rw [← split] at copied
  apply ensures_of_meets copied
  · rintro _ rfl
    exact ⟨rfl,sane,rfl⟩
  · rintro _ s' ⟨⟨sane',same⟩,⟨data,modified,modified',content,arrived⟩,written⟩
    obtain ⟨data',modified₁,listed⟩ := files path going
    have original : other path = some (.file data modified) := by
      rcases there.kept (.inr noGoing) with kept | ⟨-,made⟩
      · exact kept.symm.trans content
      · rw [made] at content
        cases content
    refine ⟨sane',here.copy files tree unused original arrived going written,?_⟩
    rw [same]
    apply there.weaken
    · intro place going'
      rw [Set.mem_insert_iff]
      apply or_iff_right
      rintro rfl
      exact noGoing going'
    · intro place _ dir member
      rcases Set.mem_insert_iff.mp member with rfl | before
      · exact absurd dir noDir
      · exact .inl before

/-- Where nothing is to be done a path is finished. -/
theorem Progress.rest (progress : Progress inv goes goes' look beside mine other finished s) (still : ¬goes path)
    (still' : ¬goes' path) (dirs : other path = some .dir → mine path = some .dir)
    (dirs' : mine path = some .dir → other path = some .dir) :
    Progress inv goes goes' look beside mine other (insert path finished) s := by
  have fewer {goes : List Text → Prop} (still : ¬goes path) (place : List Text) (going : goes place) :
      place ∈ insert path finished ↔ place ∈ finished := by
    rw [Set.mem_insert_iff]
    apply or_iff_right
    rintro rfl
    exact still going
  have dir {goes : List Text → Prop} {mine other now : Sight} (still : ¬goes path) (half : Half goes other mine finished now)
      (dirs : other path = some .dir → mine path = some .dir) (place : List Text) (_ : place ≠ [])
      (listed : other place = some .dir)
      (member : place ∈ insert path finished) : place ∈ finished ∨ now place = some .dir := by
    rcases Set.mem_insert_iff.mp member with rfl | before
    · right
      rcases half.kept (.inr still) with same | ⟨-,made⟩
      · rw [same]
        exact dirs listed
      · exact made
    · exact .inl before
  exact ⟨progress.sane,progress.here.weaken (fewer still) (dir still progress.here dirs),
    progress.there.weaken (fewer still') (dir still' progress.there dirs')⟩

end paths

section run
variable {σ ω : Type} {leftStorage rightStorage : VfsStorage σ ω} {leftRoot rightRoot : Text}
  {leftLeads rightLeads : Text → List Text → Prop} {leftScratch rightScratch : List Text → List Text → Prop}
  {inv : σ → Prop} {look beside : σ → Sight} {left right : Sight} {path : List Text} {finished : Set (List Text)}
  {leftMap rightMap : TreeMap}

/-- What is done for a path finishes it. -/
theorem syncPath_ensures (onLeft : Side leftStorage leftRoot leftLeads leftScratch inv look beside)
    (onRight : Side rightStorage rightRoot rightLeads rightScratch inv beside look)
    (mapped : Maps leftLeads left leftMap) (mapped' : Maps rightLeads right rightMap)
    (named : ∀ path, left path ≠ none → ∀ name ∈ path, Segment name)
    (named' : ∀ path, right path ≠ none → ∀ name ∈ path, Segment name)
    (noFile : ¬left.hasFile []) (noFile' : ¬right.hasFile []) (able : Mergeable leftScratch rightScratch left right)
    (segments : ∀ name ∈ path, Segment name) (fresh : path ∉ finished)
    (given : leftMap.get? (relativeText path) ≠ none ∨ rightMap.get? (relativeText path) ≠ none) :
    Ensures (Progress inv (Goes false right left) (Goes true left right) look beside left right finished)
      (syncPath leftStorage leftRoot rightStorage rightRoot leftMap rightMap (relativeText path)) fun _ s =>
        Progress inv (Goes false right left) (Goes true left right) look beside left right (insert path finished) s ∧
          (path ≠ [] → Agree left right path) := by
  have tree (listed : left path ≠ none ∨ right path ≠ none) (place : List Text) (file : left.hasFile place ∨ right.hasFile place)
      (above : place <+: path) : place = path := able.tree file listed above
  have toRight (text : Text) (leading : leftLeads text path) (given : path ≠ []) (going : Goes true left right path) :
      Ensures (Progress inv (Goes false right left) (Goes true left right) look beside left right finished)
        (copyFileBetween leftStorage text rightStorage (joinRoot rightRoot (relativeText path))) fun _ s =>
        Progress inv (Goes false right left) (Goes true left right) look beside left right (insert path finished) s := by
    have listed : left path ≠ none ∨ right path ≠ none := by
      obtain ⟨data,modified,here,-⟩ := going
      exact .inl (by rw [here]; exact Option.some_ne_none _)
    have unused (place : List Text) (there : right place ≠ none ∨ left place ≠ none) : ¬rightScratch path place :=
      able.unusedRight going (.inr there.symm)
    exact ensures_of_meets (copyHere_ensures onRight onLeft (fun _ => Goes.file)
      (fun place file => tree listed place (.inl file)) unused segments given fresh going going.oneWay going.noDir leading)
      (fun _ progress => progress.swap) fun _ _ progress => progress.swap
  have toLeft (text : Text) (leading : rightLeads text path) (given : path ≠ []) (going : Goes false right left path) :
      Ensures (Progress inv (Goes false right left) (Goes true left right) look beside left right finished)
        (copyFileBetween rightStorage text leftStorage (joinRoot leftRoot (relativeText path))) fun _ s =>
        Progress inv (Goes false right left) (Goes true left right) look beside left right (insert path finished) s := by
    have listed : left path ≠ none ∨ right path ≠ none := by
      obtain ⟨data,modified,here,-⟩ := going
      exact .inr (by rw [here]; exact Option.some_ne_none _)
    have unused (place : List Text) (there : left place ≠ none ∨ right place ≠ none) : ¬leftScratch path place :=
      able.unusedLeft going (.inr there)
    exact copyHere_ensures onLeft onRight (fun _ => Goes.file) (fun place file => tree listed place (.inr file)) unused
      segments given fresh going (fun other => other.oneWay going) going.noDir leading
  have givenOf {item : Item} (sight : Sight) (noFile : ¬sight.hasFile []) (here : sight path = some item)
      (file : item.isFile = true) : path ≠ [] := by
    rintro rfl
    cases item with
    | dir => cases file
    | file data modified => exact noFile ⟨data,modified,here⟩
  have same {m : Effect σ ω VfsError Unit} (agree : path ≠ [] → Agree left right path)
      (met : Ensures (Progress inv (Goes false right left) (Goes true left right) look beside left right finished) m
        fun _ => Progress inv (Goes false right left) (Goes true left right) look beside left right (insert path finished)) :
      Ensures (Progress inv (Goes false right left) (Goes true left right) look beside left right finished) m fun _ s =>
        Progress inv (Goes false right left) (Goes true left right) look beside left right (insert path finished) s ∧
          (path ≠ [] → Agree left right path) :=
    ensures_of_meets met (fun _ progress => progress) fun _ _ progress => ⟨progress,agree⟩
  unfold syncPath
  dsimp only
  cases foundLeft : leftMap.get? (relativeText path) with
  | none =>
    cases foundRight : rightMap.get? (relativeText path) with
    | none =>
      rw [foundLeft,foundRight] at given
      exact absurd given (not_or_intro (not_not.mpr rfl) (not_not.mpr rfl))
    | some info =>
      obtain ⟨item,there,tells,leading⟩ := mapped'.found named' segments foundRight
      have noLeft : ¬left.hasFile path := by
        by_cases top : path = []
        · rw [top]
          exact noFile
        · rintro ⟨data,modified,here⟩
          rw [mapped.absent top foundLeft] at here
          cases here
      dsimp only
      cases dir : info.isDir with
      | true =>
        have isDir := dir_of_matches tells dir
        rw [isDir] at there
        have listed : left path ≠ none ∨ right path ≠ none := .inr (by rw [there]; exact Option.some_ne_none _)
        rw [if_pos rfl]
        apply same
        · intro _
          refine ⟨fun file => absurd file noLeft,?_⟩
          rintro ⟨data,modified,file⟩
          rw [there] at file
          cases file
        · exact createHere_ensures onLeft (fun _ => Goes.file) (fun _ => Goes.file)
            (fun place file => tree listed place (.inr file)) segments there noLeft
      | false =>
        obtain ⟨data,modified,isFile,-⟩ := file_of_matches tells dir
        rw [isFile] at there
        have top := givenOf right noFile' there rfl
        have absent := mapped.absent top foundLeft
        rw [if_neg Bool.false_ne_true]
        apply same
        · intro _
          refine ⟨fun file => absurd file noLeft,fun _ => ?_⟩
          rw [absent]
          simp
        · exact toLeft _ leading top ⟨data,modified,there,.inl absent⟩
  | some info =>
    obtain ⟨item,here,tells,leading⟩ := mapped.found named segments foundLeft
    have listed : left path ≠ none ∨ right path ≠ none := .inl (by rw [here]; exact Option.some_ne_none _)
    cases foundRight : rightMap.get? (relativeText path) with
    | none =>
      have noRight : ¬right.hasFile path := by
        by_cases top : path = []
        · rw [top]
          exact noFile'
        · rintro ⟨data,modified,there⟩
          rw [mapped'.absent top foundRight] at there
          cases there
      dsimp only
      cases dir : info.isDir with
      | true =>
        have isDir := dir_of_matches tells dir
        rw [isDir] at here
        rw [if_pos rfl]
        apply same
        · intro _
          refine ⟨?_,fun file => absurd file noRight⟩
          rintro ⟨data,modified,file⟩
          rw [here] at file
          cases file
        · have sent (place : List Text) (going : Goes true left right place) : left.hasFile place := going.file
          have brought (place : List Text) (going : Goes false right left place) : right.hasFile place := going.file
          exact ensures_of_meets (createHere_ensures onRight sent brought (fun place file => tree listed place (.inl file))
            segments here noRight) (fun _ progress => progress.swap) fun _ _ progress => progress.swap
      | false =>
        obtain ⟨data,modified,isFile,-⟩ := file_of_matches tells dir
        rw [isFile] at here
        have top := givenOf left noFile here rfl
        have absent := mapped'.absent top foundRight
        rw [if_neg Bool.false_ne_true]
        apply same
        · intro _
          refine ⟨fun _ => ?_,fun file => absurd file noRight⟩
          rw [absent]
          simp
        · exact toRight _ leading top ⟨data,modified,here,.inl absent⟩
    | some info' =>
      obtain ⟨item',there,tells',leading'⟩ := mapped'.found named' segments foundRight
      have ended {sight : Sight} {path : List Text} {data : Bytes} {modified : Option Int}
          (file : sight path = some (.file data modified)) : sight path ≠ some .dir := by
        rw [file]
        simp
      dsimp only
      cases dir : info.isDir with
      | true =>
        have isDir := dir_of_matches tells dir
        rw [isDir] at here
        cases dir' : info'.isDir with
        | true =>
          have isDir' := dir_of_matches tells' dir'
          rw [isDir'] at there
          rw [Bool.and_self,if_pos rfl]
          apply same
          · intro _
            constructor
            · rintro ⟨data,modified,file⟩
              exact absurd here (ended file)
            · rintro ⟨data,modified,file⟩
              exact absurd there (ended file)
          · apply Meets.pure
            intro s progress
            apply progress.rest _ _ (fun _ => here) fun _ => there
            · exact fun going => going.noDir here
            · exact fun going => going.noDir there
        | false =>
          rw [Bool.and_false,if_neg Bool.false_ne_true,Bool.or_false,if_pos rfl]
          exact Meets.fail fun _ _ => trivial
      | false =>
        obtain ⟨data,modified,isFile,size,time⟩ := file_of_matches tells dir
        rw [isFile] at here
        have top := givenOf left noFile here rfl
        cases dir' : info'.isDir with
        | true =>
          rw [Bool.and_true,if_neg Bool.false_ne_true,Bool.or_true,if_pos rfl]
          exact Meets.fail fun _ _ => trivial
        | false =>
          obtain ⟨data',modified',isFile',size',time'⟩ := file_of_matches tells' dir'
          rw [isFile'] at there
          rw [Bool.and_self,if_neg Bool.false_ne_true,Bool.or_self,if_neg Bool.false_ne_true,time,time']
          apply same
          · exact fun _ => ⟨fun _ => ended there,fun _ => ended here⟩
          cases order : compareModified modified modified' with
          | gt => exact toRight _ leading top ⟨data,modified,here,.inr ⟨data',modified',there,.inl order⟩⟩
          | lt =>
            have later : compareModified modified' modified = .gt := by
              rw [compareModified_swap modified modified',order]
              rfl
            exact toLeft _ leading' top ⟨data',modified',there,.inr ⟨data,modified,here,.inl later⟩⟩
          | eq =>
            dsimp only
            split
            next differ =>
              rw [size,size'] at differ
              exact toRight _ leading top
                ⟨data,modified,here,.inr ⟨data',modified',there,.inr ⟨order,differ,rfl⟩⟩⟩
            next equal =>
              rw [size,size',not_not] at equal
              apply Meets.pure
              intro s progress
              apply progress.rest _ _ (fun dir => absurd dir (ended there)) fun dir => absurd dir (ended here)
              · rintro ⟨data₁,modified₁,there',none_ | ⟨data₂,modified₂,here',later | both⟩⟩
                · rw [here] at none_
                  cases none_
                · rw [there] at there'
                  cases there'
                  rw [here] at here'
                  cases here'
                  rw [compareModified_swap modified modified',order] at later
                  cases later
                · exact Bool.false_ne_true both.2.2
              · rintro ⟨data₁,modified₁,here',none_ | ⟨data₂,modified₂,there',later | both⟩⟩
                · rw [there] at none_
                  cases none_
                · rw [here] at here'
                  cases here'
                  rw [there] at there'
                  cases there'
                  rw [order] at later
                  cases later
                · rw [here] at here'
                  cases here'
                  rw [there] at there'
                  cases there'
                  exact both.2.1 equal

/-- The paths that are finished when some keys are left. -/
def finishedPaths (left_ : List Text) : Set (List Text) := {path | (∀ name ∈ path, Segment name) → relativeText path ∉ left_}

theorem allPaths_spec (mapped : Maps leftLeads left leftMap) (mapped' : Maps rightLeads right rightMap)
    (named : ∀ path, left path ≠ none → ∀ name ∈ path, Segment name)
    (named' : ∀ path, right path ≠ none → ∀ name ∈ path, Segment name) :
    (allPaths leftMap rightMap).Nodup ∧ ∀ key ∈ allPaths leftMap rightMap, ∃ path, (∀ name ∈ path, Segment name) ∧
      key = relativeText path ∧ (leftMap.get? key ≠ none ∨ rightMap.get? key ≠ none) := by
  have perm : (allPaths leftMap rightMap).Perm (leftMap.keys ++ rightMap.keys).dedup := List.mergeSort_perm _ _
  refine ⟨perm.nodup_iff.mpr (List.nodup_dedup _),?_⟩
  intro key member
  have spelled {leads : Text → List Text → Prop} {sight : Sight} {tree : TreeMap} (maps : Maps leads sight tree)
      (named : ∀ path, sight path ≠ none → ∀ name ∈ path, Segment name) (listed : key ∈ tree.keys) :
      ∃ path, (∀ name ∈ path, Segment name) ∧ key = relativeText path := by
    obtain ⟨entry,inside,rfl⟩ := List.mem_map.mp listed
    obtain ⟨path,item,same,-,here,-⟩ := maps.sound entry inside
    exact ⟨path,named path (by rw [here]; exact Option.some_ne_none _),same⟩
  have present {tree : TreeMap} (listed : key ∈ tree.keys) : tree.get? key ≠ none :=
    fun absent => TreeMap.get?_none.mp absent listed
  rcases List.mem_append.mp (List.mem_dedup.mp (perm.mem_iff.mp member)) with onLeft | onRight
  · obtain ⟨path,segments,same⟩ := spelled mapped named onLeft
    exact ⟨path,segments,same,.inl (present onLeft)⟩
  · obtain ⟨path,segments,same⟩ := spelled mapped' named' onRight
    exact ⟨path,segments,same,.inr (present onRight)⟩

/-- From the listings on. -/
theorem syncPaths_ensures (onLeft : Side leftStorage leftRoot leftLeads leftScratch inv look beside)
    (onRight : Side rightStorage rightRoot rightLeads rightScratch inv beside look)
    (mapped : Maps leftLeads left leftMap) (mapped' : Maps rightLeads right rightMap)
    (named : ∀ path, left path ≠ none → ∀ name ∈ path, Segment name)
    (named' : ∀ path, right path ≠ none → ∀ name ∈ path, Segment name)
    (noFile : ¬left.hasFile []) (noFile' : ¬right.hasFile []) (able : Mergeable leftScratch rightScratch left right) :
    Ensures (Seen inv look beside left right)
      (forEach (syncPath leftStorage leftRoot rightStorage rightRoot leftMap rightMap) (allPaths leftMap rightMap))
      fun _ s => inv s ∧ Synced left right (look s) (beside s) := by
  obtain ⟨once,spelled⟩ := allPaths_spec mapped mapped' named named'
  let upTo (left_ : List Text) (s : σ) : Prop := left_.Nodup ∧
    Progress inv (Goes false right left) (Goes true left right) look beside left right (finishedPaths left_) s ∧
    ∀ path ∈ finishedPaths left_, path ≠ [] → Agree left right path
  have loop := @meets_forEach σ ω (fun _ => True) Text
    (syncPath leftStorage leftRoot rightStorage rightRoot leftMap rightMap) upTo (fun _ _ => True)
    (allPaths leftMap rightMap) ?_
  · apply ensures_of_meets loop
    · rintro s ⟨rfl,sane,rfl⟩
      -- what is listed waits
      have waits {path : List Text} (given : path ≠ []) (listed : look s path ≠ none ∨ beside s path ≠ none) :
          path ∉ finishedPaths (allPaths leftMap rightMap) := by
        have segments : ∀ name ∈ path, Segment name := listed.elim (named path) (named' path)
        have member : relativeText path ∈ allPaths leftMap rightMap := by
          apply (List.mergeSort_perm _ _).mem_iff.mpr
          rw [List.mem_dedup,List.mem_append]
          exact listed.imp (mapped.complete given) (mapped'.complete given)
        exact fun finished => finished segments member
      have some_ {sight : Sight} {path : List Text} {item : Item} (here : sight path = some item) : sight path ≠ none := by
        rw [here]
        exact Option.some_ne_none _
      have top {sight : Sight} {path : List Text} (noFile : ¬sight.hasFile []) (file : sight.hasFile path) : path ≠ [] := by
        rintro rfl
        exact noFile file
      refine ⟨once,⟨sane,⟨?_,fun _ => .inl rfl,?_,?_⟩,⟨?_,fun _ => .inl rfl,?_,?_⟩⟩,?_⟩
      · exact fun finished going here => absurd finished (waits (top noFile' going.file) (.inr (some_ here)))
      · exact fun given finished here => absurd finished (waits given (.inr (some_ here)))
      · exact fun _ going => going.noDir
      · exact fun finished going here => absurd finished (waits (top noFile going.file) (.inl (some_ here)))
      · exact fun given finished here => absurd finished (waits given (.inl (some_ here)))
      · exact fun _ going => going.noDir
      · intro path finished given
        constructor
        · rintro ⟨data,modified,here⟩
          exact absurd finished (waits given (.inl (some_ here)))
        · rintro ⟨data,modified,here⟩
          exact absurd finished (waits given (.inr (some_ here)))
    · rintro _ s ⟨-,progress,agree⟩
      have all (path : List Text) : path ∈ finishedPaths [] := fun _ => List.not_mem_nil
      refine ⟨progress.sane,⟨?_,?_,?_⟩,⟨?_,?_,?_⟩,?_⟩
      · exact fun _ going here => progress.here.moved (all _) going here
      · exact fun _ still => progress.here.kept (.inr still)
      · exact fun given here => progress.here.dir given (all _) here
      · exact fun _ going here => progress.there.moved (all _) going here
      · exact fun _ still => progress.there.kept (.inr still)
      · exact fun given here => progress.there.dir given (all _) here
      · exact fun given => agree _ (all _) given
  · intro key rest member
    obtain ⟨path,segments,rfl,given⟩ := spelled key member
    apply meets_from
    rintro s ⟨single,progress,agree⟩
    obtain ⟨fresh,once'⟩ := List.nodup_cons.mp single
    have waiting : path ∉ finishedPaths (relativeText path :: rest) := fun outside => outside segments List.mem_cons_self
    have next : finishedPaths rest = insert path (finishedPaths (relativeText path :: rest)) := by
      ext place
      rw [Set.mem_insert_iff]
      constructor
      · intro finished
        by_cases same : place = path
        · exact .inl same
        · right
          intro segments' member
          rcases List.mem_cons.mp member with equal | later
          · exact same (relativeText_inj segments' segments equal)
          · exact finished segments' later
      · rintro (rfl | finished) segments' later
        · exact fresh later
        · exact finished segments' (List.mem_cons_of_mem _ later)
    apply ensures_of_meets (syncPath_ensures onLeft onRight mapped mapped' named named' noFile noFile' able segments
      waiting given)
    · rintro _ rfl
      exact progress
    · rintro _ s' ⟨progress',agree'⟩
      refine ⟨once',by rw [next]; exact progress',?_⟩
      intro place finished top
      rw [next] at finished
      rcases Set.mem_insert_iff.mp finished with rfl | before
      · exact agree' top
      · exact agree place before top

/-- Below their roots the sides are as they were seen. -/
structure SeenBelow (inv : σ → Prop) (look beside : σ → Sight) (left right : Sight) (s : σ) : Prop where
  sane : inv s
  here {path : List Text} : path ≠ [] → look s path = left path
  there {path : List Text} : path ≠ [] → beside s path = right path

theorem SeenBelow.swap {s : σ} (seen : SeenBelow inv look beside left right s) : SeenBelow inv beside look right left s :=
  ⟨seen.sane,seen.there,seen.here⟩

/-- To ensure the root of a side changes nothing below it. -/
theorem ensureRoot_ensures {storage : VfsStorage σ ω} {root : Text} {leads : Text → List Text → Prop}
    {scratch : List Text → List Text → Prop} (side : Side storage root leads scratch inv look beside) (wanted : Bool) :
    Ensures (SeenBelow inv look beside left right) (if wanted then ensureDirectoryExists storage root else pure ())
      fun _ => SeenBelow inv look beside left right := by
  cases wanted with
  | false => exact Meets.pure fun _ seen => seen
  | true =>
    rw [if_pos rfl]
    apply meets_from
    intro s seen
    have ensured : Ensures (Seen inv look beside (look s) (beside s)) (ensureDirectoryExists storage root) _ :=
      ensureDirectoryExists_ensures side (.inr side.top)
    apply ensures_of_meets ensured
    · rintro _ rfl
      exact ⟨rfl,seen.sane,rfl⟩
    · rintro _ s' ⟨⟨sane,same⟩,made⟩
      refine ⟨sane,?_,?_⟩
      · intro path given
        rcases made path with kept | ⟨-,-,above⟩
        · rw [kept,seen.here given]
        · exact absurd (List.prefix_nil.mp above) given
      · intro path given
        rw [same,seen.there given]

section below
variable {left₀ right₀ : Sight}

theorem goes_congr {wins : Bool} (given : path ≠ []) (same : ∀ path, path ≠ [] → left path = left₀ path)
    (same' : ∀ path, path ≠ [] → right path = right₀ path) : Goes wins left right path ↔ Goes wins left₀ right₀ path := by
  rw [Goes,Goes,same path given,same' path given]

theorem hasFile_congr (given : path ≠ []) (same : ∀ path, path ≠ [] → left path = left₀ path) :
    left.hasFile path ↔ left₀.hasFile path := by
  rw [Sight.hasFile,Sight.hasFile,same path given]

theorem Mergeable.congr (able : Mergeable leftScratch rightScratch left₀ right₀)
    (same : ∀ path, path ≠ [] → left path = left₀ path) (same' : ∀ path, path ≠ [] → right path = right₀ path)
    (noFile : ¬left.hasFile []) (noFile' : ¬right.hasFile []) : Mergeable leftScratch rightScratch left right := by
  have listed {other : List Text} (there : other = [] ∨ left other ≠ none ∨ right other ≠ none) :
      other = [] ∨ left₀ other ≠ none ∨ right₀ other ≠ none := by
    by_cases top : other = []
    · exact .inl top
    · rw [same other top,same' other top] at there
      exact there
  constructor
  · intro path below file there above
    by_cases top : path = []
    · rw [top] at file
      exact (file.elim noFile noFile').elim
    · have deeper : below ≠ [] := by
        rintro rfl
        exact top (List.prefix_nil.mp above)
      rw [hasFile_congr top same,hasFile_congr top same'] at file
      rw [same below deeper,same' below deeper] at there
      exact able.tree file there above
  · intro path other going there
    have given : path ≠ [] := by
      rintro rfl
      exact noFile' going.file
    exact able.unusedLeft ((goes_congr given same' same).mp going) (listed there)
  · intro path other going there
    have given : path ≠ [] := by
      rintro rfl
      exact noFile going.file
    exact able.unusedRight ((goes_congr given same same').mp going) (listed there)

theorem Synced.congr {left' right' : Sight} (synced : Synced left right left' right')
    (same : ∀ path, path ≠ [] → left path = left₀ path) (same' : ∀ path, path ≠ [] → right path = right₀ path) :
    Synced left₀ right₀ left' right' := by
  refine ⟨⟨?_,?_,?_⟩,⟨?_,?_,?_⟩,?_⟩
  · intro path data modified given going here
    rw [← goes_congr given same' same] at going
    rw [← same' path given] at here
    exact synced.onLeft.moved given going here
  · intro path given still
    rw [← goes_congr given same' same] at still
    rw [← same path given]
    exact synced.onLeft.kept given still
  · intro path given here
    rw [← same' path given] at here
    exact synced.onLeft.dir given here
  · intro path data modified given going here
    rw [← goes_congr given same same'] at going
    rw [← same path given] at here
    exact synced.onRight.moved given going here
  · intro path given still
    rw [← goes_congr given same same'] at still
    rw [← same' path given]
    exact synced.onRight.kept given still
  · intro path given here
    rw [← same path given] at here
    exact synced.onRight.dir given here
  · intro path given
    have agree := synced.agree given
    rw [Agree,hasFile_congr given same,hasFile_congr given same',same path given,same' path given] at agree
    exact agree

end below

end run

end StorageHub.Mounts
