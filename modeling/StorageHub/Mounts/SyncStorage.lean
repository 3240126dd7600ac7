import StorageHub.Mounts.Synchronise
import StorageHub.Mounts.Transfer

/-! What a synchronisation relies on of the two storages. A storage is seen by what it
lists below its root; a call may fail at any point. -/
namespace StorageHub.Mounts
open Library WriteCache Paths Scoped Effect

/-- A name of one segment. -/
structure Segment (name : Text) : Prop where
  given : name ≠ []
  slashless : '/' ∉ name
  noDot : name ≠ ['.']

inductive Item
  | dir
  | file (data : Bytes) (modified : Option Int)
  deriving DecidableEq

def Item.isFile : Item → Bool
  | .dir => false
  | .file _ _ => true

/-- What is listed below a root. -/
abbrev Sight := List Text → Option Item

def Sight.hasFile (sight : Sight) (path : List Text) : Prop := ∃ data modified, sight path = some (.file data modified)

/-- An entry tells of what it is about. -/
def Matches (info : FileInfo) : Item → Prop
  | .dir => info.isDir = true
  | .file data modified => info.isDir = false ∧ info.size = data.length ∧ info.modified = modified

/-- A path below the root as a text. -/
def relativeText (path : List Text) : Text := ['/'].intercalate path

/-- A listing has an entry for all that is to be seen, and no other. -/
structure Listed (root : Text) (leads : Text → List Text → Prop) (sight : Sight) (infos : List FileInfo) : Prop where
  sound : ∀ info ∈ infos, ∃ path item, relativePath root info.path = relativeText path ∧ leads info.path path ∧
    sight path = some item ∧ Matches info item
  complete {path : List Text} : path ≠ [] → sight path ≠ none →
    ∃ info ∈ infos, relativePath root info.path = relativeText path

/-- The other side is as it was seen, and the storages are as they should be. -/
def Stays {σ : Type} (inv : σ → Prop) (beside : σ → Sight) (other : Sight) (s : σ) : Prop := inv s ∧ beside s = other

/-- Both sides are as they were seen. -/
def Seen {σ : Type} (inv : σ → Prop) (look beside : σ → Sight) (mine other : Sight) (s : σ) : Prop :=
  look s = mine ∧ Stays inv beside other s

/-- Directories above a path may have come to be. -/
def DirsMade (path : List Text) (sight sight' : Sight) (other : List Text) : Prop :=
  sight other = none ∧ sight' other = some .dir ∧ other <+: path

/-- What is left of a tree when something of it is deleted. Directories may go with the
last file in them, and all that is below a path when no file is at the path. -/
def Deleted (path : List Text) (sight sight' : Sight) : Prop :=
  sight' path = none ∧ ∀ other, other ≠ path → sight' other = sight other ∨
    sight' other = none ∧ (sight other = some .dir ∨ path <+: other ∧ ¬sight.hasFile path)

/-- One side of a synchronisation: a storage below a root. `leads` tells which text is for
which path, and a write may use up what is at a `scratch` path. The other side, `beside`,
has no part in what is called here. -/
structure Side {σ ω : Type} (storage : VfsStorage σ ω) (root : Text) (leads : Text → List Text → Prop)
    (scratch : List Text → List Text → Prop) (inv : σ → Prop) (look beside : σ → Sight) : Prop where
  named {s path} : inv s → look s path ≠ none → ∀ name ∈ path, Segment name
  directory {s} : inv s → ¬(look s).hasFile []
  top : leads root []
  one {text path path'} : leads text path → leads text path' → path = path'
  inside {path} : path ≠ [] → (∀ name ∈ path, Segment name) → leads (joinRoot root (relativeText path)) path
  parent {path name} : (∀ name ∈ path, Segment name) → Segment name →
    stdParentOrRoot (joinRoot root (relativeText (path ++ [name]))) = ['/'] ∨
      leads (stdParentOrRoot (joinRoot root (relativeText (path ++ [name])))) path
  exists_ text mine other : Meets (Seen inv look beside mine other) (storage.exists_ text)
    (fun found s => Seen inv look beside mine other s ∧ (found = false →
      (∀ path, leads text path → ¬mine.hasFile path) ∧ (text = root → ∀ path, path ≠ [] → mine path = none)))
    (fun _ => Seen inv look beside mine other) (Seen inv look beside mine other)
  stat {text path mine other} : leads text path → Meets (Seen inv look beside mine other) (storage.stat text)
    (fun info s => Seen inv look beside mine other s ∧ (mine.hasFile path → info.isDir = false))
    (fun _ => Seen inv look beside mine other) (Seen inv look beside mine other)
  list {text path mine other} : leads text path → path ≠ [] →
    Meets (Seen inv look beside mine other) (storage.list text)
    (fun infos s => Seen inv look beside mine other s ∧ ∀ info ∈ infos, ∃ name, leads info.path (path ++ [name]))
    (fun _ => Seen inv look beside mine other) (Seen inv look beside mine other)
  listRecursive mine other : Meets (Seen inv look beside mine other) (storage.listRecursive root)
    (fun infos s => Seen inv look beside mine other s ∧ Listed root leads mine infos)
    (fun _ => Seen inv look beside mine other) (Seen inv look beside mine other)
  readStream {text path mine other} : leads text path → path ≠ [] →
    Meets (Seen inv look beside mine other) (storage.readStream text)
    (fun read s => Seen inv look beside mine other s ∧ ∃ modified, mine path = some (.file read.1 modified))
    (fun _ => Seen inv look beside mine other) (Seen inv look beside mine other)
  createDirAll {text path mine other} : leads text path → ¬mine.hasFile path →
    Ensures (Seen inv look beside mine other) (storage.createDirAll text) fun _ s => Stays inv beside other s ∧
      look s path = some .dir ∧ ∀ place, look s place = mine place ∨ DirsMade path mine (look s) place
  writeStream {text path mine other} (data : Bytes) : leads text path → path ≠ [] → mine path ≠ some .dir →
    Ensures (Seen inv look beside mine other) (storage.writeStream text data) fun _ s =>
      Stays inv beside other s ∧ (∃ modified, look s path = some (.file data modified)) ∧
      ∀ place, place ≠ path → look s place = mine place ∨ DirsMade path mine (look s) place ∨
        look s place = none ∧ scratch path place
  delete {text path mine other} : leads text path → path ≠ [] → Ensures (Seen inv look beside mine other)
    (storage.delete text) fun _ s => Stays inv beside other s ∧ Deleted path mine (look s)

/-- Nothing is beside a storage that is alone. -/
def nothingBeside {σ : Type} (_ : σ) : Sight := fun _ => none

/-! ### Relative paths -/

section paths
variable {path other : List Text}

theorem splitOn_relativeText (given : path ≠ []) (segments : ∀ name ∈ path, Segment name) :
    (relativeText path).splitOn '/' = path :=
  List.splitOn_intercalate '/' (fun name member => (segments name member).slashless) given

theorem relativeText_ne_nil (given : path ≠ []) (segments : ∀ name ∈ path, Segment name) : relativeText path ≠ [] := by
  intro nothing
  have parts := splitOn_relativeText given segments
  rw [nothing,List.splitOn_nil] at parts
  exact (segments [] (by rw [← parts]; exact List.mem_cons_self)).given rfl

theorem head_relativeText (given : path ≠ []) (segments : ∀ name ∈ path, Segment name) :
    (relativeText path).head? ≠ some '/' := by
  intro slash
  have parts := splitOn_relativeText given segments
  cases text : relativeText path with
  | nil => rw [text] at slash; cases slash
  | cons c rest =>
    rw [text] at slash parts
    cases slash
    have front : [] ++ '/'::rest = '/'::rest := rfl
    rw [← front,List.splitOn_append_cons_self] at parts
    have member : [] ∈ path := by
      rw [← parts]
      exact List.mem_append_left _ List.mem_cons_self
    exact (segments [] member).given rfl

theorem last_relativeText (given : path ≠ []) (segments : ∀ name ∈ path, Segment name) :
    (relativeText path).getLast? ≠ some '/' := by
  intro slash
  have parts := splitOn_relativeText given segments
  obtain ⟨init,text⟩ := List.getLast?_eq_some_iff.mp slash
  have ended : (init ++ '/'::[]).splitOn '/' = init.splitOn '/' ++ [[]] := List.splitOn_append_cons_self _ _
  rw [text,ended] at parts
  have member : [] ∈ path := by
    rw [← parts]
    exact List.mem_append_right _ List.mem_cons_self
  exact (segments [] member).given rfl

/-- Below a root the texts are one after the other. -/
theorem joinRoot_eq (root : Text) (given : path ≠ []) (segments : ∀ name ∈ path, Segment name) :
    joinRoot root (relativeText path) = Text.trimEnd '/' root ++ '/'::relativeText path := by
  rw [joinRoot,if_neg (relativeText_ne_nil given segments),trimStart_of_head (head_relativeText given segments)]
  split
  next top =>
    rw [top]
    rfl
  next => rfl

theorem relativeText_inj (segments : ∀ name ∈ path, Segment name) (segments' : ∀ name ∈ other, Segment name)
    (same : relativeText path = relativeText other) : path = other := by
  by_cases given : path = []
  · rw [given] at same ⊢
    by_contra differ
    exact relativeText_ne_nil (Ne.symm differ) segments' same.symm
  · by_cases given' : other = []
    · rw [given'] at same
      exact absurd same (relativeText_ne_nil given segments)
    · rw [← splitOn_relativeText given segments,same,splitOn_relativeText given' segments']

theorem relativeText_append (given : path ≠ []) (given' : other ≠ []) :
    relativeText (path ++ other) = relativeText path ++ '/'::relativeText other := by
  induction path with
  | nil => exact absurd rfl given
  | cons name rest ih =>
    cases rest with
    | nil =>
      rw [relativeText,relativeText,relativeText,List.cons_append,List.nil_append,
        List.intercalate_cons_of_ne_nil given',List.intercalate_singleton,List.append_assoc]
      rfl
    | cons next later =>
      have below : next::later ≠ [] := List.cons_ne_nil _ _
      have rest := ih below
      rw [relativeText,relativeText] at rest
      rw [relativeText,relativeText,List.cons_append,
        List.intercalate_cons_of_ne_nil (List.append_ne_nil_of_left_ne_nil below _),rest,
        List.intercalate_cons_of_ne_nil below]
      simp only [List.append_assoc]

/-- The path that a text spells. -/
def parts (text : Text) : List Text := if text = [] then [] else text.splitOn '/'

theorem parts_relativeText (segments : ∀ name ∈ path, Segment name) : parts (relativeText path) = path := by
  by_cases given : path = []
  · rw [given]
    rfl
  · rw [parts,if_neg (relativeText_ne_nil given segments),splitOn_relativeText given segments]

end paths

/-! ### Maps of listings -/

theorem dir_of_matches {info : FileInfo} {item : Item} (tells : Matches info item) (dir : info.isDir = true) : item = .dir := by
  cases item with
  | dir => rfl
  | file data modified =>
    have file := tells.1
    rw [dir] at file
    cases file

theorem file_of_matches {info : FileInfo} {item : Item} (tells : Matches info item) (file : info.isDir = false) :
    ∃ data modified, item = .file data modified ∧ info.size = data.length ∧ info.modified = modified := by
  cases item with
  | dir =>
    rw [Matches,file] at tells
    cases tells
  | file data modified => exact ⟨data,modified,rfl,tells.2⟩

section maps
variable {key : Text} {info : FileInfo} {tree : TreeMap} {root : Text} {infos : List FileInfo}

theorem TreeMap.mem_insert {entry : Text × FileInfo} :
    entry ∈ tree.insert key info ↔ entry = (key,info) ∨ (entry ∈ tree ∧ entry.1 ≠ key) := by
  rw [TreeMap.insert,List.mem_append,List.mem_singleton,List.mem_filter,or_comm]
  simp

/-- An entry of the map is one of the listing, and every key of the listing has one. -/
theorem asTree_spec (root : Text) (infos : List FileInfo) :
    (∀ entry ∈ asTree root infos, entry.2 ∈ infos ∧ entry.1 = relativePath root entry.2.path) ∧
      (∀ info ∈ infos, ∃ entry ∈ asTree root infos, entry.1 = relativePath root info.path) ∧
      (asTree root infos).keys.Nodup := by
  unfold asTree
  induction infos using List.reverseRecOn with
  | nil => exact ⟨fun _ member => (by cases member),(fun _ member => by cases member),List.nodup_nil⟩
  | append_singleton infos last ih =>
    obtain ⟨sound,complete,once⟩ := ih
    rw [List.foldl_append]
    dsimp only [List.foldl_cons,List.foldl_nil]
    refine ⟨?_,?_,?_⟩
    · intro entry member
      rcases TreeMap.mem_insert.mp member with rfl | ⟨before,-⟩
      · exact ⟨List.mem_append_right _ List.mem_cons_self,rfl⟩
      · exact ⟨List.mem_append_left _ (sound entry before).1,(sound entry before).2⟩
    · intro info member
      rcases List.mem_append.mp member with before | here
      · obtain ⟨entry,inside,same⟩ := complete info before
        by_cases replaced : entry.1 = relativePath root last.path
        · exact ⟨_,TreeMap.mem_insert.mpr (.inl rfl),replaced.symm.trans same⟩
        · exact ⟨entry,TreeMap.mem_insert.mpr (.inr ⟨inside,replaced⟩),same⟩
      · rw [List.mem_singleton.mp here]
        exact ⟨_,TreeMap.mem_insert.mpr (.inl rfl),rfl⟩
    · rw [TreeMap.keys,TreeMap.insert,List.map_append,List.nodup_append]
      refine ⟨?_,List.nodup_singleton _,?_⟩
      · exact once.sublist (List.filter_sublist.map _)
      · intro a inside b single same
        obtain ⟨entry,member,rfl⟩ := List.mem_map.mp inside
        have other := (List.mem_filter.mp member).2
        simp only [List.map_cons,List.map_nil,List.mem_singleton] at single
        rw [single] at same
        simp [same] at other

theorem TreeMap.get?_of_mem (once : tree.keys.Nodup) {entry : Text × FileInfo} (member : entry ∈ tree) :
    tree.get? entry.1 = some entry.2 := by
  induction tree with
  | nil => cases member
  | cons first rest ih =>
    rw [TreeMap.keys,List.map_cons,List.nodup_cons] at once
    rw [TreeMap.get?,List.find?_cons]
    by_cases same : first.1 = entry.1
    · rcases List.mem_cons.mp member with rfl | later
      · simp
      · exact absurd (List.mem_map.mpr ⟨entry,later,same.symm⟩) once.1
    · rw [decide_eq_false same]
      rcases List.mem_cons.mp member with rfl | later
      · exact absurd rfl same
      · exact ih once.2 later

theorem TreeMap.mem_of_get? (found : tree.get? key = some info) : (key,info) ∈ tree := by
  obtain ⟨entry,inside,rfl⟩ := Option.map_eq_some_iff.mp found
  have same := List.find?_some inside
  simp only [decide_eq_true_eq] at same
  rw [← same]
  exact List.mem_of_find?_eq_some inside

theorem TreeMap.get?_none : tree.get? key = none ↔ key ∉ tree.keys := by
  rw [TreeMap.get?,Option.map_eq_none_iff,List.find?_eq_none,TreeMap.keys,List.mem_map]
  constructor
  · rintro none_ ⟨entry,member,rfl⟩
    exact none_ entry member (decide_eq_true rfl)
  · intro absent entry member same
    exact absent ⟨entry,member,of_decide_eq_true same⟩

/-- The map of a side: what its entries tell, and that none is missing. -/
structure Maps (leads : Text → List Text → Prop) (sight : Sight) (tree : TreeMap) : Prop where
  sound : ∀ entry ∈ tree, ∃ path item, entry.1 = relativeText path ∧ leads entry.2.path path ∧
    sight path = some item ∧ Matches entry.2 item
  complete {path : List Text} : path ≠ [] → sight path ≠ none → relativeText path ∈ tree.keys
  once : tree.keys.Nodup

theorem Listed.maps {leads : Text → List Text → Prop} {sight : Sight} (listed : Listed root leads sight infos) :
    Maps leads sight (asTree root infos) := by
  obtain ⟨sound,complete,once⟩ := asTree_spec root infos
  refine ⟨?_,?_,once⟩
  · intro entry member
    obtain ⟨inside,key⟩ := sound entry member
    obtain ⟨path,item,same,rest⟩ := listed.sound entry.2 inside
    exact ⟨path,item,key.trans same,rest⟩
  · intro path given there
    obtain ⟨info,inside,same⟩ := listed.complete given there
    obtain ⟨entry,member,key⟩ := complete info inside
    exact List.mem_map.mpr ⟨entry,member,key.trans same⟩

section sights
variable {leads : Text → List Text → Prop} {sight : Sight} {path : List Text}

theorem Maps.found (maps : Maps leads sight tree) (named : ∀ path, sight path ≠ none → ∀ name ∈ path, Segment name)
    (segments : ∀ name ∈ path, Segment name) (found : tree.get? (relativeText path) = some info) :
    ∃ item, sight path = some item ∧ Matches info item ∧ leads info.path path := by
  obtain ⟨path',item,key,leading,seen,tells⟩ := maps.sound _ (TreeMap.mem_of_get? found)
  have segments' := named path' (by rw [seen]; exact Option.some_ne_none _)
  rw [relativeText_inj segments segments' key]
  exact ⟨item,seen,tells,leading⟩

theorem Maps.absent (maps : Maps leads sight tree) (given : path ≠ []) (none_ : tree.get? (relativeText path) = none) :
    sight path = none := by
  by_contra there
  exact TreeMap.get?_none.mp none_ (maps.complete given there)

theorem Maps.get (maps : Maps leads sight tree) {entry : Text × FileInfo} (member : entry ∈ tree) :
    tree.get? entry.1 = some entry.2 := TreeMap.get?_of_mem maps.once member

end sights
end maps

/-! ### Steps of a synchronisation -/

section steps
variable {σ ω : Type} {storage from_ : VfsStorage σ ω} {root fromRoot : Text} {leads fromLeads : Text → List Text → Prop}
  {scratch fromScratch : List Text → List Text → Prop} {inv : σ → Prop} {look beside : σ → Sight} {mine other : Sight}
  {path : List Text} {name : Text}

theorem Seen.swap {s : σ} (seen : Seen inv look beside mine other s) : Seen inv beside look other mine s :=
  ⟨seen.2.2,seen.2.1,seen.1⟩

theorem Side.seen_exists (side : Side storage root leads scratch inv look beside) (text : Text) :
    Keeps (Seen inv look beside mine other) (storage.exists_ text) :=
  (side.exists_ text mine other).consequence (fun _ holds => holds) (fun _ _ holds => holds.1) (fun _ _ holds => holds)
    fun _ holds => holds

/-- What follows of the sight that a program begins with. -/
theorem ensures_of_sights {α : Type} {m : Effect σ ω VfsError α} {P : Sight → Prop} {Q : α → Sight → Prop}
    (each : ∀ sight, P sight → Ensures (Seen inv look beside sight other) m fun a s => Stays inv beside other s ∧ Q a (look s)) :
    Ensures (fun s => Stays inv beside other s ∧ P (look s)) m fun a s => Stays inv beside other s ∧ Q a (look s) :=
  fun s cs holds => each (look s) holds.2 s cs ⟨rfl,holds.1⟩

/-- The map of a side tells what it lists, and collecting it changes nothing. -/
theorem collectTree_meets (side : Side storage root leads scratch inv look beside) (mine other : Sight) :
    Meets (Seen inv look beside mine other) (collectTree storage root)
      (fun tree s => Seen inv look beside mine other s ∧ Maps leads mine tree)
      (fun _ => Seen inv look beside mine other) (Seen inv look beside mine other) := by
  have listing : Meets (Seen inv look beside mine other)
      (storage.listRecursive root >>= fun entries => pure (asTree root entries))
      (fun tree s => Seen inv look beside mine other s ∧ Maps leads mine tree)
      (fun _ => Seen inv look beside mine other) (Seen inv look beside mine other) := by
    apply (side.listRecursive mine other).bind
    intro infos
    exact Meets.pure fun s holds => ⟨holds.1,holds.2.maps⟩
  unfold collectTree
  split
  next => exact listing
  next =>
    apply (side.exists_ root mine other).bind
    intro found
    cases found with
    | true =>
      rw [if_pos rfl]
      exact listing.consequence (fun _ holds => holds.1) (fun _ _ holds => holds) (fun _ _ holds => holds)
        fun _ holds => holds
    | false =>
      rw [if_neg Bool.false_ne_true]
      apply Meets.pure
      rintro s ⟨seen,nothing⟩
      refine ⟨seen,(fun _ member => by cases member),?_,List.nodup_nil⟩
      intro path given there
      exact absurd ((nothing rfl).2 rfl path given) there

/-- Directories may come to be when one is ensured. -/
theorem ensureDirectoryExists_ensures (side : Side storage root leads scratch inv look beside) {text : Text}
    (leading : text = ['/'] ∨ leads text path) :
    Ensures (Seen inv look beside mine other) (ensureDirectoryExists storage text) fun _ s =>
      Stays inv beside other s ∧ ∀ place, look s place = mine place ∨ DirsMade path mine (look s) place := by
  have same {s : σ} (seen : Seen inv look beside mine other s) :
      Stays inv beside other s ∧ ∀ place, look s place = mine place ∨ DirsMade path mine (look s) place :=
    ⟨seen.2,fun place => .inl (by rw [seen.1])⟩
  unfold ensureDirectoryExists
  split
  next => exact Meets.pure fun _ seen => same seen
  next other_ =>
    have there := leading.resolve_left other_
    have asked : Ensures (Seen inv look beside mine other) (storage.exists_ text) fun found s =>
        Seen inv look beside mine other s ∧ (found = false → ¬mine.hasFile path) :=
      ensures_of_meets (side.exists_ text mine other) (fun _ seen => seen)
        fun _ _ holds => ⟨holds.1,fun absent => (holds.2 absent).1 path there⟩
    apply Meets.bind asked
    intro found
    split
    next => exact Meets.pure fun _ holds => same holds.1
    next absent =>
      apply meets_fact
      intro free
      apply Meets.bind (side.createDirAll there (free (Bool.eq_false_iff.mpr absent)))
      intro _
      exact Meets.pure fun _ holds => ⟨holds.1,holds.2.2⟩

/-- What a copy to a path does to the side it goes to. -/
def Written (scratch : List Text → List Text → Prop) (path : List Text) (sight sight' : Sight) : Prop :=
  ∀ place, place ≠ path → sight' place = sight place ∨ DirsMade path sight sight' place ∨
    sight' place = none ∧ scratch path place

/-- A copy that ends well has brought the content, and its source is as it was. -/
theorem copyFileBetween_ensures (side : Side storage root leads scratch inv look beside)
    (source : Side from_ fromRoot fromLeads fromScratch inv beside look) {text : Text} {place : List Text}
    (leading : fromLeads text place) (given : place ≠ []) (segments : ∀ name ∈ path, Segment name) (segment : Segment name)
    (free : mine (path ++ [name]) ≠ some .dir) :
    Ensures (Seen inv look beside mine other)
      (copyFileBetween from_ text storage (joinRoot root (relativeText (path ++ [name])))) fun _ s =>
        Stays inv beside other s ∧ (∃ data modified modified', other place = some (.file data modified) ∧
          look s (path ++ [name]) = some (.file data modified')) ∧
        Written scratch (path ++ [name]) mine (look s) := by
  have below : path ++ [name] ≠ [] := List.append_ne_nil_of_right_ne_nil _ (List.cons_ne_nil _ _)
  have target : leads (joinRoot root (relativeText (path ++ [name]))) (path ++ [name]) := by
    apply side.inside below
    intro name' member
    rcases List.mem_append.mp member with before | here
    · exact segments name' before
    · rw [List.mem_singleton.mp here]
      exact segment
  -- from the sight that is left when the directory above is ensured
  have transfer {before : Sight} (free' : before (path ++ [name]) ≠ some .dir) : Ensures (Seen inv look beside before other)
      (from_.readStream text >>= fun read => storage.writeStream (joinRoot root (relativeText (path ++ [name]))) read.1 >>=
        fun _ => pure ()) fun _ s =>
        Stays inv beside other s ∧ (∃ data modified modified', other place = some (.file data modified) ∧
          look s (path ++ [name]) = some (.file data modified')) ∧ Written scratch (path ++ [name]) before (look s) := by
    have read : Ensures (Seen inv look beside before other) (from_.readStream text) fun read s =>
        Seen inv look beside before other s ∧ ∃ modified, other place = some (.file read.1 modified) := by
      apply ensures_of_meets (source.readStream leading given)
      · exact fun _ seen => seen.swap
      · exact fun _ _ holds => ⟨holds.1.swap,holds.2⟩
    apply Meets.bind read
    intro content
    apply meets_fact
    rintro ⟨modified,here⟩
    apply Meets.bind (side.writeStream content.1 target below free')
    intro _
    apply Meets.pure
    rintro s ⟨same,⟨modified',written⟩,others⟩
    exact ⟨same,⟨content.1,modified,modified',here,written⟩,others⟩
  unfold copyFileBetween
  apply Meets.bind (ensureDirectoryExists_ensures side (side.parent segments segment))
  intro _
  apply meets_from
  rintro s ⟨same,made⟩
  have free' : look s (path ++ [name]) ≠ some .dir := by
    rcases made (path ++ [name]) with kept | ⟨-,-,within⟩
    · rw [kept]
      exact free
    · have shorter := within.length_le
      rw [List.length_append,List.length_singleton] at shorter
      omega
  apply ensures_of_meets (transfer free')
  · rintro _ rfl
    exact ⟨rfl,same⟩
  · rintro _ s' ⟨same',arrived,written⟩
    refine ⟨same',arrived,?_⟩
    intro other' differ
    rcases written other' differ with kept | ⟨none_,dir,above⟩ | used
    · rcases made other' with before | ⟨none_,dir,above⟩
      · exact .inl (kept.trans before)
      · exact .inr (.inl ⟨none_,kept.trans dir,above.trans (List.prefix_append _ _)⟩)
    · rcases made other' with before | ⟨_,dir',_⟩
      · exact .inr (.inl ⟨before.symm.trans none_,dir,above⟩)
      · rw [none_] at dir'
        cases dir'
    · exact .inr (.inr used)

/-! ### Deletions -/

/-- Below a directory things are deleted, and directories may go with them. -/
def Shrunk (path : List Text) (sight sight' : Sight) : Prop :=
  ∀ place, sight' place = sight place ∨ sight' place = none ∧ (sight place = some .dir ∨ path <+: place)

theorem Shrunk.child {sight sight' sight'' : Sight} (shrunk : Shrunk path sight sight')
    (deleted : Deleted (path ++ [name]) sight' sight'') : Shrunk path sight sight'' := by
  have earlier {place : List Text} (dir : sight' place = some .dir) : sight place = some .dir := by
    rcases shrunk place with kept | ⟨gone,-⟩
    · rw [← kept,dir]
    · rw [gone] at dir
      cases dir
  intro place
  by_cases same : place = path ++ [name]
  · rw [same]
    exact .inr ⟨deleted.1,.inr (List.prefix_append _ _)⟩
  · rcases deleted.2 place same with kept | ⟨gone,dir | ⟨below,-⟩⟩
    · rw [kept]
      exact shrunk place
    · exact .inr ⟨gone,.inl (earlier dir)⟩
    · exact .inr ⟨gone,.inr ((List.prefix_append _ _).trans below)⟩

theorem Shrunk.delete {sight sight' sight'' : Sight} (shrunk : Shrunk path sight sight') (noFile : ¬sight.hasFile path)
    (deleted : Deleted path sight' sight'') : Deleted path sight sight'' := by
  refine ⟨deleted.1,?_⟩
  intro place differ
  rcases deleted.2 place differ with kept | ⟨gone,dir | ⟨below,-⟩⟩
  · rw [kept]
    rcases shrunk place with before | ⟨gone,dir | below⟩
    · exact .inl before
    · exact .inr ⟨gone,.inl dir⟩
    · exact .inr ⟨gone,.inr ⟨below,noFile⟩⟩
  · rcases shrunk place with before | ⟨gone',-⟩
    · exact .inr ⟨gone,.inl (before.symm.trans dir)⟩
    · rw [gone'] at dir
      cases dir
  · exact .inr ⟨gone,.inr ⟨below,noFile⟩⟩

/-- A deletion that ends well has deleted what is at the path, and nothing beside it. -/
theorem deletePathRecursive_ensures (side : Side storage root leads scratch inv look beside) (fuel : Nat) {text : Text}
    (leading : leads text path) (given : path ≠ []) (mine : Sight) :
    Ensures (Seen inv look beside mine other) (deletePathRecursive storage fuel text) fun _ s =>
      Stays inv beside other s ∧ Deleted path mine (look s) := by
  induction fuel generalizing text path mine with
  | zero => exact Meets.fail fun _ _ => trivial
  | succ fuel ih =>
    have last (mine : Sight) : Ensures (Seen inv look beside mine other) (storage.delete text >>= fun _ => pure ()) fun _ s =>
        Stays inv beside other s ∧ Deleted path mine (look s) := by
      apply Meets.bind (side.delete leading given)
      intro _
      exact Meets.pure fun _ holds => holds
    have stated : Ensures (Seen inv look beside mine other) (storage.stat text) fun info s =>
        Seen inv look beside mine other s ∧ (mine.hasFile path → info.isDir = false) :=
      (side.stat leading).weaken (fun _ _ _ => trivial) fun _ _ => trivial
    rw [deletePathRecursive]
    apply Meets.bind stated
    intro info
    apply meets_fact
    intro tells
    cases dir : info.isDir with
    | false =>
      rw [if_neg Bool.false_ne_true]
      exact last mine
    | true =>
      have noFile : ¬mine.hasFile path := by
        intro file
        rw [tells file] at dir
        cases dir
      have listed : Ensures (Seen inv look beside mine other) (storage.list text) fun infos s =>
          Seen inv look beside mine other s ∧ ∀ info ∈ infos, ∃ name, leads info.path (path ++ [name]) :=
        (side.list leading given).weaken (fun _ _ _ => trivial) fun _ _ => trivial
      rw [if_pos rfl]
      apply Meets.bind listed
      intro infos
      apply meets_fact
      intro below
      apply Meets.bind (Q := fun _ s => Stays inv beside other s ∧ Shrunk path mine (look s))
      · have loop := @meets_forEach σ ω (fun _ => True) FileInfo (fun entry => deletePathRecursive storage fuel entry.path)
          (fun _ s => Stays inv beside other s ∧ Shrunk path mine (look s)) (fun _ _ => True) infos ?_
        · apply ensures_of_meets loop
          · rintro s ⟨rfl,same⟩
            exact ⟨same,fun _ => .inl rfl⟩
          · exact fun _ _ holds => holds
        · intro entry _ member
          obtain ⟨name,child⟩ := below entry member
          apply meets_from
          rintro s ⟨same,shrunk⟩
          apply ensures_of_meets (ih child (List.append_ne_nil_of_right_ne_nil _ (List.cons_ne_nil _ _)) (look s))
          · rintro _ rfl
            exact ⟨rfl,same⟩
          · exact fun _ _ holds => ⟨holds.1,shrunk.child holds.2⟩
      · intro _
        apply meets_from
        rintro s ⟨same,shrunk⟩
        apply ensures_of_meets (last (look s))
        · rintro _ rfl
          exact ⟨rfl,same⟩
        · exact fun _ _ holds => ⟨holds.1,shrunk.delete noFile holds.2⟩

end steps
end StorageHub.Mounts
