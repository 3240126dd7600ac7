import StorageHub.Compression.CompressRuns
import StorageHub.Compression.Interference
import StorageHub.Paths

/-! A storage that is one tree in memory, and archives that are rows of names and
contents. They do what the tasks ask of a storage and of the archive crates. -/
namespace StorageHub.Compression.Native
open Library LinkTree WriteCache Scoped Mounts Effect

instance (name : Text) : Decidable (Plain name) :=
  decidable_of_iff (name ≠ [] ∧ '/' ∉ name ∧ '\\' ∉ name ∧ name ≠ ['.'] ∧ name ≠ ['.','.'])
    ⟨fun all => ⟨all.1,all.2.1,all.2.2.1,all.2.2.2.1,all.2.2.2.2⟩,
      fun plain => ⟨plain.given,plain.slashless,plain.straight,plain.noDot,plain.noDots⟩⟩

/-! ### Paths -/

def segments (text : Text) : HostPath := (text.splitOn '/').filter fun segment => segment ≠ []

theorem segments_append (a b : Text) : segments (a ++ '/'::b) = segments a ++ segments b := by
  rw [segments,List.splitOn_append_cons_self,List.filter_append]
  rfl

theorem segments_trimEnd (text : Text) : segments (Text.trimEnd '/' text) = segments text := by
  obtain ⟨slashes,split,all⟩ := Paths.trimEnd_split text
  conv => rhs; rw [split]
  generalize Text.trimEnd '/' text = kept at split ⊢
  clear split
  induction slashes using List.reverseRecOn with
  | nil => rw [List.append_nil]
  | append_singleton init last ih =>
    have before := ih fun c member => all c (List.mem_append_left _ member)
    rw [all last (List.mem_append_right _ List.mem_cons_self),← List.append_assoc,segments_append,← before]
    exact (List.append_nil _).symm

theorem segments_single {name : Text} (given : name ≠ []) (slashless : '/' ∉ name) : segments name = [name] := by
  rw [segments,List.splitOn_eq_singleton slashless]
  simp [given]

theorem segments_child {name : Text} (text : Text) (given : name ≠ []) (slashless : '/' ∉ name) :
    segments (Text.trimEnd '/' text ++ '/'::name) = segments text ++ [name] := by
  rw [segments_append,segments_trimEnd,segments_single given slashless]

/-! ### The tree -/

structure PlainTree where
  tree : HostNode
  distinct : tree.Distinct
  dir : tree.look [] = some .dir
  unlinked path text : tree.look path ≠ some (.link text)
  plain path name : tree.look (path ++ [name]) ≠ none → Plain name

namespace PlainTree
variable (s : PlainTree) {path : HostPath}

def withDir (path : HostPath) (named : ∀ name ∈ path, Plain name) : Option PlainTree :=
  match made : s.tree.createDirAll path with
  | none => none
  | some tree => some
    { tree := tree
      distinct := Node.distinct_createDirAll s.distinct made
      dir := by rw [Node.look_createDirAll made,if_pos List.nil_prefix]
      unlinked := by
        intro other text
        rw [Node.look_createDirAll made]
        split
        next => exact fun impossible => by cases impossible
        next => exact s.unlinked other text
      plain := by
        intro other name there
        rw [Node.look_createDirAll made] at there
        split at there
        next within => exact named name (within.subset (List.mem_append_right _ List.mem_cons_self))
        next => exact s.plain other name there }

def withFile (path : HostPath) (named : ∀ name ∈ path, Plain name) (data : Bytes) : Option PlainTree :=
  match made : s.tree.createFile path data with
  | none => none
  | some tree => some
    { tree := tree
      distinct := Node.distinct_createFile s.distinct made
      dir := by
        have top : path ≠ [] := by
          rintro rfl
          simp [Node.createFile,s.dir] at made
        rw [Node.look_createFile made,Function.update_of_ne (Ne.symm top),s.dir]
      unlinked := by
        intro other text
        rw [Node.look_createFile made]
        by_cases same : other = path
        · rw [same,Function.update_self]
          exact fun impossible => by cases impossible
        · rw [Function.update_of_ne same]
          exact s.unlinked other text
      plain := by
        intro other name there
        by_cases same : other ++ [name] = path
        · exact named name (same ▸ List.mem_append_right _ List.mem_cons_self)
        · rw [Node.look_createFile made,Function.update_of_ne same] at there
          exact s.plain other name there }

def without (path : HostPath) (given : path ≠ []) : PlainTree where
  tree := s.tree.remove path
  distinct := Node.distinct_remove path s.distinct
  dir := by rw [Node.look_remove given,if_neg fun within => given (List.prefix_nil.mp within),s.dir]
  unlinked := by
    intro other text
    rw [Node.look_remove given]
    split
    next => exact fun impossible => by cases impossible
    next => exact s.unlinked other text
  plain := by
    intro other name there
    rw [Node.look_remove given] at there
    split at there
    next => exact absurd rfl there
    next => exact s.plain other name there

end PlainTree

/-! ### The storage -/

def infoOf (name : Text) : Shape Bytes Text → FileInfo
  | .dir => ⟨⟨name,[],true,0,0,none,none⟩,none⟩
  | other => ⟨⟨name,[],false,shapeBytes other,0,none,none⟩,none⟩

theorem infoOf_name (name : Text) (shape : Shape Bytes Text) : (infoOf name shape).name = name := by
  cases shape <;> rfl

theorem infoOf_size (name : Text) (shape : Shape Bytes Text) : (infoOf name shape).size = shapeBytes shape := by
  cases shape <;> rfl

/-- What is done at the place that a text leads to. -/
def atPlace {α : Type} (text : Text)
    (f : ∀ path : HostPath, (∀ name ∈ path, Plain name) → PlainTree → Option (α × PlainTree)) :
    Effect PlainTree Unit VfsError α := fun s cs =>
  if plain : ∀ name ∈ segments text, Plain name then
    (f (segments text) plain s).elim (.failed (.notFound text) s cs) fun result => .done result.1 result.2 cs
  else .failed (.internal "Security violation".toList) s cs

def plainStat (path : HostPath) (s : PlainTree) : Option FileInfo :=
  (s.tree.look path).map (infoOf (path.getLastD []))

def plainRead (path : HostPath) (s : PlainTree) : Option (Bytes × FileInfo) :=
  match s.tree.look path with
  | some (.file data) => some (data,infoOf (path.getLastD []) (.file data))
  | _ => none

def plainList (path : HostPath) (s : PlainTree) : Option (List FileInfo) :=
  match s.tree.find path with
  | some (.dir names child) => some (names.map fun name => infoOf name (child name).shape)
  | _ => none

def plainMembers (path : HostPath) (s : PlainTree) : Option (List FileInfo) :=
  (s.tree.find path).map fun node => node.members.map fun member => infoOf (member.1.getLastD []) member.2

def plainStorage : UserEngine PlainTree Unit where
  read text := atPlace text fun path _ s => (plainRead path s).map fun read => (read,s)
  write text data := atPlace text fun path named s =>
    (s.withFile path named data).map fun s => (infoOf (path.getLastD []) (.file data),s)
  readStream text := atPlace text fun path _ s => (plainRead path s).map fun read => (read,s)
  writeStream text data := atPlace text fun path named s =>
    (s.withFile path named data).map fun s => (infoOf (path.getLastD []) (.file data),s)
  exists_ text := atPlace text fun path _ s => some ((s.tree.look path).isSome,s)
  stat text := atPlace text fun path _ s => (plainStat path s).map fun info => (info,s)
  list text := atPlace text fun path _ s => (plainList path s).map fun infos => (infos,s)
  listRecursive text := atPlace text fun path _ s => (plainMembers path s).map fun infos => (infos,s)
  createDirAll text := atPlace text fun path named s =>
    (s.withDir path named).map fun s => (infoOf (path.getLastD []) .dir,s)
  delete text := atPlace text fun path _ s =>
    if given : path ≠ [] then some (infoOf (path.getLastD []) .dir,s.without path given) else none
  moveFile src _ := Effect.fail (.notFound src)
  checkQuota _ := pure ()

def leadsTo (text : Text) (path : HostPath) : Prop := segments text = path ∧ ∀ name ∈ path, Plain name

def anyChoice (_ : Choice Unit) : Prop := True

section
variable {α : Type} {text : Text} {path : HostPath} {s s' : PlainTree}
  {f : ∀ path : HostPath, (∀ name ∈ path, Plain name) → PlainTree → Option (α × PlainTree)}

theorem atPlace_ends (leads : leadsTo text path) {a : α} (made : f path leads.2 s = some (a,s'))
    {Q : α → PlainTree → Prop} (holds : Q a s') : Ends anyChoice (atPlace text f) s Q := by
  obtain ⟨rfl,plain⟩ := leads
  intro cs quiet
  refine ⟨a,s',cs,?_,quiet,holds⟩
  rw [atPlace,dif_pos plain,made]
  rfl

theorem atPlace_fails (refused : ∀ plain, f (segments text) plain s = none) : Fails anyChoice (atPlace text f) s := by
  intro cs _
  unfold atPlace
  split
  next plain => exact ⟨_,s,cs,by rw [refused plain]; rfl⟩
  next => exact ⟨_,s,cs,rfl⟩

theorem withDir_made (named : ∀ name ∈ path, Plain name) (nothing : s.tree.look path = none)
    (parent : s.tree.look path.dropLast = some .dir) :
    ∃ s', s.withDir path named = some s' ∧ s'.tree.look = Function.update s.tree.look path (some .dir) := by
  have rooted : Rooted path s.tree.look := by
    intro above before strict
    by_cases same : above = path.dropLast
    · rw [same,parent]
    · apply Node.look_above _ _ same
      · rw [parent]
        exact Option.some_ne_none _
      · rcases List.eq_nil_or_concat path with rfl | ⟨init,last,rfl⟩
        · exact before
        · rw [List.concat_eq_append] at before strict ⊢
          rw [List.dropLast_concat]
          exact (List.prefix_concat_iff.mp before).resolve_left strict
  obtain ⟨tree,made,seen⟩ := createDirAll_fresh ⟨nothing,rooted⟩
  unfold PlainTree.withDir
  split
  next absent =>
    rw [made] at absent
    cases absent
  next tree' made' =>
    refine ⟨_,rfl,?_⟩
    rw [made] at made'
    cases made'
    exact seen

theorem withFile_made (named : ∀ name ∈ path, Plain name) (data : Bytes) (free : s.tree.look path ≠ some .dir)
    (parent : s.tree.look path.dropLast = some .dir) :
    ∃ s', s.withFile path named data = some s' ∧
      s'.tree.look = Function.update s.tree.look path (some (.file data)) := by
  unfold PlainTree.withFile
  split
  next absent =>
    rw [Node.createFile,if_pos ⟨parent,free⟩] at absent
    cases absent
  next tree made => exact ⟨_,rfl,Node.look_createFile made⟩

theorem not_led (text : Text) {name : Text} (given : name ≠ []) (slashless : '/' ∉ name) (bad : ¬Plain name) :
    ¬∀ segment ∈ segments (Text.trimEnd '/' text ++ '/'::name), Plain segment := by
  rw [segments_child text given slashless]
  exact fun all => bad (all name (List.mem_append_right _ List.mem_cons_self))

/-- The tree in memory does what the tasks ask of a storage. -/
theorem plainStorage_holds : TreeStorage plainStorage anyChoice (fun s => s.tree.look) leadsTo Plain where
  above := Node.look_above
  unlinked := by
    intro s path text
    exact s.unlinked path text
  plain := id
  named := by
    intro s path name there
    exact s.plain path name there
  child := by
    rintro text path name ⟨rfl,plain⟩ valid
    refine ⟨segments_child text valid.given valid.slashless,?_⟩
    intro other member
    rcases List.mem_append.mp member with old | new
    · exact plain other old
    · rw [List.mem_singleton.mp new]
      exact valid
  stat_none := by
    rintro s text path ⟨rfl,plain⟩ nothing
    dsimp only [plainStorage]
    apply atPlace_fails
    intro _
    rw [plainStat,nothing]
    rfl
  stat_dir := by
    intro s text path leads here
    dsimp only [plainStorage]
    refine atPlace_ends leads (by rw [plainStat,here]; rfl) ?_
    exact ⟨rfl,rfl⟩
  stat_file := by
    intro s text path data leads here
    dsimp only [plainStorage]
    refine atPlace_ends leads (by rw [plainStat,here]; rfl) ?_
    exact ⟨rfl,rfl,rfl⟩
  list := by
    intro s text path leads here
    obtain ⟨names,child,found⟩ := Node.find_dir_of_look here
    dsimp only [plainStorage]
    refine atPlace_ends leads (by rw [plainList,found]; rfl) ?_
    refine ⟨rfl,?_⟩
    intro name
    rw [Node.look_of_find found]
    constructor
    · rintro ⟨info,member,same⟩
      obtain ⟨listed,present,rfl⟩ := List.mem_map.mp member
      rw [infoOf_name] at same
      rw [← same,Node.look_listed present,Node.look_nil]
      exact Option.some_ne_none _
    · intro there
      have listed : name ∈ names := by
        by_contra absent
        exact there (Node.look_unlisted absent [])
      exact ⟨_,List.mem_map_of_mem listed,infoOf_name name _⟩
  listRecursive := by
    intro s text path tree leads here distinct seen
    obtain ⟨node,found,distinct',same⟩ := placed_of_seen s.distinct seen
    have perm := Node.members_perm distinct' distinct same
    have shape := kind_seen same
    have unlinked (path' : HostPath) (text : Text) : tree.look path' ≠ some (.link text) := by
      rw [← seen]
      exact s.unlinked _ text
    have bare := linkTextBytes_unlinked (find_unlinked unlinked)
    have whole := countedBytes_members tree
    have root := seen []
    rw [List.append_nil,here,Node.look_nil] at root
    dsimp only [plainStorage]
    refine atPlace_ends leads (by rw [plainMembers,found]; rfl) ?_
    refine ⟨rfl,?_,?_⟩
    · rw [List.length_map,perm.length_eq]
    · have sizes := (perm.map fun member => shapeBytes member.2).sum_eq
      rw [List.map_map]
      simp only [Function.comp_def,infoOf_size]
      rw [← Option.some.inj root] at whole
      rw [sizes]
      rw [countedBytes,bare,shapeBytes] at whole
      omega
  readStream := by
    intro s text path data leads here
    dsimp only [plainStorage]
    refine atPlace_ends leads (by rw [plainRead,here]; rfl) ?_
    exact ⟨rfl,rfl⟩
  exists_ := by
    intro s text path leads
    dsimp only [plainStorage]
    refine atPlace_ends leads rfl ?_
    exact ⟨rfl,Option.isSome_iff_ne_none⟩
  createDirAll := by
    intro s text path leads nothing parent
    obtain ⟨s',made,seen⟩ := withDir_made leads.2 nothing parent
    dsimp only [plainStorage]
    refine atPlace_ends leads (by rw [made]; rfl) ?_
    exact seen
  writeStream := by
    intro s text path data leads free parent
    obtain ⟨s',made,seen⟩ := withFile_made leads.2 data free parent
    dsimp only [plainStorage]
    refine atPlace_ends leads (by rw [made]; rfl) ?_
    exact seen
  delete := by
    intro s text path leads given there
    dsimp only [plainStorage]
    refine atPlace_ends leads (by rw [dif_pos given]) ?_
    exact Node.look_remove given s.tree
  checkQuota := by
    intro s bytes
    exact Ends.pure rfl
  refused := by
    intro s text path name _ given slashless bad
    have outside := not_led text given slashless bad
    dsimp only [plainStorage]
    refine ⟨atPlace_fails fun plain => absurd plain outside,?_⟩
    exact fun data => atPlace_fails fun plain => absurd plain outside

end
/-! ### Flat archives -/

/-- An archive as a row of names and contents, each after its length. -/
def flatPack (entries : List ZipEntry) : Bytes :=
  entries.flatMap fun entry => UInt8.ofNat entry.name.length :: (entry.name.map fun c => UInt8.ofNat c.toNat) ++
    UInt8.ofNat entry.data.length :: entry.data

def flatUnpack : Nat → Bytes → List ZipEntry
  | 0, _ | _, [] => []
  | fuel + 1, size::rest =>
    let later := rest.drop size.toNat
    let length := (later.headD 0).toNat
    ⟨(rest.take size.toNat).map fun byte => Char.ofNat byte.toNat,later.tail.take length⟩ ::
      flatUnpack fuel (later.tail.drop length)

def flatChild (entries : List ZipEntry) (name : Text) : HostNode :=
  .file ((entries.find? fun entry => entry.name = name).elim [] (·.data))

def flatCodecs : Codecs where
  os := plainOs 40
  lower := id
  unpack archive :=
    let entries := flatUnpack archive.length archive
    .ok (entries.map fun entry => entry.name,flatChild entries)
  refuses _ _ := false
  zipWrite _ entries := .ok (flatPack entries)
  zipRead _ archive := .ok (flatUnpack archive.length archive)
  enclosedName name := some (segments name)
  tarDirAll _ node := if node.kind = .dir then .ok (flatPack (node.members.map entryOf)) else .error (.vfs ioError)
  gzip _ data := data
  gunzip := .ok

theorem enclosed_joined {path : HostPath} (given : path ≠ []) (plain : ∀ name ∈ path, Plain name) :
    segments (['/'].intercalate path) = path := by
  rw [segments,splitOn_joined given plain,List.filter_eq_self]
  intro name member
  simp [(plain name member).given]

theorem enclosed_slashed {path : HostPath} (given : path ≠ []) (plain : ∀ name ∈ path, Plain name) :
    flatCodecs.enclosedName (['/'].intercalate path) = some path ∧
      flatCodecs.enclosedName (['/'].intercalate path ++ ['/']) = some path := by
  refine ⟨congrArg some (enclosed_joined given plain),congrArg some ?_⟩
  rw [segments_append,enclosed_joined given plain]
  exact List.append_nil path

def oneFile : HostNode := .dir ["a".toList] fun _ => .file [7]

def oneEntry : ZipEntry := ⟨"a".toList,[7]⟩

theorem flat_one : flatUnpack (flatPack [oneEntry]).length (flatPack [oneEntry]) = [oneEntry] := by decide +kernel

theorem oneFile_fit (opts : CompressionOptions) {limit : Nat} (room : 4 ≤ limit) :
    CodecsFit flatCodecs opts oneFile limit where
  willing _ _ := rfl
  zip := by
    intro entries perm
    obtain rfl := List.perm_singleton.mp perm
    exact ⟨_,rfl,room,congrArg Except.ok flat_one⟩
  enclosed := enclosed_slashed
  tar := by
    intro names child distinct same
    have whole : oneFile.Distinct := ⟨List.nodup_singleton _,fun _ _ => True.intro⟩
    have perm := (Node.members_perm distinct whole same).map entryOf
    have entries : (Node.dir names child).members.map entryOf = [oneEntry] := List.perm_singleton.mp perm
    refine ⟨flatPack [oneEntry],["a".toList],flatChild [oneEntry],?_,room,?_,?_,?_⟩
    · rw [← entries]
      rfl
    · dsimp only [flatCodecs]
      rw [flat_one]
      rfl
    · exact ⟨List.nodup_singleton _,fun _ _ => True.intro⟩
    · intro path
      cases path with
      | nil => rfl
      | cons name rest =>
        by_cases listed : name ∈ ["a".toList]
        · rw [Node.look_listed listed,oneFile,Node.look_listed listed,List.mem_singleton.mp listed]
          rfl
        · rw [Node.look_unlisted listed,oneFile,Node.look_unlisted listed]
  tarFile data := ⟨_,rfl⟩
  gzip := by
    intro data file
    cases file

/-! ### A source beside an empty directory -/

/-- A source named `d`, and an empty directory. -/
def shelf (source : HostNode) : HostNode :=
  .dir ["d".toList,"o".toList] fun name => if name = "d".toList then source else .dir [] fun _ => source

theorem look_shelf (source : HostNode) (rest : HostPath) : (shelf source).look ("d".toList::rest) = source.look rest :=
  Node.look_listed (by decide) rest

theorem shelf_cases {source : HostNode} {path : HostPath} {shape : Shape Bytes Text}
    (seen : (shelf source).look path = some shape) :
    path = [] ∧ shape = .dir ∨ path = ["o".toList] ∧ shape = .dir ∨
      ∃ rest, path = "d".toList::rest ∧ source.look rest = some shape := by
  cases path with
  | nil =>
    cases seen
    exact .inl ⟨rfl,rfl⟩
  | cons name rest =>
    by_cases first : name = "d".toList
    · rw [first,look_shelf] at seen
      exact .inr (.inr ⟨rest,by rw [first],seen⟩)
    · by_cases second : name = "o".toList
      · rw [second,shelf,Node.look_listed (by decide),if_neg (by decide)] at seen
        cases rest with
        | nil =>
          cases seen
          exact .inr (.inl ⟨by rw [second],rfl⟩)
        | cons next later =>
          rw [Node.look_unlisted List.not_mem_nil] at seen
          cases seen
      · have absent : name ∉ ["d".toList,"o".toList] := by
          rw [List.mem_cons,List.mem_singleton]
          exact fun either => either.elim first second
        rw [shelf,Node.look_unlisted absent] at seen
        cases seen

def shelved (source : HostNode) (distinct : source.Distinct)
    (unlinked : ∀ path text, source.look path ≠ some (.link text))
    (plain : ∀ path name, source.look (path ++ [name]) ≠ none → Plain name) : PlainTree where
  tree := shelf source
  distinct := by
    refine ⟨by decide,?_⟩
    intro name _
    dsimp only
    split
    next => exact distinct
    next => exact ⟨List.nodup_nil,fun _ member => by cases member⟩
  dir := Node.look_nil
  unlinked := by
    intro path text seen
    rcases shelf_cases seen with ⟨-,same⟩ | ⟨-,same⟩ | ⟨rest,-,inside⟩
    · cases same
    · cases same
    · exact unlinked rest text inside
  plain := by
    intro path name there
    obtain ⟨shape,seen⟩ := Option.ne_none_iff_exists'.mp there
    rcases shelf_cases seen with ⟨same,-⟩ | ⟨same,-⟩ | ⟨rest,same,inside⟩
    · exact absurd same (by simp)
    · have last := congrArg (List.getLastD · []) same
      simp only [List.getLastD_concat] at last
      rw [last]
      decide
    · rcases List.eq_nil_or_concat rest with rfl | ⟨init,final,rfl⟩
      · have last := congrArg (List.getLastD · []) same
        simp only [List.getLastD_concat] at last
        rw [last]
        decide
      · rw [List.concat_eq_append] at same inside
        have last := congrArg (List.getLastD · []) same
        rw [← List.cons_append] at last
        simp only [List.getLastD_concat] at last
        rw [last]
        exact plain init final (by rw [inside]; exact Option.some_ne_none _)

def bareHost : HostNode := .dir [] fun _ => .file []

theorem bareHost_fresh (name : Text) : Fresh bareHost [name] where
  nothing := Node.look_unlisted List.not_mem_nil []
  rooted := by
    intro above before strict
    cases above with
    | nil => exact Node.look_nil
    | cons first later =>
      obtain ⟨rfl,nothing⟩ := List.cons_prefix_cons.mp before
      exact absurd (by rw [List.prefix_nil.mp nothing]) strict

theorem oneFile_seen {path : HostPath} (there : oneFile.look path ≠ none) :
    path = [] ∧ oneFile.look path = some .dir ∨ path = ["a".toList] ∧ oneFile.look path = some (.file [7]) := by
  cases path with
  | nil => exact .inl ⟨rfl,rfl⟩
  | cons name rest =>
    by_cases listed : name ∈ ["a".toList]
    · obtain rfl := List.mem_singleton.mp listed
      cases rest with
      | nil => exact .inr ⟨rfl,rfl⟩
      | cons next later => exact absurd rfl there
    · rw [oneFile,Node.look_unlisted listed] at there
      exact absurd rfl there

def directoryShelved : PlainTree := by
  refine shelved oneFile ⟨List.nodup_singleton _,fun _ _ => True.intro⟩ ?_ ?_
  · intro path text seen
    have there : oneFile.look path ≠ none := by rw [seen]; exact Option.some_ne_none _
    rcases oneFile_seen there with ⟨-,dir⟩ | ⟨-,file⟩
    · rw [dir] at seen
      cases seen
    · rw [file] at seen
      cases seen
  · intro path name there
    rcases oneFile_seen there with ⟨same,-⟩ | ⟨same,-⟩
    · exact absurd same (by simp)
    · have last := congrArg (List.getLastD · []) same
      simp only [List.getLastD_concat] at last
      rw [last]
      decide

/-! ### A file by itself -/

def singleFile : HostNode := .file [7]

theorem singleFile_fit (opts : CompressionOptions) {limit : Nat} (room : 1 ≤ limit) :
    CodecsFit flatCodecs opts singleFile limit where
  willing _ _ := rfl
  zip := by
    intro entries perm
    obtain rfl := List.perm_nil.mp perm
    exact ⟨[],rfl,Nat.zero_le limit,rfl⟩
  enclosed := enclosed_slashed
  tar := by
    intro names child _ same
    have root := same []
    cases root
  tarFile data := ⟨_,rfl⟩
  gzip := by
    intro data file
    cases file
    exact ⟨room,rfl⟩

def fileShelved : PlainTree := by
  refine shelved singleFile True.intro ?_ ?_
  · intro path text seen
    cases path with
    | nil => cases seen
    | cons name rest => cases seen
  · intro path name there
    cases path with
    | nil => exact absurd rfl there
    | cons first rest => exact absurd rfl there

end StorageHub.Compression.Native
