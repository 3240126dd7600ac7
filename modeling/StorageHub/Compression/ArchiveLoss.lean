import StorageHub.Compression.ArchiveMembers
import StorageHub.Compression.RoundTrip

/-! Decompressing an archive that is deleted afterwards. -/
namespace StorageHub.Compression.Native
open Library LinkTree WriteCache Scoped Mounts Effect

section loss
variable {σ ω : Type}

/-- The files of an archive whose names are taken. -/
def Wanted (codecs : Codecs) (tarFiles : Bytes → List (HostPath × Bytes)) (format : CompressionFormat) (src : Text)
    (password : Option Text) (archive : Bytes) (path : HostPath) (data : Bytes) : Prop :=
  (some path,data) ∈ fileMembers codecs tarFiles format src password archive

/-- Every file of the archive is in the storage, at its own path below the destination. -/
def AllStored (codecs : Codecs) (tarFiles : Bytes → List (HostPath × Bytes)) (look : σ → View)
    (place : Text → HostPath) (src dst : Text) (password : Option Text) (archive : Bytes) (s : σ) : Prop :=
  ∀ format, CompressionFormat.fromPath codecs.lower src = some format →
    ∀ member ∈ fileMembers codecs tarFiles format src password archive,
      ∃ path, member.1 = some path ∧ look s (place (uploadText dst path)) = some (.file member.2)

/-- However a decompression with deletion goes, the archive is there or all its files are
in the storage. When it fails the archive is there. -/
def LosesNothing (codecs : Codecs) (tarFiles : Bytes → List (HostPath × Bytes)) (config : FileCompressConfig)
    (engine : UserEngine σ ω) (look : σ → View) (place : Text → HostPath) (fuel : Nat) (tempDir : HostPath)
    (src dst : Text) (overwrite : Bool) (password : Option Text) (archive : Bytes) (s : σ) (host : HostNode) : Prop :=
  Meets (fun at_ : Local σ => at_ = (s,host))
    (decompressTask codecs config engine fuel tempDir src dst ⟨overwrite,true⟩ password)
    (fun _ after => Still look (place src) archive after.1 ∨
      AllStored codecs tarFiles look place src dst password archive after.1)
    (fun _ after => Still look (place src) archive after.1)
    fun after => Still look (place src) archive after.1 ∨
      AllStored codecs tarFiles look place src dst password archive after.1

/-- Every name in the archive is taken, a tar archive unpacks to its files, no two of the
unpacked paths and nothing that is there and kept get into each other's way, and the
destination, which is there by then, can be looked at in the end. -/
structure Lossless (codecs : Codecs) (tarFiles : Bytes → List (HostPath × Bytes)) (engine : UserEngine σ ω)
    (look : σ → View) (place : Text → HostPath) (tempDir : HostPath) (src dst : Text) (overwrite : Bool)
    (password : Option Text) (archive : Bytes) (s : σ) (host : HostNode) (format : CompressionFormat) : Prop where
  named : ∀ member ∈ fileMembers codecs tarFiles format src password archive, member.1 ≠ none
  whole : format = .tarGz → ∀ names child, codecs.unpack archive = .ok (names,child) →
    ∀ member ∈ tarFiles archive, (Node.dir names child : HostNode).find member.1 = some (.file member.2)
  unmixed : Unmixed place dst overwrite (look s) (place src) (Wanted codecs tarFiles format src password archive)
    (UnpackedTo codecs format src password archive host tempDir)
  steady : ∀ s cs e s' rest, look s (place dst) ≠ none → engine.stat dst s cs ≠ .failed e s' rest

variable {codecs : Codecs} {tarFiles : Bytes → List (HostPath × Bytes)} {config : FileCompressConfig}
  {engine : UserEngine σ ω} {look : σ → View} {place : Text → HostPath} {fuel : Nat} {tempDir output : HostPath}
  {src dst : Text} {overwrite : Bool} {password : Option Text} {archive : Bytes} {s : σ} {host : HostNode}
  {format : CompressionFormat} {wanted : HostPath → Bytes → Prop} {unpacked : HostPath → Option Bytes → Prop} {view : View}

theorem Unmixed.uploaded {uploaded : HostPath → Option Bytes → Prop} {arch : HostPath}
    (unmixed : Unmixed place dst overwrite view arch wanted unpacked)
    (known : ∀ q content, uploaded q content → unpacked q content) :
    Unmixed place dst overwrite view arch wanted uploaded where
  alike want up := unmixed.alike want (known _ _ up)
  free := unmixed.free
  clear keep want up := unmixed.clear keep want (known _ _ up)
  spared replace up := unmixed.spared replace (known _ _ up)
  outside := unmixed.outside
  above := unmixed.above

/-- The files that are wanted, all at their places. -/
def Stored (look : σ → View) (place : Text → HostPath) (dst : Text) (wanted : HostPath → Bytes → Prop) (s : σ) : Prop :=
  ∀ p data, wanted p data → look s (place (uploadText dst p)) = some (.file data)

/-- The deletion of the archive leaves the files, and the destination. -/
theorem discardArchive_meets (storage : CarefulStorage engine look place)
    (unmixed : Unmixed place dst overwrite view (place src) wanted unpacked) :
    Meets (fun s => Stored look place dst wanted s ∧ look s (place dst) ≠ none)
      (discardArchive engine src ⟨overwrite,true⟩)
      (fun _ s => Stored look place dst wanted s ∧ look s (place dst) ≠ none) (fun _ => Still look (place src) archive)
      (Stored look place dst wanted) := by
  have after {s s' : σ} (holds : Stored look place dst wanted s ∧ look s (place dst) ≠ none)
      (same : ∀ other, ¬ place src <+: other → look s' other = look s other) :
      Stored look place dst wanted s' ∧ look s' (place dst) ≠ none := by
    constructor
    · intro p data want
      rw [same _ (unmixed.outside want),holds.1 p data want]
    · rw [same _ unmixed.above]
      exact holds.2
  have deleted : Meets (fun s => Stored look place dst wanted s ∧ look s (place dst) ≠ none)
      (engine.delete src).attempt (fun _ s => Stored look place dst wanted s ∧ look s (place dst) ≠ none)
      (fun _ => Still look (place src) archive) (Stored look place dst wanted) := by
    apply Meets.attempt
    apply meets_of_views (storage.delete src)
    · exact fun s _ s' holds same => after holds same
    · exact fun s _ s' holds same => after holds same
    · exact fun s s' holds same => (after holds same).1
  rw [discardArchive,if_pos rfl]
  apply (Meets.mapError (E := fun _ => Still look (place src) archive) TaskError.vfs deleted).bind
  intro _
  exact Meets.pure fun _ holds => holds

/-- The destination is looked at in the end. -/
theorem lastStat_meets (storage : CarefulStorage engine look place)
    (steady : ∀ s cs e s' rest, look s (place dst) ≠ none → engine.stat dst s cs ≠ .failed e s' rest) :
    Meets (fun s => Stored look place dst wanted s ∧ look s (place dst) ≠ none) (engine.stat dst)
      (fun _ => Stored look place dst wanted) (fun _ => Still look (place src) archive)
      (Stored look place dst wanted) := by
  intro s cs holds
  have same := storage.stat dst (look s) s cs rfl
  have kept {s' : σ} (same : look s' = look s) : Stored look place dst wanted s' := by
    intro p data want
    rw [same]
    exact holds.1 p data want
  cases outcome : engine.stat dst s cs with
  | done info s' rest => rw [outcome] at same; exact kept same
  | failed e s' rest => exact absurd outcome (steady s cs e s' rest holds.2)
  | crashed s' => rw [outcome] at same; exact kept same

/-- From the unpacked archive on, the archive is there until all its files are stored. -/
theorem storeExtracted_meets (storage : CarefulStorage engine look place) (config : FileCompressConfig)
    (unmixed : Unmixed place dst overwrite view (place src) wanted (Uploaded codecs.os host output))
    (lies : ∀ p data, wanted p data → Lies codecs.os host output p data)
    (stored : view (place src) = some (.file archive))
    (steady : ∀ s cs e s' rest, look s (place dst) ≠ none → engine.stat dst s cs ≠ .failed e s' rest) :
    Meets (fun s => look s = view)
      (storeExtracted codecs.os host engine fuel (config.maxExtractSizeGb * 1024 * 1024 * 1024) output src dst
        ⟨overwrite,true⟩)
      (fun _ => Stored look place dst wanted) (fun _ => Still look (place src) archive)
      fun s => Still look (place src) archive s ∨ Stored look place dst wanted s := by
  have still {s : σ} (same : look s = view) : Still look (place src) archive s := by rw [Still,same,stored]
  unfold storeExtracted
  apply Meets.bind (Q := fun _ s => look s = view)
  · apply Meets.ofExcept
    · exact fun _ _ _ same => same
    · exact fun _ _ _ same => still same
  intro total
  apply Meets.bind (Q := fun _ s => look s = view)
  · apply Meets.mapError
    exact (storage.checkQuota total view).consequence (fun _ same => same) (fun _ _ same => same)
      (fun _ _ same => still same) fun _ same => .inl (still same)
  intro _
  apply Meets.bind (Q := fun _ s => Stored look place dst wanted s ∧ look s (place dst) ≠ none)
  · apply Meets.mapError
    have copied : Meets (Carried look place dst overwrite (place src) archive wanted ∅ ∅)
        (copyFromLocalTemp codecs.os host engine.toVfsStorage overwrite fuel (output ++ []) (uploadText dst []))
        (fun _ => Carried look place dst overwrite (place src) archive wanted (∅ ∪ {p | [] <+: p}) (insert (place dst) ∅))
        (fun _ => Still look (place src) archive) (Still look (place src) archive) :=
      copyFromLocalTemp_meets storage unmixed lies .here
    rw [List.append_nil] at copied
    apply copied.consequence
    · intro s same
      refine ⟨still same,(fun _ member => by cases member),?_,fun member => by cases member⟩
      intro p data keep want
      rw [same]
      exact unmixed.free keep want
    · intro _ s carried
      exact ⟨fun p data want => carried.stored want (.inr List.nil_prefix),carried.seen (Set.mem_insert _ _)⟩
    · exact fun _ _ holds => holds
    · exact fun _ holds => .inl holds
  intro _
  apply Meets.bind (Q := fun _ s => Stored look place dst wanted s ∧ look s (place dst) ≠ none)
  · exact (discardArchive_meets storage unmixed).weaken (fun _ _ holds => holds) fun _ holds => .inr holds
  intro _
  apply Meets.mapError
  exact (lastStat_meets storage steady).weaken (fun _ _ holds => holds) fun _ holds => .inr holds

theorem LosesNothing.state (safe : LosesNothing codecs tarFiles config engine look place fuel tempDir src dst overwrite
    password archive s host) (cs : List (Choice ω)) :
    Still look (place src) archive ((decompressTask codecs config engine fuel tempDir src dst ⟨overwrite,true⟩ password)
        (s,host) cs).state.1 ∨
      AllStored codecs tarFiles look place src dst password archive
        ((decompressTask codecs config engine fuel tempDir src dst ⟨overwrite,true⟩ password) (s,host) cs).state.1 := by
  have run := safe (s,host) cs rfl
  cases outcome : decompressTask codecs config engine fuel tempDir src dst ⟨overwrite,true⟩ password (s,host) cs with
  | done info after rest => rw [outcome] at run; exact run
  | failed e after rest => rw [outcome] at run; exact .inl run
  | crashed after => rw [outcome] at run; exact run

theorem decompressTask_unknown (fuel : Nat) (tempDir : HostPath) (src dst : Text) (opts : DecompressionOptions)
    (password : Option Text) (unknown : CompressionFormat.fromPath codecs.lower src = none) :
    decompressTask codecs config engine fuel tempDir src dst opts password =
      (fetchArchive codecs config engine fuel tempDir src >>= fun _ => Effect.fail unsupported) := by
  simp only [decompressTask,fetchArchive,bind_assoc,unknown]

end loss

/-! ### The tree in memory is such a storage -/

section
variable {α : Type} {text : Text} {f : ∀ path : HostPath, (∀ name ∈ path, Plain name) → PlainTree → Option (α × PlainTree)}

theorem atPlace_meets {P : PlainTree → Prop} {Q : α → PlainTree → Prop} {C : PlainTree → Prop}
    {E : VfsError → PlainTree → Prop} (onDone : ∀ plain s a s', P s → f (segments text) plain s = some (a,s') → Q a s')
    (onFail : ∀ e s, P s → E e s) : Meets P (atPlace text f) Q E C := by
  intro s cs holds
  by_cases plain : ∀ name ∈ segments text, Plain name
  · cases made : f (segments text) plain s with
    | none =>
      rw [atPlace,dif_pos plain,made]
      exact onFail _ s holds
    | some result =>
      rw [atPlace,dif_pos plain,made]
      exact onDone plain s result.1 result.2 holds made
  · rw [atPlace,dif_neg plain]
    exact onFail _ s holds

end

theorem withDir_look {s s' : PlainTree} {path : HostPath} {named : ∀ name ∈ path, Plain name}
    (made : s.withDir path named = some s') : s.tree.createDirAll path = some s'.tree := by
  unfold PlainTree.withDir at made
  split at made
  next => cases made
  next tree created => cases made; exact created

theorem withFile_look {s s' : PlainTree} {path : HostPath} {named : ∀ name ∈ path, Plain name} {data : Bytes}
    (made : s.withFile path named data = some s') :
    s'.tree.look = Function.update s.tree.look path (some (.file data)) := by
  unfold PlainTree.withFile at made
  split at made
  next => cases made
  next tree created => cases made; exact Node.look_createFile created

theorem plainStorage_careful : CarefulStorage plainStorage (fun s => s.tree.look) segments where
  stat text view := by
    dsimp only [plainStorage]
    apply atPlace_meets
    · intro _ s info s' same made
      obtain ⟨_,-,equal⟩ := Option.map_eq_some_iff.mp made
      cases equal
      exact same
    · exact fun _ _ same => same
  list text view := by
    dsimp only [plainStorage]
    apply atPlace_meets
    · intro _ s infos s' same made
      obtain ⟨_,-,equal⟩ := Option.map_eq_some_iff.mp made
      cases equal
      exact same
    · exact fun _ _ same => same
  checkQuota _ _ := Keeps.pure ()
  readStream text view := by
    dsimp only [plainStorage]
    apply atPlace_meets
    · intro _ s read s' same made
      obtain ⟨content,found,equal⟩ := Option.map_eq_some_iff.mp made
      cases equal
      refine ⟨same,?_⟩
      unfold plainRead at found
      split at found
      next data seen =>
        cases found
        rw [← same,seen]
      next => cases found
    · exact fun _ _ same => same
  exists_ text view := by
    dsimp only [plainStorage]
    apply atPlace_meets
    · intro _ s found s' same made
      cases made
      rw [← same,Option.isSome_iff_ne_none]
      exact ⟨rfl,Iff.rfl⟩
    · exact fun _ _ same => same
  createDirAll text view := by
    dsimp only [plainStorage]
    apply atPlace_meets
    · intro _ s info s' same made
      obtain ⟨after,created,equal⟩ := Option.map_eq_some_iff.mp made
      cases equal
      have tree := withDir_look created
      rw [← same]
      constructor
      · intro other
        cases seen : s.tree.look other with
        | some shape => exact .inl (look_kept_createDirAll tree seen)
        | none =>
          rw [Node.look_createDirAll tree]
          by_cases above : other <+: segments text
          · exact .inr ⟨rfl,above⟩
          · rw [if_neg above]
            exact .inl seen
      · rw [Node.look_createDirAll tree,if_pos List.prefix_rfl]
        exact Option.some_ne_none _
    · exact fun _ _ same other => .inl (by rw [same])
  writeStream text data view := by
    dsimp only [plainStorage]
    apply atPlace_meets
    · intro _ s info s' same made
      obtain ⟨after,created,equal⟩ := Option.map_eq_some_iff.mp made
      cases equal
      rw [withFile_look created,← same]
      exact ⟨fun other differ => .inl (Function.update_of_ne differ _ _),Function.update_self _ _ _⟩
    · exact fun _ _ same other _ => .inl (by rw [same])
  delete text view := by
    dsimp only [plainStorage]
    apply atPlace_meets
    · intro _ s info s' same made other apart
      split at made
      next given =>
        cases made
        rw [← same]
        dsimp only [PlainTree.without]
        rw [Node.look_remove given,if_neg apart]
      next => cases made
    · exact fun _ _ same other _ => by rw [same]

theorem plainStat_steady {dst : Text} (plain : ∀ name ∈ segments dst, Plain name) (s : PlainTree)
    (cs : List (Choice Unit)) (e : VfsError) (s' : PlainTree) (rest : List (Choice Unit))
    (there : s.tree.look (segments dst) ≠ none) : plainStorage.stat dst s cs ≠ .failed e s' rest := by
  obtain ⟨shape,seen⟩ := Option.ne_none_iff_exists'.mp there
  have made : ((plainStat (segments dst) s).map fun info => (info,s)) =
      some (infoOf ((segments dst).getLastD []) shape,s) := by rw [plainStat,seen]; rfl
  dsimp only [plainStorage]
  rw [atPlace,dif_pos plain,made]
  exact fun impossible => by cases impossible

/-! ### An archive beside a directory -/

/-- An archive, and a directory of files with one content. -/
def depot (archive : Bytes) (held : List Text) (data : Bytes) : HostNode :=
  .dir ["d.zip".toList,"o".toList] fun name =>
    if name = "d.zip".toList then .file archive else .dir held fun _ => .file data

theorem depot_cases {archive data : Bytes} {held : List Text} {path : HostPath} {shape : Shape Bytes Text}
    (seen : (depot archive held data).look path = some shape) :
    path = [] ∧ shape = .dir ∨ path = ["d.zip".toList] ∧ shape = .file archive ∨ path = ["o".toList] ∧ shape = .dir ∨
      ∃ name ∈ held, path = ["o".toList,name] ∧ shape = .file data := by
  cases path with
  | nil =>
    cases seen
    exact .inl ⟨rfl,rfl⟩
  | cons name rest =>
    right
    by_cases first : name = "d.zip".toList
    · left
      rw [first,depot,Node.look_listed (by decide),if_pos rfl] at seen
      cases rest with
      | nil => cases seen; exact ⟨by rw [first],rfl⟩
      | cons next later => cases seen
    · right
      by_cases second : name = "o".toList
      · rw [second,depot,Node.look_listed (by decide),if_neg (by decide)] at seen
        cases rest with
        | nil => cases seen; exact .inl ⟨by rw [second],rfl⟩
        | cons next later =>
          right
          by_cases listed : next ∈ held
          · rw [Node.look_listed listed] at seen
            cases later with
            | nil => cases seen; exact ⟨next,listed,by rw [second],rfl⟩
            | cons last deeper => cases seen
          · rw [Node.look_unlisted listed] at seen
            cases seen
      · have absent : name ∉ ["d.zip".toList,"o".toList] := by
          rw [List.mem_cons,List.mem_singleton]
          exact fun either => either.elim first second
        rw [depot,Node.look_unlisted absent] at seen
        cases seen

def stocked (archive : Bytes) (held : List Text) (data : Bytes) (once : held.Nodup) (named : ∀ name ∈ held, Plain name) :
    PlainTree where
  tree := depot archive held data
  distinct := by
    refine ⟨by decide,?_⟩
    intro name _
    dsimp only
    split
    next => trivial
    next => exact ⟨once,fun _ _ => trivial⟩
  dir := Node.look_nil
  unlinked := by
    intro path text seen
    rcases depot_cases seen with ⟨-,same⟩ | ⟨-,same⟩ | ⟨-,same⟩ | ⟨_,-,-,same⟩ <;> cases same
  plain := by
    intro path name there
    obtain ⟨shape,seen⟩ := Option.ne_none_iff_exists'.mp there
    have last {list : HostPath} (same : path ++ [name] = list) : name = list.getLastD [] := by
      rw [← same,List.getLastD_concat]
    rcases depot_cases seen with ⟨same,-⟩ | ⟨same,-⟩ | ⟨same,-⟩ | ⟨other,listed,same,-⟩
    · exact absurd same (by simp)
    · rw [last same]
      decide
    · rw [last same]
      decide
    · rw [last same]
      exact named other listed

/-- The archive of one file. -/
def onePacked : Bytes := flatPack [oneEntry]

def beside : PlainTree := stocked onePacked ["b".toList] [8] (List.nodup_singleton _) (by decide)

/-- A file of the name of the archive's is there with another content. -/
def inTheWay : PlainTree := stocked onePacked ["a".toList] [8] (List.nodup_singleton _) (by decide)

theorem fileMembers_one : fileMembers flatCodecs (fun _ => []) .zip "/d.zip".toList none onePacked =
    [(some ["a".toList],[7])] := by decide +kernel

theorem unpackedTo_one {q : HostPath} {content : Option Bytes}
    (up : UnpackedTo flatCodecs .zip "/d.zip".toList none onePacked bareHost ["t".toList] q content) :
    q = [] ∧ content = none ∨ q = ["a".toList] ∧ content = some [7] := by
  have only {entries : List ZipEntry} {entry : ZipEntry} (read : flatCodecs.zipRead none onePacked = .ok entries)
      (listed : entry ∈ entries) : entry = oneEntry := by
    have packed : flatCodecs.zipRead none onePacked = .ok [oneEntry] := congrArg Except.ok flat_one
    rw [packed] at read
    cases read
    exact List.mem_singleton.mp listed
  have path : flatCodecs.enclosedName oneEntry.name = some ["a".toList] := by decide
  cases up with
  | root => exact .inl ⟨rfl,rfl⟩
  | zipDir _ read listed named within dir =>
    rw [only read listed] at named dir
    rw [path] at named
    cases named
    rcases dir with impossible | strict
    · exact absurd impossible (by decide)
    · left
      refine ⟨?_,rfl⟩
      have within' : q <+: [] ++ ["a".toList] := within
      rcases List.prefix_concat_iff.mp within' with same | shorter
      · exact absurd same strict
      · exact List.prefix_nil.mp shorter
  | zipFile _ read listed named _ =>
    rw [only read listed] at named ⊢
    rw [path] at named
    cases named
    exact .inr ⟨rfl,rfl⟩
  | gzip asked _ _ => cases asked
  | tarGz asked _ _ _ => cases asked

end StorageHub.Compression.Native
