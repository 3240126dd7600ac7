import StorageHub.Compression.ExtractRuns
import StorageHub.Compression.Interference
import StorageHub.Compression.Uploads

/-! What an archive of any kind leaves in the directory of a decompression, in every run
that comes so far. -/
namespace StorageHub.Compression.Native
open Library LinkTree WriteCache Scoped Mounts Effect

/-! ### Archives -/

def localName (src : Text) : Text := (Text.fileName src).getD "input.archive".toList

/-- The files of an archive with their contents. A name that is rejected leads to no
path. `tarFiles` are those of a tar archive. -/
def fileMembers (codecs : Codecs) (tarFiles : Bytes → List (HostPath × Bytes)) (format : CompressionFormat)
    (src : Text) (password : Option Text) (archive : Bytes) : List (Option HostPath × Bytes) :=
  match format with
  | .zip =>
    match codecs.zipRead password archive with
    | .ok entries => (entries.filter fun entry => !entry.isDir).map fun entry =>
        (codecs.enclosedName entry.name,entry.data)
    | .error _ => []
  | .tarGz => (tarFiles archive).map fun member => (some member.1,member.2)
  | .gzip =>
    match codecs.gunzip archive with
    | .ok data => (Text.fileStem src).toList.map fun name => (some [name],data)
    | .error _ => []
  | .sevenZip | .tar => []

/-- The host once the archive is copied to it. -/
def received (host : HostNode) (tempDir : HostPath) (name : Text) (archive : Bytes) : Option HostNode := do
  let host ← host.createDirAll tempDir
  let host ← host.createDirAll (tempDir ++ ["output".toList])
  host.createFile (tempDir ++ [name]) archive

/-- The paths that an archive unpacks to, directories and the contents of files. What a
tar archive links to is read on the host. -/
inductive UnpackedTo (codecs : Codecs) (format : CompressionFormat) (src : Text) (password : Option Text)
    (archive : Bytes) (host : HostNode) (tempDir : HostPath) : HostPath → Option Bytes → Prop
  | root : UnpackedTo codecs format src password archive host tempDir [] none
  | zipDir {entries : List ZipEntry} {entry : ZipEntry} {path q : HostPath} (asked : format = .zip)
      (read : codecs.zipRead password archive = .ok entries) (listed : entry ∈ entries)
      (named : codecs.enclosedName entry.name = some path) (within : q <+: path)
      (dir : entry.isDir = true ∨ q ≠ path) : UnpackedTo codecs format src password archive host tempDir q none
  | zipFile {entries : List ZipEntry} {entry : ZipEntry} {path : HostPath} (asked : format = .zip)
      (read : codecs.zipRead password archive = .ok entries) (listed : entry ∈ entries)
      (named : codecs.enclosedName entry.name = some path) (file : entry.isDir = false) :
      UnpackedTo codecs format src password archive host tempDir path (some entry.data)
  | gzip {name : Text} {data : Bytes} (asked : format = .gzip) (named : Text.fileStem src = some name)
      (read : codecs.gunzip archive = .ok data) :
      UnpackedTo codecs format src password archive host tempDir [name] (some data)
  | tarGz {names : List Text} {child : Text → HostNode} {host' : HostNode} {q : HostPath} {content : Option Bytes}
      (asked : format = .tarGz) (unpacked : codecs.unpack archive = .ok (names,child))
      (come : received host tempDir (localName src) archive = some host')
      (there : Uploaded codecs.os (Node.graft (.dir names child) (tempDir ++ ["output".toList]) host')
        (tempDir ++ ["output".toList]) q content) :
      UnpackedTo codecs format src password archive host tempDir q content

/-! ### Plain places of the host -/

section plain
variable {os : Os} {host host' : HostNode} {base path q other : HostPath} {data : Bytes} {shape : Shape Bytes Text}

theorem ne_link_of_look (seen : host.look path = some shape) (unlinked : ∀ text, shape ≠ .link text) :
    ∃ node, host.find path = some node ∧ node.shape = shape ∧ ∀ text, node ≠ .link text := by
  obtain ⟨node,found,same⟩ := Option.map_eq_some_iff.mp seen
  refine ⟨node,found,same,?_⟩
  rintro text rfl
  exact unlinked text same.symm

theorem isDir_of_look (os : Os) (seen : host.look path = some shape) (unlinked : ∀ text, shape ≠ .link text) :
    os.isDir host path = true ↔ shape = .dir := by
  obtain ⟨node,found,rfl,plain⟩ := ne_link_of_look seen unlinked
  rw [isDir_placed os found plain]
  cases node with
  | file data => simp [Node.kind,Node.shape]
  | link text => exact absurd rfl (plain text)
  | dir names child => simp [Node.kind,Node.shape]

theorem openFile_dir (os : Os) (seen : host.look path = some .dir) : os.openFile host path = none := by
  obtain ⟨names,child,found⟩ := Node.find_dir_of_look seen
  have resolved := @resolved_plain os host (.dir names child) (.dir names child) path [] found Node.find_nil (.inl rfl)
  rw [List.append_nil] at resolved
  rw [Os.openFile,resolved,Option.bind_some,found]

/-- The names in a plain directory are those of what is there. -/
theorem mem_readDir (seen : host.look path = some .dir) {names : List Text} (read : os.readDir host path = some names)
    (name : Text) : name ∈ names ↔ host.look (path ++ [name]) ≠ none := by
  obtain ⟨inner,child,found⟩ := Node.find_dir_of_look seen
  have listing : os.readDir host (path ++ []) = some (os.order (path ++ []) inner) :=
    readDir_plain found Node.find_nil
  rw [List.append_nil,read] at listing
  rw [Option.some.inj listing,(os.order_perm path inner).mem_iff,Node.look_of_find found]
  by_cases listed : name ∈ inner
  · simp [Node.look_listed listed,listed]
  · simp [Node.look_unlisted listed,listed]

/-- A file that is seen lies there with the directories above it. -/
theorem lies_of_look (os : Os) (seen : host.look (base ++ path) = some (.file data)) : Lies os host base path data := by
  have dirs {above : HostPath} {name : Text} (within : above ++ [name] <+: path) :
      host.look (base ++ above) = some .dir ∧ host.look (base ++ (above ++ [name])) ≠ none := by
    have there : host.look (base ++ path) ≠ none := by rw [seen]; exact Option.some_ne_none _
    have inner : base ++ (above ++ [name]) <+: base ++ path := (List.prefix_append_right_inj base).mpr within
    constructor
    · apply Node.look_above there
      · exact ((List.prefix_append_right_inj base).mpr (List.prefix_append above [name])).trans inner
      · intro same
        have equal := List.append_cancel_left same
        have lengths := within.length_le
        rw [← equal,List.length_append,List.length_singleton] at lengths
        omega
    · by_cases same : base ++ (above ++ [name]) = base ++ path
      · rw [same]
        exact there
      · rw [Node.look_above there inner same]
        exact Option.some_ne_none _
  have file : ∀ text, (Shape.file data : Shape Bytes Text) ≠ .link text := fun text same => by cases same
  constructor
  · rw [Bool.eq_false_iff]
    intro dir
    cases (isDir_of_look os seen file).mp dir
  · exact openFile_placed os (Node.find_file_of_look seen)
  · intro above name within
    exact (isDir_of_look os (dirs within).1 fun text same => by cases same).mpr rfl
  · intro above name names within read
    have here := (dirs within).2
    rw [← List.append_assoc] at here
    exact (mem_readDir (dirs within).1 read name).mpr here

/-- Where there are no links, what is uploaded is what is seen. -/
theorem look_of_uploaded {content : Option Bytes} (root : host.look base ≠ none)
    (unlinked : ∀ q text, host.look (base ++ q) ≠ some (.link text)) (up : Uploaded os host base q content) :
    host.look (base ++ q) = some (content.elim .dir .file) := by
  have plain {q : HostPath} {shape : Shape Bytes Text} (seen : host.look (base ++ q) = some shape) (text : Text) :
      shape ≠ .link text := fun same => unlinked q text (by rw [seen,same])
  have there {q : HostPath} (reached : Reached os host base q) : host.look (base ++ q) ≠ none := by
    induction reached with
    | here =>
      rw [List.append_nil]
      exact root
    | @entry path names name above dir read listed ih =>
      obtain ⟨shape,seen⟩ := Option.ne_none_iff_exists'.mp ih
      rw [(isDir_of_look os seen (plain seen)).mp dir] at seen
      rw [← List.append_assoc]
      exact (mem_readDir seen read name).mp listed
  cases up with
  | dir reached dir =>
    obtain ⟨shape,seen⟩ := Option.ne_none_iff_exists'.mp (there reached)
    rw [seen,(isDir_of_look os seen (plain seen)).mp dir]
    rfl
  | file reached leaf read =>
    obtain ⟨shape,seen⟩ := Option.ne_none_iff_exists'.mp (there reached)
    cases shape with
    | dir =>
      rw [openFile_dir os seen] at read
      cases read
    | link text => exact absurd rfl (plain seen text)
    | file data =>
      rw [openFile_placed os (Node.find_file_of_look seen)] at read
      rw [seen,Option.some.inj read]
      rfl

/-- What is there stays when directories are made. -/
theorem look_kept_createDirAll (made : host.createDirAll path = some host') (seen : host.look other = some shape) :
    host'.look other = some shape := by
  have after := Node.look_createDirAll made other
  rw [seen] at after
  split at after
  next above =>
    by_contra differ
    rw [after] at differ
    unfold Node.createDirAll at made
    rw [if_pos] at made
    · cases made
    · rw [List.any_eq_true]
      refine ⟨other,(List.mem_inits other path).mpr above,?_⟩
      rw [seen,Option.any_some,bne_iff_ne]
      rintro rfl
      exact differ rfl
  next => exact after

theorem free_of_createFile (made : host.createFile path data = some host') : host.look path ≠ some .dir := by
  unfold Node.createFile at made
  split at made
  next ready => exact ready.2
  next => cases made

end plain

/-! ### Fetching the archive -/

section fetching
variable {σ ω α : Type} {engine : UserEngine σ ω} {look : σ → View} {place : Text → HostPath} {codecs : Codecs}
  {config : FileCompressConfig} {host : HostNode} {view : View} {tempDir path : HostPath} {src : Text} {archive : Bytes}
  {fuel : Nat} {I : HostNode → Prop} {P : Local σ → Prop} {m : Effect σ ω VfsError α}

/-- The storage is as it was, whatever the host has. -/
def Unchanged (look : σ → View) (view : View) (at_ : Local σ) : Prop := look at_.1 = view

theorem changeHost_meets (change : HostNode → Option HostNode) (keeps : ∀ at_, P at_ → Unchanged look view at_) :
    Meets P (changeHost codecs path change : Effect (Local σ) ω VfsError Unit)
      (fun _ after => Unchanged look view after ∧ ∃ before, P before ∧ change before.2 = some after.2)
      (fun _ => Unchanged look view) (Unchanged look view) := by
  intro at_ cs holds
  rw [changeHost]
  simp only [bind_apply,get_apply]
  cases made : (if codecs.refuses at_.2 path then none else change at_.2) with
  | none => exact keeps at_ holds
  | some host' =>
    split at made
    next => cases made
    next => exact ⟨keeps at_ holds,at_,holds,made⟩

theorem changeHost_keeps (change : HostNode → Option HostNode)
    (kept : ∀ host host', change host = some host' → I host → I host') :
    Keeps (fun at_ : Local σ => Unchanged look view at_ ∧ I at_.2)
      (changeHost codecs path change : Effect (Local σ) ω VfsError Unit) := by
  intro at_ cs holds
  rw [changeHost]
  simp only [bind_apply,get_apply]
  cases made : (if codecs.refuses at_.2 path then none else change at_.2) with
  | none => exact holds
  | some host' =>
    split at made
    next => cases made
    next => exact ⟨holds.1,kept _ _ made holds.2⟩

theorem onFirst_keeps (kept : Keeps (fun s => look s = view) m) :
    Keeps (fun at_ : Local σ => Unchanged look view at_ ∧ I at_.2) m.onFirst := by
  intro at_ cs holds
  have result := kept at_.1 cs holds.1
  unfold Effect.onFirst
  cases outcome : m at_.1 cs with
  | done a s' rest => rw [outcome] at result; exact ⟨result,holds.2⟩
  | failed e s' rest => rw [outcome] at result; exact ⟨result,holds.2⟩
  | crashed s' => rw [outcome] at result; exact ⟨result,holds.2⟩

/-- What is copied to the host leaves a directory of the host a directory. -/
theorem copyToLocalTemp_keeps (storage : CarefulStorage engine look place) (text : Text) (dst : HostPath) :
    Keeps (fun at_ : Local σ => Unchanged look view at_ ∧ at_.2.look path = some .dir)
      (copyToLocalTemp codecs engine.toVfsStorage fuel text dst) := by
  induction fuel generalizing text dst with
  | zero => exact Keeps.fail _
  | succ fuel ih =>
    have reads {α : Type} {m : Effect σ ω VfsError α} (kept : Keeps (fun s => look s = view) m) :
        Keeps (fun at_ : Local σ => Unchanged look view at_ ∧ at_.2.look path = some .dir) m.onFirst :=
      onFirst_keeps (I := fun host => host.look path = some .dir) kept
    rw [copyToLocalTemp]
    apply Keeps.bind (reads (storage.stat text view))
    intro info
    split
    next =>
      apply Keeps.bind
      · exact changeHost_keeps _ fun host host' made seen => look_kept_createDirAll made seen
      · intro _
        apply Keeps.bind (reads (storage.list text view))
        intro entries
        exact forEach_keeps (fun entry => ih _ _) entries
    next =>
      have read := (storage.readStream text view).consequence (fun _ holds => holds) (fun _ _ holds => holds.1)
        (fun _ _ holds => holds) fun _ holds => holds
      apply Keeps.bind (reads read)
      intro _
      apply changeHost_keeps (I := fun host => host.look path = some .dir)
      intro host host' made seen
      rw [Node.look_createFile made,Function.update_of_ne,seen]
      rintro rfl
      exact free_of_createFile made seen

/-- What is copied to the host is the archive, or a directory. -/
theorem copyArchive_meets (storage : CarefulStorage engine look place) (stored : view (place src) = some (.file archive))
    (host : HostNode) :
    Meets (fun at_ : Local σ => Unchanged look view at_ ∧ at_.2 = host)
      (copyToLocalTemp codecs engine.toVfsStorage fuel src path)
      (fun _ after => Unchanged look view after ∧
        (host.createFile path archive = some after.2 ∨ after.2.look path = some .dir))
      (fun _ => Unchanged look view) (Unchanged look view) := by
  cases fuel with
  | zero => exact Meets.fail fun _ holds => holds.1
  | succ fuel =>
    rw [copyToLocalTemp]
    apply (Meets.onFirst (storage.stat src view) host).bind
    intro info
    split
    next =>
      apply Meets.bind (Q := fun _ after => Unchanged look view after ∧ after.2.look path = some .dir)
      · apply (changeHost_meets _ fun _ holds => holds.1).consequence (fun _ holds => holds) _ (fun _ _ holds => holds)
          fun _ holds => holds
        rintro _ after ⟨same,before,-,created⟩
        refine ⟨same,?_⟩
        rw [Node.look_createDirAll created,if_pos List.prefix_rfl]
      · intro _
        have inside : Keeps (fun at_ : Local σ => Unchanged look view at_ ∧ at_.2.look path = some .dir)
            ((engine.list src).onFirst >>= forEach fun entry => copyToLocalTemp codecs engine.toVfsStorage fuel
              (Text.trimEnd '/' src ++ '/' :: entry.name) (path ++ [entry.name])) := by
          apply Keeps.bind (onFirst_keeps (I := fun host => host.look path = some .dir) (storage.list src view))
          exact forEach_keeps fun entry => copyToLocalTemp_keeps storage _ _
        exact inside.consequence (fun _ holds => holds) (fun _ _ holds => ⟨holds.1,.inr holds.2⟩)
          (fun _ _ holds => holds.1) fun _ holds => holds.1
    next =>
      apply (Meets.onFirst (storage.readStream src view) host).bind
      intro read
      apply (changeHost_meets _ fun _ holds => holds.1.1).consequence (fun _ holds => holds) _ (fun _ _ holds => holds)
        fun _ holds => holds
      rintro _ after ⟨same,before,⟨⟨-,content⟩,rfl⟩,made⟩
      rw [stored] at content
      cases content
      exact ⟨same,.inl made⟩

/-- A step that looks at the host alone. -/
theorem require_meets {condition : Prop} [Decidable condition] {error : TaskError} {P : Local σ → Prop}
    (keeps : ∀ at_, P at_ → Unchanged look view at_) :
    Meets P (require condition error : Effect (Local σ) ω TaskError Unit) (fun _ => P)
      (fun _ => Unchanged look view) (Unchanged look view) := by
  unfold require
  split
  · exact Meets.pure fun _ holds => holds
  · exact Meets.fail keeps

/-- What the host has of the archive when it is fetched: the archive, or a directory. -/
def Fetched (look : σ → View) (view : View) (host : HostNode) (tempDir : HostPath) (src : Text) (archive : Bytes)
    (after : Local σ) : Prop :=
  Unchanged look view after ∧ (received host tempDir (localName src) archive = some after.2 ∨
    after.2.look (tempDir ++ [localName src]) = some .dir)

theorem fetchArchive_meets (storage : CarefulStorage engine look place) (config : FileCompressConfig)
    (stored : view (place src) = some (.file archive)) (host : HostNode) (tempDir : HostPath) :
    Meets (fun at_ : Local σ => Unchanged look view at_ ∧ at_.2 = host)
      (fetchArchive codecs config engine fuel tempDir src) (fun _ => Fetched look view host tempDir src archive)
      (fun _ => Unchanged look view) (Unchanged look view) := by
  unfold fetchArchive
  apply (require_meets fun _ holds => holds.1).bind
  intro _
  apply (Meets.mapError _ (Meets.onFirst (storage.checkQuota 0 view) host)).bind
  intro _
  apply (Meets.mapError _ (Meets.onFirst (storage.stat src view) host)).bind
  intro info
  apply (require_meets fun _ holds => holds.1).bind
  intro _
  apply Meets.bind (Q := fun _ after => Unchanged look view after ∧ host.createDirAll tempDir = some after.2)
  · apply Meets.mapError
    apply (changeHost_meets _ fun _ holds => holds.1).consequence (fun _ holds => holds) _ (fun _ _ holds => holds)
      fun _ holds => holds
    rintro _ after ⟨same,before,⟨-,rfl⟩,made⟩
    exact ⟨same,made⟩
  intro _
  apply Meets.bind (Q := fun _ after => Unchanged look view after ∧
    ((host.createDirAll tempDir).bind fun host => host.createDirAll (tempDir ++ ["output".toList])) = some after.2)
  · apply Meets.mapError
    apply (changeHost_meets _ fun _ holds => holds.1).consequence (fun _ holds => holds) _ (fun _ _ holds => holds)
      fun _ holds => holds
    rintro _ after ⟨same,before,⟨-,created⟩,made⟩
    refine ⟨same,?_⟩
    rw [created]
    exact made
  intro _
  intro at_ cs holds
  obtain ⟨same,created⟩ := holds
  apply (Meets.mapError (E := fun _ => Unchanged look view) TaskError.vfs
    (copyArchive_meets storage stored at_.2)).consequence (fun _ holds => holds) _ (fun _ _ holds => holds)
    (fun _ holds => holds) at_ cs ⟨same,rfl⟩
  rintro _ after ⟨same',come⟩
  refine ⟨same',?_⟩
  rcases come with file | dir
  · left
    obtain ⟨host₁,made,made'⟩ := Option.bind_eq_some_iff.mp created
    exact Option.bind_eq_some_iff.mpr ⟨host₁,made,Option.bind_eq_some_iff.mpr ⟨at_.2,made',file⟩⟩
  · exact .inr dir

/-- What is opened is the archive. -/
theorem openArchive_meets (host : HostNode) (tempDir : HostPath) (src : Text) (archive : Bytes) :
    Meets (Fetched look view host tempDir src archive)
      (openArchive codecs (tempDir ++ [localName src]) : Effect (Local σ) ω TaskError Bytes)
      (fun data after => data = archive ∧ Unchanged look view after ∧
        received host tempDir (localName src) archive = some after.2)
      (fun _ => Unchanged look view) (Unchanged look view) := by
  intro at_ cs holds
  obtain ⟨same,come⟩ := holds
  rw [openArchive]
  simp only [bind_apply,get_apply]
  rcases come with file | dir
  · have there : at_.2.look (tempDir ++ [localName src]) = some (.file archive) := by
      obtain ⟨_,-,inner⟩ := Option.bind_eq_some_iff.mp file
      obtain ⟨_,-,made⟩ := Option.bind_eq_some_iff.mp inner
      rw [Node.look_createFile made,Function.update_self]
    rw [openFile_placed codecs.os (Node.find_file_of_look there)]
    exact ⟨rfl,same,file⟩
  · rw [openFile_dir codecs.os dir]
    exact same

/-! ### Unpacking it -/

/-- What lies below a directory of the host is what is unpacked, and no links. -/
structure Holds (unpacked : HostPath → Option Bytes → Prop) (output : HostPath) (host : HostNode) : Prop where
  here : host.look output = some .dir
  below {q : HostPath} {shape : Shape Bytes Text} : host.look (output ++ q) = some shape →
    ∃ content : Option Bytes, shape = content.elim .dir .file ∧ unpacked q content

section holding
variable {unpacked : HostPath → Option Bytes → Prop} {output other : HostPath} {host' : HostNode} {data : Bytes}
  {q : HostPath}

theorem Holds.createDirAll (holds : Holds unpacked output host) (made : host.createDirAll other = some host')
    (listed : ∀ q, output ++ q <+: other → unpacked q none) : Holds unpacked output host' := by
  refine ⟨look_kept_createDirAll made holds.here,?_⟩
  intro q shape seen
  rw [Node.look_createDirAll made] at seen
  split at seen
  next above =>
    cases seen
    exact ⟨none,rfl,listed q above⟩
  next => exact holds.below seen

theorem Holds.createFile (holds : Holds unpacked output host)
    (made : host.createFile (output ++ path) data = some host') (listed : unpacked path (some data)) :
    Holds unpacked output host' := by
  have free := free_of_createFile made
  constructor
  · rw [Node.look_createFile made,Function.update_of_ne,holds.here]
    intro same
    rw [← same] at free
    exact free holds.here
  · intro q shape seen
    rw [Node.look_createFile made] at seen
    by_cases same : output ++ q = output ++ path
    · rw [same,Function.update_self] at seen
      cases seen
      rw [List.append_cancel_left same]
      exact ⟨some data,rfl,listed⟩
    · rw [Function.update_of_ne same] at seen
      exact holds.below seen

theorem Holds.uploaded (holds : Holds unpacked output host) {os : Os} {content : Option Bytes}
    (up : Uploaded os host output q content) : unpacked q content := by
  have unlinked (q : HostPath) (text : Text) : host.look (output ++ q) ≠ some (.link text) := by
    intro seen
    obtain ⟨content,same,-⟩ := holds.below seen
    cases content <;> cases same
  have root : host.look output ≠ none := by rw [holds.here]; exact Option.some_ne_none _
  obtain ⟨content',same,listed⟩ := holds.below (look_of_uploaded root unlinked up)
  have equal : content' = content := by
    cases content <;> cases content' <;> cases same <;> rfl
  rw [← equal]
  exact listed

theorem Holds.file (holds : Holds unpacked output host) (seen : host.look (output ++ path) = some (.file data)) :
    unpacked path (some data) := by
  obtain ⟨content,same,listed⟩ := holds.below seen
  cases content with
  | none => cases same
  | some data' => cases same; exact listed

end holding

/-- Where the archive is received nothing is unpacked yet. -/
theorem received_holds {host' : HostNode} {name : Text} (fresh : host.look tempDir = none)
    (come : received host tempDir name archive = some host') (unpacked : HostPath → Option Bytes → Prop)
    (root : unpacked [] none) : Holds unpacked (tempDir ++ ["output".toList]) host' := by
  obtain ⟨host₁,made₁,inner⟩ := Option.bind_eq_some_iff.mp come
  obtain ⟨host₂,made₂,made₃⟩ := Option.bind_eq_some_iff.mp inner
  have output : host₂.look (tempDir ++ ["output".toList]) = some .dir := by
    rw [Node.look_createDirAll made₂,if_pos List.prefix_rfl]
  have free := free_of_createFile made₃
  have differ : tempDir ++ ["output".toList] ≠ tempDir ++ [name] := by
    intro same
    rw [← same] at free
    exact free output
  constructor
  · rw [Node.look_createFile made₃,Function.update_of_ne differ,output]
  · intro q shape seen
    cases q with
    | nil =>
      rw [List.append_nil,Node.look_createFile made₃,Function.update_of_ne differ,output] at seen
      cases seen
      exact ⟨none,rfl,root⟩
    | cons c rest =>
      -- nothing was below the directory of the task, and nothing came to be below this one
      exfalso
      have longer : (tempDir ++ ["output".toList] ++ c::rest).length = tempDir.length + 2 + rest.length := by
        simp
        omega
      have strict (other : HostPath) (short : other.length ≤ tempDir.length + 1) :
          ¬ tempDir ++ ["output".toList] ++ c::rest <+: other := by
        intro within
        have lengths := within.length_le
        omega
      have apart : tempDir ++ ["output".toList] ++ c::rest ≠ tempDir ++ [name] := by
        intro same
        have lengths := congrArg List.length same
        rw [longer,List.length_append,List.length_singleton] at lengths
        omega
      have nothing : host.look (tempDir ++ ["output".toList] ++ c::rest) = none := by
        have free' : host.look tempDir ≠ some .dir := by
          rw [fresh]
          exact fun impossible => by cases impossible
        rw [List.append_assoc]
        apply Node.look_below free' (List.prefix_append _ _)
        intro same
        have lengths := congrArg List.length same
        simp at lengths
      rw [Node.look_createFile made₃,Function.update_of_ne apart,Node.look_createDirAll made₂,
        if_neg (strict _ (by simp)),Node.look_createDirAll made₁,if_neg (strict _ (by omega)),nothing] at seen
      cases seen

section unpacking
variable {unpacked : HostPath → Option Bytes → Prop} {output : HostPath} {entries left rest : List ZipEntry}
  {entry : ZipEntry} {password : Option Text} {wanted : HostPath → Bytes → Prop}

/-- How far the entries of a zip archive are worked off. -/
structure Worked (codecs : Codecs) (look : σ → View) (view : View) (unpacked : HostPath → Option Bytes → Prop)
    (output : HostPath) (entries left : List ZipEntry) (at_ : Local σ) : Prop where
  same : Unchanged look view at_
  holds : Holds unpacked output at_.2
  files {entry : ZipEntry} {path : HostPath} : entry ∈ entries → entry.isDir = false →
    codecs.enclosedName entry.name = some path →
    entry ∈ left ∨ ∃ data, at_.2.look (output ++ path) = some (.file data)

theorem Worked.step {at_ after : Local σ} (worked : Worked codecs look view unpacked output entries (entry::rest) at_)
    (same : Unchanged look view after) (holds : Holds unpacked output after.2)
    (kept : ∀ path data, at_.2.look (output ++ path) = some (.file data) →
      ∃ data, after.2.look (output ++ path) = some (.file data))
    (placed : ∀ path, entry.isDir = false → codecs.enclosedName entry.name = some path →
      ∃ data, after.2.look (output ++ path) = some (.file data)) :
    Worked codecs look view unpacked output entries rest after := by
  refine ⟨same,holds,?_⟩
  intro other path member file named
  rcases worked.files member file named with waiting | ⟨data,there⟩
  · rcases List.mem_cons.mp waiting with rfl | later
    · exact .inr (placed path file named)
    · exact .inl later
  · exact .inr (kept path data there)

/-- An entry that is worked off is there, if its name is taken. -/
theorem extractEntry_meets (given : output ≠ [])
    (dirs : ∀ path q, codecs.enclosedName entry.name = some path → q <+: path → entry.isDir = true ∨ q ≠ path →
      unpacked q none)
    (file : ∀ path, codecs.enclosedName entry.name = some path → entry.isDir = false → unpacked path (some entry.data)) :
    Meets (Worked codecs look view unpacked output entries (entry::rest))
      (extractEntry codecs output entry : Effect (Local σ) ω VfsError Unit)
      (fun _ => Worked codecs look view unpacked output entries rest)
      (fun _ => Unchanged look view) (Unchanged look view) := by
  cases named : codecs.enclosedName entry.name with
  | none =>
    rw [extractEntry,named]
    apply Meets.pure
    intro at_ worked
    apply worked.step worked.same worked.holds fun path data there => ⟨data,there⟩
    intro path _ taken
    rw [named] at taken
    cases taken
  | some path =>
    rw [extractEntry,named]
    dsimp only
    cases dir : entry.isDir with
    | true =>
      rw [if_pos rfl]
      apply (changeHost_meets _ fun _ worked => worked.same).consequence (fun _ holds => holds) _ (fun _ _ holds => holds)
        fun _ holds => holds
      rintro _ after ⟨same,before,worked,made⟩
      apply worked.step same
      · apply worked.holds.createDirAll made
        intro q above
        exact dirs path q named ((List.prefix_append_right_inj output).mp above) (.inl dir)
      · exact fun other data there => ⟨data,look_kept_createDirAll made there⟩
      · intro other impossible
        rw [dir] at impossible
        cases impossible
    | false =>
      rw [if_neg Bool.false_ne_true]
      have write : Meets (Worked codecs look view unpacked output entries (entry::rest))
          (makeFile codecs (output ++ path) entry.data : Effect (Local σ) ω VfsError Unit)
          (fun _ => Worked codecs look view unpacked output entries rest)
          (fun _ => Unchanged look view) (Unchanged look view) := by
        apply (changeHost_meets _ fun _ worked => worked.same).consequence (fun _ holds => holds) _
          (fun _ _ holds => holds) fun _ holds => holds
        rintro _ after ⟨same,before,worked,made⟩
        apply worked.step same (worked.holds.createFile made (file path named dir))
        · intro other data there
          rw [Node.look_createFile made]
          by_cases equal : output ++ other = output ++ path
          · exact ⟨entry.data,by rw [equal,Function.update_self]⟩
          · exact ⟨data,by rw [Function.update_of_ne equal,there]⟩
        · intro other _ taken
          rw [named] at taken
          cases taken
          exact ⟨entry.data,by rw [Node.look_createFile made,Function.update_self]⟩
      have direct : Meets (Worked codecs look view unpacked output entries (entry::rest))
          (makeDir codecs (output ++ path).dropLast : Effect (Local σ) ω VfsError Unit)
          (fun _ => Worked codecs look view unpacked output entries (entry::rest))
          (fun _ => Unchanged look view) (Unchanged look view) := by
        apply (changeHost_meets _ fun _ worked => worked.same).consequence (fun _ holds => holds) _
          (fun _ _ holds => holds) fun _ holds => holds
        rintro _ after ⟨same,before,worked,made⟩
        refine ⟨same,?_,?_⟩
        · apply worked.holds.createDirAll made
          intro q above
          have within : output ++ q <+: output ++ path := above.trans (List.dropLast_prefix _)
          apply dirs path q named ((List.prefix_append_right_inj output).mp within)
          right
          rintro rfl
          have lengths := above.length_le
          have some_ := List.length_pos_iff.mpr given
          rw [List.length_dropLast,List.length_append] at lengths
          omega
        · intro other path' member file' named'
          rcases worked.files member file' named' with waiting | ⟨data,there⟩
          · exact .inl waiting
          · exact .inr ⟨data,look_kept_createDirAll made there⟩
      apply (Meets.get (Q := fun _ => Worked codecs look view unpacked output entries (entry::rest))
        fun _ worked => worked).bind
      intro at_
      split
      next => exact write
      next =>
        apply direct.bind
        intro _
        exact write

/-- What the upload finds on the host: nothing but what the archive unpacks to, and every
file that is wanted of it. -/
structure Ready (codecs : Codecs) (look : σ → View) (view : View) (unpacked : HostPath → Option Bytes → Prop)
    (output : HostPath) (wanted : HostPath → Bytes → Prop) (after : Local σ) : Prop where
  same : Unchanged look view after
  known {q : HostPath} {content : Option Bytes} : Uploaded codecs.os after.2 output q content → unpacked q content
  lies {p : HostPath} {data : Bytes} : wanted p data → Lies codecs.os after.2 output p data

theorem decompressZip_meets (fresh : host.look tempDir = none)
    (alike : ∀ p data data', wanted p data →
      UnpackedTo codecs .zip src password archive host tempDir p (some data') → data' = data)
    (members : ∀ entries p data, codecs.zipRead password archive = .ok entries → wanted p data →
      ∃ entry ∈ entries, entry.isDir = false ∧ codecs.enclosedName entry.name = some p) :
    Meets (Fetched look view host tempDir src archive)
      (decompressZipNative codecs (tempDir ++ [localName src]) (tempDir ++ ["output".toList]) password :
        Effect (Local σ) ω TaskError Unit)
      (fun _ => Ready codecs look view (UnpackedTo codecs .zip src password archive host tempDir)
        (tempDir ++ ["output".toList]) wanted)
      (fun _ => Unchanged look view) (Unchanged look view) := by
  unfold decompressZipNative
  apply (openArchive_meets host tempDir src archive).bind
  intro data
  apply Meets.bind (Q := fun entries after => codecs.zipRead password archive = .ok entries ∧
    Unchanged look view after ∧ received host tempDir (localName src) archive = some after.2)
  · apply Meets.ofExcept
    · rintro entries after read ⟨rfl,rest⟩
      exact ⟨read,rest⟩
    · exact fun _ _ _ holds => holds.2.1
  · intro entries at_ cs holds
    obtain ⟨read,same,come⟩ := holds
    have loop := @meets_forEach (Local σ) ω (Unchanged look view) ZipEntry (extractEntry codecs (tempDir ++ ["output".toList]))
      (Worked codecs look view (UnpackedTo codecs .zip src password archive host tempDir) (tempDir ++ ["output".toList])
        entries) (fun _ => Unchanged look view) entries ?_
    · apply (Meets.mapError (E := fun _ => Unchanged look view) TaskError.vfs loop).consequence (fun _ holds => holds) _
        (fun _ _ holds => holds) (fun _ holds => holds) at_ cs
      · exact ⟨same,received_holds fresh come _ .root,fun member _ _ => .inl member⟩
      · intro _ after worked
        refine ⟨worked.same,worked.holds.uploaded,?_⟩
        intro p data' want
        obtain ⟨entry,member,file,named⟩ := members entries p data' read want
        obtain ⟨found,there⟩ := (worked.files member file named).resolve_left List.not_mem_nil
        have listed := worked.holds.file there
        rw [alike p data' found want listed] at there
        exact lies_of_look codecs.os there
    · intro entry rest member
      apply extractEntry_meets (List.append_ne_nil_of_right_ne_nil _ (List.cons_ne_nil _ _))
      · exact fun path q named within dir => .zipDir rfl read member named within dir
      · exact fun path named file => .zipFile rfl read member named file

theorem decompressTarGz_meets
    (members : ∀ names child p data, codecs.unpack archive = .ok (names,child) → wanted p data →
      (Node.dir names child : HostNode).find p = some (.file data)) :
    Meets (Fetched look view host tempDir src archive)
      (decompressTarGzNative codecs (tempDir ++ [localName src]) (tempDir ++ ["output".toList]) :
        Effect (Local σ) ω TaskError Unit)
      (fun _ => Ready codecs look view (UnpackedTo codecs .tarGz src password archive host tempDir)
        (tempDir ++ ["output".toList]) wanted)
      (fun _ => Unchanged look view) (Unchanged look view) := by
  unfold decompressTarGzNative
  apply (openArchive_meets host tempDir src archive).bind
  intro data
  apply Meets.bind (Q := fun unpacked after => codecs.unpack archive = .ok unpacked ∧
    Unchanged look view after ∧ received host tempDir (localName src) archive = some after.2)
  · apply Meets.ofExcept
    · rintro unpacked after read ⟨rfl,rest⟩
      exact ⟨read,rest⟩
    · exact fun _ _ _ holds => holds.2.1
  · rintro ⟨names,child⟩
    apply Meets.modify
    rintro at_ ⟨read,same,come⟩
    refine ⟨same,fun up => .tarGz rfl read come up,?_⟩
    intro p data want
    apply lies_of_look
    rw [Node.look_graft,if_pos (List.prefix_append _ _),List.drop_left,Node.look,members names child p data read want]
    rfl

theorem decompressGz_meets (fresh : host.look tempDir = none) {name : Text} (stem : Text.fileStem src = some name)
    (members : ∀ p data, wanted p data → p = [name] ∧ codecs.gunzip archive = .ok data) :
    Meets (Fetched look view host tempDir src archive)
      (decompressGzNative codecs (tempDir ++ [localName src]) (tempDir ++ ["output".toList]) name :
        Effect (Local σ) ω TaskError Unit)
      (fun _ => Ready codecs look view (UnpackedTo codecs .gzip src password archive host tempDir)
        (tempDir ++ ["output".toList]) wanted)
      (fun _ => Unchanged look view) (Unchanged look view) := by
  unfold decompressGzNative
  apply (openArchive_meets host tempDir src archive).bind
  intro data
  apply Meets.bind (Q := fun content after => codecs.gunzip archive = .ok content ∧
    Unchanged look view after ∧ received host tempDir (localName src) archive = some after.2)
  · apply Meets.ofExcept
    · rintro content after read ⟨rfl,rest⟩
      exact ⟨read,rest⟩
    · exact fun _ _ _ holds => holds.2.1
  · intro content
    split
    next => exact Meets.fail fun _ holds => holds.2.1
    next =>
      apply Meets.mapError
      apply (changeHost_meets _ fun _ holds => holds.2.1).consequence (fun _ holds => holds) _ (fun _ _ holds => holds)
        fun _ holds => holds
      rintro _ after ⟨same,before,⟨read,-,come⟩,made⟩
      have empty := received_holds fresh come (UnpackedTo codecs .gzip src password archive host tempDir) .root
      have holds := empty.createFile made (.gzip rfl stem read)
      refine ⟨same,holds.uploaded,?_⟩
      intro p data' want
      obtain ⟨rfl,read'⟩ := members p data' want
      rw [read] at read'
      cases read'
      apply lies_of_look
      rw [Node.look_createFile made,Function.update_self]

/-- Unpacking that ends well leaves every file of the archive whose name is taken. -/
theorem decompressNative_meets {tarFiles : Bytes → List (HostPath × Bytes)} {format : CompressionFormat}
    (fresh : host.look tempDir = none)
    (wants : ∀ p data, wanted p data ↔ (some p,data) ∈ fileMembers codecs tarFiles format src password archive)
    (alike : ∀ p data data', wanted p data →
      UnpackedTo codecs format src password archive host tempDir p (some data') → data' = data)
    (whole : format = .tarGz → ∀ names child, codecs.unpack archive = .ok (names,child) →
      ∀ member ∈ tarFiles archive, (Node.dir names child : HostNode).find member.1 = some (.file member.2)) :
    Meets (Fetched look view host tempDir src archive)
      (decompressNative codecs format (tempDir ++ [localName src]) (tempDir ++ ["output".toList]) src password :
        Effect (Local σ) ω TaskError Unit)
      (fun _ => Ready codecs look view (UnpackedTo codecs format src password archive host tempDir)
        (tempDir ++ ["output".toList]) wanted)
      (fun _ => Unchanged look view) (Unchanged look view) := by
  have fails (e : TaskError) : Meets (Fetched look view host tempDir src archive)
      (Effect.fail e : Effect (Local σ) ω TaskError Unit)
      (fun _ => Ready codecs look view (UnpackedTo codecs format src password archive host tempDir)
        (tempDir ++ ["output".toList]) wanted)
      (fun _ => Unchanged look view) (Unchanged look view) := Meets.fail fun _ holds => holds.1
  unfold decompressNative
  cases format with
  | zip =>
    apply decompressZip_meets fresh alike
    intro entries p data read want
    rw [wants,fileMembers,read] at want
    obtain ⟨entry,member,same⟩ := List.mem_map.mp want
    obtain ⟨listed,file⟩ := List.mem_filter.mp member
    refine ⟨entry,listed,?_,(Prod.mk.inj same).1⟩
    rw [Bool.not_eq_true'] at file
    exact file
  | tarGz =>
    apply decompressTarGz_meets
    intro names child p data read want
    rw [wants,fileMembers] at want
    obtain ⟨member,listed,same⟩ := List.mem_map.mp want
    obtain ⟨named,rfl⟩ := Prod.mk.inj same
    rw [← Option.some.inj named]
    exact whole rfl names child read member listed
  | gzip =>
    dsimp only
    cases stem : Text.fileStem src with
    | none => exact fails _
    | some name =>
      apply decompressGz_meets fresh stem
      intro p data want
      rw [wants,fileMembers,stem] at want
      cases read : codecs.gunzip archive with
      | error e =>
        rw [read] at want
        cases want
      | ok content =>
        rw [read] at want
        have same := List.mem_singleton.mp want
        obtain ⟨named,rfl⟩ := Prod.mk.inj same
        exact ⟨Option.some.inj named,rfl⟩
  | sevenZip => exact fails _
  | tar => exact fails _

end unpacking
end fetching
end StorageHub.Compression.Native
