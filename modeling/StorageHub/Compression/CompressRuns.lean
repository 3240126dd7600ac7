import StorageHub.Compression.Unpacking

/-! A compression part by part, over a storage that is a tree and crates that return
what they were given. -/
namespace StorageHub.Compression.Native
open Library LinkTree WriteCache Scoped Mounts Effect

/-! ### Places on the host -/

/-- Nothing is there, and directories are above. -/
structure Fresh (host : HostNode) (path : HostPath) : Prop where
  nothing : host.look path = none
  rooted : Rooted path host.look

section places
variable {σ ω : Type} {calm : Choice ω → Prop} {codecs : Codecs} {host host' t : HostNode} {s : σ}
  {base path other : HostPath}

/-- One of two fresh places above the other is the other. -/
theorem Fresh.same (fresh : Fresh host path) (fresh' : Fresh host other) (above : path <+: other) : path = other := by
  by_contra differ
  have dir := fresh'.rooted path above differ
  rw [fresh.nothing] at dir
  cases dir

theorem Fresh.below (fresh : Fresh host path) (below : path <+: other) : host.look other = none := by
  by_cases same : path = other
  · rw [← same,fresh.nothing]
  · apply Node.look_below _ below same
    rw [fresh.nothing]
    exact fun impossible => by cases impossible

theorem Fresh.agrees (fresh : Fresh host path) (t : HostNode) : Agrees t path host.look :=
  fun rest => .inl (fresh.below (List.prefix_append path rest))

/-- A place stays fresh when changes are elsewhere. -/
theorem Fresh.kept (fresh : Fresh host path) (apart : ¬ base <+: path)
    (same : ∀ other, ¬ base <+: other → host'.look other = host.look other) : Fresh host' path := by
  constructor
  · rw [same path apart,fresh.nothing]
  · intro above before differ
    rw [same above fun within => apart (within.trans before)]
    exact fresh.rooted above before differ

theorem ne_child (path : HostPath) (name : Text) : path ++ [name] ≠ path :=
  fun same => List.cons_ne_nil _ _ (List.append_right_eq_self.mp same)

/-- In a directory that was made every place is fresh. -/
theorem Fresh.child (fresh : Fresh host path) (made : host'.look = Function.update host.look path (some .dir))
    (name : Text) : Fresh host' (path ++ [name]) := by
  constructor
  · rw [made,Function.update_of_ne (ne_child path name)]
    exact fresh.below (List.prefix_append path [name])
  · intro above before differ
    rw [made]
    by_cases same : above = path
    · rw [same,Function.update_self]
    · rw [Function.update_of_ne same]
      rcases List.prefix_concat_iff.mp before with whole | shorter
      · exact absurd whole differ
      · exact fresh.rooted above shorter same

theorem createDirAll_fresh (fresh : Fresh host path) :
    ∃ host', host.createDirAll path = some host' ∧ host'.look = Function.update host.look path (some .dir) := by
  have free := fresh.agrees (.dir [] fun _ => host)
  have empty : (Node.dir [] fun _ => host : HostNode).look [] = some .dir := Node.look_nil
  obtain ⟨host',made,-,-⟩ := createDirAll_toward free fresh.rooted empty
  rw [List.append_nil] at made
  refine ⟨host',made,?_⟩
  funext other
  rw [Node.look_createDirAll made]
  by_cases same : other = path
  · rw [same,if_pos List.prefix_rfl,Function.update_self]
  · rw [Function.update_of_ne same]
    split
    next above => exact (fresh.rooted other above same).symm
    next => rfl

theorem makeDir_fresh (willing : ∀ host path, codecs.refuses host path = false) (whole : host.Distinct)
    (fresh : Fresh host path) :
    Ends calm (makeDir codecs path : Effect (Local σ) ω VfsError Unit) (s,host)
      fun _ after => after.1 = s ∧ after.2.Distinct ∧ after.2.look = Function.update host.look path (some .dir) := by
  obtain ⟨host',made,seen⟩ := createDirAll_fresh fresh
  apply (changeHost_ends willing made).weaken
  rintro _ _ rfl
  exact ⟨rfl,Node.distinct_createDirAll whole made,seen⟩

theorem makeFile_at (willing : ∀ host path, codecs.refuses host path = false) (whole : host.Distinct) (data : Bytes)
    (parent : host.look path.dropLast = some .dir) (free : host.look path ≠ some .dir) :
    Ends calm (makeFile codecs path data : Effect (Local σ) ω VfsError Unit) (s,host) fun _ after => after.1 = s ∧
      after.2.Distinct ∧ after.2.look = Function.update host.look path (some (.file data)) := by
  have made : host.createFile path data = some (.graft (.file data) path host) := by
    rw [Node.createFile,if_pos ⟨parent,free⟩]
  apply (changeHost_ends willing made).weaken
  rintro _ _ rfl
  exact ⟨rfl,Node.distinct_createFile whole made,Node.look_createFile made⟩

/-- What is seen below a path lies there as a tree. -/
theorem placed_of_seen (whole : host.Distinct) (seen : ∀ rest, host.look (base ++ rest) = t.look rest) :
    ∃ node, host.find base = some node ∧ node.Distinct ∧ ∀ path, node.look path = t.look path := by
  have root := seen []
  rw [List.append_nil,Node.look_nil] at root
  obtain ⟨node,found,-⟩ := Option.map_eq_some_iff.mp root
  refine ⟨node,found,Node.distinct_find whole found,?_⟩
  intro path
  rw [← seen,Node.look_of_find found]

theorem find_unlinked (unlinked : ∀ path text, t.look path ≠ some (.link text)) (path : HostPath) (text : Text) :
    t.find path ≠ some (.link text) := by
  intro found
  apply unlinked path text
  rw [Node.look,found]
  rfl

end places

/-! ### Packing -/

/-- What an archive of the tree gives back when it is opened. -/
inductive Opens (codecs : Codecs) (opts : CompressionOptions) (t : HostNode) (archive : Bytes) : Prop
  | zip {entries} (asked : opts.format = .zip) (dir : t.kind = .dir) (perm : List.Perm entries (t.members.map entryOf))
      (read : codecs.zipRead opts.password archive = .ok entries)
  | tarGz {names child} (asked : opts.format = .tarGz) (dir : t.kind = .dir)
      (unpacked : codecs.unpack archive = .ok (names,child)) (whole : (Node.dir names child).Distinct)
      (same : ∀ path, (Node.dir names child).look path = t.look path)
  | gzip {data} (asked : opts.format = .gzip) (file : t = .file data) (read : codecs.gunzip archive = .ok data)

/-- The format packs the tree: directories the archives, files gzip. -/
def Suited (format : CompressionFormat) (t : HostNode) : Prop :=
  ((format = .zip ∨ format = .tarGz) ∧ t.kind = .dir) ∨ (format = .gzip ∧ t.kind = .file)

section packing
variable {codecs : Codecs} {opts : CompressionOptions} {host t : HostNode} {input : HostPath} {limit fuel : Nat}

theorem kind_seen {node : HostNode} (same : ∀ path, node.look path = t.look path) : node.shape = t.shape := by
  have root := same []
  rw [Node.look_nil,Node.look_nil] at root
  exact Option.some.inj root

theorem file_of_shape {node : HostNode} {data : Bytes} (shape : node.shape = .file data) : node = .file data := by
  cases node with
  | file data' => cases shape; rfl
  | link text => cases shape
  | dir names child => cases shape

theorem dir_of_shape {node : HostNode} (shape : node.shape = .dir) : ∃ names child, node = .dir names child := by
  cases node with
  | file data => cases shape
  | link text => cases shape
  | dir names child => exact ⟨names,child,rfl⟩

theorem compressNative_packs (fit : CodecsFit codecs opts t limit) (whole : host.Distinct) (distinct : t.Distinct)
    (unlinked : ∀ path text, t.look path ≠ some (.link text)) (seen : ∀ rest, host.look (input ++ rest) = t.look rest)
    (enough : directories t ≤ fuel) (suited : Suited opts.format t) :
    ∃ archive, compressNative codecs host fuel opts input = .ok archive ∧ archive.length ≤ limit ∧
      Opens codecs opts t archive := by
  obtain ⟨node,placed,distinct',same⟩ := placed_of_seen whole seen
  have shape := kind_seen same
  have alike := (counts_alike distinct' distinct same).2
  have unlinked' := find_unlinked fun path text => by rw [same]; exact unlinked path text
  rcases suited with ⟨format,dir⟩ | ⟨format,file⟩
  · have directory : t.shape = .dir := by
      cases t with
      | file data => cases dir
      | link text => cases dir
      | dir names child => rfl
    obtain ⟨names,child,rfl⟩ := dir_of_shape (shape.trans directory)
    rcases format with format | format
    · have room : directories (.dir names child) ≤ fuel := by omega
      obtain ⟨entries,perm,packed⟩ := compressZipNative_packs codecs opts placed unlinked' rfl room
      have members := (Node.members_perm distinct' distinct same).map entryOf
      obtain ⟨archive,written,small,read⟩ := fit.zip (perm.trans members)
      refine ⟨archive,?_,small,.zip format dir (perm.trans members) read⟩
      rw [compressNative,format]
      dsimp only
      rw [packed,written]
    · obtain ⟨archive,names',child',written,small,read,distinct'',same'⟩ := fit.tar distinct' same
      refine ⟨archive,?_,small,.tarGz format dir read distinct'' same'⟩
      have resolved := @resolved_plain codecs.os host _ _ input [] placed Node.find_nil (.inl rfl)
      rw [List.append_nil] at resolved
      rw [compressNative,format]
      dsimp only
      rw [compressTarGzNative,resolved,Option.bind_some,placed]
      exact written
  · cases t with
    | dir names child => cases file
    | link text => cases file
    | file data =>
      obtain rfl := file_of_shape shape
      obtain ⟨small,read⟩ := fit.gzip rfl
      refine ⟨_,?_,small,.gzip format rfl read⟩
      have plain : codecs.os.isDir host input = false :=
        (isDir_placed codecs.os placed fun text same => by cases same).trans rfl
      rw [compressNative,format]
      dsimp only
      rw [plain,if_neg Bool.false_ne_true,compressGzNative,openFile_placed codecs.os placed]

/-- A file by itself can be packed neither as a zip nor as a tar archive. -/
theorem compressNative_single (fuel : Nat) (fit : CodecsFit codecs opts t limit) (whole : host.Distinct)
    (seen : ∀ rest, host.look (input ++ rest) = t.look rest) {data : Bytes} (file : t = .file data)
    (format : opts.format = .zip ∨ opts.format = .tarGz) :
    ∃ error, compressNative codecs host fuel opts input = .error error := by
  obtain ⟨node,placed,-,same⟩ := placed_of_seen whole seen
  have shape := kind_seen same
  rw [file] at shape
  obtain rfl := file_of_shape shape
  rw [compressNative]
  rcases format with format | format
  · rw [format]
    exact compressZipNative_file codecs fuel opts placed
  · have resolved := @resolved_plain codecs.os host _ _ input [] placed Node.find_nil (.inr rfl)
    rw [List.append_nil] at resolved
    obtain ⟨error,refused⟩ := fit.tarFile data
    refine ⟨error,?_⟩
    rw [format]
    dsimp only
    rw [compressTarGzNative,resolved,Option.bind_some,placed]
    exact refused

end packing

/-! ### Compressing -/

section compressing
variable {σ ω : Type} {engine : UserEngine σ ω} {calm : Choice ω → Prop} {look : σ → View}
  {spells : Text → HostPath → Prop} {valid : Text → Prop} {codecs : Codecs} {config : CompressConfig}
  {opts : CompressionOptions} {host t : HostNode} {s : σ} {src arch stageDir packDir input : HostPath}
  {srcText archText : Text} {fuel limit : Nat}

/-- The part of a compression before its source is packed. -/
def stageSource (codecs : Codecs) (config : CompressConfig) (engine : UserEngine σ ω) (fuel : Nat)
    (stageDir : HostPath) (src : Text) : Effect (Local σ) ω TaskError Unit := do
  require (config.enabled = true) disabled
  let info ← ((engine.stat src).onFirst).mapError .vfs
  let total ← sourceTotal engine src info
  checkLimits config total
  (makeDir codecs stageDir).mapError .vfs
  (copyToLocalTemp codecs engine.toVfsStorage fuel src (stageDir ++ ["input".toList])).mapError .vfs

theorem compressTask_staged (fuel : Nat) (src dst : Text) (deleteSource : Bool) :
    compressTask codecs config engine fuel stageDir packDir src dst opts deleteSource =
      (stageSource codecs config engine fuel stageDir src >>= fun _ =>
        compressLocalSourceToVfs codecs config engine fuel packDir (stageDir ++ ["input".toList]) dst opts >>= fun info =>
          discardSource engine src deleteSource >>= fun _ => pure info) := by
  simp only [compressTask,stageSource,bind_assoc]

/-- The tree is within the limits of the configuration. -/
structure Allowed (config : CompressConfig) (t : HostNode) : Prop where
  enabled : config.enabled = true
  items : itemsOf t ≤ config.maxCompressItems
  bytes : fileBytes t ≤ config.maxCompressTotalSizeMb * 1024 * 1024

theorem require_ends {condition : Prop} [Decidable condition] {error : TaskError} (met : condition) {at_ : Local σ} :
    Ends calm (require condition error : Effect (Local σ) ω TaskError Unit) at_ fun _ after => after = at_ := by
  rw [require,if_pos met]
  exact Ends.pure rfl

theorem checkLimits_ends {total : Nat × Nat} (items : total.1 ≤ config.maxCompressItems)
    (bytes : total.2 ≤ config.maxCompressTotalSizeMb * 1024 * 1024) {at_ : Local σ} :
    Ends calm (checkLimits config total : Effect (Local σ) ω TaskError Unit) at_ fun _ after => after = at_ := by
  unfold checkLimits
  apply (require_ends items).bind
  rintro _ _ rfl
  exact require_ends bytes

/-- The total that the storage tells of the source. -/
theorem sourceTotal_ends (storage : TreeStorage engine calm look spells valid) (distinct : t.Distinct)
    (seen : ∀ rest, look s (src ++ rest) = t.look rest) (spelled : spells srcText src) :
    Ends calm (((engine.stat srcText).onFirst).mapError .vfs >>= sourceTotal engine srcText :
        Effect (Local σ) ω TaskError (Nat × Nat)) (s,host)
      fun total after => look after.1 = look s ∧ after.2 = host ∧ total = (itemsOf t,fileBytes t) := by
  have root : look s src = some t.shape := by
    have whole := seen []
    rwa [List.append_nil,Node.look_nil] at whole
  cases t with
  | link text => exact absurd root storage.unlinked
  | file data =>
    apply (((storage.stat_file spelled root).onFirst host).mapError TaskError.vfs).bind
    rintro info ⟨s₁,host₁⟩ ⟨⟨same,plain,size⟩,rfl⟩
    rw [sourceTotal,plain,if_neg Bool.false_ne_true,size]
    exact Ends.pure ⟨same,rfl,rfl⟩
  | dir names child =>
    apply (((storage.stat_dir spelled root).onFirst host).mapError TaskError.vfs).bind
    rintro info ⟨s₁,host₁⟩ ⟨⟨same,directory⟩,rfl⟩
    dsimp only at same ⊢
    rw [← same] at seen root ⊢
    rw [sourceTotal,if_pos directory]
    apply (((storage.listRecursive spelled root distinct seen).onFirst host₁).mapError TaskError.vfs).bind
    rintro entries ⟨s₂,host₂⟩ ⟨⟨same',items,bytes⟩,rfl⟩
    rw [items,bytes]
    exact Ends.pure ⟨same',rfl,rfl⟩

/-- The source is staged, and beside it the host is as before. -/
theorem stageSource_ends (storage : TreeStorage engine calm look spells valid)
    (willing : ∀ host path, codecs.refuses host path = false) (allowed : Allowed config t) (distinct : t.Distinct)
    (seen : ∀ rest, look s (src ++ rest) = t.look rest) (spelled : spells srcText src) (whole : host.Distinct)
    (fresh : Fresh host stageDir) (enough : directories t < fuel) :
    Ends calm (stageSource codecs config engine fuel stageDir srcText) (s,host) fun _ after =>
      look after.1 = look s ∧ after.2.Distinct ∧
      (∀ rest, after.2.look (stageDir ++ ["input".toList] ++ rest) = t.look rest) ∧
      ∀ path, ¬ stageDir <+: path → after.2.look path = host.look path := by
  unfold stageSource
  apply (require_ends allowed.enabled).bind
  rintro _ _ rfl
  rw [← bind_assoc]
  apply (sourceTotal_ends storage distinct seen spelled).bind
  rintro total ⟨s₁,host₁⟩ ⟨same,rfl,rfl⟩
  apply (checkLimits_ends allowed.items allowed.bytes).bind
  rintro _ _ rfl
  apply ((makeDir_fresh willing whole fresh).mapError TaskError.vfs).bind
  rintro _ ⟨s₂,host₂⟩ ⟨rfl,whole₂,made⟩
  dsimp only at same made whole₂ ⊢
  have fresh' := fresh.child made "input".toList
  have parent : host₂.look (stageDir ++ ["input".toList] ++ []).dropLast = some .dir := by
    rw [List.append_nil,List.dropLast_concat,made,Function.update_self]
  rw [← same] at seen
  have copied := @copyToLocalTemp_stages σ ω engine calm look spells valid codecs host₂ s₂ t t src _ [] srcText fuel
    storage willing seen (by rwa [List.append_nil]) Node.find_nil enough whole₂ (fresh'.agrees t) fresh'.rooted parent
  rw [List.append_nil] at copied
  apply (copied.mapError TaskError.vfs).weaken
  rintro _ ⟨s₃,host₃⟩ ⟨same',grown,shown⟩
  refine ⟨same'.trans same,grown.1,look_of_shows (grown.2.agrees (fresh'.agrees t)) shown,?_⟩
  intro path apart
  have outside : ¬ stageDir ++ ["input".toList] <+: path := fun within => apart ((List.prefix_append _ _).trans within)
  have differ : path ≠ stageDir := fun same => apart (same ▸ List.prefix_rfl)
  exact (grown.2.outside outside).trans (by rw [made,Function.update_of_ne differ])

/-- The part of a packing before the archive is written. -/
def preparePacking (codecs : Codecs) (config : CompressConfig) (engine : UserEngine σ ω) (fuel : Nat)
    (tempDir localInput : HostPath) : Effect (Local σ) ω TaskError Unit := do
  require (config.enabled = true) disabled
  ((engine.checkQuota 0).onFirst).mapError (quotaError "Quota check failed: ".toList)
  let s ← Effect.get
  let total ← Effect.ofExcept (summarizeLocalPath codecs.os s.2 fuel localInput)
  checkLimits config total
  (makeDir codecs tempDir).mapError .vfs

/-- What the packing does with its archive. -/
def storeArchive (codecs : Codecs) (engine : UserEngine σ ω) (fuel : Nat) (localOutput : HostPath) (dst : Text)
    (archive : Bytes) : Effect (Local σ) ω TaskError FileInfo := do
  (makeFile codecs localOutput archive).mapError .vfs
  let s ← Effect.get
  ((copyFromLocalTemp codecs.os s.2 engine.toVfsStorage true fuel localOutput dst).onFirst).mapError .vfs
  ((engine.stat dst).onFirst).mapError .vfs

theorem compressLocal_prepared (fuel : Nat) (tempDir localInput : HostPath) (dst : Text) :
    compressLocalSourceToVfs codecs config engine fuel tempDir localInput dst opts =
      (preparePacking codecs config engine fuel tempDir localInput >>= fun _ => Effect.get >>= fun s =>
        Effect.ofExcept (compressNative codecs s.2 fuel opts localInput) >>= fun archive =>
          storeArchive codecs engine fuel (tempDir ++ ["output.".toList ++ opts.format.extension]) dst archive) := by
  simp only [compressLocalSourceToVfs,preparePacking,storeArchive,bind_assoc]

theorem preparePacking_ends (storage : TreeStorage engine calm look spells valid)
    (willing : ∀ host path, codecs.refuses host path = false) (allowed : Allowed config t) (distinct : t.Distinct)
    (unlinked : ∀ path text, t.look path ≠ some (.link text)) (whole : host.Distinct)
    (seen : ∀ rest, host.look (input ++ rest) = t.look rest) (fresh : Fresh host packDir) (enough : directories t ≤ fuel) :
    Ends calm (preparePacking codecs config engine fuel packDir input) (s,host) fun _ after =>
      look after.1 = look s ∧ after.2.Distinct ∧ after.2.look = Function.update host.look packDir (some .dir) := by
  obtain ⟨node,placed,distinct',same⟩ := placed_of_seen whole seen
  have alike := counts_alike distinct' distinct same
  have bare := linkTextBytes_unlinked (find_unlinked unlinked)
  have single (text : Text) : node ≠ .link text := by
    rintro rfl
    apply unlinked [] text
    rw [← same,Node.look_nil]
    rfl
  have items := items_alike distinct' distinct same
  unfold preparePacking
  apply (require_ends allowed.enabled).bind
  rintro _ _ rfl
  apply (((storage.checkQuota 0).onFirst host).mapError (quotaError "Quota check failed: ".toList)).bind
  rintro _ ⟨s₁,host₁⟩ ⟨same₁,rfl⟩
  apply (Ends.get (Q := fun at_ after => at_ = (s₁,host₁) ∧ after = (s₁,host₁)) ⟨rfl,rfl⟩).bind
  intro at_ after equal
  obtain ⟨rfl,rfl⟩ := equal
  have room : directories node ≤ fuel := by omega
  have counts := @summarizeLocalPath_ok node codecs.os host₁ input fuel placed single room
  apply (Ends.ofExcept (Q := fun total after => total = (itemsOf t,fileBytes t) ∧ after = (s₁,host₁)) counts ?_).bind
  · rintro total after ⟨rfl,rfl⟩
    apply (checkLimits_ends allowed.items allowed.bytes).bind
    rintro _ _ rfl
    apply ((makeDir_fresh willing whole fresh).mapError TaskError.vfs).weaken
    rintro _ ⟨s₂,host₂⟩ ⟨rfl,whole₂,made⟩
    exact ⟨same₁,whole₂,made⟩
  · refine ⟨?_,rfl⟩
    rw [items,alike.1,countedBytes,bare,Nat.add_zero]

/-- The archive is stored at its path. -/
theorem storeArchive_ends (storage : TreeStorage engine calm look spells valid)
    (willing : ∀ host path, codecs.refuses host path = false) (whole : host.Distinct) {output : HostPath}
    (fresh : Fresh host output) (spelled : spells archText arch) (parent : look s arch.dropLast = some .dir)
    (free : look s arch ≠ some .dir) (enough : 0 < fuel) (archive : Bytes) (given : output ≠ []) :
    Ends calm (storeArchive codecs engine fuel output archText archive) (s,host) fun _ after =>
      look after.1 = Function.update (look s) arch (some (.file archive)) ∧ after.2.Distinct ∧
      after.2.look = Function.update host.look output (some (.file archive)) := by
  obtain ⟨less,rfl⟩ : ∃ less, fuel = less + 1 := ⟨fuel - 1,by omega⟩
  have absent : host.look output ≠ some .dir := by
    rw [fresh.nothing]
    exact fun impossible => by cases impossible
  have above : host.look output.dropLast = some .dir := by
    apply fresh.rooted _ (List.dropLast_prefix output)
    intro same
    have lengths := congrArg List.length same
    have some_ := List.length_pos_iff.mpr given
    rw [List.length_dropLast] at lengths
    omega
  unfold storeArchive
  apply ((makeFile_at willing whole archive above absent).mapError TaskError.vfs).bind
  rintro _ ⟨s₁,host₁⟩ ⟨rfl,whole₁,made⟩
  dsimp only at whole₁ made parent free ⊢
  apply (Ends.get (Q := fun at_ after => at_ = (s₁,host₁) ∧ after = (s₁,host₁)) ⟨rfl,rfl⟩).bind
  intro at_ after same
  obtain ⟨rfl,rfl⟩ := same
  have seen : host₁.look output = some (.file archive) := by rw [made,Function.update_self]
  have placed := Node.find_file_of_look seen
  have plain : codecs.os.isDir host₁ output = false :=
    (isDir_placed codecs.os placed fun text same => by cases same).trans rfl
  have uploaded : Ends calm (copyFromLocalTemp codecs.os host₁ engine.toVfsStorage true (less + 1) output archText) s₁
      fun _ s' => look s' = Function.update (look s₁) arch (some (.file archive)) := by
    rw [copyFromLocalTemp,plain,if_neg Bool.false_ne_true,openFile_placed codecs.os placed]
    apply (Ends.pure (Q := fun present s' => present = false ∧ s' = s₁) ⟨rfl,rfl⟩).bind
    rintro _ _ ⟨rfl,rfl⟩
    rw [if_neg Bool.false_ne_true]
    apply (storage.writeStream archive spelled free parent).bind
    intro _ s' written
    exact Ends.pure written
  apply ((uploaded.onFirst host₁).mapError TaskError.vfs).bind
  rintro _ ⟨s₂,host₂⟩ ⟨written,rfl⟩
  dsimp only at written
  have there : look s₂ arch = some (.file archive) := by rw [written,Function.update_self]
  apply (((storage.stat_file spelled there).onFirst host₂).mapError TaskError.vfs).weaken
  rintro _ ⟨s₃,host₃⟩ ⟨⟨same,-⟩,rfl⟩
  exact ⟨same.trans written,whole₁,made⟩

/-- What is asked of a compression: where the source is, and where the archive goes. -/
structure Request (look : σ → View) (spells : Text → HostPath → Prop) (config : CompressConfig) (t : HostNode)
    (s : σ) (host : HostNode) (src arch stageDir packDir : HostPath) (srcText archText : Text) : Prop where
  allowed : Allowed config t
  distinct : t.Distinct
  source rest : look s (src ++ rest) = t.look rest
  fromText : spells srcText src
  toText : spells archText arch
  parent : look s arch.dropLast = some .dir
  free : look s arch ≠ some .dir
  whole : host.Distinct
  staging : Fresh host stageDir
  packing : Fresh host packDir
  apart : stageDir ≠ packDir

namespace Request
variable (request : Request look spells config t s host src arch stageDir packDir srcText archText)
  (storage : TreeStorage engine calm look spells valid)
include request

theorem packing_outside : ¬ stageDir <+: packDir :=
  fun within => request.apart (request.staging.same request.packing within)

include storage

theorem unlinked (path : HostPath) (text : Text) : t.look path ≠ some (.link text) := by
  rw [← request.source]
  exact storage.unlinked

/-- The source is staged, and then there is room for the packing. -/
theorem prepared (opts : CompressionOptions) (willing : ∀ host path, codecs.refuses host path = false)
    (enough : directories t < fuel) :
    Ends calm (stageSource codecs config engine fuel stageDir srcText >>= fun _ =>
        preparePacking codecs config engine fuel packDir (stageDir ++ ["input".toList])) (s,host) fun _ after =>
      look after.1 = look s ∧ after.2.Distinct ∧
      (∀ rest, after.2.look (stageDir ++ ["input".toList] ++ rest) = t.look rest) ∧
      after.2.look packDir = some .dir ∧ Fresh after.2 (packDir ++ ["output.".toList ++ opts.format.extension]) ∧
      ∀ path, ¬ stageDir <+: path → ¬ packDir <+: path → after.2.look path = host.look path := by
  have outside := request.packing_outside
  apply (stageSource_ends storage willing request.allowed request.distinct request.source request.fromText request.whole
    request.staging enough).bind
  rintro _ ⟨s₁,host₁⟩ ⟨same,whole₁,staged,kept⟩
  dsimp only at same whole₁ staged kept
  have fresh := request.packing.kept outside kept
  have unlinked := request.unlinked storage
  apply (preparePacking_ends storage willing request.allowed request.distinct unlinked whole₁ staged fresh
    (by omega)).weaken
  rintro _ ⟨s₂,host₂⟩ ⟨same',whole₂,made⟩
  dsimp only at same' whole₂ made ⊢
  refine ⟨same'.trans same,whole₂,?_,?_,fresh.child made _,?_⟩
  · intro rest
    rw [made,Function.update_of_ne,staged]
    intro within
    apply outside
    rw [← within,List.append_assoc]
    exact List.prefix_append _ _
  · rw [made,Function.update_self]
  · intro path apart apart'
    rw [made,Function.update_of_ne,kept path apart]
    rintro rfl
    exact apart' List.prefix_rfl

end Request

theorem compressTask_prepared (fuel : Nat) (src dst : Text) (deleteSource : Bool) :
    compressTask codecs config engine fuel stageDir packDir src dst opts deleteSource =
      ((stageSource codecs config engine fuel stageDir src >>= fun _ =>
          preparePacking codecs config engine fuel packDir (stageDir ++ ["input".toList])) >>= fun _ =>
        Effect.get >>= fun s =>
        Effect.ofExcept (compressNative codecs s.2 fuel opts (stageDir ++ ["input".toList])) >>= fun archive =>
        storeArchive codecs engine fuel (packDir ++ ["output.".toList ++ opts.format.extension]) dst archive >>= fun info =>
        discardSource engine src deleteSource >>= fun _ => pure info) := by
  rw [compressTask_staged]
  simp only [compressLocal_prepared,bind_assoc]

/-- What the storage has after a compression. -/
def afterCompression (view : View) (src arch : HostPath) (deleteSource : Bool) (archive : Bytes) : View := fun path =>
  if deleteSource = true ∧ src <+: path then none else Function.update view arch (some (.file archive)) path

theorem discardSource_ends (storage : TreeStorage engine calm look spells valid) (spelled : spells srcText src)
    (deleteSource : Bool) (below : deleteSource = true → src ≠ []) (there : look s src ≠ none) :
    Ends calm (discardSource engine srcText deleteSource : Effect (Local σ) ω TaskError Unit) (s,host)
      fun _ after => after.2 = host ∧
        ∀ path, look after.1 path = if deleteSource = true ∧ src <+: path then none else look s path := by
  unfold discardSource
  cases deleteSource with
  | false =>
    rw [if_neg Bool.false_ne_true]
    apply Ends.pure
    simp
  | true =>
    rw [if_pos rfl]
    have deleted := storage.delete spelled (below rfl) there
    have attempted : Ends calm (engine.delete srcText).attempt s fun _ s' =>
        ∀ other, look s' other = if src <+: other then none else look s other := deleted.attempt
    apply ((attempted.onFirst host).mapError TaskError.vfs).bind
    rintro _ ⟨s₁,host₁⟩ ⟨gone,rfl⟩
    apply Ends.pure
    simpa using gone

/-- A tree that its format packs is compressed. -/
theorem compressTask_ends (storage : TreeStorage engine calm look spells valid) (fit : CodecsFit codecs opts t limit)
    (request : Request look spells config t s host src arch stageDir packDir srcText archText)
    (suited : Suited opts.format t) (enough : directories t < fuel) {deleteSource : Bool}
    (below : deleteSource = true → src ≠ []) :
    Ends calm (compressTask codecs config engine fuel stageDir packDir srcText archText opts deleteSource) (s,host)
      fun _ after => ∃ archive, archive.length ≤ limit ∧ Opens codecs opts t archive ∧
        look after.1 = afterCompression (look s) src arch deleteSource archive ∧ after.2.Distinct ∧
        ∀ path, ¬ stageDir <+: path → ¬ packDir <+: path → after.2.look path = host.look path := by
  rw [compressTask_prepared]
  apply (request.prepared storage opts fit.willing enough).bind
  rintro _ ⟨s₁,host₁⟩ ⟨same,whole₁,staged,-,fresh,kept⟩
  dsimp only at same whole₁ staged fresh kept ⊢
  apply (Ends.get (Q := fun at_ after => at_ = (s₁,host₁) ∧ after = (s₁,host₁)) ⟨rfl,rfl⟩).bind
  intro at_ after equal
  obtain ⟨rfl,rfl⟩ := equal
  have unlinked := request.unlinked storage
  have room : directories t ≤ fuel := by omega
  obtain ⟨archive,packed,small,opens⟩ := compressNative_packs fit whole₁ request.distinct unlinked staged room suited
  apply (Ends.ofExcept (Q := fun made after => made = archive ∧ after = (s₁,host₁)) packed ⟨rfl,rfl⟩).bind
  rintro archive _ ⟨rfl,rfl⟩
  have parent := request.parent
  have free := request.free
  rw [← same] at parent free
  have some_ : 0 < fuel := by omega
  have stored := storeArchive_ends storage fit.willing whole₁ fresh request.toText parent free some_ archive (by simp)
  apply stored.bind
  rintro info ⟨s₂,host₂⟩ ⟨written,whole₂,made⟩
  dsimp only at written whole₂ made ⊢
  have there : look s₂ src ≠ none := by
    rw [written,same]
    by_cases onto : src = arch
    · rw [onto,Function.update_self]
      exact Option.some_ne_none _
    · have root := request.source []
      rw [List.append_nil,Node.look_nil] at root
      rw [Function.update_of_ne onto,root]
      exact Option.some_ne_none _
  apply (discardSource_ends storage request.fromText deleteSource below there).bind
  rintro _ ⟨s₃,host₃⟩ ⟨rfl,gone⟩
  apply Ends.pure
  refine ⟨archive,small,opens,?_,whole₂,?_⟩
  · funext path
    rw [gone,written,same,afterCompression]
  · intro path apart apart'
    rw [made,Function.update_of_ne,kept path apart apart']
    rintro rfl
    exact apart' (List.prefix_append _ _)

/-- A file by itself is compressed neither to a zip nor to a tar archive. -/
theorem compressTask_single (storage : TreeStorage engine calm look spells valid) (fit : CodecsFit codecs opts t limit)
    (request : Request look spells config t s host src arch stageDir packDir srcText archText) {data : Bytes}
    (file : t = .file data) (format : opts.format = .zip ∨ opts.format = .tarGz) (enough : 0 < fuel) (deleteSource : Bool) :
    Fails calm (compressTask codecs config engine fuel stageDir packDir srcText archText opts deleteSource) (s,host) := by
  rw [compressTask_prepared]
  have room : directories t < fuel := by rw [file,directories]; exact enough
  apply (request.prepared storage opts fit.willing room).bind_fails
  rintro _ ⟨s₁,host₁⟩ ⟨-,whole₁,staged,-⟩
  apply (Ends.get (Q := fun at_ after => at_ = (s₁,host₁) ∧ after = (s₁,host₁)) ⟨rfl,rfl⟩).bind_fails
  intro at_ after equal
  obtain ⟨rfl,rfl⟩ := equal
  obtain ⟨error,refused⟩ := compressNative_single fuel fit whole₁ staged file format
  exact (Fails.ofExcept refused _).bind

end compressing
end StorageHub.Compression.Native
