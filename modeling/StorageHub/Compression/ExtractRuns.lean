import StorageHub.Compression.CompressRuns

/-! A decompression part by part, over a storage that is a tree and crates that return
what they were given. -/
namespace StorageHub.Compression.Native
open Library LinkTree WriteCache Scoped Mounts Effect

/-- A directory with nothing in it. -/
structure Empty (view : View) (path : HostPath) : Prop where
  here : view path = some .dir
  nothing {rest} : rest ≠ [] → view (path ++ rest) = none

theorem Empty.agrees {view : View} {path : HostPath} {t : HostNode} (empty : Empty view path)
    (dir : t.look [] = some .dir) : Agrees t path view := by
  intro rest
  cases rest with
  | nil =>
    right
    rw [List.append_nil,empty.here,dir]
  | cons name rest => exact .inl (empty.nothing (List.cons_ne_nil _ _))

section extracting
variable {σ ω : Type} {engine : UserEngine σ ω} {calm : Choice ω → Prop} {look : σ → View}
  {spells : Text → HostPath → Prop} {valid : Text → Prop} {codecs : Codecs} {config : FileCompressConfig}
  {opts : CompressionOptions} {host t : HostNode} {s : σ} {arch dst tempDir output : HostPath}
  {archText dstText : Text} {archive : Bytes} {fuel limit : Nat} {format : CompressionFormat}

theorem siblings_apart {dir : HostPath} {a b : Text} (differ : a ≠ b) (rest : HostPath) :
    ¬ dir ++ [a] <+: dir ++ [b] ++ rest := by
  intro within
  rw [List.append_assoc,List.prefix_append_right_inj] at within
  exact differ (List.cons_prefix_cons.mp within).1

/-- The part of a decompression before the archive is opened. -/
def fetchArchive (codecs : Codecs) (config : FileCompressConfig) (engine : UserEngine σ ω) (fuel : Nat)
    (tempDir : HostPath) (src : Text) : Effect (Local σ) ω TaskError Unit := do
  require (isExtensionAllowed codecs.lower src config.decompressionFormats)
    (.message ("Decompression format not supported for: ".toList ++ src))
  ((engine.checkQuota 0).onFirst).mapError (quotaError "Quota check failed: ".toList)
  let info ← ((engine.stat src).onFirst).mapError .vfs
  require (info.size ≤ config.maxDecompressArchiveSizeMb * 1024 * 1024)
    (.message "Decompression aborted: archive size exceeds limit".toList)
  (makeDir codecs tempDir).mapError .vfs
  (makeDir codecs (tempDir ++ ["output".toList])).mapError .vfs
  (copyToLocalTemp codecs engine.toVfsStorage fuel src
    (tempDir ++ [(Text.fileName src).getD "input.archive".toList])).mapError .vfs

theorem decompressTask_fetched (fuel : Nat) (src dst : Text) (opts : DecompressionOptions) (password : Option Text)
    (known : CompressionFormat.fromPath codecs.lower src = some format) :
    decompressTask codecs config engine fuel tempDir src dst opts password =
      (fetchArchive codecs config engine fuel tempDir src >>= fun _ =>
        decompressNative codecs format (tempDir ++ [(Text.fileName src).getD "input.archive".toList])
          (tempDir ++ ["output".toList]) src password >>= fun _ =>
        Effect.get >>= fun s =>
        (storeExtracted codecs.os s.2 engine fuel (config.maxExtractSizeGb * 1024 * 1024 * 1024)
          (tempDir ++ ["output".toList]) src dst opts).onFirst) := by
  simp only [decompressTask,fetchArchive,bind_assoc,known]

/-- What is asked of a decompression before the archive is opened. -/
structure Delivery (look : σ → View) (spells : Text → HostPath → Prop) (codecs : Codecs) (config : FileCompressConfig)
    (s : σ) (host : HostNode) (arch tempDir : HostPath) (archText : Text) (archive : Bytes) : Prop where
  listed : isExtensionAllowed codecs.lower archText config.decompressionFormats = true
  small : archive.length ≤ config.maxDecompressArchiveSizeMb * 1024 * 1024
  fromText : spells archText arch
  stored : look s arch = some (.file archive)
  named : Text.fileName archText ≠ some "output".toList
  whole : host.Distinct
  fresh : Fresh host tempDir

theorem fetchArchive_ends (storage : TreeStorage engine calm look spells valid)
    (willing : ∀ host path, codecs.refuses host path = false)
    (delivery : Delivery look spells codecs config s host arch tempDir archText archive) (enough : 0 < fuel) :
    Ends calm (fetchArchive codecs config engine fuel tempDir archText) (s,host) fun _ after =>
      look after.1 = look s ∧ after.2.Distinct ∧
      after.2.look (tempDir ++ [(Text.fileName archText).getD "input.archive".toList]) = some (.file archive) ∧
      Empty after.2.look (tempDir ++ ["output".toList]) ∧ Rooted (tempDir ++ ["output".toList]) after.2.look := by
  have differ : (Text.fileName archText).getD "input.archive".toList ≠ "output".toList := by
    cases name : Text.fileName archText with
    | none => exact by decide
    | some name' =>
      rw [Option.getD_some]
      rintro rfl
      exact delivery.named name
  unfold fetchArchive
  apply (require_ends delivery.listed).bind
  rintro _ _ rfl
  apply (((storage.checkQuota 0).onFirst host).mapError (quotaError "Quota check failed: ".toList)).bind
  rintro _ ⟨s₁,host₁⟩ ⟨same₁,rfl⟩
  have stored := delivery.stored
  rw [← same₁] at stored
  apply (((storage.stat_file delivery.fromText stored).onFirst host₁).mapError TaskError.vfs).bind
  rintro info ⟨s₂,host₂⟩ ⟨⟨same₂,-,size⟩,rfl⟩
  apply (require_ends (size.trans_le delivery.small)).bind
  rintro _ _ rfl
  apply ((makeDir_fresh willing delivery.whole delivery.fresh).mapError TaskError.vfs).bind
  rintro _ ⟨s₃,host₃⟩ ⟨rfl,whole₃,made₃⟩
  dsimp only at same₁ same₂ stored whole₃ made₃ ⊢
  have outputFresh := delivery.fresh.child made₃ "output".toList
  apply ((makeDir_fresh willing whole₃ outputFresh).mapError TaskError.vfs).bind
  rintro _ ⟨s₄,host₄⟩ ⟨rfl,whole₄,made₄⟩
  dsimp only at same₂ whole₄ made₄ ⊢
  generalize (Text.fileName archText).getD "input.archive".toList = name at differ ⊢
  have apart : ¬ tempDir ++ ["output".toList] <+: tempDir ++ [name] := by
    have beside := @siblings_apart tempDir _ _ (Ne.symm differ) []
    rwa [List.append_nil] at beside
  have elsewhere (other : HostPath) (outside : ¬ tempDir ++ ["output".toList] <+: other) :
      host₄.look other = host₃.look other := by
    rw [made₄,Function.update_of_ne]
    rintro rfl
    exact outside List.prefix_rfl
  have localFresh := (delivery.fresh.child made₃ name).kept apart elsewhere
  have parent : host₄.look (tempDir ++ [name] ++ []).dropLast = some .dir := by
    have differ' : tempDir ≠ tempDir ++ ["output".toList] := Ne.symm (ne_child _ _)
    rw [List.append_nil,List.dropLast_concat,made₄,Function.update_of_ne differ',made₃,Function.update_self]
  have seen : ∀ rest, look s₄ (arch ++ rest) = (Node.file archive : HostNode).look rest := by
    intro rest
    rw [same₂]
    cases rest with
    | nil => rw [List.append_nil,stored]; rfl
    | cons c rest =>
      rw [Node.look_file]
      by_contra something
      have dir := storage.above something (List.prefix_append _ _) fun same =>
        List.cons_ne_nil _ _ (List.append_right_eq_self.mp same.symm)
      rw [stored] at dir
      cases dir
  have spelled := delivery.fromText
  rw [← List.append_nil arch] at spelled
  have copied := @copyToLocalTemp_stages σ ω engine calm look spells valid codecs host₄ s₄ (.file archive) (.file archive)
    arch (tempDir ++ [name]) [] archText fuel storage willing seen spelled Node.find_nil enough whole₄
    (localFresh.agrees _) localFresh.rooted parent
  rw [List.append_nil] at copied
  apply (copied.mapError TaskError.vfs).weaken
  rintro _ ⟨s₅,host₅⟩ ⟨same₅,grown,shown⟩
  have whole := shown [] (Option.some_ne_none _)
  rw [List.append_nil,List.append_nil] at whole
  have output (rest : HostPath) : host₅.look (tempDir ++ ["output".toList] ++ rest) =
      host₄.look (tempDir ++ ["output".toList] ++ rest) := grown.2.outside (siblings_apart differ rest)
  refine ⟨same₅.trans (same₂.trans same₁),grown.1,whole,?_,?_⟩
  · constructor
    · have here := output []
      rw [List.append_nil] at here
      rw [here,made₄,Function.update_self]
    · intro rest given
      have strict : tempDir ++ ["output".toList] ++ rest ≠ tempDir ++ ["output".toList] :=
        fun same => given (List.append_right_eq_self.mp same)
      rw [output,made₄,Function.update_of_ne strict]
      exact outputFresh.below (List.prefix_append _ _)
  · intro above before strict
    have within : above <+: tempDir := (List.prefix_concat_iff.mp before).resolve_left strict
    have outside : ¬ tempDir ++ [name] <+: above := by
      intro inside
      have lengths := (inside.trans within).length_le
      rw [List.length_append,List.length_singleton] at lengths
      omega
    rw [grown.2.outside outside,made₄,Function.update_of_ne strict]
    exact outputFresh.rooted above before strict

/-! ### Opening -/

/-- What the archive of a tree comes back as. -/
def broughtBack (format : CompressionFormat) (stem : Text) (t : HostNode) : HostNode :=
  if format = .gzip then .dir [stem] fun _ => t else t

theorem openArchive_ends {path : HostPath} (stored : host.look path = some (.file archive)) :
    Ends calm (openArchive codecs path : Effect (Local σ) ω TaskError Bytes) (s,host)
      fun data after => data = archive ∧ after = (s,host) := by
  unfold openArchive
  apply (Ends.get (Q := fun at_ after => at_ = (s,host) ∧ after = (s,host)) ⟨rfl,rfl⟩).bind
  intro at_ after equal
  obtain ⟨rfl,rfl⟩ := equal
  rw [openFile_placed codecs.os (Node.find_file_of_look stored)]
  exact Ends.pure ⟨rfl,rfl⟩

variable {input : HostPath} {stem : Text}

theorem decompressZip_ends (fit : CodecsFit codecs opts t limit) (dir : t.look [] = some .dir)
    (plain : ∀ path name, t.look (path ++ [name]) ≠ none → Plain name)
    (unlinked : ∀ path text, t.look path ≠ some (.link text)) {entries : List ZipEntry}
    (perm : entries.Perm (t.members.map entryOf)) (read : codecs.zipRead opts.password archive = .ok entries)
    (whole : host.Distinct) (stored : host.look input = some (.file archive)) (empty : Empty host.look output)
    (rooted : Rooted output host.look) :
    Ends calm (decompressZipNative codecs input output opts.password : Effect (Local σ) ω TaskError Unit) (s,host)
      fun _ after => after.1 = s ∧ after.2.Distinct ∧ ∀ rest, after.2.look (output ++ rest) = t.look rest := by
  unfold decompressZipNative
  apply (openArchive_ends stored).bind
  rintro _ _ ⟨rfl,rfl⟩
  apply (Ends.ofExcept (Q := fun found after => found = entries ∧ after = (s,host)) read ⟨rfl,rfl⟩).bind
  rintro _ _ ⟨rfl,rfl⟩
  apply ((extractEntries_end fit dir plain unlinked perm whole (empty.agrees dir) rooted empty.here).mapError
    TaskError.vfs).weaken
  rintro _ after ⟨same,grown,seen⟩
  exact ⟨same,grown.1,seen⟩

theorem decompressTarGz_ends {names : List Text} {child : Text → HostNode}
    (unpacked : codecs.unpack archive = .ok (names,child)) (distinct : (Node.dir names child).Distinct)
    (same : ∀ path, (Node.dir names child).look path = t.look path) (whole : host.Distinct)
    (stored : host.look input = some (.file archive)) :
    Ends calm (decompressTarGzNative codecs input output : Effect (Local σ) ω TaskError Unit) (s,host)
      fun _ after => after.1 = s ∧ after.2.Distinct ∧ ∀ rest, after.2.look (output ++ rest) = t.look rest := by
  unfold decompressTarGzNative
  apply (openArchive_ends stored).bind
  rintro _ _ ⟨rfl,rfl⟩
  apply (Ends.ofExcept (Q := fun found after => found = (names,child) ∧ after = (s,host)) unpacked ⟨rfl,rfl⟩).bind
  rintro _ _ ⟨rfl,rfl⟩
  apply Ends.modify
  refine ⟨rfl,Node.distinct_graft distinct output whole,?_⟩
  intro rest
  rw [Node.look_graft,if_pos (List.prefix_append _ _),List.drop_left,same]

/-- A file that is alone in a directory, as it is seen. -/
theorem look_alone {data : Bytes} {view : View} {base : HostPath} (empty : Empty view base) (rest : HostPath) :
    Function.update view (base ++ [stem]) (some (.file data)) (base ++ rest) =
      (Node.dir [stem] fun _ => .file data : HostNode).look rest := by
  cases rest with
  | nil =>
    rw [List.append_nil,Function.update_of_ne (Ne.symm (ne_child base stem)),empty.here]
    rfl
  | cons name rest =>
    by_cases same : name = stem
    · rw [same,Node.look_listed List.mem_cons_self]
      cases rest with
      | nil => rw [Function.update_self]; rfl
      | cons next later =>
        rw [Function.update_of_ne,empty.nothing (List.cons_ne_nil _ _),Node.look_file]
        intro equal
        have parts := List.append_cancel_left equal
        cases (List.cons.inj parts).2
    · rw [Node.look_unlisted (by rw [List.mem_singleton]; exact same),Function.update_of_ne,
        empty.nothing (List.cons_ne_nil _ _)]
      intro equal
      have parts := List.append_cancel_left equal
      exact same (List.cons.inj parts).1

theorem decompressGz_ends (willing : ∀ host path, codecs.refuses host path = false) {data : Bytes}
    (read : codecs.gunzip archive = .ok data) (noDots : stem ≠ ['.'] ∧ stem ≠ ['.','.']) (whole : host.Distinct)
    (stored : host.look input = some (.file archive)) (empty : Empty host.look output) :
    Ends calm (decompressGzNative codecs input output stem : Effect (Local σ) ω TaskError Unit) (s,host)
      fun _ after => after.1 = s ∧ after.2.Distinct ∧
        ∀ rest, after.2.look (output ++ rest) = (Node.dir [stem] fun _ => .file data : HostNode).look rest := by
  unfold decompressGzNative
  apply (openArchive_ends stored).bind
  rintro _ _ ⟨rfl,rfl⟩
  apply (Ends.ofExcept (Q := fun found after => found = data ∧ after = (s,host)) read ⟨rfl,rfl⟩).bind
  rintro _ _ ⟨rfl,rfl⟩
  rw [if_neg fun dots => dots.elim noDots.1 noDots.2]
  have parent : host.look (output ++ [stem]).dropLast = some .dir := by
    rw [List.dropLast_concat]
    exact empty.here
  have free : host.look (output ++ [stem]) ≠ some .dir := by
    rw [empty.nothing (List.cons_ne_nil _ _)]
    exact fun impossible => by cases impossible
  apply ((makeFile_at willing whole _ parent free).mapError TaskError.vfs).weaken
  rintro _ after ⟨same,whole',made⟩
  refine ⟨same,whole',?_⟩
  intro rest
  rw [made]
  exact look_alone empty rest

/-- An archive that opens comes back below the directory. -/
theorem decompressNative_ends (fit : CodecsFit codecs opts t limit) (opens : Opens codecs opts t archive)
    (plain : ∀ path name, t.look (path ++ [name]) ≠ none → Plain name)
    (unlinked : ∀ path text, t.look path ≠ some (.link text)) (whole : host.Distinct)
    (stored : host.look input = some (.file archive)) (empty : Empty host.look output) (rooted : Rooted output host.look)
    (stemmed : opts.format = .gzip → Text.fileStem archText = some stem ∧ stem ≠ ['.'] ∧ stem ≠ ['.','.']) :
    Ends calm (decompressNative codecs opts.format input output archText opts.password :
        Effect (Local σ) ω TaskError Unit) (s,host)
      fun _ after => after.1 = s ∧ after.2.Distinct ∧
        ∀ rest, after.2.look (output ++ rest) = (broughtBack opts.format stem t).look rest := by
  unfold decompressNative broughtBack
  cases opens with
  | zip asked dir perm read =>
    rw [asked,if_neg (by decide)]
    have root : t.look [] = some .dir := by
      cases t with
      | dir names child => exact Node.look_nil
      | file data => cases dir
      | link text => cases dir
    exact decompressZip_ends fit root plain unlinked perm read whole stored empty rooted
  | tarGz asked dir unpacked distinct same =>
    rw [asked,if_neg (by decide)]
    exact decompressTarGz_ends unpacked distinct same whole stored
  | gzip asked file read =>
    obtain ⟨named,noDots⟩ := stemmed asked
    rw [asked,if_pos rfl,file]
    dsimp only
    rw [named]
    exact decompressGz_ends fit.willing read noDots whole stored empty

/-! ### Storing -/

variable {r : HostNode} {opts' : DecompressionOptions}

theorem discardArchive_ends (storage : TreeStorage engine calm look spells valid) (spelled : spells archText arch)
    (given : arch ≠ []) (there : look s arch ≠ none) (opts : DecompressionOptions) :
    Ends calm (discardArchive engine archText opts) s
      fun _ s' => ∀ path, ¬ arch <+: path → look s' path = look s path := by
  unfold discardArchive
  split
  next =>
    have deleted := storage.delete spelled given there
    have attempted : Ends calm (engine.delete archText).attempt s fun _ s' =>
        ∀ other, look s' other = if arch <+: other then none else look s other := deleted.attempt
    apply (attempted.mapError TaskError.vfs).bind
    rintro _ s₁ gone
    apply Ends.pure
    intro path apart
    rw [gone,if_neg apart]
  next => exact Ends.pure fun path _ => rfl

/-- A file is neither in an empty directory nor above it. -/
theorem TreeStorage.archive_apart (storage : TreeStorage engine calm look spells valid)
    (stored : look s arch = some (.file archive)) (empty : Empty (look s) dst) :
    (∀ rest, ¬ arch <+: dst ++ rest) ∧ ¬ dst <+: arch ∧ arch ≠ [] := by
  have clash {other : HostPath} (above : arch <+: other) (there : look s other = some .dir) : False := by
    by_cases onto : arch = other
    · rw [onto,there] at stored
      cases stored
    · have file := storage.above (by rw [there]; exact Option.some_ne_none _) above onto
      rw [stored] at file
      cases file
  have outside (rest : HostPath) : ¬ arch <+: dst ++ rest := by
    intro within
    rcases List.prefix_or_prefix_of_prefix within (List.prefix_append dst rest) with above | ⟨more,split⟩
    · exact clash above empty.here
    · cases more with
      | nil =>
        rw [List.append_nil] at split
        exact clash (split ▸ List.prefix_rfl) empty.here
      | cons name more =>
        rw [← split,empty.nothing (List.cons_ne_nil _ _)] at stored
        cases stored
  refine ⟨outside,?_,?_⟩
  · rintro ⟨rest,split⟩
    exact outside rest (split ▸ List.prefix_rfl)
  · rintro rfl
    exact outside [] List.nil_prefix

/-- What was unpacked is stored below an empty directory. -/
theorem storeExtracted_ends (storage : TreeStorage engine calm look spells valid) {os : Os} (whole : host.Distinct)
    (seen : ∀ rest, host.look (output ++ rest) = r.look rest) (distinct : r.Distinct) (dir : r.look [] = some .dir)
    (unlinked : ∀ path text, r.look path ≠ some (.link text))
    (named : ∀ path name, r.look (path ++ [name]) ≠ none → valid name) {maxTotal : Nat}
    (fits : fileBytes r ≤ maxTotal) (enough : directories r < fuel) (fromText : spells archText arch)
    (stored : look s arch = some (.file archive)) (toText : spells dstText dst) (empty : Empty (look s) dst) :
    Ends calm (storeExtracted os host engine fuel maxTotal output archText dstText opts') s
      fun _ s' => ∀ rest, look s' (dst ++ rest) = r.look rest := by
  obtain ⟨node,placed,distinct',same⟩ := placed_of_seen whole seen
  obtain ⟨bytes,dirs⟩ := counts_alike distinct' distinct same
  have bare := linkTextBytes_unlinked (find_unlinked unlinked)
  have kind : node.kind = .dir := by
    have shape := kind_seen same
    rw [Node.look_nil] at dir
    obtain ⟨names,child,rfl⟩ := dir_of_shape (shape.trans (Option.some.inj dir))
    rfl
  have queued : Queued output node [output] [node] :=
    .cons ⟨kind,[],(List.append_nil output).symm,Node.find_nil⟩ .nil
  have taken := @extractedSize_fits os host node output maxTotal fuel 0 [output] [node] placed queued
    (by simp only [directoriesOf,List.map_cons,List.map_nil,List.sum_cons,List.sum_nil]; omega)
    (by simp only [counted,List.map_cons,List.map_nil,List.sum_cons,List.sum_nil,bytes]; simp only [countedBytes]; omega)
  obtain ⟨outside,beside,given⟩ := storage.archive_apart stored empty
  have agreed : Agrees node dst (look s) := empty.agrees (by rw [same,dir])
  have parent : look s (dst ++ []).dropLast = some .dir := by
    rw [List.append_nil]
    by_cases top : dst.dropLast = dst
    · rw [top,empty.here]
    · apply storage.above _ (List.dropLast_prefix dst) top
      rw [empty.here]
      exact Option.some_ne_none _
  have unlinked' := find_unlinked fun path text => by rw [same]; exact unlinked path text
  have named' (path : HostPath) (name : Text) (there : node.look (path ++ [name]) ≠ none) : valid name := by
    rw [same] at there
    exact named path name there
  unfold storeExtracted
  apply (Ends.ofExcept (Q := fun _ s' => s' = s) taken rfl).bind
  rintro total _ rfl
  apply ((storage.checkQuota (total : Int)).mapError (quotaError "Quota check failed after extraction: ".toList)).bind
  intro _ s₁ same₁
  rw [← same₁] at stored agreed parent
  have spelled := toText
  rw [← List.append_nil dst] at spelled
  have copied := @copyFromLocalTemp_uploads σ ω engine calm look spells valid host s₁ node node [] dstText fuel storage os
    opts'.overwrite output dst placed unlinked' named' spelled Node.find_nil (by omega) agreed parent
  rw [List.append_nil] at copied
  apply (copied.mapError TaskError.vfs).bind
  rintro _ s₂ ⟨grown,shown⟩
  have whole₂ := look_of_shows (grown.agrees agreed) shown
  have kept := (grown.outside beside).trans stored
  apply (discardArchive_ends storage fromText given (by rw [kept]; exact Option.some_ne_none _) opts').bind
  intro _ s₃ same₃
  have final (rest : HostPath) : look s₃ (dst ++ rest) = r.look rest := by
    rw [same₃ _ (outside rest),whole₂,same]
  have here : look s₃ dst = some .dir := by
    have root := final []
    rwa [List.append_nil,dir] at root
  apply ((storage.stat_dir toText here).mapError TaskError.vfs).weaken
  rintro _ s₄ ⟨same₄,-⟩
  intro rest
  rw [same₄,final]

theorem upload_refused (storage : TreeStorage engine calm look spells valid) {os : Os} {data : Bytes}
    (placed : host.find output = some (.file data)) (spelled : spells dstText dst)
    (segment : stem ≠ [] ∧ '/' ∉ stem) (bad : ¬valid stem) {overwrite : Bool} (fuel : Nat) :
    Fails calm (copyFromLocalTemp os host engine.toVfsStorage overwrite fuel output
      (Text.trimEnd '/' dstText ++ '/'::stem)) s := by
  obtain ⟨unseen,unwritten⟩ := @TreeStorage.refused σ ω engine calm look spells valid storage s _ _ _ spelled segment.1
    segment.2 bad
  cases fuel with
  | zero => exact Fails.fail _ s
  | succ fuel =>
    have plain : os.isDir host output = false := (isDir_placed os placed fun text same => by cases same).trans rfl
    rw [copyFromLocalTemp,plain,if_neg Bool.false_ne_true,openFile_placed os placed]
    cases overwrite with
    | false => exact unseen.bind
    | true =>
      apply (Ends.pure (Q := fun present s' => present = false ∧ s' = s) ⟨rfl,rfl⟩).bind_fails
      rintro _ _ ⟨rfl,rfl⟩
      exact (unwritten data).bind

/-- A file whose name the storage does not take is not stored. -/
theorem storeExtracted_refused (storage : TreeStorage engine calm look spells valid) {os : Os} (whole : host.Distinct)
    {data : Bytes} (seen : ∀ rest, host.look (output ++ rest) = (Node.dir [stem] fun _ => .file data : HostNode).look rest)
    (segment : stem ≠ [] ∧ '/' ∉ stem) (bad : ¬valid stem) {maxTotal : Nat} (toText : spells dstText dst) (empty : Empty (look s) dst) :
    Fails calm (storeExtracted os host engine fuel maxTotal output archText dstText opts') s := by
  obtain ⟨node,placed,-,same⟩ := placed_of_seen whole seen
  obtain ⟨names,child,rfl⟩ := dir_of_shape (kind_seen same)
  have file : host.find (output ++ [stem]) = some (.file data) := by
    apply Node.find_file_of_look
    rw [seen]
    exact Node.look_listed List.mem_cons_self []
  have listed (name : Text) : name ∈ names ↔ name = stem := by
    have there := same [name]
    by_cases present : name ∈ names
    · rw [Node.look_listed present] at there
      by_contra differ
      rw [Node.look_unlisted] at there
      · simp at there
      · intro member
        exact differ ⟨fun _ => List.mem_singleton.mp member,fun _ => present⟩
    · constructor
      · exact fun member => absurd member present
      · rintro rfl
        rw [Node.look_unlisted present,Node.look_listed List.mem_cons_self] at there
        simp at there
  have uploading {s : σ} (empty : Empty (look s) dst) :
      Fails calm (copyFromLocalTemp os host engine.toVfsStorage opts'.overwrite fuel output dstText) s := by
    cases fuel with
    | zero => exact Fails.fail _ s
    | succ fuel =>
      have directory : os.isDir host output = true := (isDir_placed os placed fun text same => by cases same).trans rfl
      have listing := @readDir_plain os host (.dir names child) output [] names child placed Node.find_nil
      rw [List.append_nil] at listing
      rw [copyFromLocalTemp,if_pos directory,listing]
      have ensured : Ends calm (ensureDir engine.toVfsStorage dstText) s fun _ _ => True := by
        unfold ensureDir
        apply (storage.exists_ toText).bind
        rintro present s₁ ⟨-,known⟩
        rw [if_pos (known.mpr (by rw [empty.here]; exact Option.some_ne_none _))]
        exact Ends.pure True.intro
      apply ensured.bind_fails
      intro _ s₁ _
      have order := os.order_perm output names
      cases entries : os.order output names with
      | nil =>
        have member := order.mem_iff.mpr ((listed stem).mpr rfl)
        rw [entries] at member
        cases member
      | cons name later =>
        have first : name ∈ os.order output names := by rw [entries]; exact List.mem_cons_self
        obtain rfl := (listed name).mp (order.mem_iff.mp first)
        exact (upload_refused storage file toText segment bad fuel).bind
  unfold storeExtracted
  cases taken : extractedSize os host maxTotal fuel [output] 0 with
  | error error => exact (Fails.fail error s).bind
  | ok total =>
    apply (Ends.pure (Q := fun size s' => size = total ∧ s' = s) ⟨rfl,rfl⟩).bind_fails
    rintro size _ ⟨rfl,rfl⟩
    apply ((storage.checkQuota (size : Int)).mapError
      (quotaError "Quota check failed after extraction: ".toList)).bind_fails
    intro _ s₁ same₁
    rw [← same₁] at empty
    exact ((uploading empty).mapError TaskError.vfs).bind

/-! ### The task -/

/-- What comes back can be stored. -/
structure Storable (valid : Text → Prop) (r : HostNode) : Prop where
  distinct : r.Distinct
  dir : r.look [] = some .dir
  unlinked path text : r.look path ≠ some (.link text)
  named path name : r.look (path ++ [name]) ≠ none → valid name

theorem broughtBack_storable (opens : Opens codecs opts t archive) (distinct : t.Distinct)
    (unlinked : ∀ path text, t.look path ≠ some (.link text)) (named : ∀ path name, t.look (path ++ [name]) ≠ none → valid name)
    (stemmed : opts.format = .gzip → valid stem) :
    Storable valid (broughtBack opts.format stem t) ∧ fileBytes (broughtBack opts.format stem t) = fileBytes t ∧
      directories (broughtBack opts.format stem t) ≤ directories t + 1 := by
  have archived (dir : t.kind = .dir) (other : opts.format ≠ .gzip) :
      Storable valid (broughtBack opts.format stem t) ∧ fileBytes (broughtBack opts.format stem t) = fileBytes t ∧
        directories (broughtBack opts.format stem t) ≤ directories t + 1 := by
    rw [broughtBack,if_neg other]
    have root : t.look [] = some .dir := by
      cases t with
      | dir names child => exact Node.look_nil
      | file data => cases dir
      | link text => cases dir
    exact ⟨⟨distinct,root,unlinked,named⟩,rfl,by omega⟩
  cases opens with
  | zip asked dir _ _ => exact archived dir (by rw [asked]; decide)
  | tarGz asked dir _ _ _ => exact archived dir (by rw [asked]; decide)
  | @gzip data asked file _ =>
    rw [broughtBack,if_pos asked,file]
    have below {path : HostPath} {name : Text} {rest : HostPath} (split : path = name::rest)
        (seen : (Node.dir [stem] fun _ => .file data : HostNode).look path ≠ none) : name = stem ∧ rest = [] := by
      rw [split] at seen
      by_cases same : name = stem
      · rw [same,Node.look_listed List.mem_cons_self] at seen
        cases rest with
        | nil => exact ⟨same,rfl⟩
        | cons next later => exact absurd (Node.look_file data) seen
      · rw [Node.look_unlisted (by rw [List.mem_singleton]; exact same)] at seen
        exact absurd rfl seen
    refine ⟨⟨⟨List.nodup_singleton stem,fun _ _ => True.intro⟩,Node.look_nil,?_,?_⟩,?_,?_⟩
    · intro path text seen
      cases path with
      | nil => cases seen
      | cons name rest =>
        obtain ⟨rfl,rfl⟩ := below rfl (by rw [seen]; exact Option.some_ne_none _)
        rw [Node.look_listed List.mem_cons_self] at seen
        cases seen
    · intro path name seen
      cases path with
      | nil =>
        obtain ⟨rfl,-⟩ := below rfl seen
        exact stemmed asked
      | cons first rest =>
        obtain ⟨-,nothing⟩ := below rfl seen
        simp at nothing
    · simp [fileBytes]
    · simp [directories]

/-- An archive of a tree is unpacked into an empty directory. -/
theorem decompressTask_ends (storage : TreeStorage engine calm look spells valid) (fit : CodecsFit codecs opts t limit)
    (delivery : Delivery look spells codecs config s host arch tempDir archText archive)
    (opens : Opens codecs opts t archive) (known : CompressionFormat.fromPath codecs.lower archText = some opts.format)
    (distinct : t.Distinct) (unlinked : ∀ path text, t.look path ≠ some (.link text))
    (named : ∀ path name, t.look (path ++ [name]) ≠ none → valid name)
    (stemmed : opts.format = .gzip → Text.fileStem archText = some stem ∧ valid stem)
    (fits : fileBytes t ≤ config.maxExtractSizeGb * 1024 * 1024 * 1024) (enough : directories t + 1 < fuel)
    (toText : spells dstText dst) (empty : Empty (look s) dst) :
    Ends calm (decompressTask codecs config engine fuel tempDir archText dstText opts' opts.password) (s,host)
      fun _ after => ∀ rest, look after.1 (dst ++ rest) = (broughtBack opts.format stem t).look rest := by
  obtain ⟨storable,bytes,dirs⟩ := broughtBack_storable opens distinct unlinked named fun asked => (stemmed asked).2
  have noDots (asked : opts.format = .gzip) : Text.fileStem archText = some stem ∧ stem ≠ ['.'] ∧ stem ≠ ['.','.'] := by
    obtain ⟨found,fine⟩ := stemmed asked
    exact ⟨found,(storage.plain fine).noDot,(storage.plain fine).noDots⟩
  have plain (path : HostPath) (name : Text) (there : t.look (path ++ [name]) ≠ none) : Plain name :=
    storage.plain (named path name there)
  rw [decompressTask_fetched fuel archText dstText opts' opts.password known]
  apply (fetchArchive_ends storage fit.willing delivery (by omega)).bind
  rintro _ ⟨s₁,host₁⟩ ⟨same₁,whole₁,fetched,ready,rooted⟩
  dsimp only at same₁ whole₁ fetched ready rooted ⊢
  apply (decompressNative_ends fit opens plain unlinked whole₁ fetched ready rooted noDots).bind
  rintro _ ⟨s₂,host₂⟩ ⟨rfl,whole₂,seen⟩
  dsimp only at same₁ whole₂ seen
  apply (Ends.get (Q := fun at_ after => at_ = (s₂,host₂) ∧ after = (s₂,host₂)) ⟨rfl,rfl⟩).bind
  intro at_ after equal
  obtain ⟨rfl,rfl⟩ := equal
  have stored := delivery.stored
  rw [← same₁] at stored empty
  apply ((storeExtracted_ends storage whole₂ seen storable.distinct storable.dir storable.unlinked storable.named
    (by rw [bytes]; exact fits) (by omega) delivery.fromText stored toText empty).onFirst host₂).weaken
  rintro _ after ⟨final,-⟩
  exact final

/-- Where nothing is there is no archive to unpack. -/
theorem decompressTask_gone (storage : TreeStorage engine calm look spells valid) (spelled : spells archText arch)
    (gone : look s arch = none) (known : CompressionFormat.fromPath codecs.lower archText = some format)
    (password : Option Text) :
    Fails calm (decompressTask codecs config engine fuel tempDir archText dstText opts' password) (s,host) := by
  rw [decompressTask_fetched fuel archText dstText opts' password known]
  apply Fails.bind
  unfold fetchArchive
  by_cases listed : isExtensionAllowed codecs.lower archText config.decompressionFormats = true
  · apply (require_ends listed).bind_fails
    rintro _ _ rfl
    apply (((storage.checkQuota 0).onFirst host).mapError (quotaError "Quota check failed: ".toList)).bind_fails
    rintro _ ⟨s₁,host₁⟩ ⟨same,rfl⟩
    dsimp only at same
    rw [← same] at gone
    exact (((storage.stat_none spelled gone).onFirst).mapError TaskError.vfs).bind
  · rw [require,if_neg listed]
    exact (Fails.fail _ _).bind

/-- A file of a name the storage does not take does not come back. -/
theorem decompressTask_unnamed (storage : TreeStorage engine calm look spells valid) (fit : CodecsFit codecs opts t limit)
    (delivery : Delivery look spells codecs config s host arch tempDir archText archive)
    (opens : Opens codecs opts t archive) (known : CompressionFormat.fromPath codecs.lower archText = some opts.format)
    (asked : opts.format = .gzip) (unnamed : ∀ stem, Text.fileStem archText = some stem → ¬valid stem)
    (enough : 0 < fuel) (toText : spells dstText dst) (empty : Empty (look s) dst) :
    Fails calm (decompressTask codecs config engine fuel tempDir archText dstText opts' opts.password) (s,host) := by
  rw [decompressTask_fetched fuel archText dstText opts' opts.password known]
  apply (fetchArchive_ends storage fit.willing delivery enough).bind_fails
  rintro _ ⟨s₁,host₁⟩ ⟨same₁,whole₁,fetched,ready,-⟩
  dsimp only at same₁ whole₁ fetched ready ⊢
  unfold decompressNative
  rw [asked]
  dsimp only
  cases stemmed : Text.fileStem archText with
  | none => exact (Fails.fail _ _).bind
  | some stem =>
    dsimp only
    cases opens with
    | zip other => rw [asked] at other; cases other
    | tarGz other => rw [asked] at other; cases other
    | @gzip data _ _ read =>
      by_cases dots : stem = ['.'] ∨ stem = ['.','.']
      · apply Fails.bind
        unfold decompressGzNative
        apply (openArchive_ends fetched).bind_fails
        rintro _ _ ⟨rfl,rfl⟩
        apply (Ends.ofExcept (Q := fun found after => found = data ∧ after = (s₁,host₁)) read ⟨rfl,rfl⟩).bind_fails
        rintro _ _ ⟨rfl,rfl⟩
        rw [if_pos dots]
        exact Fails.fail _ _
      · rw [not_or] at dots
        apply (decompressGz_ends fit.willing read dots whole₁ fetched ready).bind_fails
        rintro _ ⟨s₂,host₂⟩ ⟨rfl,whole₂,seen⟩
        dsimp only at same₁ whole₂ seen
        apply (Ends.get (Q := fun at_ after => at_ = (s₂,host₂) ∧ after = (s₂,host₂)) ⟨rfl,rfl⟩).bind_fails
        intro at_ after equal
        obtain ⟨rfl,rfl⟩ := equal
        rw [← same₁] at empty
        have segment := Text.fileStem_segment stemmed
        exact (storeExtracted_refused storage whole₂ seen segment (unnamed stem stemmed) toText empty).onFirst

end extracting
end StorageHub.Compression.Native
