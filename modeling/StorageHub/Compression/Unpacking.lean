import StorageHub.Compression.Packing

/-! What the native formats bring back, where the crates return what they were given. -/
namespace StorageHub.Compression.Native
open Library LinkTree WriteCache Scoped Mounts Effect

/-- What is relied on of the crates for the archives of one tree: they return what
they were given, and no archive is over the limit. Of a file no directory can be
appended. -/
structure CodecsFit (codecs : Codecs) (opts : CompressionOptions) (t : HostNode) (limit : Nat) : Prop where
  willing : ∀ host path, codecs.refuses host path = false
  zip {entries} : List.Perm entries (t.members.map entryOf) →
    ∃ archive, codecs.zipWrite opts.password entries = .ok archive ∧ archive.length ≤ limit ∧
      codecs.zipRead opts.password archive = .ok entries
  enclosed {path : HostPath} : path ≠ [] → (∀ name ∈ path, Plain name) →
    codecs.enclosedName (['/'].intercalate path) = some path ∧
      codecs.enclosedName (['/'].intercalate path ++ ['/']) = some path
  tar {names child} : (Node.dir names child : HostNode).Distinct →
    (∀ path, (Node.dir names child).look path = t.look path) →
    ∃ archive names' child', codecs.tarDirAll opts.compressionLevel (.dir names child) = .ok archive ∧
      archive.length ≤ limit ∧ codecs.unpack archive = .ok (names',child') ∧
      (Node.dir names' child').Distinct ∧ ∀ path, (Node.dir names' child').look path = t.look path
  tarFile data : ∃ error, codecs.tarDirAll opts.compressionLevel (.file data) = .error error
  gzip {data} : t = .file data → (codecs.gzip opts.compressionLevel data).length ≤ limit ∧
    codecs.gunzip (codecs.gzip opts.compressionLevel data) = .ok data

/-! ### Names of entries -/

section names
variable {path : HostPath} {data : Bytes}

theorem splitOn_joined (given : path ≠ []) (plain : ∀ name ∈ path, Plain name) :
    (['/'].intercalate path).splitOn '/' = path :=
  List.splitOn_intercalate '/' (fun name member => (plain name member).slashless) given

theorem joined_open (given : path ≠ []) (plain : ∀ name ∈ path, Plain name) :
    Text.endsWith ['/'] (['/'].intercalate path) = false := by
  rw [Bool.eq_false_iff]
  intro ended
  obtain ⟨init,split⟩ := List.isSuffixOf_iff_suffix.mp ended
  have parts := splitOn_joined given plain
  rw [← split,List.splitOn_append_cons_self] at parts
  have last : [] ∈ path := by
    rw [← parts]
    exact List.mem_append_right _ List.mem_cons_self
  exact (plain [] last).given rfl

theorem mem_joined {c : Char} (member : c ∈ ['/'].intercalate path) : c = '/' ∨ ∃ name ∈ path, c ∈ name := by
  induction path with
  | nil => cases member
  | cons name rest ih =>
    cases rest with
    | nil =>
      rw [List.intercalate_singleton] at member
      exact .inr ⟨name,List.mem_cons_self,member⟩
    | cons next later =>
      rw [List.intercalate_cons_cons,List.mem_append,List.mem_append,List.mem_singleton] at member
      rcases member with (first | slash) | others
      · exact .inr ⟨name,List.mem_cons_self,first⟩
      · exact .inl slash
      · rcases ih others with slash | ⟨other,listed,inside⟩
        · exact .inl slash
        · exact .inr ⟨other,List.mem_cons_of_mem _ listed,inside⟩

theorem joined_straight (plain : ∀ name ∈ path, Plain name) :
    withSlashes (['/'].intercalate path) = ['/'].intercalate path := by
  have same : ∀ c ∈ ['/'].intercalate path, (if c = '\\' then '/' else c) = c := by
    intro c member
    rw [if_neg]
    rintro rfl
    rcases mem_joined member with slash | ⟨name,listed,inside⟩
    · exact absurd slash (by decide)
    · exact (plain name listed).straight inside
  rw [withSlashes,List.map_congr_left same,List.map_id']

theorem entryOf_file (given : path ≠ []) (plain : ∀ name ∈ path, Plain name) :
    (entryOf (path,.file data)).name = ['/'].intercalate path ∧ (entryOf (path,.file data)).isDir = false := by
  rw [ZipEntry.isDir,entryOf,memberName,joined_straight plain]
  exact ⟨rfl,joined_open given plain⟩

theorem entryOf_dir (given : path ≠ []) (plain : ∀ name ∈ path, Plain name) :
    (entryOf (path,.dir)).name = ['/'].intercalate path ++ ['/'] ∧ (entryOf (path,.dir)).isDir = true := by
  rw [ZipEntry.isDir,entryOf,memberName,joined_straight plain,ZipEntry.directory,joined_open given plain]
  refine ⟨rfl,?_⟩
  exact List.isSuffixOf_iff_suffix.mpr (List.suffix_append _ _)

end names

/-! ### Unpacking -/

section unpacking
variable {σ ω : Type} {calm : Choice ω → Prop} {codecs : Codecs} {opts : CompressionOptions} {host t : HostNode}
  {s : σ} {base path : HostPath} {shape : Shape Bytes Text} {limit : Nat}

/-- An entry of the archive is put where the member is in the tree. -/
theorem extractEntry_ends (fit : CodecsFit codecs opts t limit) (seen : t.look path = some shape) (given : path ≠ [])
    (plain : ∀ name ∈ path, Plain name) (unlinked : ∀ text, shape ≠ .link text) (whole : host.Distinct)
    (agreed : Agrees t base host.look) (rooted : Rooted base host.look) :
    Ends calm (extractEntry codecs base (entryOf (path,shape)) : Effect (Local σ) ω VfsError Unit) (s,host)
      fun _ after => after.1 = s ∧ Grows t base host after.2 ∧ after.2.look (base ++ path) = some shape := by
  obtain ⟨bare,slashed⟩ := fit.enclosed given plain
  cases shape with
  | link text => exact absurd rfl (unlinked text)
  | dir =>
    obtain ⟨name,dir⟩ := entryOf_dir given plain
    rw [extractEntry,name,slashed]
    dsimp only
    rw [if_pos dir]
    exact makeDir_ends fit.willing whole agreed rooted seen
  | file data =>
    obtain ⟨name,file⟩ := @entryOf_file path data given plain
    rw [extractEntry,name,bare]
    dsimp only
    rw [file,if_neg Bool.false_ne_true]
    have above : t.look path.dropLast = some .dir := by
      apply Node.look_above _ (List.dropLast_prefix path)
      · intro same
        have lengths := congrArg List.length same
        have some_ := List.length_pos_iff.mpr given
        rw [List.length_dropLast] at lengths
        omega
      · rw [seen]
        exact Option.some_ne_none _
    rw [List.dropLast_append_of_ne_nil given]
    have finish {host₁ : HostNode} (grown : Grows t base host host₁)
        (made : host₁.look (base ++ path.dropLast) = some .dir) :
        Ends calm (makeFile codecs (base ++ path) data : Effect (Local σ) ω VfsError Unit) (s,host₁)
          fun _ after => after.1 = s ∧ Grows t base host after.2 ∧ after.2.look (base ++ path) = some (.file data) := by
      rw [← List.dropLast_append_of_ne_nil given] at made
      apply (makeFile_ends fit.willing grown.1 (grown.2.agrees agreed) made seen).weaken
      rintro _ after ⟨same,grown',written⟩
      exact ⟨same,grown.trans grown',written⟩
    apply (Ends.get (Q := fun at_ after => at_ = (s,host) ∧ after = (s,host)) ⟨rfl,rfl⟩).bind
    intro at_ after same
    obtain ⟨rfl,rfl⟩ := same
    split
    next there =>
      have here := (agreed path.dropLast).resolve_left (Option.isSome_iff_ne_none.mp there)
      exact finish ⟨whole,Toward.refl⟩ (here.trans above)
    next =>
      apply (makeDir_ends fit.willing whole agreed rooted above).bind
      rintro _ ⟨s₁,host₁⟩ ⟨rfl,grown,made⟩
      exact finish grown made

/-- The name of an entry leads back to its member. -/
theorem enclosed_entry (fit : CodecsFit codecs opts t limit) (given : path ≠ []) (plain : ∀ name ∈ path, Plain name)
    (unlinked : ∀ text, shape ≠ .link text) : codecs.enclosedName (entryOf (path,shape)).name = some path := by
  obtain ⟨bare,slashed⟩ := fit.enclosed given plain
  cases shape with
  | link text => exact absurd rfl (unlinked text)
  | dir => rw [(entryOf_dir given plain).1,slashed]
  | file data => rw [(entryOf_file given plain).1,bare]

/-- All entries of an archive of the tree, in whatever order, bring the tree back. -/
theorem extractEntries_end (fit : CodecsFit codecs opts t limit) (dir : t.look [] = some .dir)
    (plain : ∀ path name, t.look (path ++ [name]) ≠ none → Plain name)
    (unlinked : ∀ path text, t.look path ≠ some (.link text)) {entries : List ZipEntry}
    (perm : entries.Perm (t.members.map entryOf)) (whole : host.Distinct) (agreed : Agrees t base host.look)
    (rooted : Rooted base host.look) (here : host.look base = some .dir) :
    Ends calm (forEach (extractEntry codecs base) entries : Effect (Local σ) ω VfsError Unit) (s,host)
      fun _ after => after.1 = s ∧ Grows t base host after.2 ∧ ∀ rest, after.2.look (base ++ rest) = t.look rest := by
  have names {path : HostPath} (there : t.look path ≠ none) : ∀ name ∈ path, Plain name := by
    intro name member
    obtain ⟨before,after,split⟩ := List.append_of_mem member
    apply plain before
    by_cases same : before ++ [name] = path
    · rw [same]
      exact there
    · rw [Node.look_above there ⟨after,by rw [split,List.append_assoc]; rfl⟩ same]
      exact Option.some_ne_none _
  let I (left : List ZipEntry) (after : Local σ) : Prop :=
    after.1 = s ∧ Grows t base host after.2 ∧ after.2.look base = some .dir ∧
      ∀ member ∈ t.members, entryOf member ∈ left ∨ after.2.look (base ++ member.1) = some member.2
  have start : I entries (s,host) := by
    refine ⟨rfl,⟨whole,Toward.refl⟩,here,?_⟩
    intro member listed
    exact .inl (perm.mem_iff.mpr (List.mem_map_of_mem listed))
  have loop := @ends_forEach (Local σ) ω calm ZipEntry (extractEntry codecs base) I entries (s,host) ?_ start
  · apply loop.weaken
    rintro _ ⟨s₁,host₁⟩ ⟨rfl,grown,made,shown⟩
    refine ⟨rfl,grown,look_of_shows (grown.2.agrees agreed) ?_⟩
    intro rest there
    rw [List.nil_append] at there ⊢
    cases rest with
    | nil =>
      rw [List.append_nil,made,dir]
    | cons name later =>
      obtain ⟨shape,seen⟩ := Option.ne_none_iff_exists'.mp there
      have listed : (name::later,shape) ∈ t.members := Node.mem_members.mpr ⟨List.cons_ne_nil _ _,seen⟩
      rw [(shown _ listed).resolve_left List.not_mem_nil,seen]
  · rintro entry later ⟨s₁,host₁⟩ member ⟨rfl,grown,made,shown⟩
    obtain ⟨⟨path,shape⟩,listed,rfl⟩ := List.mem_map.mp (perm.mem_iff.mp member)
    obtain ⟨given,seen⟩ := Node.mem_members.mp listed
    dsimp only at given seen grown made
    have there : t.look path ≠ none := by rw [seen]; exact Option.some_ne_none _
    have plain' := names there
    have file : ∀ text, shape ≠ .link text := fun text same => unlinked path text (by rw [seen,same])
    apply (extractEntry_ends fit seen given plain' file grown.1 (grown.2.agrees agreed)
      (grown.2.rooted rooted)).weaken
    rintro _ ⟨s₂,host₂⟩ ⟨rfl,grown',placed⟩
    refine ⟨rfl,grown.trans grown',?_,?_⟩
    · have same : host₁.look (base ++ []) = t.look [] := by rw [List.append_nil,made,dir]
      have kept := grown'.2.stays same
      rw [List.append_nil,dir] at kept
      exact kept
    · intro other inside
      rcases shown other inside with first | already
      · rcases List.mem_cons.mp first with same | further
        · right
          obtain ⟨given',seen'⟩ := Node.mem_members.mp inside
          have there' : t.look other.1 ≠ none := by rw [seen']; exact Option.some_ne_none _
          have file' : ∀ text, other.2 ≠ .link text := fun text same => unlinked other.1 text (by rw [seen',same])
          have back := enclosed_entry fit given' (names there') file'
          have back' := enclosed_entry fit given plain' file
          rw [← same] at back'
          obtain rfl := Option.some.inj (back.symm.trans back')
          rw [placed,← seen,seen']
        · exact .inl further
      · right
        have tree := (Node.mem_members.mp inside).2
        have kept := grown'.2.stays (already.trans tree.symm)
        exact kept.trans tree

end unpacking
end StorageHub.Compression.Native
