import StorageHub.Compression.Tasks

/-! Copies between a storage that is a tree and the files of the host. What is
copied comes to be seen at its new place, path by path. -/
namespace StorageHub.Compression.Native
open Library LinkTree WriteCache Scoped Mounts Effect

/-- What lies at each path. -/
abbrev View := HostPath → Option (Shape Bytes Text)

/-- A name that is one segment of a path and no dots. -/
structure Plain (name : Text) : Prop where
  given : name ≠ []
  slashless : '/' ∉ name
  straight : '\\' ∉ name
  noDot : name ≠ ['.']
  noDots : name ≠ ['.','.']

/-- A storage of files and directories in which every operation succeeds while the
environment is calm. `look` is what a state has, `spells` which place a path leads
to, and `valid` are the names that the storage takes. -/
structure TreeStorage {σ ω : Type} (engine : UserEngine σ ω) (calm : Choice ω → Prop) (look : σ → View)
    (spells : Text → HostPath → Prop) (valid : Text → Prop) : Prop where
  above {s path other} : look s path ≠ none → other <+: path → other ≠ path → look s other = some .dir
  unlinked {s path text} : look s path ≠ some (.link text)
  plain {name} : valid name → Plain name
  named {s path name} : look s (path ++ [name]) ≠ none → valid name
  child {text path name} : spells text path → valid name →
    spells (Text.trimEnd '/' text ++ '/'::name) (path ++ [name])
  stat_dir {s text path} : spells text path → look s path = some .dir →
    Ends calm (engine.stat text) s fun info s' => look s' = look s ∧ info.isDir = true
  stat_none {s text path} : spells text path → look s path = none → Fails calm (engine.stat text) s
  stat_file {s text path data} : spells text path → look s path = some (.file data) →
    Ends calm (engine.stat text) s fun info s' => look s' = look s ∧ info.isDir = false ∧ info.size = data.length
  list {s text path} : spells text path → look s path = some .dir →
    Ends calm (engine.list text) s fun infos s' => look s' = look s ∧
      ∀ name, (∃ info ∈ infos, info.name = name) ↔ look s (path ++ [name]) ≠ none
  listRecursive {s text path tree} : spells text path → look s path = some .dir → Node.Distinct tree →
    (∀ rest, look s (path ++ rest) = tree.look rest) →
    Ends calm (engine.listRecursive text) s fun infos s' => look s' = look s ∧
      infos.length = tree.members.length ∧ (infos.map fun info => info.size).sum = fileBytes tree
  readStream {s text path data} : spells text path → look s path = some (.file data) →
    Ends calm (engine.readStream text) s fun read s' => look s' = look s ∧ read.1 = data
  exists_ {s text path} : spells text path →
    Ends calm (engine.exists_ text) s fun found s' => look s' = look s ∧ (found = true ↔ look s path ≠ none)
  createDirAll {s text path} : spells text path → look s path = none → look s path.dropLast = some .dir →
    Ends calm (engine.createDirAll text) s fun _ s' => look s' = Function.update (look s) path (some .dir)
  writeStream {s text path} (data : Bytes) : spells text path → look s path ≠ some .dir →
    look s path.dropLast = some .dir →
    Ends calm (engine.writeStream text data) s fun _ s' => look s' = Function.update (look s) path (some (.file data))
  delete {s text path} : spells text path → path ≠ [] → look s path ≠ none →
    Ends calm (engine.delete text) s fun _ s' => ∀ other, look s' other = if path <+: other then none else look s other
  checkQuota {s} (bytes : Int) : Ends calm (engine.checkQuota bytes) s fun _ s' => look s' = look s
  refused {s text path name} : spells text path → name ≠ [] → '/' ∉ name → ¬valid name →
    Fails calm (engine.exists_ (Text.trimEnd '/' text ++ '/'::name)) s ∧
      ∀ data, Fails calm (engine.writeStream (Text.trimEnd '/' text ++ '/'::name) data) s

section
variable {σ ω : Type} {calm : Choice ω → Prop}

/-- What a loop keeps while its entries are worked off. -/
theorem ends_forEach {α : Type} {body : α → Effect σ ω VfsError Unit} {I : List α → σ → Prop} {entries : List α}
    {s : σ} (step : ∀ entry rest s, entry ∈ entries → I (entry::rest) s →
      Ends calm (body entry) s fun _ s' => I rest s') (start : I entries s) :
    Ends calm (forEach body entries) s fun _ s' => I [] s' := by
  induction entries generalizing s with
  | nil => exact Ends.pure start
  | cons entry rest ih =>
    apply (step entry rest s List.mem_cons_self start).bind
    intro _ s' holds
    exact ih (fun entry' rest' s member => step entry' rest' s (List.mem_cons_of_mem _ member)) holds

variable {codecs : Codecs} {host host' : HostNode} {s : σ} {path : HostPath}

theorem changeHost_ends (willing : ∀ host path, codecs.refuses host path = false)
    {change : HostNode → Option HostNode} (made : change host = some host') :
    Ends calm (changeHost codecs path change : Effect (Local σ) ω VfsError Unit) (s,host)
      fun _ after => after = (s,host') := by
  unfold changeHost
  apply (Ends.get (Q := fun at_ after => at_ = (s,host) ∧ after = (s,host)) ⟨rfl,rfl⟩).bind
  intro at_ after same
  obtain ⟨rfl,rfl⟩ := same
  rw [willing,if_neg Bool.false_ne_true]
  dsimp only
  rw [made]
  exact Ends.modify rfl

/-- How far the host has come: nothing is listed twice, and new is what the tree has. -/
def Grows (t : HostNode) (base : HostPath) (host host' : HostNode) : Prop :=
  host'.Distinct ∧ Toward t base host.look host'.look

variable {t sub : HostNode} {base rest : HostPath}

theorem Grows.trans {host'' : HostNode} (first : Grows t base host host') (second : Grows t base host' host'') :
    Grows t base host host'' := ⟨second.1,first.2.trans second.2⟩

theorem makeDir_ends (willing : ∀ host path, codecs.refuses host path = false) (whole : host.Distinct)
    (agreed : Agrees t base host.look) (rooted : Rooted base host.look) (there : t.look rest = some .dir) :
    Ends calm (makeDir codecs (base ++ rest) : Effect (Local σ) ω VfsError Unit) (s,host)
      fun _ after => after.1 = s ∧ Grows t base host after.2 ∧ after.2.look (base ++ rest) = some .dir := by
  obtain ⟨host',made,grown,here⟩ := createDirAll_toward agreed rooted there
  apply (changeHost_ends willing made).weaken
  rintro _ _ rfl
  exact ⟨rfl,⟨Node.distinct_createDirAll whole made,grown⟩,here⟩

theorem makeFile_ends (willing : ∀ host path, codecs.refuses host path = false) (whole : host.Distinct)
    (agreed : Agrees t base host.look) (parent : host.look (base ++ rest).dropLast = some .dir) {data : Bytes}
    (there : t.look rest = some (.file data)) :
    Ends calm (makeFile codecs (base ++ rest) data : Effect (Local σ) ω VfsError Unit) (s,host)
      fun _ after => after.1 = s ∧ Grows t base host after.2 ∧ after.2.look (base ++ rest) = some (.file data) := by
  obtain ⟨host',made,grown,here⟩ := createFile_toward agreed parent there
  apply (changeHost_ends willing made).weaken
  rintro _ _ rfl
  exact ⟨rfl,⟨Node.distinct_createFile whole made,grown⟩,here⟩

end

section staging
variable {σ ω : Type} {engine : UserEngine σ ω} {calm : Choice ω → Prop} {look : σ → View}
  {spells : Text → HostPath → Prop} {valid : Text → Prop} {codecs : Codecs} {host : HostNode} {s : σ}
  {t sub : HostNode} {src base rest : HostPath} {text : Text} {fuel : Nat}

/-- What a tree of the storage has is a file or a directory. -/
theorem TreeStorage.no_link (storage : TreeStorage engine calm look spells valid)
    (seen : ∀ rest, look s (src ++ rest) = t.look rest) {text : Text} : t.find rest ≠ some (.link text) := by
  intro found
  apply @TreeStorage.unlinked σ ω engine calm look spells valid storage s (src ++ rest) text
  rw [seen,Node.look,found]
  rfl

/-- A source is copied to the host with all that it has. -/
theorem copyToLocalTemp_stages (storage : TreeStorage engine calm look spells valid)
    (willing : ∀ host path, codecs.refuses host path = false) (seen : ∀ rest, look s (src ++ rest) = t.look rest)
    (spelled : spells text (src ++ rest)) (found : t.find rest = some sub) (enough : directories sub < fuel)
    (whole : host.Distinct) (agreed : Agrees t base host.look) (rooted : Rooted base host.look)
    (parent : host.look (base ++ rest).dropLast = some .dir) :
    Ends calm (copyToLocalTemp codecs engine.toVfsStorage fuel text (base ++ rest)) (s,host)
      fun _ after => look after.1 = look s ∧ Grows t base host after.2 ∧ Shows t base rest after.2.look := by
  have here : look s (src ++ rest) = some sub.shape := by rw [seen,Node.look,found]; rfl
  induction sub generalizing fuel text rest host s with
  | link text => exact absurd found (storage.no_link seen)
  | file data =>
    obtain ⟨less,rfl⟩ : ∃ less, fuel = less + 1 := ⟨fuel - 1,by omega⟩
    rw [copyToLocalTemp]
    apply ((storage.stat_file spelled here).onFirst host).bind
    rintro info ⟨s₁,host₁⟩ ⟨⟨same,plain,-⟩,rfl⟩
    rw [plain,if_neg Bool.false_ne_true]
    rw [← same] at here
    apply ((storage.readStream spelled here).onFirst host₁).bind
    rintro read ⟨s₂,host₂⟩ ⟨⟨same',content⟩,rfl⟩
    dsimp only at same same' ⊢
    rw [content]
    have there : t.look rest = some (.file data) := by rw [Node.look,found]; rfl
    apply (makeFile_ends willing whole agreed parent there).weaken
    rintro _ ⟨s₃,host₃⟩ ⟨rfl,grown,made⟩
    exact ⟨same'.trans same,grown,shows_file found made⟩
  | dir names child ih =>
    obtain ⟨less,rfl⟩ : ∃ less, fuel = less + 1 := ⟨fuel - 1,by omega⟩
    rw [copyToLocalTemp]
    apply ((storage.stat_dir spelled here).onFirst host).bind
    rintro info ⟨s₁,host₁⟩ ⟨⟨same,directory⟩,rfl⟩
    rw [if_pos directory]
    dsimp only at same ⊢
    have there : t.look rest = some .dir := by rw [Node.look,found]; rfl
    apply (makeDir_ends willing whole agreed rooted there).bind
    rintro _ ⟨s₂,host₂⟩ ⟨rfl,grown,made⟩
    rw [← same] at here
    apply ((storage.list spelled here).onFirst host₂).bind
    rintro infos ⟨s₃,host₃⟩ ⟨⟨same',listing⟩,rfl⟩
    dsimp only at same' grown made ⊢
    have stays := same'.trans same
    have listed (name : Text) : (∃ info ∈ infos, info.name = name) ↔ name ∈ names := by
      rw [listing,same,List.append_assoc,seen,Node.look_of_find found]
      by_cases present : name ∈ names
      · simp [Node.look_listed present,present]
      · simp [Node.look_unlisted present,present]
    -- the entries that are left are not yet shown, the others are
    let I (left : List FileInfo) (after : Local σ) : Prop :=
      look after.1 = look s ∧ Grows t base host₁ after.2 ∧ after.2.look (base ++ rest) = some .dir ∧
        ∀ name ∈ names, (∃ info ∈ left, info.name = name) ∨ Shows t base (rest ++ [name]) after.2.look
    have start : I infos (s₃,host₃) :=
      ⟨stays,grown,made,fun name member => .inl ((listed name).mpr member)⟩
    have loop := @ends_forEach (Local σ) ω calm FileInfo
      (fun entry => copyToLocalTemp codecs engine.toVfsStorage less (Text.trimEnd '/' text ++ '/'::entry.name)
        (base ++ rest ++ [entry.name])) I infos (s₃,host₃) ?_ start
    · apply loop.weaken
      rintro _ ⟨s₄,host₄⟩ ⟨kept,grown',made',shown⟩
      refine ⟨kept,grown',shows_dir found made' ?_⟩
      intro name member
      rcases shown name member with ⟨info,none_,-⟩ | there'
      · cases none_
      · exact there'
    · rintro entry later ⟨s₄,host₄⟩ member ⟨kept,grown',made',shown⟩
      have present : entry.name ∈ names := (listed entry.name).mp ⟨entry,member,rfl⟩
      have below : t.find (rest ++ [entry.name]) = some (child entry.name) := by
        rw [Node.find_append,found]
        simp [Node.find,present]
      have seen' : ∀ rest, look s₄ (src ++ rest) = t.look rest := fun rest => by rw [kept,seen]
      have further : look s₄ (src ++ (rest ++ [entry.name])) = some (child entry.name).shape := by
        rw [seen',Node.look,below]
        rfl
      have valid' : valid entry.name := by
        apply storage.named
        rw [List.append_assoc,further]
        exact Option.some_ne_none _
      have spelled' := storage.child spelled valid'
      rw [List.append_assoc] at spelled'
      have parent' : host₄.look (base ++ (rest ++ [entry.name])).dropLast = some .dir := by
        rw [← List.append_assoc,List.dropLast_concat]
        exact made'
      have fewer : directories (child entry.name) < less := by
        have part := List.single_le_sum (fun _ _ => Nat.zero_le _) _
          (List.mem_map_of_mem (f := fun name => directories (child name)) present)
        rw [directories] at enough
        omega
      have step := ih entry.name seen' spelled' below fewer grown'.1 (grown'.2.agrees agreed)
        (grown'.2.rooted rooted) parent' further
      rw [List.append_assoc]
      apply step.weaken
      rintro _ ⟨s₅,host₅⟩ ⟨kept',grown'',shown'⟩
      refine ⟨kept'.trans kept,grown'.trans grown'',?_,?_⟩
      · have same := grown''.2.stays (made'.trans there.symm)
        exact same.trans there
      · intro name listed'
        rcases shown name listed' with ⟨info,first,rfl⟩ | already
        · rcases List.mem_cons.mp first with rfl | other
          · exact .inr shown'
          · exact .inl ⟨info,other,rfl⟩
        · exact .inr (grown''.2.shows already)

/-- What lies on the host is uploaded with all that it has. What is there already
stays and is the same. -/
theorem copyFromLocalTemp_uploads (storage : TreeStorage engine calm look spells valid) {os : Os}
    {overwrite : Bool} {output dst : HostPath} (placed : host.find output = some t)
    (unlinked : ∀ path text, t.find path ≠ some (.link text))
    (named : ∀ path name, t.look (path ++ [name]) ≠ none → valid name)
    (spelled : spells text (dst ++ rest)) (found : t.find rest = some sub) (enough : directories sub < fuel)
    (agreed : Agrees t dst (look s)) (parent : look s (dst ++ rest).dropLast = some .dir) :
    Ends calm (copyFromLocalTemp os host engine.toVfsStorage overwrite fuel (output ++ rest) text) s
      fun _ s' => Toward t dst (look s) (look s') ∧ Shows t dst rest (look s') := by
  induction sub generalizing fuel text rest s with
  | link target => exact absurd found (unlinked rest target)
  | file data =>
    obtain ⟨less,rfl⟩ : ∃ less, fuel = less + 1 := ⟨fuel - 1,by omega⟩
    have there : t.look rest = some (.file data) := by rw [Node.look,found]; rfl
    have resolved := @resolved_plain os host t (.file data) output rest placed found (.inr rfl)
    have reached := (find_placed placed rest).trans found
    have plain : os.isDir host (output ++ rest) = false := by
      rw [isDir_found,resolved,Option.bind_some,reached]
      rfl
    have content : os.openFile host (output ++ rest) = some data := by
      rw [Os.openFile,resolved,Option.bind_some,reached]
    rw [copyFromLocalTemp,plain,if_neg Bool.false_ne_true,content]
    have kept : Ends calm (keepsPresent engine.toVfsStorage overwrite text) s fun present s' =>
        look s' = look s ∧ (present = true → look s (dst ++ rest) ≠ none) := by
      unfold keepsPresent
      cases overwrite with
      | true => exact Ends.pure ⟨rfl,fun impossible => by cases impossible⟩
      | false => exact (storage.exists_ spelled).weaken fun _ _ holds => ⟨holds.1,holds.2.mp⟩
    apply kept.bind
    rintro present s₁ ⟨same,known⟩
    cases present with
    | true =>
      have here := (agreed rest).resolve_left (known rfl)
      rw [if_pos rfl,← same] at *
      refine Ends.pure ⟨Toward.refl,shows_file found ?_⟩
      rw [here,there]
    | false =>
      rw [if_neg Bool.false_ne_true]
      have free : look s₁ (dst ++ rest) ≠ some .dir := by
        rw [same]
        rcases agreed rest with nothing | tree
        · rw [nothing]
          exact fun impossible => by cases impossible
        · rw [tree,there]
          exact fun impossible => by cases impossible
      rw [← same] at parent ⊢
      apply (storage.writeStream data spelled free parent).bind
      rintro _ s₂ written
      apply Ends.pure
      refine ⟨toward_update there written,shows_file found ?_⟩
      rw [written,Function.update_self]
  | dir names child ih =>
    obtain ⟨less,rfl⟩ : ∃ less, fuel = less + 1 := ⟨fuel - 1,by omega⟩
    have there : t.look rest = some .dir := by rw [Node.look,found]; rfl
    have resolved := @resolved_plain os host t (.dir names child) output rest placed found (.inl rfl)
    have reached := (find_placed placed rest).trans found
    have directory : os.isDir host (output ++ rest) = true := by
      rw [isDir_found,resolved,Option.bind_some,reached]
      rfl
    rw [copyFromLocalTemp,if_pos directory,readDir_plain placed found]
    have ensured : Ends calm (ensureDir engine.toVfsStorage text) s fun _ s' =>
        Toward t dst (look s) (look s') ∧ look s' (dst ++ rest) = some .dir := by
      unfold ensureDir
      apply (storage.exists_ spelled).bind
      rintro present s₁ ⟨same,known⟩
      cases present with
      | true =>
        rw [if_pos rfl]
        have here := (agreed rest).resolve_left (known.mp rfl)
        rw [← same] at here ⊢
        exact Ends.pure ⟨Toward.refl,here.trans there⟩
      | false =>
        rw [if_neg Bool.false_ne_true]
        have nothing : look s₁ (dst ++ rest) = none := by
          by_contra something
          rw [same] at something
          cases known.mpr something
        rw [← same] at parent ⊢
        apply (storage.createDirAll spelled nothing parent).bind
        rintro _ s₂ made
        apply Ends.pure
        refine ⟨toward_update there made,?_⟩
        rw [made,Function.update_self]
    apply ensured.bind
    rintro _ s₁ ⟨grown,made⟩
    dsimp only
    have perm := os.order_perm (output ++ rest) names
    let I (left : List Text) (s' : σ) : Prop :=
      Toward t dst (look s) (look s') ∧ look s' (dst ++ rest) = some .dir ∧
        ∀ name ∈ names, name ∈ left ∨ Shows t dst (rest ++ [name]) (look s')
    have start : I (os.order (output ++ rest) names) s₁ :=
      ⟨grown,made,fun name member => .inl (perm.mem_iff.mpr member)⟩
    have loop := @ends_forEach σ ω calm Text
      (fun name => copyFromLocalTemp os host engine.toVfsStorage overwrite less (output ++ rest ++ [name])
        (Text.trimEnd '/' text ++ '/'::name)) I _ s₁ ?_ start
    · apply loop.weaken
      rintro _ s₂ ⟨grown',made',shown⟩
      refine ⟨grown',shows_dir found made' ?_⟩
      intro name member
      exact (shown name member).resolve_left List.not_mem_nil
    · rintro name later s₂ member ⟨grown',made',shown⟩
      have present : name ∈ names := perm.mem_iff.mp member
      have below : t.find (rest ++ [name]) = some (child name) := by
        rw [Node.find_append,found]
        simp [Node.find,present]
      have valid' : valid name := by
        apply named rest
        rw [Node.look,below]
        exact Option.some_ne_none _
      have spelled' := storage.child spelled valid'
      rw [List.append_assoc] at spelled'
      have parent' : look s₂ (dst ++ (rest ++ [name])).dropLast = some .dir := by
        rw [← List.append_assoc,List.dropLast_concat]
        exact made'
      have fewer : directories (child name) < less := by
        have part := List.single_le_sum (fun _ _ => Nat.zero_le _) _
          (List.mem_map_of_mem (f := fun name => directories (child name)) present)
        rw [directories] at enough
        omega
      have step := ih name spelled' below fewer (grown'.agrees agreed) parent'
      rw [List.append_assoc]
      apply step.weaken
      rintro _ s₃ ⟨grown'',shown'⟩
      refine ⟨grown'.trans grown'',?_,?_⟩
      · exact (grown''.stays (made'.trans there.symm)).trans there
      · intro other listed
        rcases shown other listed with first | already
        · rcases List.mem_cons.mp first with rfl | further
          · exact .inr shown'
          · exact .inl further
        · exact .inr (grown''.shows already)

end staging
end StorageHub.Compression.Native
