import StorageHub.Compression.Sizes

/-! What an extraction depends on. The upload follows links, so it stays with the
archive only when no path through a link leaves the extraction directory. -/
namespace StorageHub.Compression
open Library LinkTree WriteCache Scoped Mounts Effect

/-! ### Paths of the upload -/

section paths
variable (output : HostPath) (tree : HostNode) (limit : Nat)

/-- The paths that the upload comes to within the tree. -/
inductive Reached : HostPath → Prop
  | output : Reached output
  | child {path place names child name} (above : Reached path)
      (leads : surveyed output tree limit path = .ok (some place)) (inside : output <+: place)
      (found : tree.find (place.drop output.length) = some (.dir names child)) (listed : name ∈ names) :
      Reached (path ++ [name])

/-- No path of the upload leads out of the extraction directory. -/
def LinksStay : Prop := ∀ limit path, Reached output tree limit path →
  ∃ place, surveyed output tree limit path = .ok place ∧ ∀ inner ∈ place, output <+: inner

end paths

section same
variable {os : Os} {output path : HostPath} {tree host host' : HostNode} {σ ω : Type}

theorem resolved_stays (stay : LinksStay output tree) (reached : Reached output tree os.maxLinks path)
    (placed : host.find output = some tree) :
    (os.resolved host path).bind host.find = (os.resolved host path).bind fun place =>
      tree.find (place.drop output.length) := by
  obtain ⟨place,leads,inside⟩ := stay _ _ reached
  rw [resolved_of_surveyed placed leads]
  cases place with
  | none => rfl
  | some inner => exact find_inside placed (inside inner rfl)

theorem found_same (stay : LinksStay output tree) (reached : Reached output tree os.maxLinks path)
    (placed : host.find output = some tree) (placed' : host'.find output = some tree) :
    (os.resolved host path).bind host.find = (os.resolved host' path).bind host'.find := by
  obtain ⟨place,leads,-⟩ := stay _ _ reached
  rw [resolved_stays stay reached placed,resolved_stays stay reached placed',
    resolved_of_surveyed placed leads,resolved_of_surveyed placed' leads]

theorem forEach_congr {α : Type} {body body' : α → Effect σ ω VfsError Unit} {entries : List α}
    (same : ∀ entry ∈ entries, body entry = body' entry) : forEach body entries = forEach body' entries := by
  induction entries with
  | nil => rfl
  | cons entry rest ih =>
    have first := same entry List.mem_cons_self
    have later := ih fun other member => same other (List.mem_cons_of_mem _ member)
    rw [forEach,forEach,first,later]

theorem forEach_map {α β : Type} (body : β → Effect σ ω VfsError Unit) (f : α → β) (entries : List α) :
    forEach body (entries.map f) = forEach (fun entry => body (f entry)) entries := by
  induction entries with
  | nil => rfl
  | cons entry rest ih => rw [List.map_cons,forEach,forEach,ih]

theorem reached_child (stay : LinksStay output tree) (reached : Reached output tree os.maxLinks path)
    (placed : host.find output = some tree) {names : List Text} (listed : os.readDir host path = some names)
    {name : Text} (present : name ∈ names) : Reached output tree os.maxLinks (path ++ [name]) := by
  obtain ⟨place,leads,inside⟩ := stay _ _ reached
  have resolved := resolved_of_surveyed placed leads
  rw [Os.readDir,resolved] at listed
  cases place with
  | none => cases listed
  | some inner =>
    have here := inside inner rfl
    rw [Option.bind_some,find_inside placed here] at listed
    split at listed
    next names' child found =>
      obtain rfl := Option.some.inj listed
      exact .child reached leads here found ((os.order_perm path names').mem_iff.mp present)
    next => cases listed

/-- The upload is one program for all hosts with the tree in its place. -/
theorem copyFromLocalTemp_same (stay : LinksStay output tree) (placed : host.find output = some tree)
    (placed' : host'.find output = some tree) (engine : VfsStorage σ ω) (overwrite : Bool) (fuel : Nat)
    (reached : Reached output tree os.maxLinks path) (dst : Text) :
    copyFromLocalTemp os host engine overwrite fuel path dst =
      copyFromLocalTemp os host' engine overwrite fuel path dst := by
  induction fuel generalizing path dst with
  | zero => rfl
  | succ fuel ih =>
    have same := found_same stay reached placed placed'
    have listing : os.readDir host path = os.readDir host' path := by rw [Os.readDir,Os.readDir,same]
    have content : os.openFile host path = os.openFile host' path := by rw [Os.openFile,Os.openFile,same]
    rw [copyFromLocalTemp,copyFromLocalTemp,isDir_found,isDir_found,same,listing,content]
    split
    next =>
      congr 1
      funext _
      cases names : os.readDir host' path with
      | none => rfl
      | some names' =>
        apply forEach_congr
        intro name present
        exact ih (reached_child stay reached placed' names present) _
    next => rfl

end same

/-! ### A storage that keeps a record -/

inductive Upload
  | dir (path : Text)
  | file (path : Text) (data : Bytes)
  deriving DecidableEq

def Upload.bytes : Upload → Nat
  | .dir _ => 0
  | .file _ data => data.length

def uploadedBytes (log : List Upload) : Nat := (log.map Upload.bytes).sum

def entryInfo (path : Text) (isDir : Bool) (size : Nat) : FileInfo := ⟨fileInfo path ⟨isDir,size⟩,none⟩

/-- An empty storage that takes everything. -/
def recorder : UserEngine (List Upload) Unit where
  read path := pure ([],entryInfo path false 0)
  write path data := do
    Effect.modify (· ++ [.file path data])
    pure (entryInfo path false data.length)
  readStream path := pure ([],entryInfo path false 0)
  writeStream path data := do
    Effect.modify (· ++ [.file path data])
    pure (entryInfo path false data.length)
  exists_ _ := pure false
  stat path := pure (entryInfo path false 0)
  list _ := pure []
  listRecursive _ := pure []
  createDirAll path := do
    Effect.modify (· ++ [.dir path])
    pure (entryInfo path true 0)
  delete path := pure (entryInfo path false 0)
  moveFile _ dst := pure (entryInfo dst false 0)
  checkQuota _ := pure ()

theorem uploadedBytes_append (log more : List Upload) :
    uploadedBytes (log ++ more) = uploadedBytes log + uploadedBytes more := by
  rw [uploadedBytes,List.map_append,List.sum_append]
  rfl

section recorded
variable {os : Os} {output path : HostPath} {tree host node : HostNode} {fuel : Nat} {dst : Text}
  {log : List Upload}

theorem located (placed : host.find output = some tree) {place : HostPath}
    (leads : surveyed output tree os.maxLinks path = .ok (some place)) (inside : output <+: place)
    (found : tree.find (place.drop output.length) = some node) :
    (os.resolved host path).bind host.find = some node := by
  rw [resolved_of_surveyed placed leads,Option.bind_some,find_inside placed inside,found]

theorem copy_file {data : Bytes} (here : (os.resolved host path).bind host.find = some (.file data))
    (cs : List (Choice Unit)) :
    copyFromLocalTemp os host recorder.toVfsStorage true (fuel + 1) path dst log cs =
      .done () (log ++ [.file dst data]) cs := by
  have plain : os.isDir host path = false := by
    rw [isDir_found,here]
    rfl
  have content : os.openFile host path = some data := by rw [Os.openFile,here]
  rw [copyFromLocalTemp,plain,content]
  rfl

theorem copy_dir {names : List Text} {child : Text → HostNode}
    (here : (os.resolved host path).bind host.find = some (.dir names child)) (cs : List (Choice Unit)) :
    copyFromLocalTemp os host recorder.toVfsStorage true (fuel + 1) path dst log cs =
      forEach (fun name => copyFromLocalTemp os host recorder.toVfsStorage true fuel (path ++ [name])
        (Text.trimEnd '/' dst ++ '/' :: name)) (os.order path names) (log ++ [.dir dst]) cs := by
  have directory : os.isDir host path = true := by
    rw [isDir_found,here]
    rfl
  have listing : os.readDir host path = some (os.order path names) := by rw [Os.readDir,here]
  rw [copyFromLocalTemp,directory,listing]
  rfl

theorem weighs_perm {limit size : Nat} {paths paths' : List HostPath}
    (weighs : Weighs output tree limit paths size) (perm : paths.Perm paths') :
    Weighs output tree limit paths' size := by
  induction perm generalizing size with
  | nil => exact weighs
  | cons first _ ih =>
    rw [← List.singleton_append,weighs_append] at weighs ⊢
    obtain ⟨a,b,here,there,rfl⟩ := weighs
    exact ⟨a,b,here,ih there,rfl⟩
  | swap first second rest =>
    rw [← List.singleton_append,weighs_append] at weighs
    obtain ⟨a,bc,here,later,rfl⟩ := weighs
    rw [← List.singleton_append,weighs_append] at later
    obtain ⟨b,c,there,others,rfl⟩ := later
    rw [← List.singleton_append,weighs_append]
    refine ⟨b,a + c,there,?_,by omega⟩
    rw [← List.singleton_append,weighs_append]
    exact ⟨a,c,here,others,rfl⟩
  | trans _ _ ih ih' => exact ih' (ih weighs)

/-- What an upload that is done has uploaded is what its path weighs. -/
theorem weighs_of_copy (stay : LinksStay output tree) (placed : host.find output = some tree)
    (reached : Reached output tree os.maxLinks path) {log' : List Upload} {cs rest : List (Choice Unit)}
    (done : copyFromLocalTemp os host recorder.toVfsStorage true fuel path dst log cs = .done () log' rest) :
    ∃ size, Weighs output tree os.maxLinks [path] size ∧ uploadedBytes log' = uploadedBytes log + size := by
  induction fuel generalizing path dst log log' cs rest with
  | zero => cases done
  | succ fuel ih =>
    obtain ⟨place,leads,inside⟩ := stay _ _ reached
    have resolved := resolved_of_surveyed placed leads
    have nowhere (missing : (os.resolved host path).bind host.find = none ∨
        ∃ text, (os.resolved host path).bind host.find = some (.link text)) : False := by
      have plain : os.isDir host path = false := by
        rw [isDir_found]
        rcases missing with none_ | ⟨text,link⟩
        · rw [none_]
          rfl
        · rw [link]
          rfl
      have closed : os.openFile host path = none := by
        rw [Os.openFile]
        rcases missing with none_ | ⟨text,link⟩
        · rw [none_]
        · rw [link]
      rw [copyFromLocalTemp,plain,closed] at done
      cases done
    cases here : (os.resolved host path).bind host.find with
    | none => exact (nowhere (.inl here)).elim
    | some node =>
      obtain ⟨inner,led,found⟩ := Option.bind_eq_some_iff.mp here
      rw [resolved] at led
      have within := inside inner led
      rw [find_inside placed within] at found
      rw [led] at leads
      cases node with
      | link text => exact (nowhere (.inr ⟨text,here⟩)).elim
      | file data =>
        rw [copy_file here] at done
        cases done
        refine ⟨data.length + 0,.file leads within found .nil,?_⟩
        rw [uploadedBytes_append]
        rfl
      | dir names child =>
        rw [copy_dir here] at done
        have each (entries : List Text) (listed : entries ⊆ names) {log log' : List Upload}
            {cs rest : List (Choice Unit)} (done : forEach (fun name => copyFromLocalTemp os host
              recorder.toVfsStorage true fuel (path ++ [name]) (Text.trimEnd '/' dst ++ '/' :: name))
                entries log cs = .done () log' rest) :
            ∃ size, Weighs output tree os.maxLinks (entries.map fun name => path ++ [name]) size ∧
              uploadedBytes log' = uploadedBytes log + size := by
          induction entries generalizing log cs with
          | nil =>
            cases done
            exact ⟨0,.nil,rfl⟩
          | cons name others inner_ih =>
            have present := listed List.mem_cons_self
            obtain ⟨_,s,cs',first,later⟩ := bind_done log cs done
            obtain ⟨a,here,bytes⟩ := ih (.child reached leads within found present) first
            obtain ⟨b,there,bytes'⟩ := inner_ih (fun c member => listed (List.mem_cons_of_mem _ member)) later
            refine ⟨a + b,?_,by omega⟩
            rw [List.map_cons,← List.singleton_append,weighs_append]
            exact ⟨a,b,here,there,rfl⟩
        have perm := os.order_perm path names
        obtain ⟨size,weighs,bytes⟩ := each _ perm.subset done
        refine ⟨size + 0,.dir leads within found (weighs_perm weighs (perm.map _)) .nil,?_⟩
        rw [uploadedBytes_append] at bytes
        exact bytes

/-- Directories are listed in the order of the tree. -/
def plainOs (limit : Nat) : Os := ⟨limit,fun _ names => names,fun _ _ => .refl _⟩

/-- What a path weighs can be uploaded. -/
theorem copy_of_weighs {limit size : Nat} {paths : List HostPath} (placed : host.find output = some tree)
    (weighs : Weighs output tree limit paths size) :
    ∃ enough, ∀ fuel, enough ≤ fuel → ∀ items : List (HostPath × Text), items.map Prod.fst = paths →
      ∀ log, ∃ log', forEach (fun item => copyFromLocalTemp (plainOs limit) host recorder.toVfsStorage true
          fuel item.1 item.2) items log [] = .done () log' [] ∧ uploadedBytes log' = uploadedBytes log + size := by
  induction weighs with
  | nil =>
    refine ⟨0,fun fuel _ items empty log => ⟨log,?_,rfl⟩⟩
    rw [List.map_eq_nil_iff.mp empty]
    rfl
  | @file path place data rest size leads inside found others ih =>
    obtain ⟨enough,uploads⟩ := ih
    refine ⟨enough + 1,fun fuel large items split log => ?_⟩
    obtain ⟨item,items',rfl,rfl,later⟩ := List.map_eq_cons_iff.mp split
    obtain ⟨less,rfl⟩ : ∃ less, fuel = less + 1 := ⟨fuel - 1,by omega⟩
    have here := @located (plainOs limit) output item.1 tree host _ placed place leads inside found
    obtain ⟨log',done,bytes⟩ := uploads (less + 1) (by omega) items' later (log ++ [.file item.2 data])
    refine ⟨log',?_,?_⟩
    · rw [forEach,bind_apply,copy_file here]
      exact done
    · rw [bytes,uploadedBytes_append]
      have one : uploadedBytes [.file item.2 data] = data.length := by simp [uploadedBytes,Upload.bytes]
      omega
  | @dir path place names child inner rest size leads inside found entries others ih ih' =>
    obtain ⟨enough,uploads⟩ := ih
    obtain ⟨enough',uploads'⟩ := ih'
    refine ⟨enough + enough' + 1,fun fuel large items split log => ?_⟩
    obtain ⟨item,items',rfl,rfl,later⟩ := List.map_eq_cons_iff.mp split
    obtain ⟨less,rfl⟩ : ∃ less, fuel = less + 1 := ⟨fuel - 1,by omega⟩
    have here := @located (plainOs limit) output item.1 tree host _ placed place leads inside found
    have spelled : (names.map fun name => (item.1 ++ [name],Text.trimEnd '/' item.2 ++ '/' :: name)).map
        Prod.fst = names.map fun name => item.1 ++ [name] := by
      rw [List.map_map]
      rfl
    obtain ⟨log',first,bytes⟩ := uploads less (by omega) _ spelled (log ++ [.dir item.2])
    obtain ⟨log'',done,bytes'⟩ := uploads' (less + 1) (by omega) items' later log'
    rw [forEach_map] at first
    have run : copyFromLocalTemp (plainOs limit) host recorder.toVfsStorage true (less + 1) item.1 item.2 log [] =
        .done () log' [] := by
      rw [copy_dir here]
      exact first
    refine ⟨log'',?_,?_⟩
    · rw [forEach,bind_apply,run]
      exact done
    · rw [uploadedBytes_append] at bytes
      have none_ : uploadedBytes [.dir item.2] = 0 := by simp [uploadedBytes,Upload.bytes]
      omega

end recorded

/-! ### The trail of a path that is uploaded first -/

section trail
variable {os : Os} {output path : HostPath} {tree host : HostNode} {data : Bytes} {σ ω : Type}

theorem forEach_keeps {I : σ → Prop} {α : Type} {body : α → Effect σ ω VfsError Unit}
    (kept : ∀ entry, Keeps I (body entry)) (entries : List α) : Keeps I (forEach body entries) := by
  induction entries with
  | nil => exact Keeps.pure ()
  | cons entry rest ih => exact Keeps.bind (kept entry) fun _ => ih

theorem copy_keeps {I : σ → Prop} {engine : VfsStorage σ ω} (exists_ : ∀ path, Keeps I (engine.exists_ path))
    (create : ∀ path, Keeps I (engine.createDirAll path))
    (write : ∀ path data, Keeps I (engine.writeStream path data)) (overwrite : Bool) (fuel : Nat)
    (path : HostPath) (dst : Text) : Keeps I (copyFromLocalTemp os host engine overwrite fuel path dst) := by
  induction fuel generalizing path dst with
  | zero => exact Keeps.fail _
  | succ fuel ih =>
    rw [copyFromLocalTemp]
    split
    next =>
      apply Keeps.bind
      · apply Keeps.bind (exists_ dst)
        intro present
        split
        · exact Keeps.pure ()
        · exact Keeps.bind (create dst) fun _ => Keeps.pure ()
      · intro _
        split
        · exact Keeps.fail _
        · exact forEach_keeps (fun name => ih _ _) _
    next =>
      apply Keeps.bind
      · rw [keepsPresent]
        split
        · exact Keeps.pure false
        · exact exists_ dst
      · intro present
        split
        · exact Keeps.pure ()
        · split
          · exact Keeps.fail _
          · exact Keeps.bind (write dst _) fun _ => Keeps.pure ()

theorem recorder_grows (start : List Upload) (fuel : Nat) (path : HostPath) (dst : Text) :
    Keeps (start <+: ·) (copyFromLocalTemp os host recorder.toVfsStorage true fuel path dst) := by
  apply copy_keeps
  · exact fun _ => Keeps.pure false
  · intro path
    exact Keeps.bind (Keeps.modify fun log grown => grown.trans (List.prefix_append log _)) fun _ => Keeps.pure _
  · intro path data
    exact Keeps.bind (Keeps.modify fun log grown => grown.trans (List.prefix_append log _)) fun _ => Keeps.pure _

/-- A path through directories that list its next name first, to a file. -/
inductive Leads (os : Os) (host : HostNode) (data : Bytes) : HostPath → List Text → Prop
  | file {place} (here : (os.resolved host place).bind host.find = some (.file data)) :
      Leads os host data place []
  | dir {place names child name others rest}
      (here : (os.resolved host place).bind host.find = some (.dir names child))
      (first : os.order place names = name::others) (below : Leads os host data (place ++ [name]) rest) :
      Leads os host data place (name::rest)

/-- What the upload of such a path leaves in the record. -/
def trail (data : Bytes) : Text → List Text → List Upload
  | dst, [] => [.file dst data]
  | dst, name::rest => .dir dst :: trail data (Text.trimEnd '/' dst ++ '/' :: name) rest

theorem trail_length (data : Bytes) (dst : Text) (names : List Text) :
    (trail data dst names).length = names.length + 1 := by
  induction names generalizing dst with
  | nil => rfl
  | cons name rest ih => rw [trail,List.length_cons,ih,List.length_cons]

theorem trail_content {data data' : Bytes} {dst : Text} {names : List Text}
    (same : trail data dst names = trail data' dst names) : data = data' := by
  induction names generalizing dst with
  | nil => simpa [trail] using same
  | cons name rest ih => exact ih (List.cons.inj same).2

theorem copy_trail {names : List Text} (leads : Leads os host data path names) {fuel : Nat}
    (enough : names.length < fuel) (dst : Text) (log : List Upload) (cs : List (Choice Unit)) :
    log ++ trail data dst names <+:
      (copyFromLocalTemp os host recorder.toVfsStorage true fuel path dst log cs).state := by
  induction leads generalizing fuel dst log with
  | file here =>
    obtain ⟨less,rfl⟩ : ∃ less, fuel = less + 1 := ⟨fuel - 1,by omega⟩
    rw [copy_file here]
    exact List.prefix_rfl
  | @dir path names child name others rest here first below ih =>
    obtain ⟨less,rfl⟩ : ∃ less, fuel = less + 1 := ⟨fuel - 1,by omega⟩
    simp only [List.length_cons] at enough
    rw [copy_dir here,first,forEach]
    have deep : rest.length < less := by omega
    have start := ih deep (Text.trimEnd '/' dst ++ '/' :: name) (log ++ [.dir dst])
    rw [List.append_assoc] at start
    exact Keeps.bind_state (fun _ => forEach_keeps (fun name => recorder_grows _ _ _ _) others) start

/-- Along a given path every directory lists its next name first. -/
def front (full path : HostPath) (names : List Text) : List Text :=
  full[path.length]?.elim names fun name => if names.contains name then name::names.erase name else names

theorem front_perm (full path : HostPath) (names : List Text) : (front full path names).Perm names := by
  rw [front]
  cases full[path.length]? with
  | none => exact .refl _
  | some name =>
    rw [Option.elim_some]
    split
    next present => exact (List.perm_cons_erase (List.contains_iff_mem.mp present)).symm
    next => exact .refl _

def frontOs (limit : Nat) (full : HostPath) : Os := ⟨limit,front full,front_perm full⟩

theorem front_next {full rest : HostPath} {name : Text} {names : List Text} (split : full = path ++ name::rest)
    (present : name ∈ names) : front full path names = name::names.erase name := by
  have next : full[path.length]? = some name := by
    rw [split,List.getElem?_append_right le_rfl,Nat.sub_self]
    rfl
  rw [front,next]
  exact if_pos (List.contains_iff_mem.mpr present)

theorem leads_of_reached {limit : Nat} {full : HostPath} (placed : host.find output = some tree)
    (reached : Reached output tree limit path) (rest : List Text) (split : full = path ++ rest)
    (leads : Leads (frontOs (limit + 1) full) host data path rest) :
    ∃ names, full = output ++ names ∧ Leads (frontOs (limit + 1) full) host data output names := by
  induction reached generalizing rest with
  | output => exact ⟨rest,split,leads⟩
  | @child path place names child name above leads' inside found listed ih =>
    have split' : full = path ++ name::rest := by rw [split,List.append_assoc]; rfl
    apply ih (name::rest) split'
    have more := survey_more.1 place leads'
    have here := @located (frontOs (limit + 1) full) output path tree host _ placed place more inside found
    exact .dir here (front_next split' listed) leads

end trail

/-! ### Dependence -/

/-- Extraction depends only on what the archive unpacks to: the end of the task is
one and the same program on the user's storage for all hosts that have the tree
in the extraction directory, and the size it checks is that of what it uploads. -/
structure DependsOnlyOnArchive (output : HostPath) (tree : HostNode) : Prop where
  same : ∀ (σ ω : Type) (engine : UserEngine σ ω) (os : Os) (fuel maxTotal : Nat) (src dst : Text)
    (opts : DecompressionOptions) (host host' : HostNode), host.find output = some tree →
      host'.find output = some tree →
      storeExtracted os host engine fuel maxTotal output src dst opts =
        storeExtracted os host' engine fuel maxTotal output src dst opts
  size : ∀ (os : Os) (fuel maxTotal : Nat) (dst : Text) (host : HostNode) (total : Nat) (log : List Upload),
    host.find output = some tree → extractedSize os host maxTotal fuel [output] 0 = .ok total →
      copyFromLocalTemp os host recorder.toVfsStorage true fuel output dst [] [] = .done () log [] →
      total = uploadedBytes log

section dependence
variable {output : HostPath} {tree host : HostNode}

/-- There is always a name that is not in use and that a link can spell. -/
theorem exists_fresh (used : List Text) : ∃ mid, mid ∉ used ∧
    ∀ n, ∃ text, parseTarget text = ⟨true,.here::List.replicate (n + 1) (.enter mid)⟩ := by
  refine ⟨List.replicate ((used.map List.length).sum + 1) 'z',?_,fun n => ?_⟩
  · intro member
    have short : (List.replicate ((used.map List.length).sum + 1) 'z').length ≤ (used.map List.length).sum :=
      List.single_le_sum (fun _ _ => Nat.zero_le _) _ (List.mem_map_of_mem member)
    rw [List.length_replicate] at short
    omega
  · generalize mid : List.replicate ((used.map List.length).sum + 1) 'z' = name
    have letters : ∀ c ∈ name, c = 'z' := by
      intro c member
      rw [← mid] at member
      exact List.eq_of_mem_replicate member
    have long : name ≠ [] := by
      rw [← mid,List.replicate_succ]
      exact List.cons_ne_nil _ _
    refine ⟨['/'].intercalate ([]::List.replicate (n + 1) name),?_⟩
    have parts : (['/'].intercalate ([]::List.replicate (n + 1) name)).splitOn '/' =
        []::List.replicate (n + 1) name := by
      apply List.splitOn_intercalate
      · intro part member slash
        rcases List.mem_cons.mp member with empty | one
        · rw [empty] at slash
          cases slash
        · rw [List.eq_of_mem_replicate one] at slash
          exact absurd (letters _ slash) (by decide)
      · exact List.cons_ne_nil _ _
    have leading : (['/'].intercalate ([]::List.replicate (n + 1) name)).head? = some '/' := by
      rw [List.replicate_succ]
      rfl
    have enter : (if name = [] ∨ name = ['.'] then Step.here else if name = ['.','.'] then .up else .enter name) =
        .enter name := by
      rw [if_neg,if_neg]
      · intro dots
        exact absurd (letters '.' (by rw [dots]; simp)) (by decide)
      · rintro (empty | dot)
        · exact long empty
        · exact absurd (letters '.' (by rw [dot]; simp)) (by decide)
    rw [parseTarget,parts,leading,List.map_cons,List.map_replicate,enter]
    rfl

theorem recorder_stored {os : Os} {fuel maxTotal total : Nat} {src dst : Text} {opts : DecompressionOptions}
    (overwrite : opts.overwrite = true)
    (taken : extractedSize os host maxTotal fuel [output] 0 = .ok total) {start : List Upload}
    (grown : start <+:
      (copyFromLocalTemp os host recorder.toVfsStorage true fuel output dst [] []).state) :
    start <+: (storeExtracted os host recorder fuel maxTotal output src dst opts [] []).state := by
  have asked : ((recorder.checkQuota total).mapError
      (quotaError "Quota check failed after extraction: ".toList)) [] [] = .done () [] [] := rfl
  rw [storeExtracted,taken,ofExcept_ok,pure_bind,bind_apply,asked,overwrite]
  apply Keeps.bind_state
  · intro _
    apply Keeps.bind
    · rw [discardArchive]
      split
      next =>
        apply Keeps.bind
        · exact Keeps.mapError _ (Keeps.attempt (Keeps.pure _))
        · exact fun _ => Keeps.pure ()
      next => exact Keeps.pure ()
    · exact fun _ => Keeps.mapError _ (Keeps.pure _)
  · rw [mapError_state]
    exact grown

/-- A path that leaves the extraction directory makes the upload depend on what
lies there. -/
theorem stays_of_same (directory : tree.kind = .dir) (depends : DependsOnlyOnArchive output tree) :
    LinksStay output tree := by
  intro limit path reached
  by_contra leaves
  have leaving : (∃ halt, surveyed output tree limit path = .error halt) ∨
      ∃ place, surveyed output tree limit path = .ok (some place) ∧ ¬ output <+: place := by
    cases found : surveyed output tree limit path with
    | error halt => exact .inl ⟨halt,rfl⟩
    | ok place =>
      cases place with
      | none => exact (leaves ⟨none,found,fun _ absent => by cases absent⟩).elim
      | some inner =>
        refine .inr ⟨inner,rfl,fun inside => leaves ⟨some inner,found,?_⟩⟩
        intro other same
        rwa [← Option.some.inj same]
  obtain ⟨mark,host,surrounds⟩ := exists_outside (δ := Bytes) directory exists_fresh leaving
  -- the directory outside holds a file with any content, and it is uploaded first
  have led (data : Bytes) : ∃ names, path ++ [mark] = output ++ names ∧
      Leads (frontOs (limit + 1) (path ++ [mark])) (host data) data output names := by
    obtain ⟨placed,place,resolved,dir,marked⟩ := surrounds data
    obtain ⟨node,reached',kind⟩ := Option.map_eq_some_iff.mp dir
    cases node with
    | file _ => cases kind
    | link _ => cases kind
    | dir names child =>
      have here : ((frontOs (limit + 1) (path ++ [mark])).resolved (host data) path).bind (host data).find =
          some (.dir names child) := by
        rw [Os.resolved,frontOs,resolved]
        exact reached'
      have listed := Node.listed_of_find reached' marked
      obtain ⟨left,onward⟩ := resolve_append resolved dir [.enter mark]
      have step : resolve parseTarget (host data).kindAt left place [.enter mark] = some (place ++ [mark]) := by
        have kind : (host data).kindAt (place ++ [mark]) = some .file := by
          rw [Node.kindAt,marked]
          rfl
        cases left with
        | zero =>
          rw [resolve,follow,kind]
          rfl
        | succ left =>
          rw [resolve,follow,kind]
          rfl
      have last : ((frontOs (limit + 1) (path ++ [mark])).resolved (host data) (path ++ [mark])).bind
          (host data).find = some (.file data) := by
        rw [Os.resolved,List.map_append,List.map_singleton,frontOs,onward,step]
        exact marked
      apply leads_of_reached placed reached [mark] rfl
      exact .dir here (front_next rfl listed) (.file last)
  obtain ⟨names,split,leads⟩ := led [0]
  obtain ⟨names',split',leads'⟩ := led [1]
  obtain rfl := List.append_cancel_left (split.symm.trans split')
  have queued : Queued output tree [output] [tree] := .cons ⟨directory,[],by simp,Node.find_nil⟩ .nil
  let os := frontOs (limit + 1) (path ++ [mark])
  have stored (data : Bytes) (leads : Leads os (host data) data output names) : trail data [] names <+:
      (storeExtracted os (host data) recorder (names.length + 1 + directoriesOf [tree]) (counted [tree]) output []
        [] ⟨true,false⟩ [] []).state := by
    have taken : extractedSize os (host data) (counted [tree]) (names.length + 1 + directoriesOf [tree]) [output] 0 =
        .ok (0 + counted [tree]) := extractedSize_fits (surrounds data).1 queued (by omega) (by omega)
    apply recorder_stored rfl taken
    have deep : names.length < names.length + 1 + directoriesOf [tree] := by omega
    have grown := copy_trail leads deep [] [] []
    exact grown
  have first := stored [0] leads
  have second := stored [1] leads'
  rw [depends.same _ _ recorder os _ _ _ _ _ (host [0]) (host [1]) (surrounds [0]).1 (surrounds [1]).1] at first
  have lengths : (trail [0] [] names).length = (trail [1] [] names).length := by
    rw [trail_length,trail_length]
  have both := List.prefix_of_prefix_length_le first second lengths.le
  exact absurd (trail_content (both.eq_of_length lengths)) (by decide)

section balance
variable {names : List Text} {child : Text → HostNode} {size limit : Nat}

/-- The extraction directory alone, in its queue of one. -/
theorem queued_output (output : HostPath) (names : List Text) (child : Text → HostNode) :
    Queued output (.dir names child) [output] [.dir names child] :=
  .cons ⟨rfl,[],by simp,Node.find_nil⟩ .nil

theorem counted_output (tree : HostNode) : counted [tree] = fileBytes tree + linkTextBytes tree := by
  simp [counted,countedBytes]

/-- The upload of the extraction directory weighs its files and its links. -/
theorem weighs_output : Weighs output tree limit [output] size ↔ ∃ linked,
    Weighs output tree limit ((linkPaths tree).map (output ++ ·)) linked ∧ size = fileBytes tree + linked := by
  have whole := @weighs_place output tree limit [] size tree Node.find_nil
  rwa [List.append_nil] at whole

theorem balanced_of_size (depends : DependsOnlyOnArchive output (.dir names child)) :
    LinksBalanced output (.dir names child) := by
  intro limit linked weighs
  have placed : (bare output (.dir names child) : HostNode).find output = some (.dir names child) :=
    find_bare output _
  obtain ⟨enough,uploads⟩ := copy_of_weighs placed (weighs_output.mpr ⟨linked,weighs,rfl⟩)
  obtain ⟨log,done,bytes⟩ := uploads (enough + directoriesOf [.dir names child]) (by omega) [(output,[])] rfl []
  have taken : extractedSize (plainOs limit) (bare output (.dir names child)) (counted [.dir names child])
      (enough + directoriesOf [.dir names child]) [output] 0 = .ok (0 + counted [.dir names child]) :=
    extractedSize_fits placed (queued_output output names child) (by omega) (by omega)
  obtain ⟨_,log',cs,first,last⟩ := bind_done [] [] done
  cases last
  have same := depends.size _ _ _ _ _ _ _ placed taken first
  rw [counted_output] at same
  have empty : uploadedBytes [] = 0 := rfl
  omega

end balance

/-- Extraction depends only on the archive exactly when no path through a link
leaves the extraction directory, and what the links lead to has as many bytes
as their texts. -/
theorem dependsOnlyOnArchive_iff (output : HostPath) (names : List Text) (child : Text → HostNode) :
    DependsOnlyOnArchive output (.dir names child) ↔
      LinksStay output (.dir names child) ∧ LinksBalanced output (.dir names child) := by
  have queued := queued_output output names child
  constructor
  · intro depends
    exact ⟨stays_of_same rfl depends,balanced_of_size depends⟩
  · intro ⟨stay,balanced⟩
    constructor
    · intro σ ω engine os fuel maxTotal src dst opts host host' placed placed'
      have size : extractedSize os host maxTotal fuel [output] 0 = extractedSize os host' maxTotal fuel [output] 0 :=
        extractedSize_same maxTotal fuel placed placed' queued
      have start : Reached output (.dir names child) os.maxLinks output := .output
      have upload := copyFromLocalTemp_same stay placed placed' engine.toVfsStorage opts.overwrite fuel start dst
      rw [storeExtracted,storeExtracted,size,upload]
    · intro os fuel maxTotal dst host total log placed taken done
      obtain ⟨size,weighs,bytes⟩ := weighs_of_copy stay placed .output done
      obtain ⟨linked,links,rfl⟩ := weighs_output.mp weighs
      have same := balanced _ _ links
      have sum := extractedSize_ok placed queued taken
      rw [counted_output] at sum
      have empty : uploadedBytes [] = 0 := rfl
      omega

end dependence

/-! ### The task -/

section task
variable {σ ω : Type} {platform : Platform} {tempDir : HostPath}

theorem bind_congr_right {α β ε : Type} {first : Effect σ ω ε α} {next next' : α → Effect σ ω ε β}
    (same : ∀ a, next a = next' a) : first >>= next = first >>= next' := by
  have equal : next = next' := funext same
  rw [equal]

/-- Where extraction depends only on what the archives unpack to, the task is one
program for all hosts. -/
theorem decompressTask_same (depends : ∀ archive names child, platform.unpack archive = .ok (names,child) →
      DependsOnlyOnArchive (tempDir ++ ["output".toList]) (.dir names child))
    (config : FileCompressConfig) (engine : UserEngine σ ω) (fuel : Nat) (host host' : HostNode)
    (src dst : Text) (opts : DecompressionOptions) :
    decompressTask platform config engine fuel host tempDir src dst opts =
      decompressTask platform config engine fuel host' tempDir src dst opts := by
  unfold decompressTask
  apply bind_congr_right
  intro _
  apply bind_congr_right
  intro _
  apply bind_congr_right
  intro info
  apply bind_congr_right
  intro _
  apply bind_congr_right
  intro (archive,_)
  dsimp only
  cases unpacked : platform.unpack archive with
  | error _ => rfl
  | ok result =>
    obtain ⟨names,child⟩ := result
    simp only [ofExcept_ok,pure_bind]
    apply (depends archive names child unpacked).same
    · have placed := Node.find_graft (.dir names child) (tempDir ++ ["output".toList])
        (Node.graft (.file archive) (tempDir ++ [lastSegment src]) host) []
      rwa [List.append_nil,Node.find_nil] at placed
    · have placed := Node.find_graft (.dir names child) (tempDir ++ ["output".toList])
        (Node.graft (.file archive) (tempDir ++ [lastSegment src]) host') []
      rwa [List.append_nil,Node.find_nil] at placed

/-- Unpacking leaves one link, to a file of the host. -/
def linked : Platform where
  os := plainOs 40
  lower := id
  unpack _ := .ok (["key".toList],fun _ => .link "/secret".toList)

def hostWith (secret : Bytes) : HostNode := .dir ["secret".toList] fun _ => .file secret

/-- The task uploads the file that the link points at. -/
theorem decompressTask_leaks : ¬ ∀ secret secret' : Bytes,
    decompressTask linked ⟨["tar.gz".toList],1,1⟩ recorder 3 (hostWith secret) ["tmp".toList] "/a.tar.gz".toList
        "/out".toList ⟨true,false⟩ =
      decompressTask linked ⟨["tar.gz".toList],1,1⟩ recorder 3 (hostWith secret') ["tmp".toList] "/a.tar.gz".toList
        "/out".toList ⟨true,false⟩ := by
  intro same
  have run := congrFun (congrFun (same [1] [2]) []) []
  have states := congrArg Outcome.state run
  exact absurd states (by decide +kernel)

end task
end StorageHub.Compression
