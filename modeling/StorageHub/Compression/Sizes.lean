import StorageHub.Compression.Extraction

/-! What an unpacked tree weighs: with the links as texts, as the task takes its
size, and with what the links lead to, as it is uploaded. -/
namespace StorageHub.Compression
open Library LinkTree WriteCache Scoped Mounts

/-! ### The tree as it lies there -/

def fileBytes : HostNode → Nat
  | .file data => data.length
  | .link _ => 0
  | .dir names child => (names.map fun name => fileBytes (child name)).sum

def linkTextBytes : HostNode → Nat
  | .file _ => 0
  | .link text => Text.byteLength text
  | .dir names child => (names.map fun name => linkTextBytes (child name)).sum

/-- The paths of the links of a tree. -/
def linkPaths : HostNode → List HostPath
  | .file _ => []
  | .link _ => [[]]
  | .dir names child => names.flatMap fun name => (linkPaths (child name)).map (name :: ·)

def directories : HostNode → Nat
  | .file _ | .link _ => 0
  | .dir names child => 1 + (names.map fun name => directories (child name)).sum

/-- What the task counts of a tree. -/
def countedBytes (tree : HostNode) : Nat := fileBytes tree + linkTextBytes tree

theorem countedBytes_dir (names : List Text) (child : Text → HostNode) :
    countedBytes (.dir names child) = (names.map fun name => countedBytes (child name)).sum := by
  rw [countedBytes,fileBytes,linkTextBytes]
  induction names with
  | nil => rfl
  | cons name rest ih =>
    simp only [List.map_cons,List.sum_cons,countedBytes] at ih ⊢
    omega

theorem file_not_dir (data : Bytes) : (Node.file data : HostNode).kind ≠ .dir := by
  intro same
  cases same

theorem link_not_dir (text : Text) : (Node.link text : HostNode).kind ≠ .dir := by
  intro same
  cases same

theorem metadataLen_counted {node : HostNode} (other : node.kind ≠ .dir) :
    metadataLen node = countedBytes node := by
  cases node with
  | file data => simp [metadataLen,countedBytes,fileBytes,linkTextBytes]
  | link text => simp [metadataLen,countedBytes,fileBytes,linkTextBytes]
  | dir names child => exact absurd rfl other

section placed
variable {os : Os} {host tree sub : HostNode} {output path : HostPath} {names : List Text}
  {child : Text → HostNode} {limit : Nat}

/-- Where a path leads from what is known of the extraction directory. -/
def surveyed (output : HostPath) (tree : HostNode) (limit : Nat) (path : HostPath) :
    Except (Halt Text) (Option HostPath) :=
  survey parseTarget (knownAt output tree) limit [] (path.map .enter)

theorem resolved_of_surveyed (placed : host.find output = some tree) {result : Option HostPath}
    (found : surveyed output tree os.maxLinks path = .ok result) : os.resolved host path = result :=
  resolve_of_survey (knownAt_agrees placed) found

/-- The path of what is no link leads to itself. -/
theorem surveyed_plain (found : tree.find path = some sub)
    (plain : sub.kind = .dir ∨ sub.kind = .file) (limit : Nat) :
    surveyed output tree limit (output ++ path) = .ok (some (output ++ path)) := by
  have inside (rest : HostPath) : knownAt output tree (output ++ rest) = some (tree.kindAt rest) := by
    rw [knownAt,if_pos (List.prefix_append output rest),List.drop_left]
  apply survey_plain
  · intro init rest split further more
    rw [List.nil_append]
    have short : init <+: output ++ path := ⟨rest,split⟩
    have strict : init ≠ output ++ path := by
      intro whole
      rw [whole] at split
      exact more (by simpa using split)
    by_cases below : output <+: init
    · obtain ⟨tail,rfl⟩ := below
      rw [List.prefix_append_right_inj] at short
      have differ : tail ≠ path := fun same => strict (by rw [same])
      obtain ⟨names,child,reached⟩ := Node.find_above found short differ
      rw [inside,Node.kindAt,reached]
      rfl
    · have above : init <+: output := by
        rcases List.prefix_or_prefix_of_prefix short (List.prefix_append output path) with first | second
        · exact first
        · exact absurd second below
      exact knownAt_above above fun same => below (by rw [same])
  · intro _
    rw [List.nil_append,inside,Node.kindAt,found]
    rcases plain with dir | file
    · exact .inl (by rw [Option.map_some,dir])
    · exact .inr (by rw [Option.map_some,file])

theorem resolved_plain (placed : host.find output = some tree)
    (found : tree.find path = some sub) (plain : sub.kind = .dir ∨ sub.kind = .file) :
    os.resolved host (output ++ path) = some (output ++ path) :=
  resolved_of_surveyed placed (surveyed_plain found plain os.maxLinks)

theorem find_placed (placed : host.find output = some tree) (path : HostPath) :
    host.find (output ++ path) = tree.find path := by
  rw [Node.find_append,placed]
  rfl

theorem isDir_found (os : Os) (host : HostNode) (path : HostPath) :
    os.isDir host path = (((os.resolved host path).bind host.find).map Node.kind == some .dir) := by
  rw [Os.isDir,Option.map_bind]
  rfl

/-! ### The size that is taken -/

theorem readDir_plain (placed : host.find output = some tree)
    (found : tree.find path = some (.dir names child)) :
    os.readDir host (output ++ path) = some (os.order (output ++ path) names) := by
  rw [Os.readDir,resolved_plain placed found (.inl rfl)]
  simp [find_placed placed,found]

theorem entry_plain (placed : host.find output = some tree)
    (found : tree.find path = some (.dir names child)) {name : Text} (listed : name ∈ names) :
    os.entry host (output ++ path) name = some (child name) := by
  rw [Os.entry,resolved_plain placed found (.inl rfl),Option.bind_some,List.append_assoc,
    find_placed placed,Node.find_append,found]
  simp [Node.find,listed]

/-- The directories of a queue, by their paths in the tree. -/
def Queued (output : HostPath) (tree : HostNode) (queue : List HostPath) (subs : List HostNode) : Prop :=
  List.Forall₂ (fun path sub => sub.kind = .dir ∧ ∃ rest, path = output ++ rest ∧ tree.find rest = some sub)
    queue subs

def counted (subs : List HostNode) : Nat := (subs.map countedBytes).sum

def directoriesOf (subs : List HostNode) : Nat := (subs.map directories).sum

/-- The entries of a directory move their bytes from the tree to the total or,
with a directory, to the queue. -/
theorem sumEntries_ok {maxTotal total total' : Nat} {queue queue' : List HostPath} {subs : List HostNode}
    (placed : host.find output = some tree)
    (found : tree.find path = some (.dir names child)) {entries : List Text} (listed : entries ⊆ names)
    (queued : Queued output tree queue subs)
    (summed : sumEntries os host maxTotal (output ++ path) entries queue total = .ok (queue',total')) :
    ∃ subs', Queued output tree queue' subs' ∧
      total' + counted subs' = total + counted subs + (entries.map fun name => countedBytes (child name)).sum := by
  induction entries generalizing queue total subs with
  | nil =>
    obtain ⟨rfl,rfl⟩ := Prod.mk.inj (Except.ok.inj summed)
    exact ⟨subs,queued,by simp⟩
  | cons name rest ih =>
    have present : name ∈ names := listed List.mem_cons_self
    have later : rest ⊆ names := fun c member => listed (List.mem_cons_of_mem _ member)
    rw [sumEntries,entry_plain placed found present] at summed
    have below : tree.find (path ++ [name]) = some (child name) := by
      rw [Node.find_append,found]
      simp [Node.find,present]
    simp only [List.map_cons,List.sum_cons]
    have file_or_link (other : (child name).kind ≠ .dir)
        (goes : (if maxTotal < total + metadataLen (child name) then .error exceedsLimit
          else sumEntries os host maxTotal (output ++ path) rest queue (total + metadataLen (child name)))
            = Except.ok (queue',total')) : ∃ subs', Queued output tree queue' subs' ∧ total' + counted subs' =
          total + counted subs + (countedBytes (child name) +
            (rest.map fun name => countedBytes (child name)).sum) := by
      split at goes
      next => cases goes
      next =>
        obtain ⟨subs',queued',same⟩ := ih later queued goes
        rw [metadataLen_counted other] at same
        exact ⟨subs',queued',by omega⟩
    cases node : child name with
    | file data =>
      rw [← node]
      apply file_or_link
      · rw [node]
        exact file_not_dir data
      · rw [node] at summed ⊢
        exact summed
    | link text =>
      rw [← node]
      apply file_or_link
      · rw [node]
        exact link_not_dir text
      · rw [node] at summed ⊢
        exact summed
    | dir names' child' =>
      rw [node] at summed below
      have queued' : Queued output tree ((output ++ path ++ [name])::queue) (.dir names' child'::subs) :=
        .cons ⟨rfl,path ++ [name],by rw [List.append_assoc],below⟩ queued
      obtain ⟨subs',queued'',same⟩ := ih later queued' summed
      refine ⟨subs',queued'',?_⟩
      simp only [counted,List.map_cons,List.sum_cons] at same ⊢
      omega

/-- What the task takes for the size of a tree counts its files and the texts of
its links. -/
theorem extractedSize_ok {maxTotal fuel total size : Nat} {queue : List HostPath} {subs : List HostNode}
    (placed : host.find output = some tree)
    (queued : Queued output tree queue subs)
    (taken : extractedSize os host maxTotal fuel queue total = .ok size) : size = total + counted subs := by
  induction fuel generalizing queue subs total with
  | zero =>
    cases queued with
    | nil => exact (Except.ok.inj taken).symm
    | cons _ _ => cases taken
  | succ fuel ih =>
    cases queued with
    | nil => exact (Except.ok.inj taken).symm
    | @cons _ sub _ subs' first rest =>
      obtain ⟨dir,path,rfl,found⟩ := first
      cases sub with
      | file data => cases dir
      | link text => cases dir
      | dir names child =>
        rw [extractedSize,readDir_plain placed found] at taken
        simp only [bind,Except.bind] at taken
        split at taken
        next => cases taken
        next result summed =>
          obtain ⟨queue',total'⟩ := result
          have perm := os.order_perm (output ++ path) names
          obtain ⟨subs'',queued',same⟩ := sumEntries_ok placed found perm.subset rest summed
          have onward := ih queued' taken
          have entries := (perm.map fun name => countedBytes (child name)).sum_eq
          have whole := countedBytes_dir names child
          simp only [counted,List.map_cons,List.sum_cons] at onward same ⊢
          omega

theorem sumEntries_same {host' : HostNode} (maxTotal : Nat) (placed : host.find output = some tree)
    (placed' : host'.find output = some tree) (found : tree.find path = some (.dir names child))
    {entries : List Text} (listed : entries ⊆ names) (queue : List HostPath) (total : Nat) :
    sumEntries os host maxTotal (output ++ path) entries queue total =
      sumEntries os host' maxTotal (output ++ path) entries queue total := by
  induction entries generalizing queue total with
  | nil => rfl
  | cons name rest ih =>
    have present : name ∈ names := listed List.mem_cons_self
    have later := ih fun c member => listed (List.mem_cons_of_mem _ member)
    rw [sumEntries,sumEntries,entry_plain placed found present,entry_plain placed' found present]
    cases child name with
    | file data => simp only [later]
    | link text => simp only [later]
    | dir names child => simp only [later]

/-- The size that is taken is that of the tree, whatever else the host has. -/
theorem extractedSize_same {host' : HostNode} (maxTotal fuel : Nat) {total : Nat} {queue : List HostPath}
    {subs : List HostNode} (placed : host.find output = some tree) (placed' : host'.find output = some tree)
    (queued : Queued output tree queue subs) :
    extractedSize os host maxTotal fuel queue total = extractedSize os host' maxTotal fuel queue total := by
  induction fuel generalizing queue subs total with
  | zero =>
    cases queued with
    | nil => rfl
    | cons _ _ => rfl
  | succ fuel ih =>
    cases queued with
    | nil => rfl
    | @cons _ sub _ subs' first rest =>
      obtain ⟨dir,path,rfl,found⟩ := first
      cases sub with
      | file data => cases dir
      | link text => cases dir
      | dir names child =>
        have perm := os.order_perm (output ++ path) names
        have same := @sumEntries_same os host tree output path names child host' maxTotal placed placed' found _
          perm.subset
        rw [extractedSize,extractedSize,readDir_plain placed found,readDir_plain placed' found]
        simp only [bind,Except.bind]
        rw [same]
        split
        next => rfl
        next result summed =>
          obtain ⟨queue',total'⟩ := result
          obtain ⟨subs'',queued',-⟩ := sumEntries_ok placed' found perm.subset rest summed
          exact ih queued'

theorem sumEntries_fits {maxTotal total : Nat} {queue : List HostPath} {subs : List HostNode}
    (placed : host.find output = some tree)
    (found : tree.find path = some (.dir names child)) {entries : List Text} (listed : entries ⊆ names)
    (queued : Queued output tree queue subs)
    (fits : total + (entries.map fun name => countedBytes (child name)).sum ≤ maxTotal) :
    ∃ queue' total' subs', sumEntries os host maxTotal (output ++ path) entries queue total = .ok (queue',total') ∧
      Queued output tree queue' subs' ∧
      directoriesOf subs' = directoriesOf subs + (entries.map fun name => directories (child name)).sum ∧
      total' + counted subs' = total + counted subs + (entries.map fun name => countedBytes (child name)).sum := by
  induction entries generalizing queue total subs with
  | nil => exact ⟨queue,total,subs,rfl,queued,by simp,by simp⟩
  | cons name rest ih =>
    have present : name ∈ names := listed List.mem_cons_self
    have later : rest ⊆ names := fun c member => listed (List.mem_cons_of_mem _ member)
    have below : tree.find (path ++ [name]) = some (child name) := by
      rw [Node.find_append,found]
      simp [Node.find,present]
    simp only [List.map_cons,List.sum_cons] at fits ⊢
    rw [sumEntries,entry_plain placed found present]
    have file_or_link {other : HostNode} (size : metadataLen other = countedBytes other)
        (none_below : directories other = 0)
        (fits : total + (countedBytes other + (rest.map fun name => countedBytes (child name)).sum) ≤ maxTotal) :
        ∃ queue' total' subs', (if maxTotal < total + metadataLen other then .error exceedsLimit
            else sumEntries os host maxTotal (output ++ path) rest queue (total + metadataLen other))
              = Except.ok (queue',total') ∧ Queued output tree queue' subs' ∧
          directoriesOf subs' = directoriesOf subs +
            (directories other + (rest.map fun name => directories (child name)).sum) ∧
          total' + counted subs' = total + counted subs +
            (countedBytes other + (rest.map fun name => countedBytes (child name)).sum) := by
      have room : total + metadataLen other + (rest.map fun name => countedBytes (child name)).sum ≤ maxTotal := by
        omega
      obtain ⟨queue',total',subs',goes,queued',dirs,bytes⟩ := ih later queued room
      rw [if_neg (by omega)]
      exact ⟨queue',total',subs',goes,queued',by omega,by omega⟩
    cases node : child name with
    | file data =>
      rw [node] at fits
      exact file_or_link (metadataLen_counted (file_not_dir data)) rfl fits
    | link text =>
      rw [node] at fits
      exact file_or_link (metadataLen_counted (link_not_dir text)) rfl fits
    | dir names' child' =>
      rw [node] at below
      have queued' : Queued output tree ((output ++ path ++ [name])::queue) (.dir names' child'::subs) :=
        .cons ⟨rfl,path ++ [name],by rw [List.append_assoc],below⟩ queued
      have room : total + (rest.map fun name => countedBytes (child name)).sum ≤ maxTotal := by omega
      obtain ⟨queue',total',subs',goes,queued'',dirs,bytes⟩ := ih later queued' room
      refine ⟨queue',total',subs',goes,queued'',?_,?_⟩
      · simp only [directoriesOf,List.map_cons,List.sum_cons] at dirs ⊢
        omega
      · simp only [counted,List.map_cons,List.sum_cons] at bytes ⊢
        omega

/-- With as many rounds as there are directories, and within the limit, the size
is taken. -/
theorem extractedSize_fits {maxTotal fuel total : Nat} {queue : List HostPath} {subs : List HostNode}
    (placed : host.find output = some tree)
    (queued : Queued output tree queue subs) (enough : directoriesOf subs ≤ fuel)
    (fits : total + counted subs ≤ maxTotal) :
    extractedSize os host maxTotal fuel queue total = .ok (total + counted subs) := by
  suffices taken : ∃ size, extractedSize os host maxTotal fuel queue total = .ok size by
    obtain ⟨size,taken⟩ := taken
    rw [taken,extractedSize_ok placed queued taken]
  induction fuel generalizing queue subs total with
  | zero =>
    cases queued with
    | nil => exact ⟨total,rfl⟩
    | @cons _ sub _ subs' first rest =>
      obtain ⟨dir,-⟩ := first
      cases sub with
      | file data => cases dir
      | link text => cases dir
      | dir names child => simp [directoriesOf,directories] at enough
  | succ fuel ih =>
    cases queued with
    | nil => exact ⟨total,rfl⟩
    | @cons _ sub _ subs' first rest =>
      obtain ⟨dir,path,rfl,found⟩ := first
      cases sub with
      | file data => cases dir
      | link text => cases dir
      | dir names child =>
        have perm := os.order_perm (output ++ path) names
        have entries := (perm.map fun name => countedBytes (child name)).sum_eq
        have below := (perm.map fun name => directories (child name)).sum_eq
        have whole := countedBytes_dir names child
        simp only [counted,List.map_cons,List.sum_cons] at fits
        simp only [directoriesOf,List.map_cons,List.sum_cons,directories] at enough
        have room : total + ((os.order (output ++ path) names).map fun name => countedBytes (child name)).sum ≤
            maxTotal := by omega
        obtain ⟨queue',total',subs'',summed,queued',dirs,bytes⟩ :=
          @sumEntries_fits os host tree output path names child maxTotal total _ _ placed found _
            perm.subset rest room
        rw [extractedSize,readDir_plain placed found]
        simp only [bind,Except.bind]
        rw [summed]
        apply ih queued'
        · simp only [directoriesOf] at dirs ⊢
          omega
        · simp only [counted] at bytes fits ⊢
          omega

end placed

/-! ### The size that is uploaded -/

section reach
variable (output : HostPath) (tree : HostNode) (limit : Nat)

/-- What some paths lead to within the tree, links followed: files, or directories
with their entries, and no other thing. The number counts their bytes. -/
inductive Weighs : List HostPath → Nat → Prop
  | nil : Weighs [] 0
  | file {path place data rest size} (leads : surveyed output tree limit path = .ok (some place))
      (inside : output <+: place) (found : tree.find (place.drop output.length) = some (.file data))
      (others : Weighs rest size) : Weighs (path::rest) (data.length + size)
  | dir {path place names child inner rest size} (leads : surveyed output tree limit path = .ok (some place))
      (inside : output <+: place) (found : tree.find (place.drop output.length) = some (.dir names child))
      (entries : Weighs (names.map fun name => path ++ [name]) inner) (others : Weighs rest size) :
      Weighs (path::rest) (inner + size)

/-- What the links lead to has as many bytes as their texts. -/
def LinksBalanced : Prop :=
  ∀ limit size, Weighs output tree limit ((linkPaths tree).map (output ++ ·)) size → size = linkTextBytes tree

variable {output tree limit} {paths more : List HostPath} {path : HostPath} {size : Nat} {sub : HostNode}

theorem weighs_append : Weighs output tree limit (paths ++ more) size ↔
    ∃ first second, Weighs output tree limit paths first ∧ Weighs output tree limit more second ∧
      size = first + second := by
  constructor
  · intro weighs
    induction paths generalizing size with
    | nil => exact ⟨0,size,.nil,weighs,by omega⟩
    | cons path rest ih =>
      cases weighs with
      | file leads inside found others =>
        obtain ⟨first,second,here,there,rfl⟩ := ih others
        exact ⟨_,second,.file leads inside found here,there,by omega⟩
      | dir leads inside found entries others =>
        obtain ⟨first,second,here,there,rfl⟩ := ih others
        exact ⟨_,second,.dir leads inside found entries here,there,by omega⟩
  · rintro ⟨first,second,here,there,rfl⟩
    induction here with
    | nil => simpa using there
    | file leads inside found _ ih => 
      rw [Nat.add_assoc]
      exact .file leads inside found ih
    | dir leads inside found entries _ _ ih =>
      rw [Nat.add_assoc]
      exact .dir leads inside found entries ih

/-- A place of the tree weighs what its files do, and what its links lead to. -/
theorem weighs_place (found : tree.find path = some sub) :
    Weighs output tree limit [output ++ path] size ↔
      ∃ linked, Weighs output tree limit ((linkPaths sub).map fun rest => output ++ path ++ rest) linked ∧
        size = fileBytes sub + linked := by
  induction sub generalizing path size with
  | file data =>
    have leads : surveyed output tree limit (output ++ path) = .ok (some (output ++ path)) :=
      surveyed_plain found (.inr rfl) limit
    have inside : output <+: output ++ path := List.prefix_append output path
    have here : tree.find ((output ++ path).drop output.length) = some (.file data) := by
      rw [List.drop_left,found]
    constructor
    · intro weighs
      cases weighs with
      | file leads' inside' found' others =>
        obtain rfl := Option.some.inj (Except.ok.inj (leads.symm.trans leads'))
        obtain rfl := Node.file.inj (Option.some.inj (here.symm.trans found'))
        cases others
        exact ⟨0,.nil,rfl⟩
      | dir leads' inside' found' entries others =>
        obtain rfl := Option.some.inj (Except.ok.inj (leads.symm.trans leads'))
        cases here.symm.trans found'
    · rintro ⟨linked,weighs,rfl⟩
      cases weighs
      exact .file leads inside here .nil
  | link text => simp [linkPaths,fileBytes]
  | dir names child ih =>
    have entries (listed : List Text) (some_ : listed ⊆ names) (size : Nat) :
        Weighs output tree limit (listed.map fun name => output ++ path ++ [name]) size ↔
          ∃ linked, Weighs output tree limit
              ((listed.flatMap fun name => (linkPaths (child name)).map (name :: ·)).map
                fun rest => output ++ path ++ rest) linked ∧
            size = (listed.map fun name => fileBytes (child name)).sum + linked := by
      induction listed generalizing size with
      | nil => simp
      | cons name rest inner =>
        have present : name ∈ names := some_ List.mem_cons_self
        have below : tree.find (path ++ [name]) = some (child name) := by
          rw [Node.find_append,found]
          simp [Node.find,present]
        have later := inner fun c member => some_ (List.mem_cons_of_mem _ member)
        have first (size : Nat) := @ih name (path ++ [name]) size below
        have spelled : (linkPaths (child name)).map (fun rest => output ++ (path ++ [name]) ++ rest) =
            ((linkPaths (child name)).map (name :: ·)).map fun rest => output ++ path ++ rest := by
          rw [List.map_map]
          apply List.map_congr_left
          intro rest _
          simp
        rw [spelled] at first
        rw [List.map_cons,← List.singleton_append,weighs_append,List.flatMap_cons,List.map_append]
        simp only [List.append_assoc] at first later ⊢
        simp only [weighs_append,first,later,List.map_cons,List.sum_cons]
        constructor
        · rintro ⟨_,_,⟨linked,here,rfl⟩,⟨linked',there,rfl⟩,rfl⟩
          exact ⟨linked + linked',⟨linked,linked',here,there,rfl⟩,by omega⟩
        · rintro ⟨_,⟨linked,linked',here,there,rfl⟩,rfl⟩
          exact ⟨_,_,⟨linked,here,rfl⟩,⟨linked',there,rfl⟩,by omega⟩
    have leads : surveyed output tree limit (output ++ path) = .ok (some (output ++ path)) :=
      surveyed_plain found (.inl rfl) limit
    have inside : output <+: output ++ path := List.prefix_append output path
    have here : tree.find ((output ++ path).drop output.length) = some (.dir names child) := by
      rw [List.drop_left,found]
    rw [linkPaths,fileBytes,← entries names (fun _ member => member) size]
    constructor
    · intro weighs
      cases weighs with
      | file leads' inside' found' others =>
        obtain rfl := Option.some.inj (Except.ok.inj (leads.symm.trans leads'))
        cases here.symm.trans found'
      | dir leads' inside' found' entries' others =>
        obtain rfl := Option.some.inj (Except.ok.inj (leads.symm.trans leads'))
        obtain ⟨rfl,rfl⟩ := Node.dir.inj (Option.some.inj (here.symm.trans found'))
        cases others
        exact entries'
    · intro weighs
      exact .dir leads inside here weighs .nil

end reach
end StorageHub.Compression
