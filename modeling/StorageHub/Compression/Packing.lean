import StorageHub.Compression.Staging

/-! What the walks over a staged tree come to, and what an archive of it holds. -/
namespace StorageHub.Compression.Native
open Library LinkTree WriteCache Scoped Mounts Effect

abbrev Member := HostPath × Shape Bytes Text

/-! ### Walks -/

section walks
variable {os : Os} {host t : HostNode} {output path : HostPath} {names : List Text} {child : Text → HostNode}
  {β : Type} {visit : HostPath → Text → Except TaskError (Bool × β)} {g : Member → β}

def under (dir : HostPath) (members : List Member) : List Member := members.map fun member => (dir ++ member.1,member.2)

/-- What some entries of a directory bring: themselves and what lies below them. -/
def brought (path : HostPath) (child : Text → HostNode) (entries : List Text) : List Member :=
  entries.flatMap fun name => (path ++ [name],(child name).shape)::under (path ++ [name]) (child name).members

theorem under_dir (path : HostPath) (names : List Text) (child : Text → HostNode) :
    under path (Node.dir names child).members = brought path child names := by
  unfold under brought
  rw [Node.members,List.map_flatMap]
  congr 1
  funext name
  rw [List.map_cons,List.map_map]
  simp [under]

/-- The directories of a queue, by their paths in the tree. -/
structure Waiting (t : HostNode) (items : List (HostPath × HostNode)) : Prop where
  found {item} : item ∈ items → t.find item.1 = some item.2
  dirs {item} : item ∈ items → item.2.kind = .dir

def queueOf (output : HostPath) (items : List (HostPath × HostNode)) : List HostPath :=
  items.map fun item => output ++ item.1

def gathered (items : List (HostPath × HostNode)) : List Member :=
  items.flatMap fun item => under item.1 item.2.members

def dirsOf (items : List (HostPath × HostNode)) : Nat := (items.map fun item => directories item.2).sum

/-- Visits tell of each entry whether it is a directory, and what it gives. -/
def Visits (t : HostNode) (output : HostPath) (visit : HostPath → Text → Except TaskError (Bool × β))
    (g : Member → β) : Prop :=
  ∀ path names child, t.find path = some (.dir names child) → ∀ name ∈ names,
    visit (output ++ path) name = .ok ((child name).kind == .dir,g (path ++ [name],(child name).shape))

theorem brought_cons (path : HostPath) (child : Text → HostNode) (name : Text) (rest : List Text) :
    brought path child (name::rest) =
      (path ++ [name],(child name).shape)::(under (path ++ [name]) (child name).members ++ brought path child rest) :=
  rfl

theorem gathered_cons (path : HostPath) (sub : HostNode) (items : List (HostPath × HostNode)) :
    gathered ((path,sub)::items) = under path sub.members ++ gathered items := rfl

theorem dirsOf_cons (path : HostPath) (sub : HostNode) (items : List (HostPath × HostNode)) :
    dirsOf ((path,sub)::items) = directories sub + dirsOf items := rfl

/-- Only directories have members. -/
theorem leaf_bare {node : HostNode} (leaf : node.kind ≠ .dir) : node.members = [] ∧ directories node = 0 := by
  cases node with
  | file data => exact ⟨rfl,rfl⟩
  | link text => exact ⟨rfl,rfl⟩
  | dir names child => exact absurd rfl leaf

theorem visitEntries_brings (visits : Visits t output visit g) (found : t.find path = some (.dir names child))
    {entries : List Text} (listed : entries ⊆ names) {items : List (HostPath × HostNode)} (waiting : Waiting t items) :
    ∃ items' seen, visitEntries visit (output ++ path) entries (queueOf output items) =
        .ok (queueOf output items',seen) ∧ Waiting t items' ∧
      (seen ++ (gathered items').map g).Perm ((brought path child entries ++ gathered items).map g) ∧
      dirsOf items' = dirsOf items + (entries.map fun name => directories (child name)).sum := by
  induction entries generalizing items with
  | nil => exact ⟨items,[],rfl,waiting,List.Perm.refl _,rfl⟩
  | cons name rest ih =>
    have present : name ∈ names := listed List.mem_cons_self
    have later : rest ⊆ names := fun c member => listed (List.mem_cons_of_mem _ member)
    have below : t.find (path ++ [name]) = some (child name) := by
      rw [Node.find_append,found]
      simp [Node.find,present]
    rw [visitEntries,visits path names child found name present]
    simp only [bind,Except.bind]
    cases dir : (child name).kind == .dir with
    | true =>
      have kind := eq_of_beq dir
      have waiting' : Waiting t ((path ++ [name],child name)::items) := by
        constructor
        · intro item member
          rcases List.mem_cons.mp member with rfl | old
          · exact below
          · exact waiting.found old
        · intro item member
          rcases List.mem_cons.mp member with rfl | old
          · exact kind
          · exact waiting.dirs old
      obtain ⟨items',seen,visited,fine,perm,dirs⟩ := ih later waiting'
      refine ⟨items',g (path ++ [name],(child name).shape)::seen,?_,fine,?_,?_⟩
      · rw [if_pos rfl,List.append_assoc]
        rw [queueOf,List.map_cons] at visited
        rw [queueOf,visited]
      · rw [brought_cons,List.cons_append,List.cons_append,List.map_cons]
        rw [gathered_cons] at perm
        apply (perm.trans _).cons
        rw [List.append_assoc]
        exact List.perm_append_comm_assoc _ _ _ |>.map g
      · rw [dirs,dirsOf_cons,List.map_cons,List.sum_cons]
        omega
    | false =>
      have bare := leaf_bare (ne_of_beq_false dir)
      obtain ⟨items',seen,visited,fine,perm,dirs⟩ := ih later waiting
      refine ⟨items',g (path ++ [name],(child name).shape)::seen,?_,fine,?_,?_⟩
      · rw [if_neg Bool.false_ne_true,visited]
      · rw [brought_cons,bare.1,List.cons_append,List.cons_append,List.map_cons]
        exact perm.cons _
      · rw [dirs,List.map_cons,List.sum_cons,bare.2]
        omega

/-- The walk comes to every member of the directories of the queue. -/
theorem walk_gathers (visits : Visits t output visit g) {fuel : Nat} {items : List (HostPath × HostNode)}
    (placed : host.find output = some t) (waiting : Waiting t items) (enough : dirsOf items ≤ fuel) :
    ∃ seen, walk os host visit fuel (queueOf output items) = .ok seen ∧ seen.Perm ((gathered items).map g) := by
  induction fuel generalizing items with
  | zero =>
    cases items with
    | nil => exact ⟨[],rfl,List.Perm.refl _⟩
    | cons item rest =>
      obtain ⟨path,sub⟩ := item
      have dir := waiting.dirs List.mem_cons_self
      cases sub with
      | file data => cases dir
      | link text => cases dir
      | dir names child => simp [dirsOf,directories] at enough
  | succ fuel ih =>
    cases items with
    | nil => exact ⟨[],rfl,List.Perm.refl _⟩
    | cons item rest =>
      obtain ⟨path,sub⟩ := item
      have found := waiting.found List.mem_cons_self
      have dir := waiting.dirs List.mem_cons_self
      cases sub with
      | file data => cases dir
      | link text => cases dir
      | dir names child =>
        have others : Waiting t rest :=
          ⟨fun member => waiting.found (List.mem_cons_of_mem _ member),
            fun member => waiting.dirs (List.mem_cons_of_mem _ member)⟩
        have order := os.order_perm (output ++ path) names
        obtain ⟨items',seen,visited,waiting',perm,dirs⟩ := visitEntries_brings visits found order.subset others
        have counts := (order.map fun name => directories (child name)).sum_eq
        have fits : dirsOf items' ≤ fuel := by
          rw [dirsOf_cons,directories] at enough
          omega
        obtain ⟨later,walked,perm'⟩ := ih waiting' fits
        refine ⟨seen ++ later,?_,?_⟩
        · rw [queueOf,List.map_cons,walk,readDir_plain placed found]
          simp only [bind,Except.bind]
          rw [queueOf] at visited
          rw [visited]
          dsimp only
          rw [walked]
        · rw [gathered_cons,under_dir]
          apply (perm'.append_left seen).trans (perm.trans _)
          apply List.Perm.map
          exact (order.flatMap_right _).append_right _

/-- A walk of a directory comes to its members. -/
theorem walk_members (visits : Visits t output visit g) {fuel : Nat} (placed : host.find output = some t)
    (dir : t.kind = .dir) (enough : directories t ≤ fuel) :
    ∃ seen, walk os host visit fuel [output] = .ok seen ∧ seen.Perm (t.members.map g) := by
  have waiting : Waiting t [([],t)] := by
    constructor
    · intro item member
      rw [List.mem_singleton.mp member]
      exact Node.find_nil
    · intro item member
      rw [List.mem_singleton.mp member]
      exact dir
  obtain ⟨seen,walked,perm⟩ := @walk_gathers os host t output β visit g visits fuel _ placed waiting
    (by simpa [dirsOf] using enough)
  refine ⟨seen,?_,?_⟩
  · simpa [queueOf] using walked
  · simpa [gathered,under] using perm

end walks

/-! ### What is counted -/

section counts
variable {t t' : HostNode}

def shapeBytes : Shape Bytes Text → Nat
  | .file data => data.length
  | .link text => Text.byteLength text
  | .dir => 0

def shapeDirs : Shape Bytes Text → Nat
  | .file _ | .link _ => 0
  | .dir => 1

theorem directories_members (t : HostNode) :
    directories t = shapeDirs t.shape + (t.members.map fun member => shapeDirs member.2).sum :=
  Node.sum_members (fun _ => rfl) (fun _ => rfl) (fun _ _ => rfl) t

theorem countedBytes_members (t : HostNode) :
    countedBytes t = shapeBytes t.shape + (t.members.map fun member => shapeBytes member.2).sum := by
  apply Node.sum_members
  · intro data
    simp [countedBytes,fileBytes,linkTextBytes,shapeBytes]
  · intro text
    simp [countedBytes,fileBytes,linkTextBytes,shapeBytes]
  · intro names child
    rw [countedBytes_dir,shapeBytes,Nat.zero_add]

/-- Trees that are seen alike have as many bytes and directories. -/
theorem counts_alike (whole : t.Distinct) (whole' : t'.Distinct) (same : ∀ path, t.look path = t'.look path) :
    countedBytes t = countedBytes t' ∧ directories t = directories t' := by
  have perm := Node.members_perm whole whole' same
  have root := same []
  rw [Node.look_nil,Node.look_nil] at root
  have shapes := Option.some.inj root
  rw [countedBytes_members,countedBytes_members t',directories_members,directories_members t',shapes,
    (perm.map fun member => shapeBytes member.2).sum_eq,
    (perm.map fun member => shapeDirs member.2).sum_eq]
  exact ⟨rfl,rfl⟩

theorem linkTextBytes_unlinked (unlinked : ∀ path text, t.find path ≠ some (.link text)) : linkTextBytes t = 0 := by
  induction t with
  | file data => rfl
  | link text => exact absurd Node.find_nil (unlinked [] text)
  | dir names child ih =>
    rw [linkTextBytes,List.sum_eq_zero]
    intro bytes member
    obtain ⟨name,listed,rfl⟩ := List.mem_map.mp member
    apply ih name
    intro path text found
    apply unlinked (name::path) text
    rw [Node.find,if_pos listed,found]

/-- How many items a source counts as. -/
def itemsOf : HostNode → Nat
  | .file _ | .link _ => 1
  | .dir names child => (Node.dir names child).members.length

theorem items_alike (whole : t.Distinct) (whole' : t'.Distinct) (same : ∀ path, t.look path = t'.look path) :
    itemsOf t = itemsOf t' := by
  have root := same []
  rw [Node.look_nil,Node.look_nil] at root
  have shapes := Option.some.inj root
  have lengths := (Node.members_perm whole whole' same).length_eq
  cases t with
  | dir names child =>
    cases t' with
    | dir names' child' => exact lengths
    | file data => cases shapes
    | link text => cases shapes
  | file data =>
    cases t' with
    | dir names' child' => cases shapes
    | file data => rfl
    | link text => rfl
  | link text =>
    cases t' with
    | dir names' child' => cases shapes
    | file data => rfl
    | link text => rfl

variable {os : Os} {host : HostNode} {path : HostPath}

theorem visitSize_visits (os : Os) (placed : host.find path = some t) :
    Visits t path (visitSize os host) fun member => shapeBytes member.2 := by
  intro inner names child found name listed
  rw [visitSize,entry_plain placed found listed]
  cases child name with
  | file data => rfl
  | link text => rfl
  | dir names child => rfl

theorem isDir_placed (os : Os) (placed : host.find path = some t) (unlinked : ∀ text, t ≠ .link text) :
    os.isDir host path = (t.kind == .dir) := by
  have plain : t.kind = .dir ∨ t.kind = .file := by
    cases t with
    | file data => exact .inr rfl
    | link text => exact absurd rfl (unlinked text)
    | dir names child => exact .inl rfl
  have resolved := @resolved_plain os host t t path [] placed Node.find_nil plain
  rw [List.append_nil] at resolved
  rw [isDir_found,resolved,Option.bind_some,placed]
  cases t with
  | file data => rfl
  | link text => rfl
  | dir names child => rfl

theorem openFile_placed (os : Os) {data : Bytes} (placed : host.find path = some (.file data)) :
    os.openFile host path = some data := by
  have resolved := @resolved_plain os host (.file data) (.file data) path [] placed Node.find_nil (.inr rfl)
  rw [List.append_nil] at resolved
  rw [Os.openFile,resolved,Option.bind_some,placed]

/-- The summary of a staged source. -/
theorem summarizeLocalPath_ok {fuel : Nat} (placed : host.find path = some t) (unlinked : ∀ text, t ≠ .link text)
    (enough : directories t ≤ fuel) :
    summarizeLocalPath os host fuel path = .ok (itemsOf t,countedBytes t) := by
  rw [summarizeLocalPath,isDir_placed os placed unlinked]
  cases t with
  | link text => exact absurd rfl (unlinked text)
  | file data =>
    rw [openFile_placed os placed]
    simp [Node.kind,itemsOf,countedBytes,fileBytes,linkTextBytes]
  | dir names child =>
    obtain ⟨seen,walked,perm⟩ := walk_members (visitSize_visits os placed) placed rfl enough
    have sums := perm.sum_eq
    have sizes := perm.length_eq
    rw [List.length_map] at sizes
    rw [if_pos (by rfl),walked]
    simp only [bind,Except.bind]
    rw [sums,sizes,countedBytes_members,Node.shape,shapeBytes,Nat.zero_add]
    rfl

end counts

/-! ### Zip archives -/

def memberName (path : HostPath) : Text := withSlashes (['/'].intercalate path)

/-- The entry of a member in a zip archive. -/
def entryOf : Member → ZipEntry
  | (path,.dir) => .directory (memberName path)
  | (path,.file data) => ⟨memberName path,data⟩
  | (path,.link _) => ⟨memberName path,[]⟩

section zips
variable {os : Os} {host t : HostNode} {path : HostPath}

theorem visitZip_visits (placed : host.find path = some t) (unlinked : ∀ path text, t.find path ≠ some (.link text)) :
    Visits t path (visitZip os host path) entryOf := by
  intro inner names child found name listed
  have below : t.find (inner ++ [name]) = some (child name) := by
    rw [Node.find_append,found]
    simp [Node.find,listed]
  have placed' : host.find (path ++ inner ++ [name]) = some (child name) := by
    rw [List.append_assoc,find_placed placed,below]
  have spelled : zipName path (path ++ inner ++ [name]) = memberName (inner ++ [name]) := by
    rw [zipName,List.append_assoc,List.drop_left,memberName]
  have plain : ∀ text, child name ≠ .link text := fun text same => unlinked _ text (by rw [below,same])
  rw [visitZip,isDir_placed os placed' plain,spelled]
  cases node : child name with
  | link text => exact absurd node (plain text)
  | file data =>
    rw [node] at placed'
    rw [openFile_placed os placed']
    rfl
  | dir names child => rfl

/-- The archive of a directory has an entry for each member. -/
theorem compressZipNative_packs (codecs : Codecs) {fuel : Nat} (opts : CompressionOptions)
    (placed : host.find path = some t) (unlinked : ∀ path text, t.find path ≠ some (.link text)) (dir : t.kind = .dir)
    (enough : directories t ≤ fuel) :
    ∃ entries, entries.Perm (t.members.map entryOf) ∧
      compressZipNative codecs host fuel opts path = codecs.zipWrite opts.password entries := by
  obtain ⟨entries,walked,perm⟩ := walk_members (@visitZip_visits codecs.os host t path placed unlinked) placed dir enough
  refine ⟨entries,perm,?_⟩
  rw [compressZipNative,walked]
  rfl

/-- A file has no entries to walk over. -/
theorem compressZipNative_file (codecs : Codecs) (fuel : Nat) (opts : CompressionOptions) {data : Bytes}
    (placed : host.find path = some (.file data)) :
    ∃ error, compressZipNative codecs host fuel opts path = .error error := by
  cases fuel with
  | zero => exact ⟨_,rfl⟩
  | succ fuel =>
    have resolved := @resolved_plain codecs.os host (.file data) (.file data) path [] placed Node.find_nil (.inr rfl)
    rw [List.append_nil] at resolved
    have closed : codecs.os.readDir host path = none := by
      rw [Os.readDir,resolved,Option.bind_some,placed]
    refine ⟨.vfs ioError,?_⟩
    rw [compressZipNative,walk,closed]
    rfl

end zips
end StorageHub.Compression.Native
