import StorageHub.Compression.Staging
import StorageHub.Mounts.Transfer

/-! Uploads to a storage that may fail at every call. What a call leaves behind when it
fails is bounded by the place it was given. -/
namespace StorageHub.Compression.Native
open Library LinkTree WriteCache Scoped Mounts Effect

/-- At its own place a call may leave anything; above it directories may come to be. -/
def Alters (own : HostPath) (view view' : View) : Prop :=
  ∀ other, other ≠ own → view' other = view other ∨ (view other = none ∧ other <+: own)

/-- Nothing that is there changes. -/
def Adds (own : HostPath) (view view' : View) : Prop :=
  ∀ other, view' other = view other ∨ (view other = none ∧ other <+: own)

/-- A storage whose calls may fail or be cut short. `look` is what a state has and `place`
where a text leads. Reading changes nothing, and a call that changes the storage does so at
its own place. -/
structure CarefulStorage {σ ω : Type} (engine : UserEngine σ ω) (look : σ → View) (place : Text → HostPath) :
    Prop where
  stat text view : Keeps (fun s => look s = view) (engine.stat text)
  list text view : Keeps (fun s => look s = view) (engine.list text)
  checkQuota bytes view : Keeps (fun s => look s = view) (engine.checkQuota bytes)
  readStream text view : Meets (fun s => look s = view) (engine.readStream text)
    (fun read s => look s = view ∧ view (place text) = some (.file read.1)) (fun _ s => look s = view)
    fun s => look s = view
  exists_ text view : Meets (fun s => look s = view) (engine.exists_ text)
    (fun found s => look s = view ∧ (found = true ↔ view (place text) ≠ none)) (fun _ s => look s = view)
    fun s => look s = view
  createDirAll text view : Meets (fun s => look s = view) (engine.createDirAll text)
    (fun _ s => Adds (place text) view (look s) ∧ look s (place text) ≠ none) (fun _ s => Adds (place text) view (look s))
    fun s => Adds (place text) view (look s)
  writeStream text data view : Meets (fun s => look s = view) (engine.writeStream text data)
    (fun _ s => Alters (place text) view (look s) ∧ look s (place text) = some (.file data))
    (fun _ s => Alters (place text) view (look s)) fun s => Alters (place text) view (look s)
  delete text view : Meets (fun s => look s = view) (engine.delete text)
    (fun _ s => ∀ other, ¬ place text <+: other → look s other = view other)
    (fun _ s => ∀ other, ¬ place text <+: other → look s other = view other)
    fun s => ∀ other, ¬ place text <+: other → look s other = view other

/-! ### What is uploaded -/

/-- Where the upload of a directory to `dst` puts what lies at a path below it. -/
def uploadText (dst : Text) (path : HostPath) : Text :=
  path.foldl (fun text name => Text.trimEnd '/' text ++ '/'::name) dst

theorem uploadText_child (dst : Text) (path : HostPath) (name : Text) :
    uploadText dst (path ++ [name]) = Text.trimEnd '/' (uploadText dst path) ++ '/'::name := by
  rw [uploadText,List.foldl_append]
  rfl

/-- The paths below a directory of the host that are come to from it, through links too. -/
inductive Reached (os : Os) (host : HostNode) (base : HostPath) : HostPath → Prop
  | here : Reached os host base []
  | entry {path : HostPath} {names : List Text} {name : Text} (above : Reached os host base path)
      (dir : os.isDir host (base ++ path) = true) (read : os.readDir host (base ++ path) = some names)
      (listed : name ∈ names) : Reached os host base (path ++ [name])

/-- What is uploaded from a directory of the host: directories, and the contents of files. -/
inductive Uploaded (os : Os) (host : HostNode) (base : HostPath) : HostPath → Option Bytes → Prop
  | dir {path : HostPath} (reached : Reached os host base path) (dir : os.isDir host (base ++ path) = true) :
      Uploaded os host base path none
  | file {path : HostPath} {data : Bytes} (reached : Reached os host base path)
      (leaf : os.isDir host (base ++ path) = false) (read : os.openFile host (base ++ path) = some data) :
      Uploaded os host base path (some data)

/-- A file below a directory of the host, with the directories between them. -/
structure Lies (os : Os) (host : HostNode) (base path : HostPath) (data : Bytes) : Prop where
  leaf : os.isDir host (base ++ path) = false
  read : os.openFile host (base ++ path) = some data
  dir {above : HostPath} {name : Text} : above ++ [name] <+: path → os.isDir host (base ++ above) = true
  listed {above : HostPath} {name : Text} {names : List Text} : above ++ [name] <+: path →
    os.readDir host (base ++ above) = some names → name ∈ names

/-- Where the files that are wanted are to be put, nothing else is put, and nothing else is
left there when what is there is not replaced. The archive is apart from all of them. -/
structure Unmixed (place : Text → HostPath) (dst : Text) (overwrite : Bool) (view : View) (arch : HostPath)
    (wanted : HostPath → Bytes → Prop) (uploaded : HostPath → Option Bytes → Prop) : Prop where
  alike {p q : HostPath} {data data' : Bytes} : wanted p data → uploaded q (some data') →
    place (uploadText dst p) = place (uploadText dst q) → data' = data
  free {p : HostPath} {data : Bytes} : overwrite = false → wanted p data →
    view (place (uploadText dst p)) = none ∨ view (place (uploadText dst p)) = some (.file data)
  clear {p q : HostPath} {data : Bytes} {content : Option Bytes} : overwrite = false → wanted p data →
    uploaded q content → place (uploadText dst p) <+: place (uploadText dst q) →
    content ≠ none ∧ place (uploadText dst p) = place (uploadText dst q)
  spared {q : HostPath} {data' : Bytes} : overwrite = true → uploaded q (some data') →
    place (uploadText dst q) ≠ arch
  outside {p : HostPath} {data : Bytes} : wanted p data → ¬ arch <+: place (uploadText dst p)
  above : ¬ arch <+: place dst

section uploads
variable {σ ω : Type} {engine : UserEngine σ ω} {look : σ → View} {place : Text → HostPath} {os : Os} {host : HostNode}
  {base arch q : HostPath} {dst : Text} {overwrite : Bool} {view : View} {archive data : Bytes} {s s' : σ}
  {wanted : HostPath → Bytes → Prop} {uploaded : HostPath → Option Bytes → Prop} {fuel : Nat}
  {finished shown : Set HostPath}

/-- How far an upload has come: the archive is there, the files that are finished are in the
storage, and the places of the others can still be filled. -/
structure Carried (look : σ → View) (place : Text → HostPath) (dst : Text) (overwrite : Bool) (arch : HostPath)
    (archive : Bytes) (wanted : HostPath → Bytes → Prop) (finished shown : Set HostPath) (s : σ) : Prop where
  archive : look s arch = some (.file archive)
  stored {p : HostPath} {data : Bytes} : wanted p data → p ∈ finished →
    look s (place (uploadText dst p)) = some (.file data)
  free {p : HostPath} {data : Bytes} : overwrite = false → wanted p data →
    look s (place (uploadText dst p)) = none ∨ look s (place (uploadText dst p)) = some (.file data)
  seen {path : HostPath} : path ∈ shown → look s path ≠ none

theorem Adds.keeps {own other : HostPath} {view view' : View} (added : Adds own view view') (there : view other ≠ none) :
    view' other = view other :=
  (added other).resolve_right fun new => there new.1

theorem Alters.keeps {own other : HostPath} {view view' : View} (altered : Alters own view view')
    (there : view other ≠ none) (apart : other ≠ own) : view' other = view other :=
  (altered other apart).resolve_right fun new => there new.1

theorem Carried.congr (carried : Carried look place dst overwrite arch archive wanted finished shown s)
    (same : look s' = look s) : Carried look place dst overwrite arch archive wanted finished shown s' := by
  constructor
  · rw [same,carried.archive]
  · intro p data want member
    rw [same,carried.stored want member]
  · intro p data keep want
    rw [same]
    exact carried.free keep want
  · intro path member
    rw [same]
    exact carried.seen member

/-- A directory that is uploaded disturbs nothing. -/
theorem Carried.of_adds (unmixed : Unmixed place dst overwrite view arch wanted uploaded)
    (carried : Carried look place dst overwrite arch archive wanted finished shown s) (up : uploaded q none)
    (added : Adds (place (uploadText dst q)) (look s) (look s')) :
    Carried look place dst overwrite arch archive wanted finished shown s' := by
  have kept {other : HostPath} {shape : Shape Bytes Text} (there : look s other = some shape) :
      look s' other = some shape := by
    rw [added.keeps (by rw [there]; exact Option.some_ne_none _),there]
  constructor
  · exact kept carried.archive
  · exact fun want member => kept (carried.stored want member)
  · intro p data keep want
    rcases carried.free keep want with free | there
    · left
      rcases added (place (uploadText dst p)) with same | ⟨-,within⟩
      · rw [same,free]
      · exact absurd rfl (unmixed.clear keep want up within).1
    · exact .inr (kept there)
  · intro path member
    rw [added.keeps (carried.seen member)]
    exact carried.seen member

/-- A file that is uploaded is there, and nothing else is disturbed. -/
theorem Carried.of_write (unmixed : Unmixed place dst overwrite view arch wanted uploaded)
    (carried : Carried look place dst overwrite arch archive wanted finished shown s) (up : uploaded q (some data))
    (made : overwrite = true ∨ look s (place (uploadText dst q)) = none)
    (altered : Alters (place (uploadText dst q)) (look s) (look s'))
    (written : look s' (place (uploadText dst q)) = some (.file data)) :
    Carried look place dst overwrite arch archive wanted finished shown s' := by
  have apart : arch ≠ place (uploadText dst q) := by
    rintro rfl
    rcases made with replace | free
    · exact unmixed.spared replace up rfl
    · rw [carried.archive] at free
      cases free
  have kept {other : HostPath} {shape : Shape Bytes Text} (there : look s other = some shape)
      (differ : other ≠ place (uploadText dst q)) : look s' other = some shape := by
    rw [altered.keeps (by rw [there]; exact Option.some_ne_none _) differ,there]
  constructor
  · exact kept carried.archive apart
  · intro p data' want member
    by_cases same : place (uploadText dst p) = place (uploadText dst q)
    · rw [same,written,unmixed.alike want up same]
    · exact kept (carried.stored want member) same
  · intro p data' keep want
    by_cases same : place (uploadText dst p) = place (uploadText dst q)
    · right
      rw [same,written,unmixed.alike want up same]
    · rcases carried.free keep want with free | there
      · left
        rcases altered (place (uploadText dst p)) same with equal | ⟨-,within⟩
        · rw [equal,free]
        · exact absurd (unmixed.clear keep want up within).2 same
      · exact .inr (kept there same)
  · intro path member
    by_cases same : path = place (uploadText dst q)
    · rw [same,written]
      exact Option.some_ne_none _
    · rw [altered.keeps (carried.seen member) same]
      exact carried.seen member

/-- A write that fails leaves the archive. -/
theorem Carried.archive_left (unmixed : Unmixed place dst overwrite view arch wanted uploaded)
    (carried : Carried look place dst overwrite arch archive wanted finished shown s) (up : uploaded q (some data))
    (made : overwrite = true ∨ look s (place (uploadText dst q)) = none)
    (altered : Alters (place (uploadText dst q)) (look s) (look s')) : look s' arch = some (.file archive) := by
  have there : look s arch ≠ none := by rw [carried.archive]; exact Option.some_ne_none _
  rw [altered.keeps there,carried.archive]
  rintro rfl
  rcases made with replace | free
  · exact unmixed.spared replace up rfl
  · exact there free

/-- The archive as it was. -/
def Still (look : σ → View) (arch : HostPath) (archive : Bytes) (s : σ) : Prop := look s arch = some (.file archive)

/-- A call that is specified for every view meets, from a state of an upload, what follows
of its view. -/
theorem meets_of_views {α : Type} {P : σ → Prop} {m : Effect σ ω VfsError α} {V : View → α → σ → Prop}
    {F : View → VfsError → σ → Prop} {G : View → σ → Prop} {Q : α → σ → Prop} {E : VfsError → σ → Prop} {C : σ → Prop}
    (met : ∀ view, Meets (fun s => look s = view) m (V view) (F view) (G view))
    (onDone : ∀ s a s', P s → V (look s) a s' → Q a s') (onFail : ∀ s e s', P s → F (look s) e s' → E e s')
    (onCrash : ∀ s s', P s → G (look s) s' → C s') : Meets P m Q E C := by
  intro s cs holds
  have result := met (look s) s cs rfl
  cases outcome : m s cs with
  | done a s' rest => rw [outcome] at result; exact onDone s a s' holds result
  | failed e s' rest => rw [outcome] at result; exact onFail s e s' holds result
  | crashed s' => rw [outcome] at result; exact onCrash s s' holds result

theorem Carried.weaken {finished' shown' : Set HostPath}
    (carried : Carried look place dst overwrite arch archive wanted finished shown s)
    (less : ∀ p data, wanted p data → p ∈ finished' → p ∈ finished) (fewer : shown' ⊆ shown) :
    Carried look place dst overwrite arch archive wanted finished' shown' s :=
  ⟨carried.archive,fun want member => carried.stored want (less _ _ want member),carried.free,
    fun member => carried.seen (fewer member)⟩

theorem Carried.show (carried : Carried look place dst overwrite arch archive wanted finished shown s) {path : HostPath}
    (there : look s path ≠ none) :
    Carried look place dst overwrite arch archive wanted finished (insert path shown) s := by
  refine ⟨carried.archive,carried.stored,carried.free,?_⟩
  intro other member
  rcases Set.mem_insert_iff.mp member with rfl | before
  · exact there
  · exact carried.seen before

theorem Carried.finish (carried : Carried look place dst overwrite arch archive wanted finished shown s)
    {more : Set HostPath}
    (there : ∀ p data, wanted p data → p ∈ more → look s (place (uploadText dst p)) = some (.file data)) :
    Carried look place dst overwrite arch archive wanted (finished ∪ more) shown s := by
  refine ⟨carried.archive,?_,carried.free,carried.seen⟩
  intro p data want member
  exact member.elim (carried.stored want) (there p data want)

/-! ### The run of an upload -/

theorem ensureDir_meets (storage : CarefulStorage engine look place)
    (unmixed : Unmixed place dst overwrite view arch wanted uploaded) (up : uploaded q none) :
    Meets (Carried look place dst overwrite arch archive wanted finished shown)
      (ensureDir engine.toVfsStorage (uploadText dst q))
      (fun _ => Carried look place dst overwrite arch archive wanted finished
        (insert (place (uploadText dst q)) shown))
      (fun _ => Still look arch archive) (Still look arch archive) := by
  have begun := meets_of_views (P := Carried look place dst overwrite arch archive wanted finished shown)
    (Q := fun found s => Carried look place dst overwrite arch archive wanted finished shown s ∧
      (found = true → look s (place (uploadText dst q)) ≠ none))
    (E := fun _ => Still look arch archive) (C := Still look arch archive)
    (storage.exists_ (uploadText dst q)) ?_ ?_ ?_
  · apply begun.bind
    intro found
    cases found with
    | true =>
      rw [if_pos rfl]
      exact Meets.pure fun s holds => holds.1.show (holds.2 rfl)
    | false =>
      rw [if_neg Bool.false_ne_true]
      have made := meets_of_views (P := Carried look place dst overwrite arch archive wanted finished shown)
        (Q := fun _ => Carried look place dst overwrite arch archive wanted finished
          (insert (place (uploadText dst q)) shown))
        (E := fun _ => Still look arch archive) (C := Still look arch archive)
        (storage.createDirAll (uploadText dst q))
        (fun s _ s' carried added => (carried.of_adds unmixed up added.1).show added.2)
        (fun s _ s' carried added => (carried.of_adds unmixed up added).archive)
        (fun s s' carried added => (carried.of_adds unmixed up added).archive)
      apply (made.consequence (fun s holds => holds.1) (fun _ _ holds => holds) (fun _ _ holds => holds)
        fun _ holds => holds).bind
      intro _
      exact Meets.pure fun s holds => holds
  · intro s found s' carried same
    exact ⟨carried.congr same.1,fun there => by rw [same.1]; exact same.2.mp there⟩
  · intro s _ s' carried same
    exact (carried.congr same).archive
  · intro s s' carried same
    exact (carried.congr same).archive

/-- What is known once it is asked whether a file is there that must not be replaced. -/
theorem keepsPresent_meets (storage : CarefulStorage engine look place) (text : Text) :
    Meets (Carried look place dst overwrite arch archive wanted finished shown)
      (keepsPresent engine.toVfsStorage overwrite text)
      (fun present s => Carried look place dst overwrite arch archive wanted finished shown s ∧
        (present = true → overwrite = false ∧ look s (place text) ≠ none) ∧
        (present = false → overwrite = true ∨ look s (place text) = none))
      (fun _ => Still look arch archive) (Still look arch archive) := by
  cases overwrite with
  | true =>
    apply Meets.pure
    intro s carried
    exact ⟨carried,(fun impossible => by cases impossible),fun _ => .inl rfl⟩
  | false =>
    apply meets_of_views (storage.exists_ text)
    · intro s found s' carried same
      refine ⟨carried.congr same.1,fun there => ⟨rfl,?_⟩,fun absent => .inr ?_⟩
      · rw [same.1]
        exact same.2.mp there
      · rw [same.1]
        by_contra there
        rw [same.2.mpr there] at absent
        cases absent
    · intro s _ s' carried same
      exact (carried.congr same).archive
    · intro s s' carried same
      exact (carried.congr same).archive

/-- The upload of a file. -/
theorem copyLeaf_meets (storage : CarefulStorage engine look place)
    (unmixed : Unmixed place dst overwrite view arch wanted (Uploaded os host base))
    (lies : ∀ p data, wanted p data → Lies os host base p data) (reached : Reached os host base q)
    (leaf : os.isDir host (base ++ q) = false) :
    Meets (Carried look place dst overwrite arch archive wanted finished shown)
      (copyFromLocalTemp os host engine.toVfsStorage overwrite (fuel + 1) (base ++ q) (uploadText dst q))
      (fun _ => Carried look place dst overwrite arch archive wanted (finished ∪ {p | q <+: p})
        (insert (place (uploadText dst q)) shown))
      (fun _ => Still look arch archive) (Still look arch archive) := by
  -- a file that is wanted here or further on is this one
  have here {p : HostPath} {data : Bytes} (want : wanted p data) (within : q <+: p) : p = q := by
    obtain ⟨rest,rfl⟩ := within
    cases rest with
    | nil => exact List.append_nil q
    | cons name later =>
      have inner : q ++ [name] <+: q ++ name::later := ⟨later,by rw [List.append_assoc]; rfl⟩
      have dir := (lies _ _ want).dir inner
      rw [leaf] at dir
      cases dir
  rw [copyFromLocalTemp,leaf,if_neg Bool.false_ne_true]
  apply (keepsPresent_meets storage (uploadText dst q)).bind
  intro present
  cases present with
  | true =>
    rw [if_pos rfl]
    apply Meets.pure
    rintro s ⟨carried,known,-⟩
    obtain ⟨keep,there⟩ := known rfl
    apply (carried.finish ?_).show there
    intro p data want within
    have same := here want within
    rw [same] at want ⊢
    exact (carried.free keep want).resolve_left there
  | false =>
    rw [if_neg Bool.false_ne_true]
    cases read : os.openFile host (base ++ q) with
    | none =>
      apply Meets.fail
      intro s holds
      exact holds.1.archive
    | some data =>
      dsimp only
      have up : Uploaded os host base q (some data) := .file reached leaf read
      have wrote := meets_of_views
        (P := fun s => Carried look place dst overwrite arch archive wanted finished shown s ∧
          (overwrite = true ∨ look s (place (uploadText dst q)) = none))
        (Q := fun _ => Carried look place dst overwrite arch archive wanted (finished ∪ {p | q <+: p})
          (insert (place (uploadText dst q)) shown))
        (E := fun _ => Still look arch archive) (C := Still look arch archive)
        (storage.writeStream (uploadText dst q) data) ?_
        (fun s _ s' holds altered => holds.1.archive_left unmixed up holds.2 altered)
        (fun s s' holds altered => holds.1.archive_left unmixed up holds.2 altered)
      · apply (wrote.consequence (fun s holds => ⟨holds.1,holds.2.2 rfl⟩) (fun _ _ holds => holds)
          (fun _ _ holds => holds) fun _ holds => holds).bind
        intro _
        exact Meets.pure fun s holds => holds
      · intro s _ s' holds done
        have carried := holds.1.of_write unmixed up holds.2 done.1 done.2
        have there : look s' (place (uploadText dst q)) ≠ none := by rw [done.2]; exact Option.some_ne_none _
        apply (carried.finish ?_).show there
        intro p data' want within
        have lying := (lies _ _ want).read
        rw [here want within] at lying ⊢
        rw [read] at lying
        rw [done.2,Option.some.inj lying]

/-- An upload that ends well has stored every wanted file, and one that does not has left
the archive. -/
theorem copyFromLocalTemp_meets (storage : CarefulStorage engine look place)
    (unmixed : Unmixed place dst overwrite view arch wanted (Uploaded os host base))
    (lies : ∀ p data, wanted p data → Lies os host base p data) (reached : Reached os host base q) :
    Meets (Carried look place dst overwrite arch archive wanted finished shown)
      (copyFromLocalTemp os host engine.toVfsStorage overwrite fuel (base ++ q) (uploadText dst q))
      (fun _ => Carried look place dst overwrite arch archive wanted (finished ∪ {p | q <+: p})
        (insert (place (uploadText dst q)) shown))
      (fun _ => Still look arch archive) (Still look arch archive) := by
  induction fuel generalizing q finished shown with
  | zero => exact Meets.fail fun s carried => carried.archive
  | succ fuel ih =>
    by_cases dir : os.isDir host (base ++ q) = true
    · rw [copyFromLocalTemp,if_pos dir]
      apply (ensureDir_meets storage unmixed (.dir reached dir)).bind
      intro _
      cases read : os.readDir host (base ++ q) with
      | none => exact Meets.fail fun s carried => carried.archive
      | some names =>
        dsimp only
        -- what lies below the entries that are worked off is finished
        let behind (left : List Text) : Set HostPath := {p | ∃ name ∈ names, name ∉ left ∧ q ++ [name] <+: p}
        have loop := @meets_forEach σ ω (Still look arch archive) Text
          (fun name => copyFromLocalTemp os host engine.toVfsStorage overwrite fuel (base ++ q ++ [name])
            (Text.trimEnd '/' (uploadText dst q) ++ '/'::name))
          (fun left => Carried look place dst overwrite arch archive wanted (finished ∪ behind left)
            (insert (place (uploadText dst q)) shown))
          (fun _ => Still look arch archive) names ?_
        · apply loop.consequence
          · intro s carried
            apply carried.weaken _ subset_rfl
            intro p data want member
            rcases member with before | ⟨name,listed,left,-⟩
            · exact before
            · exact absurd listed left
          · intro _ s carried
            apply carried.weaken _ subset_rfl
            intro p data want member
            rcases member with before | within
            · exact .inl before
            · obtain ⟨rest,rfl⟩ := within
              have lying := lies _ _ want
              cases rest with
              | nil =>
                have leaf := lying.leaf
                rw [List.append_nil,dir] at leaf
                cases leaf
              | cons name later =>
                have below : q ++ [name] <+: q ++ name::later := ⟨later,by rw [List.append_assoc]; rfl⟩
                exact .inr ⟨name,lying.listed below read,List.not_mem_nil,below⟩
          · exact fun _ _ holds => holds
          · exact fun _ holds => holds
        · intro name rest listed
          rw [List.append_assoc,← uploadText_child]
          apply (ih (.entry reached dir read listed)).consequence
          · exact fun _ carried => carried
          · intro _ s carried
            apply carried.weaken _ (Set.subset_insert _ _)
            intro p data want member
            rcases member with before | ⟨other,inside,left,within⟩
            · exact .inl (.inl before)
            · by_cases same : other = name
              · rw [same] at within
                exact .inr within
              · refine .inl (.inr ⟨other,inside,?_,within⟩)
                intro again
                rcases List.mem_cons.mp again with equal | later
                · exact same equal
                · exact left later
          · exact fun _ _ holds => holds
          · exact fun _ holds => holds
    · exact copyLeaf_meets storage unmixed lies reached (Bool.eq_false_iff.mpr dir)

end uploads
end StorageHub.Compression.Native
