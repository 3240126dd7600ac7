import StorageHub.Mounts.PoolSide

/-! Two pools, each one a side with the other beside it. -/
namespace StorageHub.Mounts
open Library WriteCache Paths Scoped Effect

section parts
variable {σ τ ω : Type}

/-- A storage whose state is a part of another one. -/
def VfsStorage.on (storage : VfsStorage σ ω) (part : Part τ σ) : VfsStorage τ ω where
  read path := (storage.read path).on part
  write path data := (storage.write path data).on part
  readStream path := (storage.readStream path).on part
  writeStream path data := (storage.writeStream path data).on part
  exists_ path := (storage.exists_ path).on part
  stat path := (storage.stat path).on part
  list path := (storage.list path).on part
  listRecursive path := (storage.listRecursive path).on part
  createDirAll path := (storage.createDirAll path).on part
  delete path := (storage.delete path).on part
  moveFile src dst := (storage.moveFile src dst).on part

variable {storage : VfsStorage σ ω} {root : Text} {leads : Text → List Text → Prop} {scratch : List Text → List Text → Prop}
  {inv : σ → Prop} {look : σ → Sight} {whole : τ → Prop} {beside : τ → Sight}

/-- The law of a storage alone is its law with something beside it that it does not touch. -/
theorem Side.on (side : Side storage root leads scratch inv look nothingBeside) (part : Part τ σ) (frame : τ → Prop)
    (sane : ∀ t, whole t ↔ inv (part.get t) ∧ frame t) (stays : ∀ s t, frame t → frame (part.put s t))
    (apart : ∀ s t, beside (part.put s t) = beside t) :
    Side (storage.on part) root leads scratch whole (fun t => look (part.get t)) beside := by
  have framed (other : Sight) (s : σ) (t : τ) (holds : frame t ∧ beside t = other) :
      frame (part.put s t) ∧ beside (part.put s t) = other := ⟨stays s t holds.1,by rw [apart s t]; exact holds.2⟩
  have seen_iff {mine other : Sight} (t : τ) : Seen whole (fun t => look (part.get t)) beside mine other t ↔
      Seen inv look nothingBeside mine (fun _ => none) (part.get t) ∧ frame t ∧ beside t = other := by
    rw [Seen,Seen,Stays,Stays,sane]
    constructor
    · rintro ⟨same,⟨holds,rest⟩,other_⟩
      exact ⟨⟨same,holds,rfl⟩,rest,other_⟩
    · rintro ⟨⟨same,holds,-⟩,rest,other_⟩
      exact ⟨same,⟨holds,rest⟩,other_⟩
  have lifted {α : Type} {mine other : Sight} {m : Effect σ ω VfsError α} {Q : α → Prop}
      (met : Meets (Seen inv look nothingBeside mine fun _ => none) m
        (fun a s => Seen inv look nothingBeside mine (fun _ => none) s ∧ Q a)
        (fun _ => Seen inv look nothingBeside mine fun _ => none) (Seen inv look nothingBeside mine fun _ => none)) :
      Meets (Seen whole (fun t => look (part.get t)) beside mine other) (m.on part)
        (fun a t => Seen whole (fun t => look (part.get t)) beside mine other t ∧ Q a)
        (fun _ => Seen whole (fun t => look (part.get t)) beside mine other)
        (Seen whole (fun t => look (part.get t)) beside mine other) := by
    apply (met.on part (framed other)).consequence
    · exact fun t seen => (seen_iff t).mp seen
    · exact fun _ t holds => ⟨(seen_iff t).mpr ⟨holds.1.1,holds.2⟩,holds.1.2⟩
    · exact fun _ t holds => (seen_iff t).mpr holds
    · exact fun t holds => (seen_iff t).mpr holds
  have changed {α : Type} {mine other : Sight} {m : Effect σ ω VfsError α} {Q : Sight → Prop}
      (met : Ensures (Seen inv look nothingBeside mine fun _ => none) m
        fun _ s => Stays inv nothingBeside (fun _ => none) s ∧ Q (look s)) :
      Ensures (Seen whole (fun t => look (part.get t)) beside mine other) (m.on part)
        fun _ t => Stays whole beside other t ∧ Q (look (part.get t)) := by
    apply ensures_of_meets (met.on part (framed other)) fun t seen => (seen_iff t).mp seen
    exact fun _ t holds => ⟨⟨(sane t).mpr ⟨holds.1.1.1,holds.2.1⟩,holds.2.2⟩,holds.1.2⟩
  constructor
  · exact fun holds there => side.named ((sane _).mp holds).1 there
  · exact fun holds => side.directory ((sane _).mp holds).1
  · exact side.top
  · exact side.one
  · exact side.inside
  · exact side.parent
  · exact fun text mine other => lifted (side.exists_ text mine fun _ => none)
  · exact fun leading => lifted (side.stat leading)
  · exact fun leading given => lifted (side.list leading given)
  · exact fun mine other => lifted (side.listRecursive mine fun _ => none)
  · exact fun leading given => lifted (side.readStream leading given)
  · intro text path mine other leading free
    exact changed (Q := fun sight => sight path = some .dir ∧
      ∀ place, sight place = mine place ∨ DirsMade path mine sight place) (side.createDirAll leading free)
  · intro text path mine other data leading given free
    exact changed (Q := fun sight => (∃ modified, sight path = some (.file data modified)) ∧
      ∀ place, place ≠ path → sight place = mine place ∨ DirsMade path mine sight place ∨
        sight place = none ∧ scratch path place) (side.writeStream data leading given free)
  · exact fun leading given => changed (side.delete leading given)

end parts

/-! ### Two pools -/

/-- The first pool and the second one, each beside the other. -/
def leftPool : VfsStorage (Bucket × Bucket) (Option ErrorKind) := remoteStorage.on Part.first

def rightPool : VfsStorage (Bucket × Bucket) (Option ErrorKind) := remoteStorage.on Part.second

def PoolsKeyed (pools : Bucket × Bucket) : Prop := pools.1.Keyed ∧ pools.2.Keyed

theorem leftPool_side : Side leftPool ['/'] LeadsTo RemotePool.poolScratch PoolsKeyed (fun pools => pools.1.sight)
    fun pools => pools.2.sight :=
  remoteStorage_side.on Part.first (fun pools => pools.2.Keyed) (fun _ => Iff.rfl) (fun _ _ keyed => keyed) fun _ _ => rfl

theorem rightPool_side : Side rightPool ['/'] LeadsTo RemotePool.poolScratch PoolsKeyed (fun pools => pools.2.sight)
    fun pools => pools.1.sight :=
  remoteStorage_side.on Part.second (fun pools => pools.1.Keyed) (fun _ => And.comm) (fun _ _ keyed => keyed) fun _ _ => rfl

/-- The entries in the order of the map. -/
def plainHashing : Hashing := ⟨id,fun _ => List.Perm.refl _⟩

/-- A bucket with one object. -/
def oneObject (name : Text) (data : Bytes) : Bucket := Bucket.empty.write name data

section one
variable {name : Text} {data : Bytes} {path : List Text}

theorem oneObject_lookup (segment : Segment name) (key : Text) :
    (oneObject name data).objects.lookup key = if key = name then some ⟨data,1⟩ else none := by
  have all : ∀ other ∈ [name], Segment other := fun other member => by
    rw [List.mem_singleton.mp member]
    exact segment
  have alone : relativeText [name] = name := List.intercalate_singleton
  have named : objectKey name = name := by
    have key := objectKey_key (List.cons_ne_nil name []) all
    rw [alone] at key
    exact key
  rw [oneObject,Bucket.write,named]
  exact Store.lookup_insert_eq ..

theorem oneObject_keyed (segment : Segment name) : (oneObject name data).Keyed := by
  refine ⟨?_,?_,?_⟩
  · intro key present
    rw [oneObject_lookup segment] at present
    split at present
    next same =>
      refine ⟨[name],List.cons_ne_nil _ _,?_,same.trans List.intercalate_singleton.symm⟩
      intro other member
      rw [List.mem_singleton.mp member]
      exact segment
    next => exact absurd rfl present
  · exact fun present => absurd rfl present
  · exact fun _ => rfl

theorem oneObject_sight (segment : Segment name) :
    (oneObject name data).sight path = if path = [name] then some (.file data (some 1)) else none := by
  have all : ∀ other ∈ [name], Segment other := fun other member => by
    rw [List.mem_singleton.mp member]
    exact segment
  by_cases same : path = [name]
  · have alone : relativeText [name] = name := List.intercalate_singleton
    rw [if_pos same,same,Bucket.sight_eq _ all,oneObject_lookup segment,alone,if_pos rfl]
  · rw [if_neg same]
    by_contra there
    have segments := (oneObject_keyed segment).named there
    have differ : relativeText path ≠ name := by
      intro equal
      exact same (relativeText_inj segments all (equal.trans List.intercalate_singleton.symm))
    rw [Bucket.sight_eq _ segments,oneObject_lookup segment,if_neg differ] at there
    exact there rfl

theorem oneObject_file (segment : Segment name) : (oneObject name data).sight.hasFile path ↔ path = [name] := by
  rw [Sight.hasFile]
  constructor
  · rintro ⟨data',modified,there⟩
    rw [oneObject_sight segment] at there
    split at there
    next same => exact same
    next => cases there
  · rintro rfl
    exact ⟨data,some 1,by rw [oneObject_sight segment,if_pos rfl]⟩

theorem oneObject_noDir (segment : Segment name) : (oneObject name data).sight path ≠ some .dir := by
  rw [oneObject_sight segment]
  split
  next => simp
  next => simp

theorem oneObject_some (segment : Segment name) (there : (oneObject name data).sight path ≠ none) : path = [name] := by
  by_contra differ
  rw [oneObject_sight segment,if_neg differ] at there
  exact there rfl

end one

theorem poolScratch_irrefl (path : List Text) : ¬RemotePool.poolScratch path path := by
  rintro ⟨dir,name,here,there⟩
  rw [here] at there
  have same : [name] = [name ++ ".tmp".toList] := List.append_cancel_left there
  have longer := congrArg List.length (List.cons.inj same).1
  simp at longer

end StorageHub.Mounts
