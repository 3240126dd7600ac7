import StorageHub.Library.WriteBack
import StorageHub.WriteCache.Machine

/-! The running cache seen as a write-back cache: which record is live, which
files a task holds or knows, what a flush has read, and which enqueue took
effect when. -/
namespace StorageHub.WriteCache
open Library

def blobView : PendingWriteBlob → WriteBack.Blob BlobFile Bytes
  | .memory data => .memory data
  | .disk file => .file file

def recordView (record : PendingWriteRecord) : WriteBack.Slot Text BlobFile Bytes :=
  ⟨record.target.path,blobView record.inner.blob⟩

abbrev View := WriteBack.State Text RecordId BlobFile Bytes

abbrev AgentView := WriteBack.Agent Text RecordId BlobFile Bytes

def PendingWriteBlob.files : PendingWriteBlob → List BlobFile
  | .memory _ => []
  | .disk file => [file]

def EnqueueTask.held (e : EnqueueTask) : Option (BlobFile × Bytes) :=
  match e.phase with
  | .stageMeta _ _ _ file => some (file,e.data)
  | .swap _ _ _ (some file) => some (file,e.data)
  | _ => none

def EnqueueTask.known (e : EnqueueTask) : List BlobFile :=
  match e.phase with
  | .removeBlob _ file => [file]
  | .storeMeta => [dataPath .queue e.target.path]
  | .account stored => (e.storedBlob stored).files
  | .insert stored => (e.storedBlob stored).files
  | _ => []

def EnqueueTask.view (e : EnqueueTask) : AgentView where
  path := e.target.path
  record := none
  held := e.held
  known := e.known
  seen := none
  condemns := false
  call := some ⟨e.data,e.began,e.effectAt,e.phase == .done .acknowledged⟩

def FlushPhase.held : FlushPhase → Option (BlobFile × Bytes)
  | .promoteStageMeta _ data _ file => some (file,data)
  | .promoteSwap _ data _ file => some (file,data)
  | .promoteDiscardBlob _ data file => some (file,data)
  | _ => none

/-- The snapshot a flush still works with, and the data it has read for it. -/
def FlushPhase.read : FlushPhase → Option (FlushSnapshot × Bytes)
  | .statBefore taken data => some (taken,data)
  | .write taken data _ => some (taken,data)
  | .noteFailure taken data => some (taken,data)
  | .promoteRead taken data => some (taken,data)
  | .promoteStageBlob taken data _ => some (taken,data)
  | .promoteStageMeta taken data _ _ => some (taken,data)
  | .promoteSwap taken data _ _ => some (taken,data)
  | .statAfter taken data _ => some (taken,data)
  | .check taken data _ _ => some (taken,data)
  | _ => none

def FlushPhase.known (phase : FlushPhase) : List BlobFile :=
  match phase.read with
  | some (taken,_) => taken.blob.files
  | none =>
    match phase with
    | .readBlob taken => taken.blob.files
    | .promoted _ oldBlob => oldBlob.files
    | .retireBlob file => [file]
    | _ => []

def FlushPhase.condemns : FlushPhase → Bool
  | .removeEntry _ _ => true
  | _ => false

def FlushTask.view (f : FlushTask) : AgentView where
  path := f.target.path
  record := some f.record
  held := f.phase.held
  known := f.phase.known
  seen := f.phase.read.map fun out => (blobView out.1.blob,out.2)
  condemns := f.phase.condemns
  call := none

def Task.view : Task → Option AgentView
  | .enqueue e => some e.view
  | .flush f => some f.view
  | .quotaSync _ => none

def Shared.view (s : Shared) (agents : Nat → Option AgentView) (clock : Nat) : View where
  entries := s.entries.lookup
  slots := fun r => (s.records.lookup r).map recordView
  files := s.blobs.lookup
  cells := s.primary.lookup
  issued := (· < s.nextRecord)
  allocated := fun f => ∀ n, f.uuid = some n → n < s.nextUuid
  agents
  clock

def State.agents (s : State) (t : Nat) : Option AgentView := (s.tasks.lookup t).bind Task.view

def State.view (s : State) : View := s.shared.view s.agents s.clock

/-- The steps of the write-back cache; queue files named after a path are the
ones that are written again. -/
def ViewStep : View → View → Prop := WriteBack.Step BlobFile.key (fun file => file.uuid = none)

/-! ### The live record of a path -/

def Task.condemns (r : RecordId) : Task → Bool
  | .flush f => f.record == r && f.phase.condemns
  | _ => false

/-- A flush has passed its check on the record and not yet removed the map key. -/
def State.condemned (s : State) (r : RecordId) : Bool :=
  s.tasks.entries.any fun cell => cell.2.condemns r

def State.live (s : State) (path : Text) : Option RecordId :=
  match s.shared.entries.lookup path with
  | some r => if s.condemned r then none else some r
  | none => none

def State.liveBlob (s : State) (path : Text) : Option PendingWriteBlob :=
  (s.live path).bind fun r => (s.shared.inner r).map (·.blob)

theorem condemned_iff {s : State} {r : RecordId} :
    s.condemned r = true ↔ s.view.Condemned r := by
  simp only [State.condemned,List.any_eq_true]
  constructor
  · rintro ⟨⟨t,task⟩,member,yes⟩
    have found : s.tasks.lookup t = some task := AList.mem_lookup_iff.mpr member
    cases task with
    | flush f =>
      simp only [Task.condemns,Bool.and_eq_true,beq_iff_eq] at yes
      exact ⟨t,f.view,by simp [State.view,Shared.view,State.agents,found,Task.view],congrArg some yes.1,yes.2⟩
    | _ => contradiction
  · rintro ⟨t,a,present,record,condemns⟩
    obtain ⟨task,found,viewed⟩ := Option.bind_eq_some_iff.mp present
    refine ⟨⟨t,task⟩,AList.mem_lookup_iff.mp found,?_⟩
    cases task with
    | enqueue e => cases viewed; contradiction
    | flush f =>
      cases viewed
      simp only [Task.condemns,Bool.and_eq_true,beq_iff_eq]
      exact ⟨Option.some.inj record,condemns⟩
    | quotaSync q => contradiction

theorem live_iff {s : State} {path : Text} {r : RecordId} :
    s.live path = some r ↔ s.view.Live path r := by
  simp only [State.live,WriteBack.State.Live,← condemned_iff]
  change _ ↔ s.shared.entries.lookup path = some r ∧ _
  cases s.shared.entries.lookup path with
  | none => simp
  | some q =>
    simp only [Option.some.injEq]
    split
    next yes =>
      constructor
      · intro wrong; contradiction
      · rintro ⟨rfl,no⟩; contradiction
    next no =>
      constructor
      · rintro ⟨⟩; exact ⟨rfl,no⟩
      · rintro ⟨rfl,_⟩; rfl

theorem slots_iff {s : State} {r : RecordId} {slot : WriteBack.Slot Text BlobFile Bytes} :
    s.view.slots r = some slot ↔ ∃ record, s.shared.records.lookup r = some record ∧
      recordView record = slot := Option.map_eq_some_iff

theorem inner_iff {s : Shared} {r : RecordId} {inner : PendingWriteMutable} :
    s.inner r = some inner ↔ ∃ record, s.records.lookup r = some record ∧ record.inner = inner :=
  Option.map_eq_some_iff

theorem content_view {s : State} (blob : PendingWriteBlob) :
    s.view.content (blobView blob) = s.shared.content blob := by
  cases blob <;> rfl

theorem loose_of_liveBlob {s : State} {file : BlobFile}
    (other : s.liveBlob file.key ≠ some (.disk file)) : s.view.Loose BlobFile.key file := by
  intro r slot live present same
  obtain ⟨record,found,rfl⟩ := slots_iff.mp present
  apply other
  have blob : record.inner.blob = .disk file := by
    cases held : record.inner.blob with
    | memory data => simp [recordView,blobView,held] at same
    | disk other =>
      simp only [recordView,blobView,held,WriteBack.Blob.file.injEq] at same
      rw [same]
  simp [State.liveBlob,live_iff.mpr live,Shared.inner,found,blob]

/-! ### Views of changed states -/

section updates
variable {s : Shared} {agents : Nat → Option AgentView} {clock : Nat}

theorem view_setInner_fill {r : RecordId} {record : PendingWriteRecord} {inner : PendingWriteMutable}
    (found : s.records.lookup r = some record) :
    (s.setInner r inner).view agents clock = { s.view agents clock with
      slots := Function.update (s.view agents clock).slots r
        (some { recordView record with blob := blobView inner.blob }) } := by
  simp only [Shared.view,Shared.setInner,found,WriteBack.State.mk.injEq,true_and,and_true]
  funext q
  simp only [Store.lookup_insert_eq,Function.update_apply]
  split <;> rfl

theorem view_setInner_same {r : RecordId} {before inner : PendingWriteMutable}
    (found : s.inner r = some before) (same : inner.blob = before.blob) :
    (s.setInner r inner).view agents clock = s.view agents clock := by
  obtain ⟨record,present,rfl⟩ := inner_iff.mp found
  rw [view_setInner_fill present,same]
  have unchanged : (s.view agents clock).slots r = some (recordView record) := by
    simp [Shared.view,present]
  exact congrArg (fun slots => { s.view agents clock with slots })
    ((congrArg _ unchanged.symm).trans (Function.update_eq_self r _))

theorem lookup_insert_update {κ ν : Type} [DecidableEq κ] (cells : Store κ ν) (k : κ) (v : ν) :
    (fun j => (cells.insert k v).lookup j) = Function.update (fun j => cells.lookup j) k (some v) := by
  funext j
  simp only [Store.lookup_insert_eq,Function.update_apply]

theorem lookup_erase_update {κ ν : Type} [DecidableEq κ] (cells : Store κ ν) (k : κ) :
    (fun j => (cells.erase k).lookup j) = Function.update (fun j => cells.lookup j) k none := by
  funext j
  simp only [Store.lookup_erase_eq,Function.update_apply]

theorem view_removeFile {env : Env} {file : BlobFile} :
    (s.removeFile env file).view agents clock =
      if env.ok then { s.view agents clock with files := Function.update (s.view agents clock).files file none }
      else s.view agents clock := by
  cases ok : env.ok with
  | true =>
    simp only [Shared.view,Shared.removeFile,ok,↓reduceIte,WriteBack.State.mk.injEq,true_and,and_true]
    exact lookup_erase_update s.blobs file
  | false => simp [Shared.view,Shared.removeFile,ok]

theorem view_removeBlobFiles (s : Shared) (agents : Nat → Option AgentView) (clock : Nat) (env : Env)
    (blob : PendingWriteBlob) : ∃ files,
      (s.removeBlobFiles env blob).view agents clock = { s.view agents clock with files } ∧
        (files = s.blobs.lookup ∨ ∃ f : BlobFile, blobView blob = .file f ∧
          files = Function.update s.blobs.lookup f none) := by
  cases blob with
  | memory data => exact ⟨_,rfl,.inl rfl⟩
  | disk file =>
    have removed := @view_removeFile s agents clock env file
    split at removed
    next => exact ⟨_,removed,.inr ⟨file,rfl,rfl⟩⟩
    next => exact ⟨_,removed,.inl rfl⟩

theorem view_writeFile {file : BlobFile} {data : Bytes} :
    ({ s with blobs := s.blobs.insert file data }).view agents clock =
      { s.view agents clock with
        files := Function.update (s.view agents clock).files file (some data) } := by
  simp only [Shared.view,WriteBack.State.mk.injEq,true_and,and_true]
  exact lookup_insert_update s.blobs file data

theorem view_stage {file : BlobFile} {data : Bytes} {nextUuid : Nat} :
    ({ s with blobs := s.blobs.insert file data, nextUuid }).view agents clock =
      { s.view agents clock with
        files := Function.update (s.view agents clock).files file (some data)
        allocated := fun f => ∀ n, f.uuid = some n → n < nextUuid } := by
  simp only [Shared.view,WriteBack.State.mk.injEq,true_and,and_true]
  exact lookup_insert_update s.blobs file data

theorem view_writeCell {path : Text} {data : Bytes} :
    ({ s with primary := s.primary.insert path data }).view agents clock =
      { s.view agents clock with
        cells := Function.update (s.view agents clock).cells path (some data) } := by
  simp only [Shared.view,WriteBack.State.mk.injEq,true_and,and_true]
  exact lookup_insert_update s.primary path data

theorem view_removeEntry {path : Text} :
    ({ s with entries := s.entries.erase path }).view agents clock =
      { s.view agents clock with
        entries := Function.update (s.view agents clock).entries path none } := by
  simp only [Shared.view,WriteBack.State.mk.injEq,and_true]
  exact lookup_erase_update s.entries path

theorem view_insertRecord {record : PendingWriteRecord} :
    (s.insertRecord record).view agents clock =
      { s.view agents clock with
        entries := Function.update (s.view agents clock).entries record.target.path (some s.nextRecord)
        slots := Function.update (s.view agents clock).slots s.nextRecord (some (recordView record))
        issued := (· < s.nextRecord + 1) } := by
  simp only [Shared.view,Shared.insertRecord,WriteBack.State.mk.injEq,and_true]
  refine ⟨lookup_insert_update s.entries _ _,?_⟩
  funext r
  simp only [Store.lookup_insert_eq,Function.update_apply]
  split <;> rfl

end updates

theorem view_resume {s : State} {t : Nat} {shared : Shared} {task : Task} {a : AgentView}
    (viewed : task.view = some a) :
    (s.resume t shared task).view = (shared.view s.agents s.clock).advance t a := by
  simp only [State.view,State.resume,Shared.view,WriteBack.State.advance,WriteBack.State.mk.injEq,
    true_and,and_true]
  funext u
  simp only [State.agents,Store.lookup_insert_eq,Function.update_apply]
  split
  next => exact viewed
  next => rfl

theorem view_spawn {s : State} {shared : Shared} {task : Task} {a : AgentView}
    (viewed : task.view = some a) :
    (s.spawn shared task).view = (shared.view s.agents s.clock).advance s.nextTask a :=
  view_resume (s := s) viewed

end StorageHub.WriteCache
