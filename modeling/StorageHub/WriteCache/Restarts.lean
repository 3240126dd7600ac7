import StorageHub.WriteCache.DurableTasks

/-! Acknowledged writes across restarts. The next process finds in the files what the last
one had in its entries, or the data of a call that had not returned. -/
namespace StorageHub.WriteCache
open Library Shared

/-! ### What a restart can find -/

/-- The data that the files of a path may bring back. -/
structure Backed (fresh : Option Bytes → Prop) (single : Prop) (s : Shared) (path : Text) : Prop where
  data {file : BlobFile} {data : Bytes} : file.key = path → s.metas.lookup file ≠ none → s.blobs.lookup file = some data →
    fresh (some data)
  primary : (∀ file, file.key = path → s.metas.lookup file ≠ none → s.blobs.lookup file = none) →
    fresh (s.primary.lookup path)
  one {file other : BlobFile} {data data' : Bytes} : single → file.key = path → other.key = path →
    s.metas.lookup file ≠ none → s.metas.lookup other ≠ none → s.blobs.lookup file = some data →
    s.blobs.lookup other = some data' → file = other

section backed
variable {fresh fresh' : Option Bytes → Prop} {single single' : Prop} {s s' : Shared} {path : Text} {r : RecordId}
  {record : PendingWriteRecord} {file other : BlobFile} {data : Bytes}

theorem Backed.mono (backed : Backed fresh single s path) (more : ∀ shown, fresh shown → fresh' shown)
    (less : single' → single) : Backed fresh' single' s path :=
  ⟨fun key filed content => more _ (backed.data key filed content),fun gone => more _ (backed.primary gone),
    fun alone => backed.one (less alone)⟩

theorem Backed.same (backed : Backed fresh single s path) (same : Same path s s') : Backed fresh single s' path := by
  constructor
  · intro file data key filed content
    rw [same.metas key] at filed
    rw [same.blobs key] at content
    exact backed.data key filed content
  · intro gone
    rw [same.primary]
    apply backed.primary
    intro file key filed
    rw [← same.metas key] at filed
    rw [← same.blobs key]
    exact gone file key filed
  · intro file other data data' alone key key' filed filed' content content'
    rw [same.metas key] at filed
    rw [same.metas key'] at filed'
    rw [same.blobs key] at content
    rw [same.blobs key'] at content'
    exact backed.one alone key key' filed filed' content content'

/-- Where one file at most has metadata. -/
theorem backed_of_filing (filing : s.Filing path [file]) (key : file.key = path)
    (content : ∀ data, s.blobs.lookup file = some data → fresh (some data))
    (gone : s.blobs.lookup file = none → fresh (s.primary.lookup path)) : Backed fresh single s path := by
  have only {place : BlobFile} (placed : place.key = path) (filed : s.metas.lookup place ≠ none) : place = file :=
    List.mem_singleton.mp ((filing place placed).mp filed)
  constructor
  · intro place data placed filed found
    rw [only placed filed] at found
    exact content data found
  · intro none_
    exact gone (none_ file key ((filing file key).mpr List.mem_cons_self))
  · intro place other data data' _ placed placed' filed filed' _ _
    rw [only placed filed,only placed' filed']

theorem backed_of_unfiled (filing : s.Filing path []) (primary : fresh (s.primary.lookup path)) :
    Backed fresh single s path := by
  have none_ {place : BlobFile} (placed : place.key = path) (filed : s.metas.lookup place ≠ none) : False := by
    cases (filing place placed).mp filed
  exact ⟨fun placed filed _ => (none_ placed filed).elim,fun _ => primary,
    fun _ placed _ filed _ _ _ => (none_ placed filed).elim⟩

theorem Shared.At.backed (at_ : s.At path r record file data) (holds : fresh (some data)) : Backed fresh single s path := by
  apply backed_of_filing at_.filing at_.entry.key
  · intro data' content
    rw [at_.content] at content
    cases content
    exact holds
  · intro gone
    rw [at_.content] at gone
    cases gone

theorem Shared.Settled.backed (settled : s.Settled path) (holds : fresh (s.shown path)) : Backed fresh single s path := by
  rcases settled with empty | ⟨r,record,file,data,at_⟩
  · rw [empty.shown] at holds
    exact backed_of_unfiled empty.filing holds
  · rw [at_.shown] at holds
    exact at_.backed holds

theorem Shared.Beside.backed (beside : s.Beside path r record file data other) (holds : fresh (some data))
    (holds' : ∀ data, s.blobs.lookup other = some data → fresh (some data)) (alone : single → s.blobs.lookup other = none) :
    Backed fresh single s path := by
  have only {place : BlobFile} (placed : place.key = path) (filed : s.metas.lookup place ≠ none) : place = file ∨ place = other := by
    rcases List.mem_cons.mp ((beside.filing place placed).mp filed) with here | there
    · exact .inl here
    · exact .inr (List.mem_singleton.mp there)
  constructor
  · intro place data' placed filed content
    rcases only placed filed with rfl | rfl
    · rw [beside.content] at content
      cases content
      exact holds
    · exact holds' data' content
  · intro gone
    have present := gone file beside.entry.key ((beside.filing file beside.entry.key).mpr List.mem_cons_self)
    rw [beside.content] at present
    cases present
  · intro place place' data₁ data₂ one placed placed' filed filed' content content'
    have own {place : BlobFile} {data : Bytes} (placed : place.key = path) (filed : s.metas.lookup place ≠ none)
        (content : s.blobs.lookup place = some data) : place = file := by
      apply (only placed filed).resolve_right
      rintro rfl
      rw [alone one] at content
      cases content
    rw [own placed filed content,own placed' filed' content']

theorem Shared.Stored.backed (stored : s.Stored path data [dataPath .queue path]) (holds : fresh (some data)) :
    Backed fresh single s path := by
  apply backed_of_filing stored.filing rfl
  · intro data' content
    rw [stored.content] at content
    cases content
    exact holds
  · intro gone
    rw [stored.content] at gone
    cases gone

theorem Shared.Retired.backed (retired : s.Retired path r data) (holds : fresh (some data)) : Backed fresh single s path := by
  apply backed_of_unfiled retired.filing
  rw [retired.primary]
  exact holds

end backed

/-- In the middle of a change two files of a path can have data and metadata. -/
def Task.doubles : Task → Bool
  | .enqueue e =>
    match e.phase with
    | .swap _ _ _ _ | .removeBlob _ _ => true
    | _ => false
  | .flush f =>
    match f.phase with
    | .promoteSwap _ _ _ _ | .promoted _ _ | .retireBlob _ => true
    | _ => false
  | .quotaSync _ => false

section tasks
variable {fresh fresh' : Option Bytes → Prop} {s s' : Shared} {e : EnqueueTask} {f : FlushTask}

theorem EnqueueTask.Kept.backed (kept : e.Kept fresh s) (shown : fresh (s.shown e.target.path)) (own : fresh (some e.data)) :
    Backed fresh (Task.doubles (.enqueue e) = false) s e.target.path := by
  have at_backed {r : RecordId} {record : PendingWriteRecord} {file : BlobFile} {data : Bytes} {single : Prop}
      (at_ : s.At e.target.path r record file data) : Backed fresh single s e.target.path := by
    rw [at_.shown] at shown
    exact at_.backed shown
  unfold EnqueueTask.Kept at kept
  cases phase : e.phase with
  | start | admitLookup | lookup | done _ =>
    rw [phase] at kept
    exact Shared.Settled.backed kept shown
  | admitLoad existing =>
    rw [phase] at kept
    exact Shared.Settled.backed kept shown
  | bump r =>
    rw [phase] at kept
    obtain ⟨record,file,data,at_⟩ := kept
    exact at_backed at_
  | stageBlob r generation previous dir =>
    rw [phase] at kept
    obtain ⟨record,file,data,at_,-⟩ := kept
    exact at_backed at_
  | stageMeta r generation previous staged =>
    rw [phase] at kept
    obtain ⟨record,file,data,at_,-⟩ := kept
    exact at_backed at_
  | swap r generation previous staged =>
    rw [phase] at kept
    obtain ⟨record,file,data,other,-,beside,-,-,content⟩ := kept
    rw [beside.shown] at shown
    apply beside.backed shown
    · intro data' found
      rw [content] at found
      cases found
      exact own
    · exact fun single => by simp [Task.doubles,phase] at single
  | removeBlob r other =>
    rw [phase] at kept
    obtain ⟨record,file,beside,old⟩ := kept
    exact beside.backed own old fun single => by simp [Task.doubles,phase] at single
  | removeMeta r other =>
    rw [phase] at kept
    obtain ⟨record,file,beside,gone⟩ := kept
    apply beside.backed own
    · intro data' found
      rw [gone] at found
      cases found
    · exact fun _ => gone
  | storeBlob =>
    rw [phase] at kept
    exact Shared.Settled.backed (.inl kept) shown
  | storeMeta =>
    rw [phase] at kept
    exact Shared.Settled.backed (.inl (Shared.Stored.empty kept)) shown
  | account stored | insert stored =>
    rw [phase] at kept
    exact kept.2.backed own
  | markDirtyPath _ | markDirtyDir _ | markIndexSync _ | readSize _ =>
    rw [phase] at kept
    obtain ⟨r,record,file,at_⟩ := kept
    exact at_backed at_

theorem FlushTask.Kept.backed (kept : f.Kept s) (shown : fresh (s.shown f.target.path)) :
    Backed fresh (Task.doubles (.flush f) = false) s f.target.path := by
  have at_backed {r : RecordId} {record : PendingWriteRecord} {file : BlobFile} {data : Bytes} {single : Prop}
      (at_ : s.At f.target.path r record file data) : Backed fresh single s f.target.path := by
    rw [at_.shown] at shown
    exact at_.backed shown
  -- a file beside that of the entry has the same data
  have twin {r : RecordId} {record : PendingWriteRecord} {file other : BlobFile} {data : Bytes} {single : Prop}
      (beside : s.Beside f.target.path r record file data other) (content : s.blobs.lookup other = some data)
      (never : ¬single) : Backed fresh single s f.target.path := by
    rw [beside.shown] at shown
    apply beside.backed shown
    · intro data' found
      rw [content] at found
      cases found
      exact shown
    · exact fun single => absurd single never
  unfold FlushTask.Kept at kept
  cases phase : f.phase with
  | snapshot =>
    rw [phase] at kept
    obtain ⟨record,file,data,at_⟩ := kept
    exact at_backed at_
  | promoteMark _ _ | alreadyAbnormal _ | finishFailure _ =>
    rw [phase] at kept
    obtain ⟨record,file,data,at_⟩ := kept
    exact at_backed at_
  | readBlob taken =>
    rw [phase] at kept
    obtain ⟨record,file,data,at_,-⟩ := kept
    exact at_backed at_
  | statBefore _ data | write _ data _ | noteFailure _ data | promoteRead _ data =>
    rw [phase] at kept
    obtain ⟨record,file,at_⟩ := kept
    exact at_backed at_
  | promoteStageBlob _ data promo =>
    rw [phase] at kept
    obtain ⟨record,file,at_,-⟩ := kept
    exact at_backed at_
  | promoteStageMeta _ data promo staged =>
    rw [phase] at kept
    obtain ⟨record,file,at_,-⟩ := kept
    exact at_backed at_
  | promoteSwap _ data promo other =>
    rw [phase] at kept
    obtain ⟨record,file,beside,-,-,-,content⟩ := kept
    exact twin beside content (by simp [Task.doubles,phase])
  | promoteDiscardBlob _ _ _ | promoteDiscardMeta _ _ =>
    rw [phase] at kept
    exact kept.elim
  | promoted _ old =>
    rw [phase] at kept
    obtain ⟨record,file,data,other,-,beside,-,-,content⟩ := kept
    exact twin beside content (by simp [Task.doubles,phase])
  | retireBlob other =>
    rw [phase] at kept
    obtain ⟨record,file,data,beside,content⟩ := kept
    exact twin beside content (by simp [Task.doubles,phase])
  | retireMeta other =>
    rw [phase] at kept
    obtain ⟨record,file,data,beside,gone⟩ := kept
    rw [beside.shown] at shown
    apply beside.backed shown
    · intro data' found
      rw [gone] at found
      cases found
    · exact fun _ => gone
  | statAfter _ data _ | check _ data _ _ =>
    rw [phase] at kept
    obtain ⟨record,file,at_,-⟩ := kept
    exact at_backed at_
  | removeEntry data _ =>
    rw [phase] at kept
    have retired : s.Retired f.target.path f.record data := kept
    rw [retired.shown] at shown
    exact retired.backed shown
  | putReadCache _ _ | indexSync _ | quotaGet _ | quotaRemove | quotaInsert _ | done _ =>
    rw [phase] at kept
    exact Shared.Settled.backed kept shown

/-- What a phase says of the files of its path stays where nothing there changes. -/
theorem EnqueueTask.Kept.same (kept : e.Kept fresh s) (same : Same e.target.path s s')
    (more : ∀ shown, fresh shown → fresh' shown) : e.Kept fresh' s' := by
  unfold EnqueueTask.Kept at kept ⊢
  cases phase : e.phase with
  | start | admitLookup | lookup | done _ =>
    rw [phase] at kept
    exact same.settled kept
  | admitLoad existing =>
    rw [phase] at kept
    exact same.settled kept
  | bump r =>
    rw [phase] at kept
    obtain ⟨record,file,data,at_⟩ := kept
    exact ⟨record,file,data,same.at_ at_⟩
  | stageBlob r generation previous dir =>
    rw [phase] at kept
    obtain ⟨record,file,data,at_,rest⟩ := kept
    exact ⟨record,file,data,same.at_ at_,rest⟩
  | stageMeta r generation previous staged =>
    rw [phase] at kept
    obtain ⟨record,file,data,at_,current,dir,key,unfiled,content⟩ := kept
    exact ⟨record,file,data,same.at_ at_,current,dir,key,(same.metas key).trans unfiled,(same.blobs key).trans content⟩
  | swap r generation previous staged =>
    rw [phase] at kept
    obtain ⟨record,file,data,other,there,beside,current,dir,content⟩ := kept
    exact ⟨record,file,data,other,there,same.beside beside,current,dir,(same.blobs beside.key).trans content⟩
  | removeBlob r other =>
    rw [phase] at kept
    obtain ⟨record,file,beside,old⟩ := kept
    refine ⟨record,file,same.beside beside,?_⟩
    intro data found
    rw [same.blobs beside.key] at found
    exact more _ (old data found)
  | removeMeta r other =>
    rw [phase] at kept
    obtain ⟨record,file,beside,gone⟩ := kept
    exact ⟨record,file,same.beside beside,(same.blobs beside.key).trans gone⟩
  | storeBlob =>
    rw [phase] at kept
    exact same.empty kept
  | storeMeta =>
    rw [phase] at kept
    exact Shared.Stored.same kept same
  | account stored | insert stored =>
    rw [phase] at kept
    exact ⟨kept.1,kept.2.same same⟩
  | markDirtyPath _ | markDirtyDir _ | markIndexSync _ | readSize _ =>
    rw [phase] at kept
    obtain ⟨r,record,file,at_⟩ := kept
    exact ⟨r,record,file,same.at_ at_⟩

theorem FlushTask.Kept.same (kept : f.Kept s) (same : Same f.target.path s s') : f.Kept s' := by
  unfold FlushTask.Kept at kept ⊢
  cases phase : f.phase with
  | snapshot =>
    rw [phase] at kept
    obtain ⟨record,file,data,at_⟩ := kept
    exact ⟨record,file,data,same.at_ at_⟩
  | promoteMark _ _ | alreadyAbnormal _ | finishFailure _ =>
    rw [phase] at kept
    obtain ⟨record,file,data,at_⟩ := kept
    exact ⟨record,file,data,same.at_ at_⟩
  | readBlob taken =>
    rw [phase] at kept
    obtain ⟨record,file,data,at_,rest⟩ := kept
    exact ⟨record,file,data,same.at_ at_,rest⟩
  | statBefore _ data | write _ data _ | noteFailure _ data | promoteRead _ data =>
    rw [phase] at kept
    obtain ⟨record,file,at_⟩ := kept
    exact ⟨record,file,same.at_ at_⟩
  | promoteStageBlob _ data promo =>
    rw [phase] at kept
    obtain ⟨record,file,at_,rest⟩ := kept
    exact ⟨record,file,same.at_ at_,rest⟩
  | promoteStageMeta _ data promo staged =>
    rw [phase] at kept
    obtain ⟨record,file,at_,current,unlogged,dir,key,unfiled,content⟩ := kept
    exact ⟨record,file,same.at_ at_,current,unlogged,dir,key,(same.metas key).trans unfiled,(same.blobs key).trans content⟩
  | promoteSwap _ data promo other =>
    rw [phase] at kept
    obtain ⟨record,file,beside,current,unlogged,dir,content⟩ := kept
    exact ⟨record,file,same.beside beside,current,unlogged,dir,(same.blobs beside.key).trans content⟩
  | promoteDiscardBlob _ _ _ | promoteDiscardMeta _ _ =>
    rw [phase] at kept
    exact kept.elim
  | promoted _ old =>
    rw [phase] at kept
    obtain ⟨record,file,data,other,there,beside,unlogged,dir,content⟩ := kept
    exact ⟨record,file,data,other,there,same.beside beside,unlogged,dir,(same.blobs beside.key).trans content⟩
  | retireBlob other =>
    rw [phase] at kept
    obtain ⟨record,file,data,beside,content⟩ := kept
    exact ⟨record,file,data,same.beside beside,(same.blobs beside.key).trans content⟩
  | retireMeta other =>
    rw [phase] at kept
    obtain ⟨record,file,data,beside,gone⟩ := kept
    exact ⟨record,file,data,same.beside beside,(same.blobs beside.key).trans gone⟩
  | statAfter _ data _ | check _ data _ _ =>
    rw [phase] at kept
    obtain ⟨record,file,at_,primary⟩ := kept
    exact ⟨record,file,same.at_ at_,same.primary.trans primary⟩
  | removeEntry data _ =>
    rw [phase] at kept
    exact Shared.Retired.same kept same
  | putReadCache _ _ | indexSync _ | quotaGet _ | quotaRemove | quotaInsert _ | done _ =>
    rw [phase] at kept
    exact same.settled kept

end tasks

/-! ### Entries -/

/-- The entry of a path, if there is one, has its data in a file of the path. -/
def Shared.Anchored (s : Shared) (path : Text) : Prop :=
  s.entries.lookup path = none ∨ ∃ r record file, s.Entry path r record file

section anchored
variable {fresh : Option Bytes → Prop} {s s' : Shared} {path : Text} {e : EnqueueTask} {f : FlushTask}

theorem Shared.Settled.anchored (settled : s.Settled path) : s.Anchored path := by
  rcases settled with empty | ⟨r,record,file,data,at_⟩
  · exact .inl empty.unmapped
  · exact .inr ⟨r,record,file,at_.entry⟩

theorem Shared.Anchored.shown (anchored : s.Anchored path) (same : Same path s s') : s'.shown path = s.shown path := by
  rcases anchored with none_ | ⟨r,record,file,entry⟩
  · rw [Shared.shown,Shared.shown,same.entries,none_,same.primary]
    rfl
  · rw [(same.entry entry).shown,entry.shown,same.blobs entry.key,same.primary]

theorem EnqueueTask.Kept.anchored (kept : e.Kept fresh s) : s.Anchored e.target.path := by
  unfold EnqueueTask.Kept at kept
  cases phase : e.phase with
  | start | admitLookup | lookup | done _ =>
    rw [phase] at kept
    exact Shared.Settled.anchored kept
  | admitLoad existing =>
    rw [phase] at kept
    exact Shared.Settled.anchored kept
  | bump r =>
    rw [phase] at kept
    obtain ⟨record,file,data,at_⟩ := kept
    exact .inr ⟨r,record,file,at_.entry⟩
  | stageBlob r _ _ _ | stageMeta r _ _ _ =>
    rw [phase] at kept
    obtain ⟨record,file,data,at_,-⟩ := kept
    exact .inr ⟨r,record,file,at_.entry⟩
  | swap r generation previous staged =>
    rw [phase] at kept
    obtain ⟨record,file,data,other,-,beside,-⟩ := kept
    exact .inr ⟨r,record,file,beside.entry⟩
  | removeBlob r _ | removeMeta r _ =>
    rw [phase] at kept
    obtain ⟨record,file,beside,-⟩ := kept
    exact .inr ⟨r,record,file,beside.entry⟩
  | storeBlob =>
    rw [phase] at kept
    exact .inl kept.unmapped
  | storeMeta =>
    rw [phase] at kept
    exact .inl kept.unmapped
  | account stored | insert stored =>
    rw [phase] at kept
    exact .inl kept.2.unmapped
  | markDirtyPath _ | markDirtyDir _ | markIndexSync _ | readSize _ =>
    rw [phase] at kept
    obtain ⟨r,record,file,at_⟩ := kept
    exact .inr ⟨r,record,file,at_.entry⟩

theorem FlushTask.Kept.anchored (kept : f.Kept s) : s.Anchored f.target.path := by
  unfold FlushTask.Kept at kept
  cases phase : f.phase with
  | snapshot =>
    rw [phase] at kept
    obtain ⟨record,file,data,at_⟩ := kept
    exact .inr ⟨f.record,record,file,at_.entry⟩
  | promoteMark _ _ | alreadyAbnormal _ | finishFailure _ =>
    rw [phase] at kept
    obtain ⟨record,file,data,at_⟩ := kept
    exact .inr ⟨f.record,record,file,at_.entry⟩
  | readBlob taken =>
    rw [phase] at kept
    obtain ⟨record,file,data,at_,-⟩ := kept
    exact .inr ⟨f.record,record,file,at_.entry⟩
  | statBefore _ data | write _ data _ | noteFailure _ data | promoteRead _ data =>
    rw [phase] at kept
    obtain ⟨record,file,at_⟩ := kept
    exact .inr ⟨f.record,record,file,at_.entry⟩
  | promoteStageBlob _ _ _ | promoteStageMeta _ _ _ _ =>
    rw [phase] at kept
    obtain ⟨record,file,at_,-⟩ := kept
    exact .inr ⟨f.record,record,file,at_.entry⟩
  | promoteSwap _ data promo other =>
    rw [phase] at kept
    obtain ⟨record,file,beside,-⟩ := kept
    exact .inr ⟨f.record,record,file,beside.entry⟩
  | promoteDiscardBlob _ _ _ | promoteDiscardMeta _ _ =>
    rw [phase] at kept
    exact kept.elim
  | promoted _ old =>
    rw [phase] at kept
    obtain ⟨record,file,data,other,-,beside,-⟩ := kept
    exact .inr ⟨f.record,record,file,beside.entry⟩
  | retireBlob _ | retireMeta _ =>
    rw [phase] at kept
    obtain ⟨record,file,data,beside,-⟩ := kept
    exact .inr ⟨f.record,record,file,beside.entry⟩
  | statAfter _ data _ | check _ data _ _ =>
    rw [phase] at kept
    obtain ⟨record,file,at_,-⟩ := kept
    exact .inr ⟨f.record,record,file,at_.entry⟩
  | removeEntry data _ =>
    rw [phase] at kept
    obtain ⟨record,file,entry,-⟩ := Shared.Retired.entry kept
    exact .inr ⟨f.record,record,file,entry⟩
  | putReadCache _ _ | indexSync _ | quotaGet _ | quotaRemove | quotaInsert _ | done _ =>
    rw [phase] at kept
    exact Shared.Settled.anchored kept

end anchored

/-! ### Whole states -/

def Task.place : Task → Option Text
  | .enqueue e => some e.target.path
  | .flush f => some f.target.path
  | .quotaSync _ => none

def Task.busyAt (path : Text) (task : Task) : Bool := task.place == some path && !task.ended

/-- No enqueue and no flush of the path is under way. -/
def State.idle (s : State) (path : Text) : Bool := !s.anyBut none (Task.busyAt path)

/-- The data is that of every acknowledged write on the path, or of a write begun after it. -/
def State.Fresh (s : State) (path : Text) (shown : Option Bytes) : Prop :=
  ∀ t e, s.tasks.lookup t = some (.enqueue e) → e.target.path = path → e.phase = .done .acknowledged →
    ∃ u e', t ≤ u ∧ s.tasks.lookup u = some (.enqueue e') ∧ e'.target.path = path ∧ shown = some e'.data

def Task.Kept (s : State) (shared : Shared) : Task → Prop
  | .enqueue e => e.Kept (s.Fresh e.target.path) shared
  | .flush f => f.Kept shared
  | .quotaSync _ => True

/-- The tasks on a path come one after the other, and the files of every path are as the
phase of its task has them. -/
structure Durable (s : State) : Prop where
  filed : Filed s
  all : s.shared.Kept
  latest {t u : Nat} {task other : Task} {path : Text} : s.tasks.lookup t = some task → task.busyAt path = true →
    s.tasks.lookup u = some other → other.place = some path → u ≤ t
  settled {path : Text} : s.idle path = true → s.shared.Settled path
  kept {t : Nat} {task : Task} : s.tasks.lookup t = some task → task.ended = false → task.Kept s s.shared
  fresh (path : Text) : s.Fresh path (s.shared.shown path)

section states
variable {m : WriteCacheManager} {s s' : State} {shared : Shared} {path : Text} {t : Nat} {task task' : Task}
  {shown : Option Bytes}

theorem busyAt_iff : task.busyAt path = true ↔ task.place = some path ∧ task.ended = false := by
  rw [Task.busyAt,Bool.and_eq_true,beq_iff_eq,Bool.not_eq_true']

theorem idle_iff : s.idle path = true ↔
    ∀ t task, s.tasks.lookup t = some task → task.place = some path → task.ended = true := by
  rw [State.idle,Bool.not_eq_true',anyBut_false]
  constructor
  · intro none_ t task found place
    by_contra running
    rw [Bool.not_eq_true] at running
    have busy := none_ t task found (by simp)
    rw [Task.busyAt,place,running] at busy
    simp at busy
  · intro all t task found _
    by_contra busy
    rw [Bool.not_eq_false,busyAt_iff] at busy
    have ended := all t task found busy.1
    rw [busy.2] at ended
    cases ended

/-- A busy path has one task that is under way. -/
theorem busy_of_not_idle (busy : s.idle path = false) :
    ∃ t task, s.tasks.lookup t = some task ∧ task.place = some path ∧ task.ended = false := by
  rw [State.idle,Bool.not_eq_false',anyBut_iff] at busy
  obtain ⟨t,task,found,-,here⟩ := busy
  exact ⟨t,task,found,busyAt_iff.mp here⟩

/-- Acknowledged writes are those of before, and the writes go on with their data. -/
theorem State.Fresh.mono (fresh : s.Fresh path shown)
    (acknowledged : ∀ t e, s'.tasks.lookup t = some (.enqueue e) → e.target.path = path → e.phase = .done .acknowledged →
      s.tasks.lookup t = some (.enqueue e))
    (calls : ∀ t e, s.tasks.lookup t = some (.enqueue e) →
      ∃ e', s'.tasks.lookup t = some (.enqueue e') ∧ e'.target = e.target ∧ e'.data = e.data) : s'.Fresh path shown := by
  intro t e found place told
  obtain ⟨u,e',later,found',place',content⟩ := fresh t e (acknowledged t e found place told) place told
  obtain ⟨e'',found'',target,data⟩ := calls u e' found'
  exact ⟨u,e'',later,found'',by rw [target]; exact place',by rw [data]; exact content⟩

theorem Task.Kept.anchored (kept : task.Kept s shared) (place : task.place = some path) : shared.Anchored path := by
  cases task with
  | enqueue e =>
    cases place
    exact EnqueueTask.Kept.anchored kept
  | flush f =>
    cases place
    exact FlushTask.Kept.anchored kept
  | quotaSync q => cases place

theorem Task.Kept.same {shared' : Shared} (kept : task.Kept s shared) (place : task.place = some path)
    (same : Same path shared shared') (more : ∀ shown, s.Fresh path shown → s'.Fresh path shown) : task.Kept s' shared' := by
  cases task with
  | enqueue e =>
    cases place
    exact EnqueueTask.Kept.same kept same more
  | flush f =>
    cases place
    exact FlushTask.Kept.same kept same
  | quotaSync q => trivial

theorem Durable.anchored (durable : Durable s) (path : Text) : s.shared.Anchored path := by
  cases idle : s.idle path with
  | true => exact (durable.settled idle).anchored
  | false =>
    obtain ⟨t,task,found,place,running⟩ := busy_of_not_idle idle
    exact (durable.kept found running).anchored place

/-- What a restart finds at any path. -/
theorem Durable.backed (durable : Durable s) (path : Text) :
    Backed (s.Fresh path) (s.anyBut none Task.doubles = false) s.shared path := by
  cases idle : s.idle path with
  | true => exact (durable.settled idle).backed (durable.fresh path)
  | false =>
    obtain ⟨t,task,found,place,running⟩ := busy_of_not_idle idle
    have alone (none_ : s.anyBut none Task.doubles = false) : task.doubles = false := anyBut_false.mp none_ t task found (by simp)
    have kept := durable.kept found running
    cases task with
    | enqueue e =>
      cases place
      have own : s.Fresh e.target.path (some e.data) := by
        intro u e' found' place' _
        have last := durable.latest found (busyAt_iff.mpr ⟨rfl,running⟩) found' (congrArg some place')
        exact ⟨t,e,last,found,rfl,rfl⟩
      exact (EnqueueTask.Kept.backed kept (durable.fresh _) own).mono (fun _ holds => holds) alone
    | flush f =>
      cases place
      exact (FlushTask.Kept.backed kept (durable.fresh _)).mono (fun _ holds => holds) alone
    | quotaSync q => cases place

end states
end StorageHub.WriteCache
