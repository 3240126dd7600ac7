import StorageHub.WriteCache.Durable

/-! The tasks of the write cache, step by step, over the files of their path. -/
namespace StorageHub.WriteCache
open Library Shared

theorem target?_of (target : CacheTarget) (blobPath : Option BlobFile) (size : Nat) (modifiedAt deadlineAt : Int)
    (generation : Nat) (abnormal : Bool) :
    (PendingWriteDiskMeta.mk target.userId target.logicalPath target.path blobPath size modifiedAt deadlineAt
      generation abnormal).target? = some target := by
  rw [PendingWriteDiskMeta.target?,dif_pos ⟨target.plainUser,target.shaped⟩]
  exact if_pos rfl

/-- A step that removes a file. -/
def Task.removes : Task → Bool
  | .enqueue e =>
    match e.phase with
    | .removeBlob _ _ | .removeMeta _ _ => true
    | _ => false
  | .flush f =>
    match f.phase with
    | .promoteDiscardBlob _ _ _ | .promoteDiscardMeta _ _ | .retireBlob _ | .retireMeta _ | .check _ _ _ _ => true
    | _ => false
  | .quotaSync _ => false

/-! ### Enqueues -/

/-- What the files of an enqueue's path hold in its phase. `fresh` is of the data that a
path may show. -/
def EnqueueTask.Kept (fresh : Option Bytes → Prop) (s : Shared) (e : EnqueueTask) : Prop :=
  match e.phase with
  | .start | .admitLookup | .admitLoad _ | .lookup | .done _ => s.Settled e.target.path
  | .bump r => ∃ record file data, s.At e.target.path r record file data
  | .stageBlob r generation _ dir =>
    ∃ record file data, s.At e.target.path r record file data ∧ record.inner.generation = generation ∧ file.dir = dir
  | .stageMeta r generation _ staged =>
    ∃ record file data, s.At e.target.path r record file data ∧ record.inner.generation = generation ∧
      staged.dir = file.dir ∧ staged.key = e.target.path ∧ s.metas.lookup staged = none ∧
      s.blobs.lookup staged = some e.data
  | .swap r generation _ staged =>
    ∃ record file data other, staged = some other ∧ s.Beside e.target.path r record file data other ∧
      record.inner.generation = generation ∧ other.dir = file.dir ∧ s.blobs.lookup other = some e.data
  | .removeBlob r other =>
    ∃ record file, s.Beside e.target.path r record file e.data other ∧
      ∀ data, s.blobs.lookup other = some data → fresh (some data)
  | .removeMeta r other =>
    ∃ record file, s.Beside e.target.path r record file e.data other ∧ s.blobs.lookup other = none
  | .storeBlob => s.Empty e.target.path
  | .storeMeta => s.Stored e.target.path e.data []
  | .account stored | .insert stored =>
    stored = true ∧ s.Stored e.target.path e.data [dataPath .queue e.target.path]
  | .markDirtyPath _ | .markDirtyDir _ | .markIndexSync _ | .readSize _ =>
    ∃ r record file, s.At e.target.path r record file e.data

/-- What a step of an enqueue comes to. -/
structure EnqueueMoves (fresh : Option Bytes → Prop) (s s' : Shared) (e e' : EnqueueTask) : Prop where
  kept : e'.Kept fresh s'
  elsewhere : Elsewhere e.target.path s s'
  shown : s'.shown e.target.path = s.shown e.target.path ∨ s'.shown e.target.path = some e.data
  told : e'.phase = .done .acknowledged → s'.shown e.target.path = some e.data

section enqueue
variable {m : WriteCacheManager} {tick : Nat} {env : Env} {fresh : Option Bytes → Prop} {s s' : Shared} {e e' : EnqueueTask}

/-- A step that leaves all but the marks as it was. -/
theorem enqueueMoves_alike (alike : Alike s s') (kept : e'.Kept fresh s')
    (quiet : e'.phase ≠ .done .acknowledged) : EnqueueMoves fresh s s' e e' :=
  ⟨kept,alike.elsewhere,.inl alike.shown,fun told => absurd told quiet⟩

theorem settled_lookups {phase : EnqueuePhase} (phases : phase = .start ∨ phase = .admitLookup ∨
    (∃ existing, phase = .admitLoad existing) ∨ phase = .lookup) (here : e.phase = phase) (kept : e.Kept fresh s) :
    s.Settled e.target.path := by
  rw [EnqueueTask.Kept,here] at kept
  rcases phases with rfl | rfl | ⟨existing,rfl⟩ | rfl
  · exact kept
  · exact kept
  · exact kept
  · exact kept

theorem lookups_moves (stepped : enqueueStep m tick env s e = some (s',e')) (kept : e.Kept fresh s)
    (phases : e.phase = .start ∨ e.phase = .admitLookup ∨ (∃ existing, e.phase = .admitLoad existing) ∨ e.phase = .lookup) :
    EnqueueMoves fresh s s' e e' := by
  have settled : s.Settled e.target.path := settled_lookups phases rfl kept
  have same : Alike s s := alike_refl s
  have forgot : Alike s (s.forgetRead m e.target.path) := ⟨rfl,rfl,rfl,rfl,rfl,rfl⟩
  unfold enqueueStep at stepped
  rcases phases with phase | phase | ⟨existing,phase⟩ | phase
  · rw [phase] at stepped
    dsimp only at stepped
    split at stepped
    next =>
      cases stepped
      exact enqueueMoves_alike forgot (forgot.same.settled settled) (by simp [EnqueueTask.goto])
    next =>
      cases stepped
      exact enqueueMoves_alike same settled (by simp [EnqueueTask.finish])
  · rw [phase] at stepped
    dsimp only at stepped
    split at stepped
    next =>
      cases stepped
      exact enqueueMoves_alike same settled (by simp [EnqueueTask.goto])
    next =>
      split at stepped
      next => cases stepped
      next =>
        cases stepped
        exact enqueueMoves_alike same settled (by simp [EnqueueTask.goto])
  · rw [phase] at stepped
    dsimp only at stepped
    split at stepped
    next =>
      cases stepped
      exact enqueueMoves_alike same settled (by simp [EnqueueTask.goto])
    next =>
      cases stepped
      exact enqueueMoves_alike same settled (by simp [EnqueueTask.finish])
  · rw [phase] at stepped
    dsimp only at stepped
    split at stepped
    next r found =>
      cases stepped
      refine enqueueMoves_alike same ?_ (by simp [EnqueueTask.goto])
      rcases settled with empty | ⟨r',record,file,data,at_⟩
      · rw [empty.unmapped] at found
        cases found
      · have equal : r = r' := Option.some.inj (found.symm.trans at_.entry.mapped)
        rw [← equal] at at_
        exact ⟨record,file,data,at_⟩
    next none_ =>
      cases stepped
      refine enqueueMoves_alike same ?_ (by simp [EnqueueTask.goto])
      rcases settled with empty | ⟨r',record,file,data,at_⟩
      · exact empty
      · rw [at_.entry.mapped] at none_
        cases none_

/-- The first lock section of an update. -/
theorem bump_moves {r : RecordId} (phase : e.phase = .bump r) (stepped : enqueueStep m tick env s e = some (s',e'))
    (kept : e.Kept fresh s) : EnqueueMoves fresh s s' e e' := by
  rw [EnqueueTask.Kept,phase] at kept
  obtain ⟨record,file,data,at_⟩ := kept
  have inner : s.inner r = some record.inner := inner_of_record at_.entry.filed
  have plan : m.updatePlan record.inner.blob = some file.dir := by
    rw [at_.entry.blob]
    cases m with | mk _ backend => cases backend <;> rfl
  unfold enqueueStep at stepped
  rw [phase] at stepped
  dsimp only at stepped
  rw [inner] at stepped
  dsimp only at stepped
  rw [plan] at stepped
  cases stepped
  have bumped : (s.setInner r (e.bumped record.inner)).At e.target.path r { record with inner := e.bumped record.inner } file data :=
    at_.setInner rfl at_.entry.marked
  refine ⟨⟨_,file,data,bumped,rfl,rfl⟩,at_.entry.elsewhere_setInner,.inl ?_,fun told => by cases told⟩
  rw [bumped.shown,at_.shown]

theorem stageBlob_moves {r : RecordId} {generation previous : Nat} {dir : BlobDir}
    (phase : e.phase = .stageBlob r generation previous dir) (stepped : enqueueStep m tick env s e = some (s',e'))
    (kept : e.Kept fresh s) (all : s.Kept) : EnqueueMoves fresh s s' e e' := by
  rw [EnqueueTask.Kept,phase] at kept
  obtain ⟨record,file,data,at_,current,place⟩ := kept
  unfold enqueueStep at stepped
  rw [phase] at stepped
  dsimp only at stepped
  split at stepped
  next =>
    cases stepped
    obtain ⟨unused,unfiled⟩ := all.nextUnused dir e.target.path
    have staged := at_.writeFile (at_.ne_unused unused) e.data (s.nextUuid + 1)
    refine ⟨⟨record,file,data,staged,current,place.symm,rfl,unfiled,AList.lookup_insert _⟩,elsewhere_stage,.inl ?_,
      fun told => by cases told⟩
    rw [staged.shown,at_.shown]
  next =>
    cases stepped
    exact enqueueMoves_alike (alike_refl s) (.inr ⟨r,record,file,data,at_⟩) (by simp [EnqueueTask.finish])

theorem stageMeta_moves {r : RecordId} {generation previous : Nat} {staged : BlobFile}
    (phase : e.phase = .stageMeta r generation previous staged) (stepped : enqueueStep m tick env s e = some (s',e'))
    (kept : e.Kept fresh s) : EnqueueMoves fresh s s' e e' := by
  rw [EnqueueTask.Kept,phase] at kept
  obtain ⟨record,file,data,at_,current,place,key,unfiled,content⟩ := kept
  unfold enqueueStep at stepped
  rw [phase] at stepped
  dsimp only at stepped
  split at stepped
  next =>
    cases stepped
    have beside := at_.writeMeta key unfiled (e.diskMeta (some staged) generation (staged.dir == .abnormal))
    refine ⟨⟨record,file,data,staged,rfl,beside,current,place,content⟩,?_,.inl ?_,fun told => by cases told⟩
    · exact elsewhere_writeMeta key ⟨rfl,e.target,target?_of ..,key.symm⟩ content
    · rw [beside.shown,at_.shown]
  next =>
    cases stepped
    exact enqueueMoves_alike (alike_refl s) (.inr ⟨r,record,file,data,at_⟩) (by simp [EnqueueTask.finish])

/-- The last lock section of an update: its data takes effect. -/
theorem swap_moves {r : RecordId} {generation previous : Nat} {staged : Option BlobFile}
    (phase : e.phase = .swap r generation previous staged) (stepped : enqueueStep m tick env s e = some (s',e'))
    (kept : e.Kept fresh s) (shown : fresh (s.shown e.target.path)) : EnqueueMoves fresh s s' e e' := by
  rw [EnqueueTask.Kept,phase] at kept
  obtain ⟨record,file,data,other,rfl,beside,current,place,content⟩ := kept
  have inner : s.inner r = some record.inner := inner_of_record beside.entry.filed
  unfold enqueueStep at stepped
  rw [phase] at stepped
  dsimp only at stepped
  rw [inner] at stepped
  dsimp only at stepped
  rw [if_pos current,beside.entry.blob] at stepped
  cases stepped
  have marked : record.inner.abnormalLogged = true → other.dir = .abnormal := by
    rw [place]
    exact beside.entry.marked
  have turned := beside.turn { record.inner with blob := .disk other } content rfl marked
  refine ⟨⟨_,other,(alike_account _ _).same.beside turned,?_⟩,
    beside.entry.elsewhere_setInner.trans (alike_account _ _).elsewhere,
    .inr ((alike_account _ _).same.beside turned).shown,fun told => by cases told⟩
  intro old found
  have same : old = data := Option.some.inj (found.symm.trans beside.content)
  rw [same,← beside.shown]
  exact shown

theorem removeBlob_moves {r : RecordId} {other : BlobFile} (phase : e.phase = .removeBlob r other)
    (stepped : enqueueStep m tick env s e = some (s',e')) (ok : env.ok = true) (kept : e.Kept fresh s) :
    EnqueueMoves fresh s s' e e' := by
  rw [EnqueueTask.Kept,phase] at kept
  obtain ⟨record,file,beside,-⟩ := kept
  unfold enqueueStep at stepped
  rw [phase] at stepped
  cases stepped
  have after := beside.removeFile ok
  exact ⟨⟨record,file,after,removed_file ok⟩,elsewhere_removeFile beside.key,.inr after.shown,fun told => by cases told⟩

theorem removeMeta_moves {r : RecordId} {other : BlobFile} (phase : e.phase = .removeMeta r other)
    (stepped : enqueueStep m tick env s e = some (s',e')) (ok : env.ok = true) (kept : e.Kept fresh s) :
    EnqueueMoves fresh s s' e e' := by
  rw [EnqueueTask.Kept,phase] at kept
  obtain ⟨record,file,beside,-⟩ := kept
  unfold enqueueStep at stepped
  rw [phase] at stepped
  cases stepped
  have after := beside.removeMetaFile ok
  exact ⟨⟨r,record,file,after⟩,elsewhere_removeMetaFile beside.key,.inr after.shown,fun told => by cases told⟩

theorem storeBlob_moves (phase : e.phase = .storeBlob) (stepped : enqueueStep m tick env s e = some (s',e'))
    (localDir : m.backend = .localDir) (kept : e.Kept fresh s) : EnqueueMoves fresh s s' e e' := by
  rw [EnqueueTask.Kept,phase] at kept
  have empty : s.Empty e.target.path := kept
  unfold enqueueStep at stepped
  rw [phase] at stepped
  dsimp only at stepped
  rw [localDir] at stepped
  dsimp only at stepped
  split at stepped
  next =>
    cases stepped
    have stored := empty.writeFile e.data
    refine ⟨stored,?_,.inl ?_,fun told => by cases told⟩
    · have unnumbered (uuid : Nat) (named : (dataPath .queue e.target.path).uuid = some uuid) : uuid < s.nextUuid := by
        cases named
      exact elsewhere_writeFile rfl (Nat.le_refl _) unnumbered
    · rw [stored.shown,empty.shown]
  next =>
    cases stepped
    exact enqueueMoves_alike (alike_refl s) (.inl empty) (by simp [EnqueueTask.finish])

theorem storeMeta_moves (phase : e.phase = .storeMeta) (stepped : enqueueStep m tick env s e = some (s',e'))
    (kept : e.Kept fresh s) : EnqueueMoves fresh s s' e e' := by
  rw [EnqueueTask.Kept,phase] at kept
  have stored : s.Stored e.target.path e.data [] := kept
  unfold enqueueStep at stepped
  rw [phase] at stepped
  dsimp only at stepped
  split at stepped
  next =>
    cases stepped
    have filed := stored.writeMeta (e.diskMeta none 1 false)
    refine ⟨⟨rfl,filed⟩,?_,.inl ?_,fun told => by cases told⟩
    · exact elsewhere_writeMeta rfl ⟨rfl,e.target,target?_of ..,rfl⟩ stored.content
    · rw [filed.shown,stored.shown]
  next =>
    cases stepped
    exact enqueueMoves_alike (alike_refl s) (.inl stored.empty) (by simp [EnqueueTask.finish])

theorem account_moves {stored : Bool} (phase : e.phase = .account stored)
    (stepped : enqueueStep m tick env s e = some (s',e')) (kept : e.Kept fresh s) : EnqueueMoves fresh s s' e e' := by
  rw [EnqueueTask.Kept,phase] at kept
  obtain ⟨rfl,filed⟩ := kept
  unfold enqueueStep at stepped
  rw [phase] at stepped
  cases stepped
  exact enqueueMoves_alike (alike_account _ _) ⟨rfl,filed.same (alike_account _ _).same⟩ (by simp [EnqueueTask.goto])

theorem insert_moves {stored : Bool} (phase : e.phase = .insert stored)
    (stepped : enqueueStep m tick env s e = some (s',e')) (records : RecordsFiled s) (kept : e.Kept fresh s) :
    EnqueueMoves fresh s s' e e' := by
  rw [EnqueueTask.Kept,phase] at kept
  obtain ⟨rfl,filed⟩ := kept
  unfold enqueueStep at stepped
  rw [phase] at stepped
  cases stepped
  have placed : (e.freshRecord true).target.path = e.target.path := rfl
  have after := filed.insertRecord placed rfl rfl
  exact ⟨⟨_,_,_,after⟩,elsewhere_insertRecord records placed,.inr after.shown,fun told => by cases told⟩

/-- The marks change nothing that a reader is given. -/
theorem marks_moves (stepped : enqueueStep m tick env s e = some (s',e')) (kept : e.Kept fresh s)
    (phases : (∃ updated, e.phase = .markDirtyPath updated) ∨ (∃ updated, e.phase = .markDirtyDir updated) ∨
      (∃ updated, e.phase = .markIndexSync updated) ∨ ∃ r, e.phase = .readSize r) : EnqueueMoves fresh s s' e e' := by
  have there : ∃ r record file, s.At e.target.path r record file e.data := by
    unfold EnqueueTask.Kept at kept
    rcases phases with ⟨updated,phase⟩ | ⟨updated,phase⟩ | ⟨updated,phase⟩ | ⟨r,phase⟩
    · rw [phase] at kept; exact kept
    · rw [phase] at kept; exact kept
    · rw [phase] at kept; exact kept
    · rw [phase] at kept; exact kept
  obtain ⟨r,record,file,at_⟩ := there
  have moved (alike : Alike s s') (still : (∃ r record file, s'.At e.target.path r record file e.data) → e'.Kept fresh s') :
      EnqueueMoves fresh s s' e e' := by
    have after := alike.same.at_ at_
    exact ⟨still ⟨r,record,file,after⟩,alike.elsewhere,.inl alike.shown,fun _ => after.shown⟩
  have settled (s' : Shared) (there : ∃ r record file, s'.At e.target.path r record file e.data) : s'.Settled e.target.path := by
    obtain ⟨r,record,file,at_⟩ := there
    exact .inr ⟨r,record,file,_,at_⟩
  unfold enqueueStep at stepped
  rcases phases with ⟨updated,phase⟩ | ⟨updated,phase⟩ | ⟨updated,phase⟩ | ⟨r,phase⟩
  · rw [phase] at stepped
    cases stepped
    exact moved ⟨rfl,rfl,rfl,rfl,rfl,rfl⟩ fun there => there
  · rw [phase] at stepped
    cases stepped
    exact moved ⟨rfl,rfl,rfl,rfl,rfl,rfl⟩ fun there => there
  · rw [phase] at stepped
    dsimp only at stepped
    split at stepped
    next =>
      cases stepped
      exact moved ⟨rfl,rfl,rfl,rfl,rfl,rfl⟩ fun there => there
    next =>
      cases stepped
      exact moved ⟨rfl,rfl,rfl,rfl,rfl,rfl⟩ (settled _)
  · rw [phase] at stepped
    dsimp only at stepped
    split at stepped
    next => cases stepped
    next =>
      cases stepped
      exact moved ⟨rfl,rfl,rfl,rfl,rfl,rfl⟩ (settled _)

theorem enqueueStep_moves (stepped : enqueueStep m tick env s e = some (s',e')) (localDir : m.backend = .localDir)
    (ok : Task.removes (.enqueue e) = true → env.ok = true) (all : s.Kept) (records : RecordsFiled s) (kept : e.Kept fresh s)
    (shown : fresh (s.shown e.target.path)) : EnqueueMoves fresh s s' e e' := by
  cases phase : e.phase with
  | start => exact lookups_moves stepped kept (.inl phase)
  | admitLookup => exact lookups_moves stepped kept (.inr (.inl phase))
  | admitLoad existing => exact lookups_moves stepped kept (.inr (.inr (.inl ⟨existing,phase⟩)))
  | lookup => exact lookups_moves stepped kept (.inr (.inr (.inr phase)))
  | bump r => exact bump_moves phase stepped kept
  | stageBlob r generation previous dir => exact stageBlob_moves phase stepped kept all
  | stageMeta r generation previous file => exact stageMeta_moves phase stepped kept
  | swap r generation previous staged => exact swap_moves phase stepped kept shown
  | removeBlob r file => exact removeBlob_moves phase stepped (ok (by rw [Task.removes,phase])) kept
  | removeMeta r file => exact removeMeta_moves phase stepped (ok (by rw [Task.removes,phase])) kept
  | storeBlob => exact storeBlob_moves phase stepped localDir kept
  | storeMeta => exact storeMeta_moves phase stepped kept
  | account stored => exact account_moves phase stepped kept
  | insert stored => exact insert_moves phase stepped records kept
  | markDirtyPath updated => exact marks_moves stepped kept (.inl ⟨updated,phase⟩)
  | markDirtyDir updated => exact marks_moves stepped kept (.inr (.inl ⟨updated,phase⟩))
  | markIndexSync updated => exact marks_moves stepped kept (.inr (.inr (.inl ⟨updated,phase⟩)))
  | readSize r => exact marks_moves stepped kept (.inr (.inr (.inr ⟨r,phase⟩)))
  | done outcome =>
    unfold enqueueStep at stepped
    rw [phase] at stepped
    cases stepped

end enqueue

/-! ### Flushes -/

/-- What the files of a flush's path hold in its phase. -/
def FlushTask.Kept (s : Shared) (f : FlushTask) : Prop :=
  match f.phase with
  | .snapshot | .promoteMark _ _ | .alreadyAbnormal _ | .finishFailure _ =>
    ∃ record file data, s.At f.target.path f.record record file data
  | .readBlob taken => ∃ record file data, s.At f.target.path f.record record file data ∧ taken.blob = .disk file
  | .statBefore _ data | .write _ data _ | .noteFailure _ data | .promoteRead _ data =>
    ∃ record file, s.At f.target.path f.record record file data
  | .promoteStageBlob _ data promo =>
    ∃ record file, s.At f.target.path f.record record file data ∧ record.inner.generation = promo.generation ∧
      record.inner.abnormalLogged = false
  | .promoteStageMeta _ data promo staged =>
    ∃ record file, s.At f.target.path f.record record file data ∧ record.inner.generation = promo.generation ∧
      record.inner.abnormalLogged = false ∧ staged.dir = .abnormal ∧ staged.key = f.target.path ∧
      s.metas.lookup staged = none ∧ s.blobs.lookup staged = some data
  | .promoteSwap _ data promo other =>
    ∃ record file, s.Beside f.target.path f.record record file data other ∧ record.inner.generation = promo.generation ∧
      record.inner.abnormalLogged = false ∧ other.dir = .abnormal ∧ s.blobs.lookup other = some data
  | .promoteDiscardBlob _ _ _ | .promoteDiscardMeta _ _ => False
  | .promoted _ old =>
    ∃ record file data other, old = .disk other ∧ s.Beside f.target.path f.record record file data other ∧
      record.inner.abnormalLogged = false ∧ file.dir = .abnormal ∧ s.blobs.lookup other = some data
  | .retireBlob other =>
    ∃ record file data, s.Beside f.target.path f.record record file data other ∧ s.blobs.lookup other = some data
  | .retireMeta other =>
    ∃ record file data, s.Beside f.target.path f.record record file data other ∧ s.blobs.lookup other = none
  | .statAfter _ data _ | .check _ data _ _ =>
    ∃ record file, s.At f.target.path f.record record file data ∧ s.primary.lookup f.target.path = some data
  | .removeEntry data _ => s.Retired f.target.path f.record data
  | .putReadCache _ _ | .indexSync _ | .quotaGet _ | .quotaRemove | .quotaInsert _ | .done _ => s.Settled f.target.path

/-- What a step of a flush comes to. -/
structure FlushMoves (s s' : Shared) (f : FlushTask) (phase : FlushPhase) : Prop where
  kept : FlushTask.Kept s' { f with phase }
  elsewhere : Elsewhere f.target.path s s'
  shown : s'.shown f.target.path = s.shown f.target.path

section flush
variable {m : WriteCacheManager} {env : Env} {s s' : Shared} {f : FlushTask} {phase' : FlushPhase} {taken : FlushSnapshot}
  {data : Bytes} {promo : PromotionSnapshot} {record : PendingWriteRecord} {file other : BlobFile}

theorem flushMoves_alike (alike : Alike s s') (kept : FlushTask.Kept s' { f with phase := phase' }) :
    FlushMoves s s' f phase' := ⟨kept,alike.elsewhere,alike.shown⟩

/-- A lock section that leaves the blob. -/
theorem flushMoves_setInner {inner : PendingWriteMutable} (at_ : s.At f.target.path f.record record file data)
    (blob : inner.blob = record.inner.blob) (marked : inner.abnormalLogged = true → file.dir = .abnormal)
    (kept : (s.setInner f.record inner).At f.target.path f.record { record with inner } file data →
      FlushTask.Kept (s.setInner f.record inner) { f with phase := phase' }) :
    FlushMoves s (s.setInner f.record inner) f phase' := by
  have after := at_.setInner blob marked
  exact ⟨kept after,at_.entry.elsewhere_setInner,after.shown.trans at_.shown.symm⟩

theorem flushStep_inner (at_ : s.Entry f.target.path f.record record file) : s.inner f.record = some record.inner :=
  inner_of_record at_.filed

theorem snapshot_moves (phase : f.phase = .snapshot) (stepped : flushStep m env s f = some (s',phase'))
    (kept : f.Kept s) : FlushMoves s s' f phase' := by
  rw [FlushTask.Kept,phase] at kept
  obtain ⟨record,file,data,at_⟩ := kept
  unfold flushStep at stepped
  rw [flushStep_inner at_.entry,phase] at stepped
  dsimp only at stepped
  split at stepped
  next =>
    cases stepped
    exact flushMoves_alike (alike_refl s) (.inr ⟨f.record,record,file,data,at_⟩)
  next =>
    cases stepped
    exact flushMoves_setInner at_ rfl at_.entry.marked fun after => ⟨_,file,data,after,at_.entry.blob⟩

theorem readBlob_moves (phase : f.phase = .readBlob taken) (stepped : flushStep m env s f = some (s',phase'))
    (kept : f.Kept s) : FlushMoves s s' f phase' := by
  rw [FlushTask.Kept,phase] at kept
  obtain ⟨record,file,data,at_,held⟩ := kept
  unfold flushStep at stepped
  rw [flushStep_inner at_.entry,phase] at stepped
  dsimp only at stepped
  rw [held] at stepped
  have content : s.content (.disk file) = some data := at_.content
  rw [content] at stepped
  cases ok : env.ok with
  | false =>
    rw [ok] at stepped
    cases stepped
    exact flushMoves_alike (alike_refl s) (.inr ⟨f.record,record,file,data,at_⟩)
  | true =>
    rw [ok] at stepped
    cases stepped
    exact flushMoves_alike (alike_refl s) ⟨record,file,at_⟩

theorem statBefore_moves (phase : f.phase = .statBefore taken data) (stepped : flushStep m env s f = some (s',phase'))
    (kept : f.Kept s) : FlushMoves s s' f phase' := by
  rw [FlushTask.Kept,phase] at kept
  obtain ⟨record,file,at_⟩ := kept
  unfold flushStep at stepped
  rw [flushStep_inner at_.entry,phase] at stepped
  cases stepped
  exact flushMoves_alike (alike_refl s) ⟨record,file,at_⟩

theorem write_moves {previousSize : Int} (phase : f.phase = .write taken data previousSize)
    (stepped : flushStep m env s f = some (s',phase')) (kept : f.Kept s) : FlushMoves s s' f phase' := by
  rw [FlushTask.Kept,phase] at kept
  obtain ⟨record,file,at_⟩ := kept
  unfold flushStep at stepped
  rw [flushStep_inner at_.entry,phase] at stepped
  dsimp only at stepped
  split at stepped
  next =>
    cases stepped
    have after := at_.writePrimary data
    exact ⟨⟨record,file,after,AList.lookup_insert _⟩,elsewhere_writePrimary,after.shown.trans at_.shown.symm⟩
  next =>
    cases stepped
    exact flushMoves_alike (alike_refl s) ⟨record,file,at_⟩

theorem noteFailure_moves (phase : f.phase = .noteFailure taken data) (stepped : flushStep m env s f = some (s',phase'))
    (kept : f.Kept s) : FlushMoves s s' f phase' := by
  rw [FlushTask.Kept,phase] at kept
  obtain ⟨record,file,at_⟩ := kept
  unfold flushStep at stepped
  rw [flushStep_inner at_.entry,phase] at stepped
  dsimp only at stepped
  split at stepped
  next =>
    cases stepped
    exact flushMoves_setInner at_ rfl at_.entry.marked fun after => ⟨_,file,after⟩
  next =>
    cases stepped
    exact flushMoves_setInner at_ rfl at_.entry.marked fun after => ⟨_,file,data,after⟩

theorem promoteRead_moves (phase : f.phase = .promoteRead taken data) (stepped : flushStep m env s f = some (s',phase'))
    (kept : f.Kept s) : FlushMoves s s' f phase' := by
  rw [FlushTask.Kept,phase] at kept
  obtain ⟨record,file,at_⟩ := kept
  unfold flushStep at stepped
  rw [flushStep_inner at_.entry,phase] at stepped
  dsimp only at stepped
  split at stepped
  next =>
    cases stepped
    exact flushMoves_alike (alike_refl s) ⟨record,file,data,at_⟩
  next queued =>
    cases stepped
    refine flushMoves_alike (alike_refl s) ⟨record,file,at_,rfl,?_⟩
    -- an entry that is marked as abnormal has its file in that directory
    rw [at_.entry.blob] at queued
    by_contra logged
    rw [Bool.not_eq_false] at logged
    apply queued
    rw [PendingWriteBlob.isAbnormal,at_.entry.marked logged]
    rfl

theorem promoteMark_moves {generation : Nat} (phase : f.phase = .promoteMark taken generation)
    (stepped : flushStep m env s f = some (s',phase')) (kept : f.Kept s) : FlushMoves s s' f phase' := by
  rw [FlushTask.Kept,phase] at kept
  obtain ⟨record,file,data,at_⟩ := kept
  unfold flushStep at stepped
  rw [flushStep_inner at_.entry,phase] at stepped
  dsimp only at stepped
  split at stepped
  next =>
    cases stepped
    exact flushMoves_setInner at_ rfl at_.entry.marked fun after => ⟨_,file,data,after⟩
  next =>
    cases stepped
    exact flushMoves_alike (alike_refl s) ⟨record,file,data,at_⟩

theorem alreadyAbnormal_moves (phase : f.phase = .alreadyAbnormal taken)
    (stepped : flushStep m env s f = some (s',phase')) (kept : f.Kept s) : FlushMoves s s' f phase' := by
  rw [FlushTask.Kept,phase] at kept
  obtain ⟨record,file,data,at_⟩ := kept
  unfold flushStep at stepped
  rw [flushStep_inner at_.entry,phase] at stepped
  cases stepped
  exact flushMoves_setInner at_ rfl at_.entry.marked fun after => ⟨_,file,data,after⟩

theorem finishFailure_moves (phase : f.phase = .finishFailure taken)
    (stepped : flushStep m env s f = some (s',phase')) (kept : f.Kept s) : FlushMoves s s' f phase' := by
  rw [FlushTask.Kept,phase] at kept
  obtain ⟨record,file,data,at_⟩ := kept
  unfold flushStep at stepped
  rw [flushStep_inner at_.entry,phase] at stepped
  cases stepped
  exact flushMoves_setInner at_ rfl at_.entry.marked fun after => .inr ⟨f.record,_,file,data,after⟩

theorem promoteStageBlob_moves (phase : f.phase = .promoteStageBlob taken data promo)
    (stepped : flushStep m env s f = some (s',phase')) (kept : f.Kept s) (all : s.Kept) : FlushMoves s s' f phase' := by
  rw [FlushTask.Kept,phase] at kept
  obtain ⟨record,file,at_,current,unlogged⟩ := kept
  unfold flushStep at stepped
  rw [flushStep_inner at_.entry,phase] at stepped
  dsimp only at stepped
  split at stepped
  next =>
    cases stepped
    obtain ⟨unused,unfiled⟩ := all.nextUnused .abnormal f.target.path
    have staged := at_.writeFile (at_.ne_unused unused) data (s.nextUuid + 1)
    refine ⟨⟨record,file,staged,current,unlogged,rfl,rfl,unfiled,AList.lookup_insert _⟩,elsewhere_stage,?_⟩
    exact staged.shown.trans at_.shown.symm
  next =>
    cases stepped
    exact flushMoves_alike (alike_refl s) ⟨record,file,data,at_⟩

theorem promoteStageMeta_moves {staged : BlobFile} (phase : f.phase = .promoteStageMeta taken data promo staged)
    (stepped : flushStep m env s f = some (s',phase')) (kept : f.Kept s) : FlushMoves s s' f phase' := by
  rw [FlushTask.Kept,phase] at kept
  obtain ⟨record,file,at_,current,unlogged,dir,key,unfiled,content⟩ := kept
  unfold flushStep at stepped
  rw [flushStep_inner at_.entry,phase] at stepped
  dsimp only at stepped
  split at stepped
  next =>
    cases stepped
    have beside := at_.writeMeta key unfiled (f.promotionMeta promo staged)
    refine ⟨⟨record,file,beside,current,unlogged,dir,content⟩,?_,beside.shown.trans at_.shown.symm⟩
    exact elsewhere_writeMeta key ⟨rfl,f.target,target?_of ..,key.symm⟩ content
  next =>
    cases stepped
    exact flushMoves_alike (alike_refl s) ⟨record,file,data,at_⟩

theorem promoteSwap_moves (phase : f.phase = .promoteSwap taken data promo other)
    (stepped : flushStep m env s f = some (s',phase')) (kept : f.Kept s) : FlushMoves s s' f phase' := by
  rw [FlushTask.Kept,phase] at kept
  obtain ⟨record,file,beside,current,unlogged,dir,content⟩ := kept
  unfold flushStep at stepped
  rw [flushStep_inner beside.entry,phase] at stepped
  dsimp only at stepped
  rw [if_pos current] at stepped
  cases stepped
  have turned := beside.turn { record.inner with blob := .disk other, state := .abnormal } content rfl fun _ => dir
  refine ⟨⟨_,other,data,file,beside.entry.blob,(alike_account _ _).same.beside turned,unlogged,dir,beside.content⟩,
    beside.entry.elsewhere_setInner.trans (alike_account _ _).elsewhere,?_⟩
  exact ((alike_account _ _).same.beside turned).shown.trans beside.shown.symm

theorem promoted_moves {old : PendingWriteBlob} (phase : f.phase = .promoted taken old)
    (stepped : flushStep m env s f = some (s',phase')) (kept : f.Kept s) : FlushMoves s s' f phase' := by
  rw [FlushTask.Kept,phase] at kept
  obtain ⟨record,file,data,other,rfl,beside,unlogged,dir,content⟩ := kept
  unfold flushStep at stepped
  rw [flushStep_inner beside.entry,phase] at stepped
  dsimp only at stepped
  rw [unlogged] at stepped
  cases stepped
  have after : (s.setInner f.record (m.logAbnormal env.now record.inner)).Beside f.target.path f.record _ file data other :=
    beside.setInner rfl fun _ => dir
  exact ⟨⟨_,file,data,after,content⟩,beside.entry.elsewhere_setInner,after.shown.trans beside.shown.symm⟩

theorem retireBlob_moves (phase : f.phase = .retireBlob other) (stepped : flushStep m env s f = some (s',phase'))
    (ok : env.ok = true) (kept : f.Kept s) : FlushMoves s s' f phase' := by
  rw [FlushTask.Kept,phase] at kept
  obtain ⟨record,file,data,beside,-⟩ := kept
  unfold flushStep at stepped
  rw [flushStep_inner beside.entry,phase] at stepped
  cases stepped
  have after := beside.removeFile ok
  exact ⟨⟨record,file,data,after,removed_file ok⟩,elsewhere_removeFile beside.key,after.shown.trans beside.shown.symm⟩

theorem retireMeta_moves (phase : f.phase = .retireMeta other) (stepped : flushStep m env s f = some (s',phase'))
    (ok : env.ok = true) (kept : f.Kept s) : FlushMoves s s' f phase' := by
  rw [FlushTask.Kept,phase] at kept
  obtain ⟨record,file,data,beside,-⟩ := kept
  unfold flushStep at stepped
  rw [flushStep_inner beside.entry,phase] at stepped
  cases stepped
  have after := beside.removeMetaFile ok
  exact ⟨.inr ⟨f.record,record,file,data,after⟩,elsewhere_removeMetaFile beside.key,after.shown.trans beside.shown.symm⟩

theorem statAfter_moves {previousSize : Int} (phase : f.phase = .statAfter taken data previousSize)
    (stepped : flushStep m env s f = some (s',phase')) (kept : f.Kept s) : FlushMoves s s' f phase' := by
  rw [FlushTask.Kept,phase] at kept
  obtain ⟨record,file,at_,primary⟩ := kept
  unfold flushStep at stepped
  rw [flushStep_inner at_.entry,phase] at stepped
  cases stepped
  exact flushMoves_alike (alike_refl s) ⟨record,file,at_,primary⟩

/-- The check drops the files when the primary has their data. -/
theorem check_moves {previousSize infoSize : Int} (phase : f.phase = .check taken data previousSize infoSize)
    (stepped : flushStep m env s f = some (s',phase')) (ok : env.ok = true) (kept : f.Kept s) : FlushMoves s s' f phase' := by
  rw [FlushTask.Kept,phase] at kept
  obtain ⟨record,file,at_,primary⟩ := kept
  unfold flushStep at stepped
  rw [flushStep_inner at_.entry,phase] at stepped
  dsimp only at stepped
  split at stepped
  next =>
    cases stepped
    exact flushMoves_setInner at_ rfl at_.entry.marked fun after => .inr ⟨f.record,_,file,data,after⟩
  next =>
    cases stepped
    rw [at_.entry.blob]
    have retired := at_.retire ok primary
    have moved : Elsewhere f.target.path s ((s.removeFile env file).removeMetaFile env file) :=
      (elsewhere_removeFile at_.entry.key).trans (elsewhere_removeMetaFile at_.entry.key)
    refine ⟨retired.same (alike_account _ _).same,moved.trans (alike_account _ _).elsewhere,?_⟩
    exact (retired.same (alike_account _ _).same).shown.trans at_.shown.symm

theorem removeEntry_moves {delta : Int} (phase : f.phase = .removeEntry data delta)
    (stepped : flushStep m env s f = some (s',phase')) (kept : f.Kept s) : FlushMoves s s' f phase' := by
  rw [FlushTask.Kept,phase] at kept
  have retired : s.Retired f.target.path f.record data := kept
  obtain ⟨record,file,entry,gone⟩ := retired.entry
  unfold flushStep at stepped
  rw [flushStep_inner entry,phase] at stepped
  cases stepped
  have empty := retired.removeEntry
  exact ⟨.inl empty,elsewhere_removeEntry,by rw [empty.shown,retired.shown]; exact retired.primary⟩

theorem alike_merge (userKey : Text) (task : UserQuotaSyncTask) : Alike s (s.mergeQuota userKey task) :=
  ⟨rfl,rfl,rfl,rfl,rfl,rfl⟩

/-- What follows the flush of an entry is no change of its path. -/
theorem after_moves (stepped : flushStep m env s f = some (s',phase')) (kept : f.Kept s)
    (phases : (∃ data delta, f.phase = .putReadCache data delta) ∨ (∃ delta, f.phase = .indexSync delta) ∨
      (∃ delta, f.phase = .quotaGet delta) ∨ f.phase = .quotaRemove ∨ ∃ delta, f.phase = .quotaInsert delta) :
    FlushMoves s s' f phase' := by
  have settled : s.Settled f.target.path := by
    unfold FlushTask.Kept at kept
    rcases phases with ⟨data,delta,phase⟩ | ⟨delta,phase⟩ | ⟨delta,phase⟩ | phase | ⟨delta,phase⟩
    · rw [phase] at kept; exact kept
    · rw [phase] at kept; exact kept
    · rw [phase] at kept; exact kept
    · rw [phase] at kept; exact kept
    · rw [phase] at kept; exact kept
  have moved (alike : Alike s s') (still : s'.Settled f.target.path → FlushTask.Kept s' { f with phase := phase' }) :
      FlushMoves s s' f phase' := flushMoves_alike alike (still (alike.same.settled settled))
  unfold flushStep at stepped
  split at stepped
  next => cases stepped
  next =>
    rcases phases with ⟨data,delta,phase⟩ | ⟨delta,phase⟩ | ⟨delta,phase⟩ | phase | ⟨delta,phase⟩
    · rw [phase] at stepped
      cases stepped
      exact moved ⟨rfl,rfl,rfl,rfl,rfl,rfl⟩ fun settled => settled
    · rw [phase] at stepped
      cases stepped
      exact moved ⟨rfl,rfl,rfl,rfl,rfl,rfl⟩ fun settled => settled
    · rw [phase] at stepped
      dsimp only at stepped
      split at stepped
      next =>
        cases stepped
        exact moved (alike_refl s) fun settled => settled
      next =>
        split at stepped
        next =>
          split at stepped
          next =>
            cases stepped
            exact moved (alike_merge _ _) fun settled => settled
          next =>
            cases stepped
            exact moved (alike_merge _ _) fun settled => settled
        next =>
          cases stepped
          exact moved (alike_refl s) fun settled => settled
    · rw [phase] at stepped
      cases stepped
      exact moved ⟨rfl,rfl,rfl,rfl,rfl,rfl⟩ fun settled => settled
    · rw [phase] at stepped
      cases stepped
      exact moved (alike_merge _ _) fun settled => settled

theorem flushStep_moves (stepped : flushStep m env s f = some (s',phase'))
    (ok : Task.removes (.flush f) = true → env.ok = true) (all : s.Kept) (kept : f.Kept s) : FlushMoves s s' f phase' := by
  cases phase : f.phase with
  | snapshot => exact snapshot_moves phase stepped kept
  | readBlob taken => exact readBlob_moves phase stepped kept
  | statBefore taken data => exact statBefore_moves phase stepped kept
  | write taken data previousSize => exact write_moves phase stepped kept
  | noteFailure taken data => exact noteFailure_moves phase stepped kept
  | promoteRead taken data => exact promoteRead_moves phase stepped kept
  | promoteMark taken generation => exact promoteMark_moves phase stepped kept
  | alreadyAbnormal taken => exact alreadyAbnormal_moves phase stepped kept
  | promoteStageBlob taken data promo => exact promoteStageBlob_moves phase stepped kept all
  | promoteStageMeta taken data promo file => exact promoteStageMeta_moves phase stepped kept
  | promoteSwap taken data promo file => exact promoteSwap_moves phase stepped kept
  | promoteDiscardBlob taken data file =>
    rw [FlushTask.Kept,phase] at kept
    exact kept.elim
  | promoteDiscardMeta taken file =>
    rw [FlushTask.Kept,phase] at kept
    exact kept.elim
  | promoted taken old => exact promoted_moves phase stepped kept
  | retireBlob file => exact retireBlob_moves phase stepped (ok (by rw [Task.removes,phase])) kept
  | retireMeta file => exact retireMeta_moves phase stepped (ok (by rw [Task.removes,phase])) kept
  | finishFailure taken => exact finishFailure_moves phase stepped kept
  | statAfter taken data previousSize => exact statAfter_moves phase stepped kept
  | check taken data previousSize infoSize => exact check_moves phase stepped (ok (by rw [Task.removes,phase])) kept
  | removeEntry data delta => exact removeEntry_moves phase stepped kept
  | putReadCache data delta => exact after_moves stepped kept (.inl ⟨data,delta,phase⟩)
  | indexSync delta => exact after_moves stepped kept (.inr (.inl ⟨delta,phase⟩))
  | quotaGet delta => exact after_moves stepped kept (.inr (.inr (.inl ⟨delta,phase⟩)))
  | quotaRemove => exact after_moves stepped kept (.inr (.inr (.inr (.inl phase))))
  | quotaInsert delta => exact after_moves stepped kept (.inr (.inr (.inr (.inr ⟨delta,phase⟩))))
  | done ok =>
    unfold flushStep at stepped
    split at stepped
    next => cases stepped
    next =>
      rw [phase] at stepped
      cases stepped

end flush
end StorageHub.WriteCache
