import StorageHub.WriteCache.Filing

/-! Whether a flush leaves its entry to be tried again. A flush marks its entry
at the start and owes it another state until its last lock section, and the
background worker passes over entries that are marked. -/
namespace StorageHub.WriteCache
open Library

/-- `is_due_for_background_flush` at a reading of the clock. -/
def PendingWriteMutable.isDueForBackgroundFlush (now : Int) (inner : PendingWriteMutable) : Bool :=
  inner.state != .flushing && decide (inner.nextRetryAt ≤ now)

/-- `read_blob_bytes`: only a file can fail to be read. -/
def Shared.readBlobBytes (s : Shared) (env : Env) : PendingWriteBlob → Option Bytes
  | .memory data => some data
  | .disk file => if env.ok then s.blobs.lookup file else none

/-- The phases between the mark of the entry and the last change of its state. -/
def FlushPhase.marking : FlushPhase → Bool
  | .snapshot | .retireBlob _ | .retireMeta _ | .putReadCache _ _ | .indexSync _ | .quotaGet _
  | .quotaRemove | .quotaInsert _ | .done _ => false
  | _ => true

def Task.marks (r : RecordId) : Task → Bool
  | .flush f => f.record == r && f.phase.marking
  | _ => false

/-- A flush of the record, other than the task `but`, is under way. -/
def State.flushingBut (but : Option Nat) (s : State) (r : RecordId) : Bool :=
  s.tasks.entries.any fun cell => some cell.1 != but && cell.2.marks r

/-- Every entry that no flush works on is pending or abnormal, and becomes due
once its time has come. -/
def Retryable (s : State) : Prop :=
  ∀ path r inner, s.shared.entries.lookup path = some r → s.shared.inner r = some inner →
    s.flushingBut none r = false →
      (inner.state = .pending ∨ inner.state = .abnormal) ∧
        ∀ now, inner.nextRetryAt ≤ now → inner.isDueForBackgroundFlush now = true

/-- The record has left the map, is not marked any more, or is in the hands of
another flush than the task `t`. -/
def Released (s : State) (t : Nat) (r : RecordId) : Prop :=
  (∀ path, s.shared.entries.lookup path ≠ some r) ∨
    (∀ inner, s.shared.inner r = some inner → inner.state ≠ .flushing) ∨
      s.flushingBut (some t) r = true

/-- No flush fails to read the blob of an entry it alone has marked. -/
def BlobsRead (s : State) : Action → Prop
  | .advance t env => ∀ f taken, s.tasks.lookup t = some (.flush f) → f.phase = .readBlob taken →
      s.shared.readBlobBytes env taken.blob = none → Released s t f.record
  | _ => True

section
variable {m : WriteCacheManager} {env : Env} {s s' : Shared} {f : FlushTask} {phase : FlushPhase}

theorem flushStep_others (stepped : flushStep m env s f = some (s',phase)) {q : RecordId}
    (other : q ≠ f.record) : s'.inner q = s.inner q := by
  unfold flushStep at stepped
  split at stepped
  next => cases stepped
  next inner found =>
    have untouched (changed : PendingWriteMutable) : (s.setInner f.record changed).inner q = s.inner q := by
      rw [Shared.inner_setInner found,if_neg other]
    repeat' split at stepped
    all_goals cases stepped
    all_goals first
      | rfl
      | exact untouched _
      | (cases inner.blob <;> rfl)

theorem flushStep_entries (stepped : flushStep m env s f = some (s',phase)) :
    s'.entries = s.entries ∨ s'.entries = s.entries.erase f.target.path := by
  unfold flushStep at stepped
  split at stepped
  next => cases stepped
  next inner found =>
    repeat' split at stepped
    all_goals cases stepped
    all_goals first
      | exact .inl rfl
      | exact .inr rfl
      | (left; cases inner.blob <;> rfl)

/-- A flush that has no more work on its entry has failed to read the blob, set
the state, or taken the entry out of the map. -/
theorem flushStep_rests (stepped : flushStep m env s f = some (s',phase))
    (rests : phase.marking = false) :
    (f.phase.marking = false ∧ s'.records = s.records ∧ s'.entries = s.entries) ∨
      (∃ taken, f.phase = .readBlob taken ∧ s.readBlobBytes env taken.blob = none ∧ s' = s) ∨
        (∀ inner, s'.inner f.record = some inner → inner.state ≠ .flushing) ∨
          s'.entries = s.entries.erase f.target.path := by
  unfold flushStep at stepped
  split at stepped
  next => cases stepped
  next inner found =>
    have unmarked {changed : PendingWriteMutable} (state : changed.state ≠ .flushing) :
        ∀ after, (s.setInner f.record changed).inner f.record = some after → after.state ≠ .flushing := by
      intro after now
      rw [Shared.inner_setInner found,if_pos rfl] at now
      cases now
      exact state
    cases current : f.phase with
    | readBlob taken =>
      rw [current] at stepped
      dsimp only at stepped
      split at stepped
      next => cases stepped; contradiction
      next => cases stepped; contradiction
      next file blob unread =>
        cases stepped
        refine .inr (.inl ⟨taken,rfl,?_,rfl⟩)
        rw [blob] at unread ⊢
        simpa [Shared.readBlobBytes,Shared.content] using unread
    | check taken data previousSize infoSize =>
      rw [current] at stepped
      dsimp only at stepped
      split at stepped
      next =>
        cases stepped
        exact .inr (.inr (.inl (unmarked (by simp))))
      next =>
        cases stepped
        contradiction
    | promoted taken oldBlob =>
      rw [current] at stepped
      dsimp only at stepped
      have logged : (m.logAbnormal env.now inner).state ≠ .flushing := by
        simp [WriteCacheManager.logAbnormal]
      repeat' split at stepped
      all_goals cases stepped
      all_goals first
        | contradiction
        | exact .inr (.inr (.inl (unmarked logged)))
    | finishFailure taken =>
      rw [current] at stepped
      cases stepped
      refine .inr (.inr (.inl (unmarked ?_)))
      simp only [WriteCacheManager.finishFailure]
      split
      · simp
      · simp
    | removeEntry data delta =>
      rw [current] at stepped
      cases stepped
      exact .inr (.inr (.inr rfl))
    | _ =>
      rw [current] at stepped
      dsimp only at stepped
      repeat' split at stepped
      all_goals cases stepped
      all_goals first
        | contradiction
        | exact .inl ⟨rfl,rfl,rfl⟩

/-- No step of an enqueue marks an entry. -/
theorem enqueueStep_flushing {tick : Nat} {e e' : EnqueueTask}
    (stepped : enqueueStep m tick env s e = some (s',e')) {path : Text} {q : RecordId}
    {inner : PendingWriteMutable} (entry : s'.entries.lookup path = some q)
    (present : s'.inner q = some inner) (flushing : inner.state = .flushing) :
    s.entries.lookup path = some q ∧ ∃ before, s.inner q = some before ∧ before.state = .flushing := by
  unfold enqueueStep at stepped
  cases phase : e.phase with
  | bump r =>
    rw [phase] at stepped
    dsimp only at stepped
    split at stepped
    next => cases stepped
    next old found =>
      have bumped : (e.bumped old).state ≠ .flushing := by
        simp only [EnqueueTask.bumped,beginUpdate]
        split
        · simp
        · simp
      have unmarked (now : (s.setInner r (e.bumped old)).inner q = some inner) :
          ∃ before, s.inner q = some before ∧ before.state = .flushing := by
        rw [Shared.inner_setInner found] at now
        split at now
        next =>
          cases now
          exact absurd flushing bumped
        next => exact ⟨inner,now,flushing⟩
      split at stepped
      all_goals
        cases stepped
        exact ⟨entry,unmarked present⟩
  | swap r generation previous staged =>
    rw [phase] at stepped
    dsimp only at stepped
    split at stepped
    next => cases stepped
    next old found =>
      split at stepped
      next =>
        cases stepped
        refine ⟨entry,?_⟩
        change (s.setInner r { old with blob := e.stagedBlob staged }).inner q = some inner at present
        rw [Shared.inner_setInner found] at present
        split at present
        next same =>
          cases present
          exact ⟨old,same ▸ found,flushing⟩
        next => exact ⟨inner,present,flushing⟩
      next =>
        cases stepped
        exact ⟨entry,inner,present,flushing⟩
  | insert stored =>
    rw [phase] at stepped
    cases stepped
    simp only [Shared.inner,Shared.insertRecord,Store.lookup_insert_eq] at present entry
    by_cases new : q = s.nextRecord
    · rw [if_pos new] at present
      cases present
      cases flushing
    · rw [if_neg new] at present
      refine ⟨?_,inner,present,flushing⟩
      split at entry
      next =>
        cases entry
        exact absurd rfl new
      next => exact entry
  | _ =>
    rw [phase] at stepped
    dsimp only at stepped
    repeat' split at stepped
    all_goals cases stepped
    all_goals exact ⟨entry,inner,present,flushing⟩

theorem quotaStep_records {q : QuotaTask} {phase : QuotaPhase}
    (stepped : quotaStep m env s q = some (s',phase)) :
    s'.records = s.records ∧ s'.entries = s.entries := by
  unfold quotaStep at stepped
  repeat' split at stepped
  all_goals cases stepped
  all_goals exact ⟨rfl,rfl⟩

end

/-! ### Entries in the hands of a flush -/

section
variable {s : State} {but : Option Nat} {r : RecordId}

theorem flushingBut_spawn (numbered : Numbered s) (shared : Shared) (task : Task)
    (flushing : s.flushingBut none r = true) : (s.spawn shared task).flushingBut none r = true :=
  anyBut_spawned numbered flushing

/-- After a step of one task the record is in the hands of another task or of
this one. -/
theorem flushingBut_resume {t : Nat} {shared : Shared} {task : Task} :
    (s.resume t shared task).flushingBut none r = true ↔
      s.flushingBut (some t) r = true ∨ task.marks r = true := anyBut_resume_iff

/-- A flush at work is the task itself or another one. -/
theorem flushingBut_split {t : Nat} {task : Task} (found : s.tasks.lookup t = some task)
    (flushing : s.flushingBut none r = true) :
    task.marks r = true ∨ s.flushingBut (some t) r = true := anyBut_split found flushing

end

/-- Every marked entry is in the hands of a flush. -/
def Marked (s : State) : Prop :=
  ∀ path r inner, s.shared.entries.lookup path = some r → s.shared.inner r = some inner →
    inner.state = .flushing → s.flushingBut none r = true

theorem retryable_iff {s : State} : Retryable s ↔ Marked s := by
  constructor
  · intro retryable path r inner entry present flushing
    by_contra idle
    have state := (retryable path r inner entry present (by simpa using idle)).1
    simp [flushing] at state
  · intro marked path r inner entry present idle
    have state : inner.state ≠ .flushing := by
      intro flushing
      have busy := marked path r inner entry present flushing
      rw [idle] at busy
      contradiction
    constructor
    · cases named : inner.state with
      | pending => simp
      | abnormal => simp
      | flushing => exact absurd named state
    · intro now come
      simp [PendingWriteMutable.isDueForBackgroundFlush,state,come]

theorem marked_spawn {s : State} (numbered : Numbered s) (marked : Marked s) {shared : Shared}
    (records : shared.records = s.shared.records) (entries : shared.entries = s.shared.entries)
    (task : Task) : Marked (s.spawn shared task) := by
  intro path r inner entry present flushing
  apply flushingBut_spawn numbered
  refine marked path r inner (entries ▸ entry) ?_ flushing
  rw [Shared.inner,← records]
  exact present

section
variable {m : WriteCacheManager} {s : State} {t : Nat} {env : Env} {shared : Shared}

/-- A task that marks nothing leaves every entry in the hands it is in. -/
theorem marked_bystander {task task' : Task} (marked : Marked s)
    (found : s.tasks.lookup t = some task) (idle : ∀ r, task.marks r = false)
    (kept : ∀ path r inner, shared.entries.lookup path = some r → shared.inner r = some inner →
      inner.state = .flushing → s.shared.entries.lookup path = some r ∧
        ∃ before, s.shared.inner r = some before ∧ before.state = .flushing) :
    Marked (s.resume t shared task') := by
  intro path r inner entry present flushing
  obtain ⟨entry',before,present',flushing'⟩ := kept path r inner entry present flushing
  have busy := marked path r before entry' present' flushing'
  rcases flushingBut_split found busy with own | other
  · rw [idle] at own
    contradiction
  · exact flushingBut_resume.mpr (.inl other)

theorem marks_flush {f : FlushTask} {r : RecordId} :
    (Task.flush f).marks r = true ↔ f.record = r ∧ f.phase.marking = true := by
  simp [Task.marks]

/-- A step of a flush keeps the entries marked only in some flush's hands, if a
failed read leaves its entry released. -/
theorem marked_flush {f : FlushTask} {phase : FlushPhase} (filed : Filed s) (marked : Marked s)
    (found : s.tasks.lookup t = some (.flush f))
    (stepped : flushStep m env s.shared f = some (shared,phase))
    (read : ∀ taken, f.phase = .readBlob taken →
      s.shared.readBlobBytes env taken.blob = none → Released s t f.record) :
    Marked (s.resume t shared (.flush { f with phase })) := by
  intro path r inner entry present flushing
  have entry' : s.shared.entries.lookup path = some r := by
    rcases flushStep_entries stepped with same | erased
    · exact same ▸ entry
    · change shared.entries.lookup path = some r at entry
      rw [erased,Store.lookup_erase_eq] at entry
      split at entry
      next => contradiction
      next => exact entry
  rw [flushingBut_resume,marks_flush]
  by_cases own : r = f.record
  · subst own
    by_cases active : phase.marking = true
    · exact .inr ⟨rfl,active⟩
    · left
      rcases flushStep_rests stepped (by simpa using active) with
        ⟨idle,records,entries⟩ | ⟨taken,current,unread,rfl⟩ | unmarked | erased
      · have present' : s.shared.inner f.record = some inner := by
          rw [Shared.inner,← records]
          exact present
        rcases flushingBut_split found (marked path f.record inner entry' present' flushing) with own | other
        · rw [marks_flush,idle] at own
          cases own.2
        · exact other
      · rcases read taken current unread with gone | unmarked | other
        · exact absurd entry' (gone path)
        · exact absurd flushing (unmarked inner present)
        · exact other
      · exact absurd flushing (unmarked inner present)
      · obtain ⟨record,held,place⟩ := filed.records.mapped path f.record entry'
        obtain ⟨record',held',target⟩ := filed.tasks t _ found
        obtain rfl : record = record' := Option.some.inj (held.symm.trans held')
        have here : path = f.target.path := by rw [← place,target]
        change shared.entries.lookup path = some f.record at entry
        rw [erased,here,AList.lookup_erase] at entry
        contradiction
  · have present' : s.shared.inner r = some inner := by
      rw [← flushStep_others stepped own]
      exact present
    rcases flushingBut_split found (marked path r inner entry' present' flushing) with mine | other
    · exact absurd (marks_flush.mp mine).1.symm own
    · exact .inl other

/-- A failed read that keeps the entries so has left its entry released. -/
theorem released_of_marked {f : FlushTask} {phase : FlushPhase} {taken : FlushSnapshot}
    (stepped : flushStep m env s.shared f = some (shared,phase)) (current : f.phase = .readBlob taken)
    (unread : s.shared.readBlobBytes env taken.blob = none)
    (marked : Marked (s.resume t shared (.flush { f with phase }))) : Released s t f.record := by
  by_contra bound
  simp only [Released,not_or,not_forall,not_not] at bound
  obtain ⟨⟨path,entry⟩,⟨inner,present,flushing⟩,alone⟩ := bound
  have failed : shared = s.shared ∧ phase = .done false := by
    simp only [flushStep,present,current] at stepped
    split at stepped
    next data _ blob =>
      rw [blob] at unread
      cases unread
    next file data blob content =>
      rw [blob] at unread content
      have read : s.shared.readBlobBytes env (.disk file) = some data := content
      rw [unread] at read
      cases read
    next =>
      cases stepped
      exact ⟨rfl,rfl⟩
  obtain ⟨rfl,rfl⟩ := failed
  have busy := marked path f.record inner entry present flushing
  rw [flushingBut_resume] at busy
  rcases busy with other | own
  · exact alone other
  · exact Bool.false_ne_true (marks_flush.mp own).2

end

/-- Of all the steps only a failed read can leave an entry marked for good. -/
theorem marked_step {m : WriteCacheManager} {s s' : State} {action : Action} (filed : Filed s)
    (marked : Marked s) (stepped : cacheStep m s action = some s') :
    Marked s' ↔ BlobsRead s action := by
  rcases cacheStep_cases stepped with ⟨target,data,rfl,rfl⟩ | ⟨r,force,record,rfl,_,rfl⟩ |
    ⟨key,task,rfl,_,rfl⟩ | ⟨t,env,task,shared,task',rfl,found,computed,rfl⟩ | ⟨path,rfl,rfl⟩
  · exact iff_of_true (marked_spawn filed.numbered marked rfl rfl _) trivial
  · exact iff_of_true (marked_spawn filed.numbered marked rfl rfl _) trivial
  · exact iff_of_true (marked_spawn filed.numbered marked rfl rfl _) trivial
  · cases task with
    | enqueue e =>
      obtain ⟨out,advanced,same⟩ := Option.map_eq_some_iff.mp computed
      cases same
      refine iff_of_true ?_ ?_
      · apply marked_bystander marked found (fun _ => rfl)
        intro path r inner entry present flushing
        exact enqueueStep_flushing advanced entry present flushing
      · intro f taken found'
        cases found.symm.trans found'
    | flush f =>
      obtain ⟨⟨shared',phase⟩,advanced,same⟩ := Option.map_eq_some_iff.mp computed
      cases same
      constructor
      · intro after f' taken found' current unread
        cases found.symm.trans found'
        exact released_of_marked advanced current unread after
      · intro read
        exact marked_flush filed marked found advanced fun taken => read f taken found
    | quotaSync q =>
      obtain ⟨out,advanced,same⟩ := Option.map_eq_some_iff.mp computed
      cases same
      refine iff_of_true ?_ ?_
      · apply marked_bystander marked found (fun _ => rfl)
        intro path r inner entry present flushing
        obtain ⟨records,entries⟩ := quotaStep_records advanced
        refine ⟨entries ▸ entry,inner,?_,flushing⟩
        rw [Shared.inner,← records]
        exact present
      · intro f taken found'
        cases found.symm.trans found'
  · exact iff_of_true (fun path r inner entry present flushing => marked path r inner entry present flushing) trivial

/-- A manager at rest, with whatever entries it has loaded. -/
structure RestingStart (s : State) : Prop where
  idle : s.tasks = ∅
  filed : RecordsFiled s.shared
  unmarked : ∀ r inner, s.shared.inner r = some inner → inner.state ≠ .flushing

theorem filed_of_resting {s : State} (start : RestingStart s) : Filed s := by
  refine ⟨fun t _ => by rw [start.idle,AList.lookup_empty],start.filed,?_⟩
  intro t task found
  rw [start.idle,AList.lookup_empty] at found
  contradiction

/-- Along an execution every entry that no flush works on can be tried again
exactly when no flush fails to read the blob of an entry it alone has marked. -/
theorem flush_leaves_retryable_iff {m : WriteCacheManager} {s final : State} {actions : List Action}
    (start : RestingStart s) (computed : (cache m).exec s actions = some final) :
    (∀ done, done <+: actions → ∀ reached, (cache m).exec s done = some reached → Retryable reached) ↔
      (cache m).Run BlobsRead s actions final := by
  apply Transition.System.exec_always_iff (I := Filed)
  · intro s action next filed stepped
    exact filed_step filed stepped
  · intro s action next filed retryable stepped
    rw [retryable_iff] at retryable ⊢
    exact marked_step filed retryable stepped
  · exact filed_of_resting start
  · rw [retryable_iff]
    intro path r inner _ present flushing
    exact absurd flushing (start.unmarked r inner present)
  · exact computed

/-- A manager that keeps its pending writes in files. -/
def diskManager : WriteCacheManager := { memoryManager with backend := .localDir }

/-- A new file, and a flush that reads its blob, writes it and retires it. -/
def readFlush : List Action := .enqueue fileA [1] :: advances 0 11 ++ .flush 0 true :: advances 1 11

theorem restingStart_fresh (primary : Store Text Bytes) : RestingStart (.fresh primary) := by
  refine ⟨rfl,⟨?_,?_⟩,?_⟩
  · simp [State.fresh]
  · simp [State.fresh]
  · simp [State.fresh,Shared.inner]

theorem read_flush_retryable : ∃ final, (cache diskManager).exec (.fresh ∅) readFlush = some final ∧
    ((∀ done, done <+: readFlush → ∀ reached, (cache diskManager).exec (.fresh ∅) done = some reached →
      Retryable reached) ↔ (cache diskManager).Run BlobsRead (.fresh ∅) readFlush final) := by
  have runs : ((cache diskManager).exec (.fresh ∅) readFlush).isSome = true := by decide +kernel
  obtain ⟨final,computed⟩ := Option.isSome_iff_exists.mp runs
  exact ⟨final,computed,flush_leaves_retryable_iff (restingStart_fresh ∅) computed⟩

/-- A flush whose read of the blob fails. -/
def unreadFlush : List Action :=
  .enqueue fileA [1] :: advances 0 11 ++ .flush 0 true :: advances 1 1 ++ [.advance 1 ⟨false,0⟩]

theorem unread_flush_marks_for_good :
    ¬ ∀ actions final, (cache diskManager).exec (.fresh ∅) actions = some final → Retryable final := by
  intro law
  have stuck : ((cache diskManager).exec (.fresh ∅) unreadFlush).any (fun final => decide
      (final.shared.entries.lookup fileA.path = some 0 ∧
        (final.shared.inner 0).map (·.state) = some .flushing ∧
          final.flushingBut none 0 = false)) = true := by decide +kernel
  obtain ⟨final,computed,shown⟩ := Option.any_eq_true _ _ |>.mp stuck
  obtain ⟨entry,marked,idle⟩ := of_decide_eq_true shown
  obtain ⟨inner,present,flushing⟩ := Option.map_eq_some_iff.mp marked
  have state := (law unreadFlush final computed fileA.path 0 inner entry present idle).1
  simp [flushing] at state

end StorageHub.WriteCache
