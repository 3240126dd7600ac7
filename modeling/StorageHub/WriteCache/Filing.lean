import StorageHub.WriteCache.Machine

/-! Where the records of the write cache are. A step leaves the records and the
map alone, changes one record behind its lock, files a new record, or takes a
path out of the map, and every task works on records of its own target. -/
namespace StorageHub.WriteCache
open Library

namespace Shared
variable {s : Shared}

theorem inner_of_record {r : RecordId} {record : PendingWriteRecord}
    (found : s.records.lookup r = some record) : s.inner r = some record.inner := by
  simp [inner,found]

theorem record_of_inner {r : RecordId} {inner : PendingWriteMutable} (found : s.inner r = some inner) :
    ∃ record, s.records.lookup r = some record ∧ record.inner = inner :=
  Option.map_eq_some_iff.mp found

/-- A lock section changes the value of its record alone. -/
theorem inner_setInner {r : RecordId} {before : PendingWriteMutable} (found : s.inner r = some before)
    (inner : PendingWriteMutable) (q : RecordId) :
    (s.setInner r inner).inner q = if q = r then some inner else s.inner q := by
  obtain ⟨record,present,_⟩ := record_of_inner found
  simp only [Shared.inner,setInner,present,Store.lookup_insert_eq]
  split
  · simp
  · rfl

theorem records_setInner {r : RecordId} {before : PendingWriteMutable} (found : s.inner r = some before)
    (inner : PendingWriteMutable) {q : RecordId} {record : PendingWriteRecord}
    (present : s.records.lookup q = some record) :
    ∃ record', (s.setInner r inner).records.lookup q = some record' ∧ record'.target = record.target := by
  obtain ⟨old,held,_⟩ := record_of_inner found
  simp only [setInner,held,Store.lookup_insert_eq]
  by_cases same : q = r
  · subst same
    obtain rfl : old = record := Option.some.inj (held.symm.trans present)
    exact ⟨_,if_pos rfl,rfl⟩
  · exact ⟨record,by rw [if_neg same,present],rfl⟩

theorem records_of_setInner {r q : RecordId} {inner : PendingWriteMutable} {record : PendingWriteRecord}
    (present : (s.setInner r inner).records.lookup q = some record) :
    ∃ before, s.records.lookup q = some before := by
  simp only [setInner] at present
  split at present
  next old held =>
    rw [Store.lookup_insert_eq] at present
    split at present
    next same => exact ⟨old,same ▸ held⟩
    next => exact ⟨record,present⟩
  next => exact ⟨record,present⟩

end Shared

/-- What a step does to the records and the map. -/
inductive RecordChange (s s' : Shared) : Prop
  | still (records : s'.records = s.records) (entries : s'.entries = s.entries)
      (next : s'.nextRecord = s.nextRecord)
  | locked (r : RecordId) (before inner : PendingWriteMutable) (found : s.inner r = some before)
      (records : s'.records = (s.setInner r inner).records) (entries : s'.entries = s.entries)
      (next : s'.nextRecord = s.nextRecord)
  | filed (record : PendingWriteRecord)
      (records : s'.records = s.records.insert s.nextRecord record)
      (entries : s'.entries = s.entries.insert record.target.path s.nextRecord)
      (next : s'.nextRecord = s.nextRecord + 1)
  | dropped (path : Text) (records : s'.records = s.records)
      (entries : s'.entries = s.entries.erase path) (next : s'.nextRecord = s.nextRecord)

section
variable {m : WriteCacheManager} {env : Env} {s s' : Shared}

theorem enqueueStep_change {tick : Nat} {e e' : EnqueueTask}
    (stepped : enqueueStep m tick env s e = some (s',e')) : RecordChange s s' := by
  unfold enqueueStep at stepped
  cases phase : e.phase with
  | bump r =>
    rw [phase] at stepped
    dsimp only at stepped
    split at stepped
    next => cases stepped
    next before found =>
      split at stepped
      all_goals
        cases stepped
        exact .locked r before _ found rfl rfl rfl
  | swap r generation previous staged =>
    rw [phase] at stepped
    dsimp only at stepped
    split at stepped
    next => cases stepped
    next before found =>
      split at stepped
      next =>
        cases stepped
        exact .locked r before _ found rfl rfl rfl
      next =>
        cases stepped
        exact .still rfl rfl rfl
  | insert stored =>
    rw [phase] at stepped
    cases stepped
    exact .filed _ rfl rfl rfl
  | _ =>
    rw [phase] at stepped
    dsimp only at stepped
    repeat' split at stepped
    all_goals cases stepped
    all_goals exact .still rfl rfl rfl

theorem still_removeBlobFiles (blob : PendingWriteBlob) (accountedBytes : Nat) :
    RecordChange s { s.removeBlobFiles env blob with accountedBytes } := by
  cases blob with
  | memory data => exact .still rfl rfl rfl
  | disk file => exact .still rfl rfl rfl

theorem flushStep_change {f : FlushTask} {phase : FlushPhase}
    (stepped : flushStep m env s f = some (s',phase)) : RecordChange s s' := by
  unfold flushStep at stepped
  split at stepped
  next => cases stepped
  next inner found =>
    repeat' split at stepped
    all_goals cases stepped
    all_goals first
      | exact .still rfl rfl rfl
      | exact .locked f.record inner _ found rfl rfl rfl
      | exact .dropped f.target.path rfl rfl rfl
      | exact still_removeBlobFiles _ _

theorem quotaStep_change {q : QuotaTask} {phase : QuotaPhase}
    (stepped : quotaStep m env s q = some (s',phase)) : RecordChange s s' := by
  unfold quotaStep at stepped
  repeat' split at stepped
  all_goals cases stepped
  all_goals exact .still rfl rfl rfl

theorem taskStep_change {tick : Nat} {task task' : Task}
    (stepped : taskStep m tick env s task = some (s',task')) : RecordChange s s' := by
  cases task with
  | enqueue e =>
    obtain ⟨_,computed,same⟩ := Option.map_eq_some_iff.mp stepped
    cases same
    exact enqueueStep_change computed
  | flush f =>
    obtain ⟨_,computed,same⟩ := Option.map_eq_some_iff.mp stepped
    cases same
    exact flushStep_change computed
  | quotaSync q =>
    obtain ⟨_,computed,same⟩ := Option.map_eq_some_iff.mp stepped
    cases same
    exact quotaStep_change computed

end

/-- The record an update works on between its lookup and its last lock section. -/
def EnqueuePhase.updates : EnqueuePhase → Option RecordId
  | .bump r | .stageBlob r _ _ _ | .stageMeta r _ _ _ | .swap r _ _ _ => some r
  | _ => none

/-- The record of a running task is one of the task's target. -/
def Task.Owns (s : Shared) : Task → Prop
  | .enqueue e => ∀ r, e.phase.updates = some r →
      ∃ record, s.records.lookup r = some record ∧ record.target.path = e.target.path
  | .flush f => ∃ record, s.records.lookup f.record = some record ∧ record.target = f.target
  | .quotaSync _ => True

/-- Every record is filed under the path of its target. -/
structure RecordsFiled (s : Shared) : Prop where
  issued : ∀ r record, s.records.lookup r = some record → r < s.nextRecord
  mapped : ∀ path r, s.entries.lookup path = some r →
    ∃ record, s.records.lookup r = some record ∧ record.target.path = path

structure Filed (s : State) : Prop where
  numbered : Numbered s
  records : RecordsFiled s.shared
  tasks : ∀ t task, s.tasks.lookup t = some task → task.Owns s.shared

section
variable {s s' : Shared}

/-- Records are never lost and keep their targets. -/
theorem RecordChange.kept (filed : RecordsFiled s) (change : RecordChange s s') {r : RecordId}
    {record : PendingWriteRecord} (present : s.records.lookup r = some record) :
    ∃ record', s'.records.lookup r = some record' ∧ record'.target = record.target := by
  cases change with
  | still records _ _ => exact ⟨record,records ▸ present,rfl⟩
  | locked q before inner found records _ _ =>
    rw [records]
    exact Shared.records_setInner found inner present
  | filed new records _ _ =>
    have other : r ≠ s.nextRecord := (filed.issued r record present).ne
    exact ⟨record,by rw [records,AList.lookup_insert_ne other,present],rfl⟩
  | dropped _ records _ _ => exact ⟨record,records ▸ present,rfl⟩

theorem RecordChange.filed_records (filed : RecordsFiled s) (change : RecordChange s s') :
    RecordsFiled s' := by
  have kept {r record} (present : s.records.lookup r = some record) := change.kept filed present
  have mapped (path r) (entry : s.entries.lookup path = some r) :
      ∃ record, s'.records.lookup r = some record ∧ record.target.path = path := by
    obtain ⟨record,present,place⟩ := filed.mapped path r entry
    obtain ⟨record',present',same⟩ := kept present
    exact ⟨record',present',by rw [same,place]⟩
  cases change with
  | still records entries next =>
    refine ⟨fun r record present => ?_,fun path r entry => mapped path r (entries ▸ entry)⟩
    rw [next]
    exact filed.issued r record (records ▸ present)
  | locked q before inner found records entries next =>
    refine ⟨fun r record present => ?_,fun path r entry => mapped path r (entries ▸ entry)⟩
    rw [records] at present
    obtain ⟨old,earlier⟩ := Shared.records_of_setInner present
    rw [next]
    exact filed.issued r old earlier
  | filed new records entries next =>
    constructor
    · intro r record present
      rw [records,Store.lookup_insert_eq] at present
      rw [next]
      split at present
      next same =>
        rw [same]
        exact Nat.lt_succ_self _
      next => exact Nat.lt_succ_of_lt (filed.issued r record present)
    · intro path r entry
      rw [entries,Store.lookup_insert_eq] at entry
      split at entry
      next same =>
        cases entry
        exact ⟨new,by rw [records,AList.lookup_insert],same.symm⟩
      next => exact mapped path r entry
  | dropped path records entries next =>
    refine ⟨fun r record present => ?_,fun path r entry => mapped path r ?_⟩
    · rw [next]
      exact filed.issued r record (records ▸ present)
    · rw [entries,Store.lookup_erase_eq] at entry
      split at entry
      next => contradiction
      next => exact entry

theorem RecordChange.owns (filed : RecordsFiled s) (change : RecordChange s s') {task : Task}
    (owns : task.Owns s) : task.Owns s' := by
  cases task with
  | enqueue e =>
    intro r updating
    obtain ⟨record,present,place⟩ := owns r updating
    obtain ⟨record',present',same⟩ := change.kept filed present
    exact ⟨record',present',by rw [same,place]⟩
  | flush f =>
    obtain ⟨record,present,target⟩ := owns
    obtain ⟨record',present',same⟩ := change.kept filed present
    exact ⟨record',present',same.trans target⟩
  | quotaSync q => trivial

/-- An update goes on with the record it looked up. -/
theorem enqueueStep_owns {m : WriteCacheManager} {tick : Nat} {env : Env} {e e' : EnqueueTask}
    (filed : RecordsFiled s) (owns : Task.Owns s (.enqueue e))
    (stepped : enqueueStep m tick env s e = some (s',e')) : Task.Owns s (.enqueue e') := by
  unfold enqueueStep at stepped
  cases phase : e.phase with
  | lookup =>
    rw [phase] at stepped
    dsimp only at stepped
    split at stepped
    next r entry =>
      cases stepped
      intro q updating
      obtain rfl : r = q := Option.some.inj updating
      exact filed.mapped _ r entry
    next =>
      cases stepped
      intro q updating
      cases updating
  | bump r | stageBlob r _ _ _ | stageMeta r _ _ _ =>
    have own := owns r (by rw [phase]; rfl)
    rw [phase] at stepped
    dsimp only at stepped
    repeat' split at stepped
    all_goals cases stepped
    all_goals
      intro q updating
      first
        | contradiction
        | (obtain rfl : r = q := Option.some.inj updating
           exact own)
  | swap r generation previous staged =>
    rw [phase] at stepped
    dsimp only at stepped
    repeat' split at stepped
    all_goals cases stepped
    all_goals
      intro q updating
      simp only [EnqueueTask.takeEffect,EnqueueTask.goto,discardPhase] at updating
      split at updating
      all_goals cases updating
  | _ =>
    rw [phase] at stepped
    dsimp only at stepped
    repeat' split at stepped
    all_goals cases stepped
    all_goals
      intro q updating
      cases updating

theorem taskStep_owns {m : WriteCacheManager} {tick : Nat} {env : Env} {task task' : Task}
    (filed : RecordsFiled s) (owns : task.Owns s)
    (stepped : taskStep m tick env s task = some (s',task')) : task'.Owns s' := by
  have change := taskStep_change stepped
  cases task with
  | enqueue e =>
    obtain ⟨out,computed,same⟩ := Option.map_eq_some_iff.mp stepped
    cases same
    exact change.owns filed (enqueueStep_owns filed owns computed)
  | flush f =>
    obtain ⟨out,computed,same⟩ := Option.map_eq_some_iff.mp stepped
    cases same
    have moved : Task.Owns s (.flush { f with phase := out.2 }) := owns
    exact change.owns filed moved
  | quotaSync q =>
    obtain ⟨out,computed,same⟩ := Option.map_eq_some_iff.mp stepped
    cases same
    trivial

end

theorem filed_step {m : WriteCacheManager} {s s' : State} {action : Action} (filed : Filed s)
    (stepped : cacheStep m s action = some s') : Filed s' := by
  have numbered := numbered_step filed.numbered stepped
  have spawned (shared : Shared) (change : RecordChange s.shared shared) (task : Task)
      (own : task.Owns s.shared) : ∀ t other, (s.spawn shared task).tasks.lookup t = some other →
        other.Owns shared := by
    intro t other found
    simp only [State.spawn,Store.lookup_insert_eq] at found
    split at found
    next =>
      cases found
      exact change.owns filed.records own
    next => exact change.owns filed.records (filed.tasks t other found)
  rcases cacheStep_cases stepped with ⟨target,data,_,rfl⟩ | ⟨r,force,record,_,present,rfl⟩ |
    ⟨key,task,_,_,rfl⟩ | ⟨t,env,task,shared,task',_,found,computed,rfl⟩ | ⟨path,_,rfl⟩
  · refine ⟨numbered,filed.records,spawned _ (.still rfl rfl rfl) _ ?_⟩
    intro r updating
    cases updating
  · exact ⟨numbered,filed.records,spawned _ (.still rfl rfl rfl) _ ⟨record,present,rfl⟩⟩
  · have change : RecordChange s.shared
        { s.shared with quotaSyncUsers := s.shared.quotaSyncUsers.erase key } := .still rfl rfl rfl
    exact ⟨numbered,change.filed_records filed.records,spawned _ change _ trivial⟩
  · have change := taskStep_change computed
    refine ⟨numbered,change.filed_records filed.records,?_⟩
    intro u other present
    simp only [State.resume,Store.lookup_insert_eq] at present
    split at present
    next =>
      cases present
      exact taskStep_owns filed.records (filed.tasks t task found) computed
    next => exact change.owns filed.records (filed.tasks u other present)
  · have change : RecordChange s.shared
        { s.shared with readCache := s.shared.readCache.erase path } := .still rfl rfl rfl
    refine ⟨numbered,change.filed_records filed.records,?_⟩
    intro t task found
    exact change.owns filed.records (filed.tasks t task found)

end StorageHub.WriteCache
