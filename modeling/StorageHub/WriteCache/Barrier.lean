import StorageHub.WriteCache.Retry

/-! `flush_path` beside the background flushes. Its caller takes an Ok for a sign
that nothing of the path is pending or on its way to the primary; a path is
settled when that is so, and a settled path stays so until it is enqueued again. -/
namespace StorageHub.WriteCache
open Library

def EnqueuePhase.returned : EnqueuePhase → Bool
  | .done _ => true
  | _ => false

/-- An enqueue of the path that has not returned. -/
def Task.enqueues (path : Text) : Task → Bool
  | .enqueue e => e.target.path == path && !e.phase.returned
  | _ => false

/-- A flush of the path between its mark and its last work on the entry. -/
def Task.flushes (path : Text) : Task → Bool
  | .flush f => f.target.path == path && f.phase.marking
  | _ => false

/-- All records of the path are marked as flushing, so that no flush takes one up. -/
def Shared.AllMarked (but : Option RecordId) (path : Text) (s : Shared) : Prop :=
  ∀ cell ∈ s.records.entries, cell.2.target.path = path → some cell.1 ≠ but →
    cell.2.inner.state = .flushing

instance (but : Option RecordId) (path : Text) : DecidablePred (Shared.AllMarked but path) := fun s =>
  inferInstanceAs (Decidable (∀ cell ∈ s.records.entries, cell.2.target.path = path →
    some cell.1 ≠ but → cell.2.inner.state = .flushing))

/-- Nothing of the path is pending or on its way to the primary. -/
structure Settled (path : Text) (s : State) : Prop where
  entry : s.shared.entries.lookup path = none
  records : s.shared.AllMarked none path
  flushes : s.anyBut none (Task.flushes path) = false
  enqueues : s.anyBut none (Task.enqueues path) = false

/-- No new enqueue of the path. -/
def Spares (path : Text) : Action → Prop
  | .enqueue target _ => target.path ≠ path
  | _ => True

instance (path : Text) : DecidablePred (Spares path)
  | .enqueue target _ => inferInstanceAs (Decidable (target.path ≠ path))
  | .flush _ _ | .takeQuota _ | .advance _ _ | .evict _ => isTrue trivial

/-! ### Steps beside the path -/

/-- A step leaves alone what concerns the path. -/
structure Beside (path : Text) (s s' : Shared) : Prop where
  primary : s'.primary.lookup path = s.primary.lookup path
  entry : s'.entries.lookup path = s.entries.lookup path
  records : ∀ r record, s'.records.lookup r = some record → record.target.path = path →
    s.records.lookup r = some record

section beside
variable {m : WriteCacheManager} {path : Text} {env : Env} {s s' : Shared}

theorem beside_setInner {r : RecordId} {record : PendingWriteRecord} {inner : PendingWriteMutable}
    (found : s.records.lookup r = some record) (elsewhere : record.target.path ≠ path) :
    Beside path s (s.setInner r inner) := by
  refine ⟨rfl,rfl,?_⟩
  intro q after present place
  simp only [Shared.setInner,found,Store.lookup_insert_eq] at present
  split at present
  next =>
    cases present
    exact absurd place elsewhere
  next => exact present

theorem Beside.allMarked {but : Option RecordId} (beside : Beside path s s') (marked : s.AllMarked but path) :
    s'.AllMarked but path := by
  intro cell member place other
  have present := beside.records cell.1 cell.2 (AList.mem_lookup_iff.mpr member) place
  exact marked cell (AList.mem_lookup_iff.mp present) place other

theorem enqueueStep_beside {tick : Nat} {e e' : EnqueueTask} (owns : Task.Owns s (.enqueue e))
    (elsewhere : e.target.path ≠ path) (stepped : enqueueStep m tick env s e = some (s',e')) :
    Beside path s s' := by
  unfold enqueueStep at stepped
  cases phase : e.phase with
  | bump r =>
    obtain ⟨record,found,place⟩ := owns r (by rw [phase]; rfl)
    rw [phase] at stepped
    dsimp only at stepped
    repeat' split at stepped
    all_goals cases stepped
    all_goals exact beside_setInner found (by rw [place]; exact elsewhere)
  | swap r generation previous staged =>
    obtain ⟨record,found,place⟩ := owns r (by rw [phase]; rfl)
    rw [phase] at stepped
    dsimp only at stepped
    repeat' split at stepped
    all_goals cases stepped
    · obtain ⟨primary,entry,records⟩ := beside_setInner found (by rw [place]; exact elsewhere)
      exact ⟨primary,entry,records⟩
    · exact ⟨rfl,rfl,fun _ _ present _ => present⟩
  | insert stored =>
    rw [phase] at stepped
    cases stepped
    refine ⟨rfl,?_,?_⟩
    · exact AList.lookup_insert_ne (Ne.symm elsewhere)
    · intro q after present place
      simp only [Shared.insertRecord,Store.lookup_insert_eq] at present
      split at present
      next =>
        cases present
        exact absurd place elsewhere
      next => exact present
  | _ =>
    rw [phase] at stepped
    dsimp only at stepped
    repeat' split at stepped
    all_goals cases stepped
    all_goals exact ⟨rfl,rfl,fun _ _ present _ => present⟩

theorem flushStep_beside {f : FlushTask} {phase : FlushPhase} (owns : Task.Owns s (.flush f))
    (elsewhere : f.target.path ≠ path) (stepped : flushStep m env s f = some (s',phase)) :
    Beside path s s' := by
  obtain ⟨record,held,target⟩ := owns
  have inner_ (inner : PendingWriteMutable) : Beside path s (s.setInner f.record inner) :=
    beside_setInner held (by rw [target]; exact elsewhere)
  have swapped (inner : PendingWriteMutable) (accountedBytes : Nat) :
      Beside path s { s.setInner f.record inner with accountedBytes } :=
    ⟨(inner_ inner).primary,(inner_ inner).entry,(inner_ inner).records⟩
  unfold flushStep at stepped
  split at stepped
  next => cases stepped
  next inner found =>
    repeat' split at stepped
    all_goals cases stepped
    all_goals first
      | exact ⟨rfl,rfl,fun _ _ present _ => present⟩
      | exact inner_ _
      | exact swapped _ _
      | exact ⟨AList.lookup_insert_ne (Ne.symm elsewhere),rfl,fun _ _ present _ => present⟩
      | exact ⟨rfl,AList.lookup_erase_ne (Ne.symm elsewhere),fun _ _ present _ => present⟩
      | (cases inner.blob <;> exact ⟨rfl,rfl,fun _ _ present _ => present⟩)

/-- A flush that finds its record marked, or is done with it, leaves all alone. -/
theorem flushStep_idle {f : FlushTask} {phase : FlushPhase} (idle : f.phase.marking = false)
    (marked : ∀ inner ∈ s.inner f.record, inner.state = .flushing)
    (stepped : flushStep m env s f = some (s',phase)) : Beside path s s' ∧ phase.marking = false := by
  unfold flushStep at stepped
  split at stepped
  next => cases stepped
  next inner found =>
    have flushing := marked inner found
    cases now : f.phase with
    | snapshot =>
      rw [now] at stepped
      dsimp only at stepped
      rw [if_pos (Or.inl flushing)] at stepped
      cases stepped
      exact ⟨⟨rfl,rfl,fun _ _ present _ => present⟩,rfl⟩
    | retireBlob | retireMeta | putReadCache | indexSync | quotaGet | quotaRemove | quotaInsert | done =>
      rw [now] at stepped
      dsimp only at stepped
      repeat' split at stepped
      all_goals cases stepped
      all_goals exact ⟨⟨rfl,rfl,fun _ _ present _ => present⟩,rfl⟩
    | _ =>
      rw [now] at idle
      cases idle

theorem quotaStep_beside {q : QuotaTask} {phase : QuotaPhase}
    (stepped : quotaStep m env s q = some (s',phase)) : Beside path s s' := by
  unfold quotaStep at stepped
  repeat' split at stepped
  all_goals cases stepped
  all_goals exact ⟨rfl,rfl,fun _ _ present _ => present⟩

theorem enqueueStep_target {tick : Nat} {e e' : EnqueueTask}
    (stepped : enqueueStep m tick env s e = some (s',e')) : e'.target = e.target := by
  unfold enqueueStep at stepped
  repeat' split at stepped
  all_goals cases stepped
  all_goals rfl

theorem returned_rests {tick : Nat} {e : EnqueueTask} (returned : e.phase.returned = true) :
    enqueueStep m tick env s e = none := by
  cases now : e.phase with
  | done outcome => simp [enqueueStep,now]
  | _ =>
    rw [now] at returned
    cases returned

/-- An enqueue that has returned does not come back. -/
theorem taskStep_enqueues {tick : Nat} {task task' : Task} (enqueues : task.enqueues path = false)
    (stepped : taskStep m tick env s task = some (s',task')) : task'.enqueues path = false := by
  cases task with
  | enqueue e =>
    obtain ⟨out,computed,same⟩ := Option.map_eq_some_iff.mp stepped
    cases same
    by_cases here : e.target.path = path
    · have returned : e.phase.returned = true := by simpa [Task.enqueues,here] using enqueues
      rw [returned_rests returned] at computed
      cases computed
    · simp [Task.enqueues,enqueueStep_target computed,here]
  | flush f =>
    obtain ⟨out,computed,same⟩ := Option.map_eq_some_iff.mp stepped
    cases same
    rfl
  | quotaSync q =>
    obtain ⟨out,computed,same⟩ := Option.map_eq_some_iff.mp stepped
    cases same
    rfl

/-- What a step of a task does beside a path none of whose enqueues and flushes
it is at work for. -/
theorem taskStep_beside {tick : Nat} {task task' : Task} (owns : task.Owns s)
    (enqueues : task.enqueues path = false) (flushes : task.flushes path = false)
    (marked : ∀ f, task = .flush f → f.target.path = path → ∀ inner ∈ s.inner f.record, inner.state = .flushing)
    (stepped : taskStep m tick env s task = some (s',task')) :
    Beside path s s' ∧ task'.flushes path = false := by
  cases task with
  | enqueue e =>
    obtain ⟨out,computed,same⟩ := Option.map_eq_some_iff.mp stepped
    cases same
    by_cases here : e.target.path = path
    · have returned : e.phase.returned = true := by simpa [Task.enqueues,here] using enqueues
      rw [returned_rests returned] at computed
      cases computed
    · exact ⟨enqueueStep_beside owns here computed,rfl⟩
  | flush f =>
    obtain ⟨out,computed,same⟩ := Option.map_eq_some_iff.mp stepped
    cases same
    by_cases here : f.target.path = path
    · have idle : f.phase.marking = false := by simpa [Task.flushes,here] using flushes
      obtain ⟨beside,idle'⟩ := flushStep_idle idle (marked f rfl here) computed
      exact ⟨beside,by simp [Task.flushes,idle']⟩
    · exact ⟨flushStep_beside owns here computed,by simp [Task.flushes,here]⟩
  | quotaSync q =>
    obtain ⟨out,computed,same⟩ := Option.map_eq_some_iff.mp stepped
    cases same
    exact ⟨quotaStep_beside computed,rfl⟩

/-- The records of the path are the ones there were. -/
theorem Beside.record (beside : Beside path s s') (filed : RecordsFiled s) (change : RecordChange s s')
    {r : RecordId} {record : PendingWriteRecord} (found : s.records.lookup r = some record)
    (place : record.target.path = path) : s'.records.lookup r = some record := by
  obtain ⟨after,present,target⟩ := change.kept filed found
  have before := beside.records r after present (by rw [target]; exact place)
  rw [found] at before
  cases before
  exact present

end beside

/-! ### Settled paths -/

section settled
variable {m : WriteCacheManager} {path : Text} {s s' : State}

theorem marked_inner {but : Option RecordId} (marked : s.shared.AllMarked but path) {f : FlushTask}
    (owns : Task.Owns s.shared (.flush f)) (place : f.target.path = path) (other : some f.record ≠ but) :
    ∀ inner ∈ s.shared.inner f.record, inner.state = .flushing := by
  obtain ⟨record,found,target⟩ := owns
  intro inner held
  have state := marked ⟨f.record,record⟩ (AList.mem_lookup_iff.mp found) (by rw [target]; exact place) other
  rw [Option.mem_def,Shared.inner_of_record found] at held
  cases held
  exact state

/-- A settled path stays settled, and no step writes it. -/
theorem settled_step {action : Action} (filed : Filed s) (settled : Settled path s)
    (spares : Spares path action) (stepped : cacheStep m s action = some s') :
    Settled path s' ∧ s'.shared.primary.lookup path = s.shared.primary.lookup path := by
  obtain ⟨entry,records,flushes,enqueues⟩ := settled
  rcases cacheStep_cases stepped with ⟨target,data,rfl,rfl⟩ | ⟨r,force,record,_,present,rfl⟩ |
    ⟨key,task,_,_,rfl⟩ | ⟨t,env,task,shared,task',_,found,computed,rfl⟩ | ⟨q,_,rfl⟩
  · have away : Task.enqueues path (.enqueue (.begin target data s.clock)) = false := by
      simp [Task.enqueues,EnqueueTask.begin,show target.path ≠ path from spares]
    exact ⟨⟨entry,records,anyBut_spawn flushes rfl,anyBut_spawn enqueues away⟩,rfl⟩
  · have idle : Task.flushes path (.flush ⟨r,record.target,force,.snapshot⟩) = false := by
      simp [Task.flushes,FlushPhase.marking]
    exact ⟨⟨entry,records,anyBut_spawn flushes idle,anyBut_spawn enqueues rfl⟩,rfl⟩
  · exact ⟨⟨entry,records,anyBut_spawn flushes rfl,anyBut_spawn enqueues rfl⟩,rfl⟩
  · have owns := filed.tasks t task found
    have returned := anyBut_false.mp enqueues t task found (by simp)
    have enqueues' := taskStep_enqueues returned computed
    obtain ⟨beside,flushes'⟩ := taskStep_beside owns returned
      (anyBut_false.mp flushes t task found (by simp))
      (by
        rintro f rfl place
        exact marked_inner records owns place (by simp)) computed
    exact ⟨⟨beside.entry.trans entry,beside.allMarked records,anyBut_resume flushes flushes',
      anyBut_resume enqueues enqueues'⟩,beside.primary⟩
  · exact ⟨⟨entry,records,flushes,enqueues⟩,rfl⟩

theorem enqueues_step {action : Action} (enqueues : s.anyBut none (Task.enqueues path) = false)
    (spares : Spares path action) (stepped : cacheStep m s action = some s') :
    s'.anyBut none (Task.enqueues path) = false := by
  rcases cacheStep_cases stepped with ⟨target,data,rfl,rfl⟩ | ⟨r,force,record,_,present,rfl⟩ |
    ⟨key,task,_,_,rfl⟩ | ⟨t,env,task,shared,task',_,found,computed,rfl⟩ | ⟨q,_,rfl⟩
  · apply anyBut_spawn enqueues
    simp [Task.enqueues,EnqueueTask.begin,show target.path ≠ path from spares]
  · exact anyBut_spawn enqueues rfl
  · exact anyBut_spawn enqueues rfl
  · exact anyBut_resume enqueues
      (taskStep_enqueues (anyBut_false.mp enqueues t task found (by simp)) computed)
  · exact enqueues

end settled

/-! ### The flush of the caller -/

/-- A flush on its way to success has its record at the generation it has taken. -/
def FlushPhase.Carries (inner : PendingWriteMutable) : FlushPhase → Prop
  | .readBlob taken | .statBefore taken _ | .write taken _ _ | .statAfter taken _ _
  | .check taken _ _ _ => inner.generation = taken.generation
  | .removeEntry _ _ => True
  | _ => False

/-- A flush that will return an error, or has. -/
def FlushPhase.failing : FlushPhase → Bool
  | .noteFailure .. | .promoteRead .. | .promoteMark .. | .alreadyAbnormal _ | .promoteStageBlob ..
  | .promoteStageMeta .. | .promoteSwap .. | .promoteDiscardBlob .. | .promoteDiscardMeta ..
  | .promoted .. | .retireBlob _ | .retireMeta _ | .finishFailure _ | .done false => true
  | _ => false

/-- The flush of task `t` alone works for the path, and has not failed. -/
structure Holding (path : Text) (t : Nat) (f : FlushTask) (s : State) : Prop where
  place : f.target.path = path
  carries : ∀ inner ∈ s.shared.inner f.record, f.phase.Carries inner
  records : s.shared.AllMarked none path
  flushes : s.anyBut (some t) (Task.flushes path) = false
  enqueues : s.anyBut none (Task.enqueues path) = false

section holding
variable {m : WriteCacheManager} {path : Text} {env : Env} {s : State} {t : Nat} {f : FlushTask}
  {shared : Shared} {phase : FlushPhase}

theorem flushStep_failing (failing : f.phase.failing = true)
    (stepped : flushStep m env s.shared f = some (shared,phase)) : phase.failing = true := by
  unfold flushStep at stepped
  split at stepped
  next => cases stepped
  next inner found =>
    cases now : f.phase with
    | noteFailure | promoteRead | promoteMark | alreadyAbnormal | promoteStageBlob | promoteStageMeta
    | promoteSwap | promoteDiscardBlob | promoteDiscardMeta | promoted | retireBlob | retireMeta
    | finishFailure | done =>
      rw [now] at stepped
      dsimp only at stepped
      repeat' split at stepped
      all_goals cases stepped
      all_goals rfl
    | _ =>
      rw [now] at failing
      cases failing

/-- The flush goes on alone, fails, or has taken the entry out of the map. -/
theorem holding_advance (holding : Holding path t f s)
    (stepped : flushStep m env s.shared f = some (shared,phase)) :
    let next := s.resume t shared (.flush { f with phase })
    Holding path t { f with phase } next ∨ phase.failing = true ∨ Settled path next := by
  obtain ⟨place,carries,records,flushes,enqueues⟩ := holding
  have others : (s.resume t shared (.flush { f with phase })).anyBut (some t) (Task.flushes path) = false :=
    anyBut_others.trans flushes
  have enqueues' : (s.resume t shared (.flush { f with phase })).anyBut none (Task.enqueues path) = false :=
    anyBut_resume enqueues rfl
  unfold flushStep at stepped
  split at stepped
  next => cases stepped
  next inner found =>
    have carried := carries inner found
    have onward (same : shared.records = s.shared.records) (carries' : phase.Carries inner) :
        Holding path t { f with phase } (s.resume t shared (.flush { f with phase })) := by
      refine ⟨place,?_,?_,others,enqueues'⟩
      · intro after held
        have now : s.shared.inner f.record = some after := by
          rw [Shared.inner,← same]
          exact held
        rw [found] at now
        cases now
        exact carries'
      · intro cell member
        exact records cell (same ▸ member)
    cases now : f.phase with
    | readBlob taken =>
      rw [now] at stepped carried
      dsimp only at stepped
      split at stepped
      next =>
        cases stepped
        exact .inl (onward rfl carried)
      next =>
        cases stepped
        exact .inl (onward rfl carried)
      next =>
        cases stepped
        exact .inr (.inl rfl)
    | statBefore taken data =>
      rw [now] at stepped carried
      cases stepped
      exact .inl (onward rfl carried)
    | write taken data previousSize =>
      rw [now] at stepped carried
      dsimp only at stepped
      split at stepped
      next =>
        cases stepped
        exact .inl (onward rfl carried)
      next =>
        cases stepped
        exact .inr (.inl rfl)
    | statAfter taken data previousSize =>
      rw [now] at stepped carried
      cases stepped
      exact .inl (onward rfl carried)
    | check taken data previousSize infoSize =>
      rw [now] at stepped carried
      have same : inner.generation = taken.generation := carried
      dsimp only at stepped
      rw [if_neg (not_not.mpr same)] at stepped
      cases stepped
      refine .inl (onward ?_ trivial)
      cases inner.blob <;> rfl
    | removeEntry data delta =>
      rw [now] at stepped
      cases stepped
      have idle : Task.flushes path (.flush { f with phase := .putReadCache data delta }) = false := by
        simp [Task.flushes,FlushPhase.marking]
      refine .inr (.inr ⟨?_,records,anyBut_resumed flushes idle,enqueues'⟩)
      rw [← place]
      exact AList.lookup_erase _ _
    | _ =>
      rw [now] at carried
      cases carried

/-- A step of another task leaves the flush alone at work. -/
theorem holding_bystander {u tick : Nat} {task task' : Task} (filed : Filed s) (holding : Holding path t f s)
    (other : u ≠ t) (owner : Task.Owns s.shared (.flush f)) (found : s.tasks.lookup u = some task)
    (stepped : taskStep m tick env s.shared task = some (shared,task')) :
    Holding path t f (s.resume u shared task') := by
  obtain ⟨place,carries,records,flushes,enqueues⟩ := holding
  have owns := filed.tasks u task found
  have returned := anyBut_false.mp enqueues u task found (by simp)
  obtain ⟨beside,flushes'⟩ := taskStep_beside owns returned
    (anyBut_false.mp flushes u task found (by simpa using other))
    (by
      rintro f rfl place
      exact marked_inner records owns place (by simp)) stepped
  refine ⟨place,?_,beside.allMarked records,anyBut_resume flushes flushes',
    anyBut_resume enqueues (taskStep_enqueues returned stepped)⟩
  obtain ⟨record,present,target⟩ := owner
  have kept := beside.record filed.records (taskStep_change stepped) present (by rw [target]; exact place)
  intro inner held
  apply carries inner
  change shared.inner f.record = some inner at held
  rw [Option.mem_def,Shared.inner_of_record present]
  rw [Shared.inner_of_record kept] at held
  exact held

theorem holding_spawn {task : Task} (holding : Holding path t f s)
    (same : shared.records = s.shared.records) (enqueues : task.enqueues path = false)
    (flushes : task.flushes path = false) : Holding path t f (s.spawn shared task) := by
  refine ⟨holding.place,?_,?_,anyBut_spawn holding.flushes flushes,anyBut_spawn holding.enqueues enqueues⟩
  · intro inner held
    apply holding.carries inner
    rw [Shared.inner,← same]
    exact held
  · intro cell member
    exact holding.records cell (same ▸ member)

end holding

/-! ### The call -/

inductive FlushPathCall
  | idle
  | waiting (task : Nat)
  | returned (ok : Bool)
  deriving DecidableEq

structure BarrierState where
  cache : State
  call : FlushPathCall

inductive BarrierAction
  | cache (action : Action)
  | flushPath
  | finish
  deriving DecidableEq

def Task.outcome : Task → Option Bool
  | .flush ⟨_,_,_,.done ok⟩ => some ok
  | _ => none

/-- The cache and one caller of `flush_path`: the lookup of the entry, the flush
it awaits among all others, and the return. -/
def barrierStep (m : WriteCacheManager) (path : Text) (s : BarrierState) : BarrierAction → Option BarrierState
  | .cache action => (cacheStep m s.cache action).map fun cache => { s with cache }
  | .flushPath =>
    if s.call = .idle then
      match s.cache.shared.entries.lookup path with
      | none => some { s with call := .returned true }
      | some r => (cacheStep m s.cache (.flush r true)).map fun cache => ⟨cache,.waiting s.cache.nextTask⟩
    else none
  | .finish =>
    match s.call with
    | .waiting t => ((s.cache.tasks.lookup t).bind Task.outcome).map fun ok => { s with call := .returned ok }
    | _ => none

def barrier (m : WriteCacheManager) (path : Text) : Transition.System BarrierState BarrierAction :=
  ⟨barrierStep m path⟩

/-- No enqueue of the path is under way when the caller begins, nor starts later. -/
def CallerSpares (path : Text) (s : BarrierState) : BarrierAction → Prop
  | .cache action => s.call = .idle ∨ Spares path action
  | .flushPath => s.cache.anyBut none (Task.enqueues path) = false
  | .finish => True

/-- All records of the path are marked and no flush of it is under way. -/
def Flushed (path : Text) (s : State) : Prop :=
  s.shared.AllMarked none path ∧ s.anyBut none (Task.flushes path) = false

/-- No flush of the path is under way and no other record of it is left to flush;
a record marked already has been flushed and taken out of the map. -/
def TakenAlone (path : Text) (s : State) : Task → Prop
  | .flush f => f.phase = .snapshot →
    s.shared.AllMarked (some f.record) path ∧ s.anyBut none (Task.flushes path) = false ∧
      ∀ inner ∈ s.shared.inner f.record, inner.state = .flushing → s.shared.entries.lookup path = none
  | _ => True

/-- Where the call finds no entry, the path is flushed; where it takes up the
entry, it does so alone. -/
def Undivided (path : Text) (s : BarrierState) : BarrierAction → Prop
  | .cache (.advance t _) => s.call = .waiting t → ∀ task ∈ s.cache.tasks.lookup t, TakenAlone path s.cache task
  | .flushPath => s.cache.shared.entries.lookup path = none → Flushed path s.cache
  | _ => True

section instances
variable (path : Text)

instance : DecidableRel (CallerSpares path)
  | s,.cache action => inferInstanceAs (Decidable (s.call = .idle ∨ Spares path action))
  | s,.flushPath => inferInstanceAs (Decidable (s.cache.anyBut none (Task.enqueues path) = false))
  | _,.finish => isTrue trivial

instance : DecidablePred (Flushed path) := fun s =>
  inferInstanceAs (Decidable (s.shared.AllMarked none path ∧ s.anyBut none (Task.flushes path) = false))

instance (s : State) : DecidablePred (TakenAlone path s)
  | .flush f => inferInstanceAs (Decidable (f.phase = .snapshot →
    s.shared.AllMarked (some f.record) path ∧ s.anyBut none (Task.flushes path) = false ∧
      ∀ inner ∈ s.shared.inner f.record, inner.state = .flushing → s.shared.entries.lookup path = none))
  | .enqueue _ | .quotaSync _ => isTrue trivial

instance : DecidableRel (Undivided path)
  | s,.cache (.advance t _) => inferInstanceAs (Decidable
    (s.call = .waiting t → ∀ task ∈ s.cache.tasks.lookup t, TakenAlone path s.cache task))
  | s,.flushPath => inferInstanceAs (Decidable (s.cache.shared.entries.lookup path = none → Flushed path s.cache))
  | _,.cache (.enqueue ..) | _,.cache (.flush ..) | _,.cache (.takeQuota _) | _,.cache (.evict _)
  | _,.finish => isTrue trivial

end instances

/-- The caller puts a file at the path on the primary, or takes it away. -/
def State.direct (path : Text) (content : Option Bytes) (s : State) : State :=
  let primary := content.elim (s.shared.primary.erase path) fun data => s.shared.primary.insert path data
  { s with shared := { s.shared with primary } }

/-- Nothing is pending for the path, and what the caller then does to its file is
not undone while nobody enqueues it. -/
def Barred (m : WriteCacheManager) (path : Text) (s : State) : Prop :=
  s.shared.entries.lookup path = none ∧
    ∀ content rest later, (cache m).Run (fun _ => Spares path) (s.direct path content) rest later →
      later.shared.primary.lookup path = content ∧ later.shared.entries.lookup path = none

theorem settled_barred {m : WriteCacheManager} {path : Text} {s : State} (filed : Filed s)
    (settled : Settled path s) : Barred m path s := by
  refine ⟨settled.entry,?_⟩
  intro content rest later run
  have put : (s.direct path content).shared.primary.lookup path = content := by
    cases content with
    | none => exact AList.lookup_erase _ _
    | some data => exact AList.lookup_insert _
  have start : Filed (s.direct path content) ∧ Settled path (s.direct path content) := by
    obtain ⟨numbered,⟨issued,mapped⟩,tasks⟩ := filed
    obtain ⟨entry,records,flushes,enqueues⟩ := settled
    refine ⟨⟨numbered,⟨issued,mapped⟩,?_⟩,⟨entry,records,flushes,enqueues⟩⟩
    intro t task found
    have same : RecordChange s.shared (s.direct path content).shared := .still rfl rfl rfl
    exact same.owns ⟨issued,mapped⟩ (tasks t task found)
  have kept : (Filed later ∧ Settled path later) ∧ later.shared.primary.lookup path = content := by
    apply Transition.System.Run.invariant ?_ run ⟨start,put⟩
    rintro s action next ⟨⟨filed,settled⟩,same⟩ spares stepped
    obtain ⟨settled',unwritten⟩ := settled_step filed settled spares stepped
    exact ⟨⟨filed_step filed stepped,settled'⟩,unwritten.trans same⟩
  exact ⟨kept.2,kept.1.2.entry⟩

/-- The flush of the caller before its first step. -/
def FlushTask.Begins (path : Text) (f : FlushTask) : Prop :=
  f.target.path = path ∧ f.force = true ∧ f.phase = .snapshot

/-- Where the call stands. -/
def CallKept (path : Text) (s : State) : FlushPathCall → Prop
  | .idle => True
  | .waiting t => s.anyBut none (Task.enqueues path) = false ∧ (Settled path s ∨
    ∃ f, s.tasks.lookup t = some (.flush f) ∧ (f.Begins path ∨ Holding path t f s ∨ f.phase.failing = true))
  | .returned ok => ok = true → Settled path s

section calls
variable {m : WriteCacheManager} {path : Text} {s : BarrierState}

/-- Where all other records of a path are marked, the mark of one more leaves none. -/
theorem allMarked_mark {s : Shared} {r : RecordId} {before inner : PendingWriteMutable}
    (found : s.inner r = some before) (marks : inner.state = .flushing)
    (others : s.AllMarked (some r) path) : (s.setInner r inner).AllMarked none path := by
  intro cell member place _
  have present := AList.mem_lookup_iff.mpr member
  obtain ⟨record,held,_⟩ := Shared.record_of_inner found
  simp only [Shared.setInner,held,Option.mem_def,Store.lookup_insert_eq] at present
  split at present
  next =>
    rw [← Option.some.inj present]
    exact marks
  next other => exact others cell (AList.mem_lookup_iff.mp present) place (by simpa using other)

/-- A flush that takes its snapshot alone marks the one record left, or finds the
path settled. -/
theorem snapshot_alone {s : State} {t : Nat} {env : Env} {f : FlushTask} {shared : Shared} {phase : FlushPhase}
    (place : f.target.path = path) (force : f.force = true) (snapshot : f.phase = .snapshot)
    (alone : TakenAlone path s (.flush f)) (enqueues : s.anyBut none (Task.enqueues path) = false)
    (stepped : flushStep m env s.shared f = some (shared,phase)) :
    let next := s.resume t shared (.flush { f with phase })
    Settled path next ∨ Holding path t { f with phase } next := by
  obtain ⟨records,flushes,flushed⟩ := alone snapshot
  have enqueues' : (s.resume t shared (.flush { f with phase })).anyBut none (Task.enqueues path) = false :=
    anyBut_resume enqueues rfl
  unfold flushStep at stepped
  split at stepped
  next => cases stepped
  next inner found =>
    rw [snapshot] at stepped
    dsimp only at stepped
    split at stepped
    next busy =>
      have flushing : inner.state = .flushing := by simpa [force] using busy
      cases stepped
      left
      refine ⟨flushed inner found flushing,?_,?_,enqueues'⟩
      · intro cell member here _
        by_cases own : cell.1 = f.record
        · have present := AList.mem_lookup_iff.mpr member
          rw [own] at present
          have held := Shared.inner_of_record present
          have same : inner = cell.2.inner := Option.some.inj (found.symm.trans held)
          rw [← same]
          exact flushing
        · exact records cell member here (by simpa using own)
      · apply anyBut_resumed (anyBut_weaken flushes)
        simp [Task.flushes,FlushPhase.marking]
    next =>
      cases stepped
      right
      refine ⟨place,?_,allMarked_mark found rfl records,anyBut_others.trans (anyBut_weaken flushes),enqueues'⟩
      intro after held
      change (s.shared.setInner f.record _).inner f.record = some after at held
      rw [Shared.inner_setInner found,if_pos rfl] at held
      cases held
      rfl

/-- What a step of the cache does to a call that awaits its flush. -/
theorem waiting_kept {s next : State} {t : Nat} {action : Action} (filed : Filed s)
    (kept : CallKept path s (.waiting t)) (spares : Spares path action)
    (alone : ∀ env, action = .advance t env → ∀ task ∈ s.tasks.lookup t, TakenAlone path s task)
    (stepped : cacheStep m s action = some next) : CallKept path next (.waiting t) := by
  obtain ⟨enqueues,settled | ⟨f,found,stands⟩⟩ := kept
  · exact ⟨enqueues_step enqueues spares stepped,.inl (settled_step filed settled spares stepped).1⟩
  · refine ⟨enqueues_step enqueues spares stepped,?_⟩
    have fresh : t ≠ s.nextTask := by
      rintro rfl
      rw [filed.numbered s.nextTask (Nat.le_refl _)] at found
      cases found
    have spawned (shared : Shared) (task : Task) (same : shared.records = s.shared.records)
        (enqueues : task.enqueues path = false) (flushes : task.flushes path = false) :
        ∃ f, (s.spawn shared task).tasks.lookup t = some (.flush f) ∧
          (f.Begins path ∨ Holding path t f (s.spawn shared task) ∨ f.phase.failing = true) := by
      refine ⟨f,(AList.lookup_insert_ne fresh).trans found,?_⟩
      rcases stands with begins | holding | failing
      · exact .inl begins
      · exact .inr (.inl (holding_spawn holding same enqueues flushes))
      · exact .inr (.inr failing)
    rcases cacheStep_cases stepped with ⟨target,data,rfl,rfl⟩ | ⟨r,force,record,_,present,rfl⟩ |
      ⟨key,task,_,_,rfl⟩ | ⟨u,env,task,shared,task',rfl,moving,computed,rfl⟩ | ⟨q,_,rfl⟩
    · have away : target.path ≠ path := spares
      exact .inr (spawned _ _ rfl (by simp [Task.enqueues,EnqueueTask.begin,away]) rfl)
    · exact .inr (spawned _ _ rfl rfl (by simp [Task.flushes,FlushPhase.marking]))
    · exact .inr (spawned _ _ rfl rfl rfl)
    · by_cases own : u = t
      · subst own
        obtain rfl : task = .flush f := Option.some.inj (moving.symm.trans found)
        obtain ⟨out,advanced,same⟩ := Option.map_eq_some_iff.mp computed
        cases same
        have present : (s.resume u out.1 (.flush { f with phase := out.2 })).tasks.lookup u =
            some (.flush { f with phase := out.2 }) := AList.lookup_insert _
        rcases stands with ⟨place,force,snapshot⟩ | holding | failing
        · have alone := alone env rfl (.flush f) found
          rcases snapshot_alone place force snapshot alone enqueues advanced with settled | holding
          · exact .inl settled
          · exact .inr ⟨_,present,.inr (.inl holding)⟩
        · rcases holding_advance holding advanced with holding | failing | settled
          · exact .inr ⟨_,present,.inr (.inl holding)⟩
          · exact .inr ⟨_,present,.inr (.inr failing)⟩
          · exact .inl settled
        · exact .inr ⟨_,present,.inr (.inr (flushStep_failing failing advanced))⟩
      · refine .inr ⟨f,(AList.lookup_insert_ne (Ne.symm own)).trans found,?_⟩
        rcases stands with begins | holding | failing
        · exact .inl begins
        · exact .inr (.inl (holding_bystander filed holding own (filed.tasks t _ found) moving computed))
        · exact .inr (.inr failing)
    · refine .inr ⟨f,found,?_⟩
      rcases stands with begins | holding | failing
      · exact .inl begins
      · exact .inr (.inl ⟨holding.place,holding.carries,holding.records,holding.flushes,holding.enqueues⟩)
      · exact .inr (.inr failing)

theorem outcome_done {f : FlushTask} {ok : Bool} (ended : (Task.flush f).outcome = some ok) :
    f.phase = .done ok := by
  obtain ⟨_,_,_,phase⟩ := f
  cases phase with
  | done ok' => simpa [Task.outcome] using ended
  | _ => cases ended

theorem call_kept {action : BarrierAction} {next : BarrierState} (filed : Filed s.cache)
    (kept : CallKept path s.cache s.call) (spares : CallerSpares path s action)
    (undivided : Undivided path s action) (stepped : barrierStep m path s action = some next) :
    Filed next.cache ∧ CallKept path next.cache next.call := by
  cases action with
  | cache action =>
    obtain ⟨cache,moved,rfl⟩ := Option.map_eq_some_iff.mp stepped
    refine ⟨filed_step filed moved,?_⟩
    dsimp only
    cases call : s.call with
    | idle => trivial
    | waiting t =>
      rw [call] at kept
      have spares' : Spares path action := by
        rcases spares with idle | spares
        · rw [call] at idle
          cases idle
        · exact spares
      refine waiting_kept filed kept spares' ?_ moved
      rintro env rfl
      exact undivided call
    | returned ok =>
      rw [call] at kept
      have spares' : Spares path action := by
        rcases spares with idle | spares
        · rw [call] at idle
          cases idle
        · exact spares
      intro fine
      exact (settled_step filed (kept fine) spares' moved).1
  | flushPath =>
    simp only [barrierStep] at stepped
    split at stepped
    next =>
      split at stepped
      next absent =>
        cases stepped
        refine ⟨filed,fun _ => ?_⟩
        obtain ⟨records,flushes⟩ := undivided absent
        exact ⟨absent,records,flushes,spares⟩
      next r entry =>
        obtain ⟨cache,moved,rfl⟩ := Option.map_eq_some_iff.mp stepped
        have still : Spares path (.flush r true) := trivial
        refine ⟨filed_step filed moved,enqueues_step spares still moved,.inr ?_⟩
        obtain ⟨record,present,place⟩ := filed.records.mapped path r entry
        obtain ⟨other,present',rfl⟩ := Option.map_eq_some_iff.mp moved
        obtain rfl : record = other := Option.some.inj (present.symm.trans present')
        exact ⟨_,AList.lookup_insert _,.inl ⟨place,rfl,rfl⟩⟩
    next => cases stepped
  | finish =>
    simp only [barrierStep] at stepped
    split at stepped
    next t call =>
      obtain ⟨ok,outcome,rfl⟩ := Option.map_eq_some_iff.mp stepped
      refine ⟨filed,?_⟩
      rintro rfl
      rw [call] at kept
      obtain ⟨task,found,ended⟩ := Option.bind_eq_some_iff.mp outcome
      obtain ⟨_,settled | ⟨f,present,stands⟩⟩ := kept
      · exact settled
      · obtain rfl : task = .flush f := Option.some.inj (found.symm.trans present)
        have last := outcome_done ended
        rcases stands with ⟨_,_,begins⟩ | holding | failing
        · rw [last] at begins
          cases begins
        · obtain ⟨record,held,_⟩ := filed.tasks t _ found
          have carries := holding.carries _ (Shared.inner_of_record held)
          rw [last] at carries
          cases carries
        · rw [last] at failing
          cases failing
    next => cases stepped

end calls

/-- Once `flush_path` returns Ok, having found its entry in nobody else's hands or
the path flushed, nothing brings back an older content of the path. -/
theorem flush_path_bars {m : WriteCacheManager} {path : Text} {s : State} {final : BarrierState}
    {actions : List BarrierAction} (start : RestingStart s)
    (run : (barrier m path).Run (fun s action => CallerSpares path s action ∧ Undivided path s action)
      ⟨s,.idle⟩ actions final) (returned : final.call = .returned true) : Barred m path final.cache := by
  have kept : Filed final.cache ∧ CallKept path final.cache final.call := by
    apply Transition.System.Run.invariant ?_ run ⟨filed_of_resting start,trivial⟩
    rintro s action next ⟨filed,kept⟩ ⟨spares,undivided⟩ stepped
    exact call_kept filed kept spares undivided stepped
  rw [returned] at kept
  exact settled_barred kept.1 (kept.2 rfl)

/-- A new file that nobody else flushes, and the call. -/
def flushPathAlone : List BarrierAction :=
  (.enqueue fileA [1] :: advances 0 10).map .cache ++ .flushPath :: (advances 1 11).map .cache ++ [.finish]

theorem flush_path_alone_bars : ∃ final, (barrier memoryManager fileA.path).Run
    (fun s action => CallerSpares fileA.path s action ∧ Undivided fileA.path s action)
      ⟨.fresh ∅,.idle⟩ flushPathAlone final ∧ Barred memoryManager fileA.path final.cache := by
  have computed : ((barrier memoryManager fileA.path).execAllowed
      (fun s action => CallerSpares fileA.path s action ∧ Undivided fileA.path s action)
      ⟨.fresh ∅,.idle⟩ flushPathAlone).any (fun final => decide (final.call = .returned true)) = true := by
    decide +kernel
  obtain ⟨final,reached,returned⟩ := Option.any_eq_true _ _ |>.mp computed
  have run := Transition.System.execAllowed_run reached
  exact ⟨final,run,flush_path_bars (restingStart_fresh ∅) run (of_decide_eq_true returned)⟩

/-- A background flush has marked the entry and read its data when the call is made. -/
def flushPathOvertaken : List BarrierAction :=
  (.enqueue fileA [1] :: advances 0 10 ++ .flush 0 false :: advances 1 3).map .cache ++
    [.flushPath,.cache (.advance 2 ⟨true,0⟩),.finish]

/-- The call returns Ok at once, and the file the caller then deletes is written
back by the other flush. -/
theorem overtaken_call_undone : ¬ ∀ actions final,
    (barrier memoryManager fileA.path).Run (CallerSpares fileA.path) ⟨.fresh ∅,.idle⟩ actions final →
      final.call = .returned true → Barred memoryManager fileA.path final.cache := by
  intro law
  have computed : ((barrier memoryManager fileA.path).execAllowed (CallerSpares fileA.path)
      ⟨.fresh ∅,.idle⟩ flushPathOvertaken).any (fun final => decide (final.call = .returned true ∧
        ((cache memoryManager).execAllowed (fun _ => Spares fileA.path) (final.cache.direct fileA.path none)
          [.advance 1 ⟨true,0⟩]).any (fun later =>
            decide (later.shared.primary.lookup fileA.path = some [1])) = true)) = true := by
    decide +kernel
  obtain ⟨final,reached,shown⟩ := Option.any_eq_true _ _ |>.mp computed
  obtain ⟨returned,undone⟩ := of_decide_eq_true shown
  obtain ⟨later,written,back⟩ := Option.any_eq_true _ _ |>.mp undone
  have barred := law flushPathOvertaken final (Transition.System.execAllowed_run reached) returned
  have gone := (barred.2 none _ later (Transition.System.execAllowed_run written)).1
  rw [of_decide_eq_true back] at gone
  cases gone

end StorageHub.WriteCache
