import StorageHub.WriteCache.Machine

/-! What becomes of the size changes of flushes. Every change of a user's bytes
on the primary is at each moment applied, pending in the map or carried by one
running task; the account below adds the three up and subtracts the bytes. -/
namespace StorageHub.WriteCache
open Library Paths

/-- The bytes of one cell that count towards a user's storage. -/
def countedSize (userId path : Text) (data : Bytes) : Int :=
  match physicalToLogicalPath userId path with
  | some logical => if quotaExempt logical then 0 else data.length
  | none => 0

namespace Shared

def usage (userId : Text) (s : Shared) : Int := Store.total (countedSize userId) s.primary

/-- `pending_quota_delta`. -/
def pendingQuotaDelta (userId : Text) (s : Shared) : Int :=
  ((s.quotaSyncUsers.lookup userId).map (·.delta)).getD 0

def settled (userId : Text) (s : Shared) : Int :=
  s.storageUsed userId + s.pendingQuotaDelta userId - s.usage userId

end Shared

/-- The flushes whose size changes concern a user. -/
def FlushTask.concerns (userId : Text) (f : FlushTask) : Bool :=
  f.target.userId == userId && !quotaExempt f.target.logicalPath

def FlushPhase.delta : FlushPhase → Int
  | .statAfter _ data previousSize => data.length - previousSize
  | .check _ _ previousSize infoSize => infoSize - previousSize
  | .removeEntry _ delta => delta
  | .putReadCache _ delta => delta
  | .indexSync delta => delta
  | .quotaGet delta => delta
  | _ => 0

/-- Paths exempt from the account are sorted out before a delta is filed. -/
def FlushTask.carried (userId : Text) (f : FlushTask) : Int :=
  match f.phase with
  | .quotaInsert delta => if f.target.userId = userId then delta else 0
  | phase => if f.concerns userId then phase.delta else 0

def QuotaPhase.holds : QuotaPhase → Bool
  | .done _ => false
  | _ => true

def carried (userId : Text) : Task → Int
  | .enqueue _ => 0
  | .flush f => f.carried userId
  | .quotaSync q => if q.userKey = userId ∧ q.phase.holds then q.task.delta else 0

def balance (userId : Text) (s : State) : Int :=
  s.shared.settled userId + Store.total (fun _ => carried userId) s.tasks

def sizeOn (s : Shared) (path : Text) : Int :=
  ((s.primary.lookup path).map fun data => (data.length : Int)).getD 0

/-- The five moments at which a flush can misplace a size change, and what
keeps each of them harmless: the write replaces the size measured before it,
the stat after it finds what was written, a superseded flush had not changed
the size, and neither the removal nor the insertion meets a pending delta. -/
def FlushUndisputed (userId : Text) (env : Env) (s : Shared) (f : FlushTask) : Prop :=
  match f.phase with
  | .write _ _ previousSize => f.concerns userId → env.ok → sizeOn s f.target.path = previousSize
  | .statAfter taken data _ =>
    f.concerns userId → (s.stat env f.target.path).getD taken.size = data.length
  | .check taken _ previousSize infoSize =>
    f.concerns userId → (s.inner f.record).map (·.generation) ≠ some taken.generation →
      infoSize = previousSize
  | .quotaRemove => f.target.userId = userId → s.pendingQuotaDelta userId = 0
  | .quotaInsert _ => f.target.userId = userId → s.pendingQuotaDelta userId = 0
  | _ => True

instance (userId : Text) (env : Env) (s : Shared) (f : FlushTask) :
    Decidable (FlushUndisputed userId env s f) := by
  unfold FlushUndisputed
  split <;> infer_instance

def Undisputed (userId : Text) (s : State) : Action → Prop
  | .advance t env =>
    match s.tasks.lookup t with
    | some (.flush f) => FlushUndisputed userId env s.shared f
    | _ => True
  | _ => True

instance (userId : Text) : DecidableRel (Undisputed userId) := by
  intro s action
  unfold Undisputed
  split
  · split <;> infer_instance
  · infer_instance

theorem countedSize_path {userId : Text} (plain : '/' ∉ userId) (target : CacheTarget)
    (data : Bytes) :
    countedSize userId target.path data =
      if target.userId = userId ∧ quotaExempt target.logicalPath = false then data.length else 0 := by
  by_cases same : target.userId = userId
  · subst same
    rw [CacheTarget.path,countedSize,physicalToLogical_physicalPath _ target.shaped]
    cases exempt : quotaExempt target.logicalPath <;> simp [exempt]
  · rw [countedSize,CacheTarget.path,physicalToLogical_other plain target.plainUser same target.shaped]
    simp [same]

namespace Shared
variable {userId : Text} {s s' : Shared}

theorem settled_frame (primary : s'.primary = s.primary)
    (pending : s'.quotaSyncUsers = s.quotaSyncUsers) (used : s'.storageUsed = s.storageUsed) :
    s'.settled userId = s.settled userId := by
  simp only [settled,usage,pendingQuotaDelta,primary,pending,used]

theorem settled_merge (key : Text) (task : UserQuotaSyncTask) :
    (s.mergeQuota key task).settled userId =
      s.settled userId + if userId = key then task.delta - s.pendingQuotaDelta key else 0 := by
  simp only [settled,usage,pendingQuotaDelta,mergeQuota,Store.lookup_insert_eq]
  split
  next same =>
    subst same
    simp only [Option.map_some,Option.getD_some]
    omega
  next => omega

theorem settled_erase (key : Text) :
    settled userId { s with quotaSyncUsers := s.quotaSyncUsers.erase key } =
      s.settled userId - if userId = key then s.pendingQuotaDelta key else 0 := by
  simp only [settled,usage,pendingQuotaDelta,Store.lookup_erase_eq]
  split
  next same =>
    subst same
    simp only [Option.map_none,Option.getD_none]
    omega
  next => omega

theorem settled_used (key : Text) (delta : Int) :
    (s.updateStorageUsed key delta).settled userId =
      s.settled userId + if userId = key then delta else 0 := by
  simp only [settled,usage,pendingQuotaDelta,updateStorageUsed,Function.update_apply]
  split
  next same =>
    subst same
    omega
  next => omega

theorem settled_write (plain : '/' ∉ userId) (target : CacheTarget) (data : Bytes) :
    settled userId { s with primary := s.primary.insert target.path data } =
      s.settled userId - if target.userId = userId ∧ quotaExempt target.logicalPath = false then
        (data.length : Int) - sizeOn s target.path else 0 := by
  simp only [settled,usage,pendingQuotaDelta,Store.total_insert,countedSize_path plain]
  have before : Store.share (countedSize userId) s.primary target.path =
      if target.userId = userId ∧ quotaExempt target.logicalPath = false then
        sizeOn s target.path else 0 := by
    cases found : s.primary.lookup target.path with
    | none => simp [Store.share,sizeOn,found]
    | some old =>
      simp only [Store.share,sizeOn,found,countedSize_path plain,Option.map_some,Option.getD_some]
      split <;> rfl
  rw [before]
  split <;> omega

end Shared

/-- Phases that neither carry nor change anything the account reads. -/
def FlushPhase.quiet : FlushPhase → Bool
  | .write .. | .statAfter .. | .check .. | .removeEntry .. | .putReadCache .. => false
  | .indexSync _ | .quotaGet _ | .quotaRemove | .quotaInsert _ => false
  | _ => true

/-- The map's tasks belong to the user they are filed under. -/
def FiledMap (s : Shared) : Prop :=
  ∀ key task, s.quotaSyncUsers.lookup key = some task → task.userId = key

def FiledTask : Task → Prop
  | .quotaSync q => q.task.userId = q.userKey
  | _ => True

/-- Nothing the account reads differs. -/
structure SameAccount (s s' : Shared) : Prop where
  primary : s'.primary = s.primary
  pending : s'.quotaSyncUsers = s.quotaSyncUsers
  used : s'.storageUsed = s.storageUsed

theorem SameAccount.settled {s s' : Shared} (same : SameAccount s s') (userId : Text) :
    s'.settled userId = s.settled userId :=
  Shared.settled_frame same.primary same.pending same.used

theorem sameAccount_removeBlobFiles (s : Shared) (env : Env) (blob : PendingWriteBlob) :
    SameAccount s (s.removeBlobFiles env blob) := by
  cases blob <;> exact ⟨rfl,rfl,rfl⟩

section steps
variable {m : WriteCacheManager} {env : Env} {s s' : Shared}

theorem enqueueStep_sameAccount {tick : Nat} {e e' : EnqueueTask}
    (stepped : enqueueStep m tick env s e = some (s',e')) : SameAccount s s' := by
  unfold enqueueStep at stepped
  repeat' split at stepped
  all_goals cases stepped
  all_goals exact ⟨rfl,rfl,rfl⟩

theorem flushStep_quiet {f : FlushTask} {phase : FlushPhase} (quiet : f.phase.quiet = true)
    (stepped : flushStep m env s f = some (s',phase)) (userId : Text) : SameAccount s s' ∧ { f with phase }.carried userId = 0 := by
  unfold flushStep at stepped
  repeat' split at stepped
  all_goals cases stepped
  all_goals first
    | exact ⟨⟨rfl,rfl,rfl⟩,ite_self 0⟩
    | simp_all [FlushPhase.quiet]

theorem FlushTask.quiet_carried {userId : Text} {f : FlushTask} (quiet : f.phase.quiet = true) :
    f.carried userId = 0 := by
  obtain ⟨record,target,force,phase⟩ := f
  cases phase <;> first | exact ite_self 0 | contradiction

theorem concerns_iff {userId : Text} {f : FlushTask} :
    f.concerns userId = true ↔
      f.target.userId = userId ∧ quotaExempt f.target.logicalPath = false := by
  simp [FlushTask.concerns]

theorem flushStep_settled {userId : Text} (plain : '/' ∉ userId) {f : FlushTask}
    {phase : FlushPhase} (stepped : flushStep m env s f = some (s',phase))
    (undisputed : FlushUndisputed userId env s f) :
    s'.settled userId + { f with phase }.carried userId = s.settled userId + f.carried userId := by
  cases quiet : f.phase.quiet with
  | true =>
    obtain ⟨same,nothing⟩ := flushStep_quiet quiet stepped userId
    rw [same.settled,nothing,FlushTask.quiet_carried quiet]
  | false =>
    cases found : s.inner f.record with
    | none => simp [flushStep,found] at stepped
    | some inner =>
    simp only [flushStep,found] at stepped
    simp only [FlushUndisputed,concerns_iff] at undisputed
    simp only [FlushTask.carried,concerns_iff]
    cases current : f.phase with
    | write taken data previousSize =>
      simp only [current] at stepped undisputed
      split at stepped
      next ok =>
        cases stepped
        rw [Shared.settled_write plain]
        simp only [FlushPhase.delta]
        split
        next mine =>
          have measured := undisputed mine ok
          omega
        next => omega
      next => cases stepped; rfl
    | statAfter taken data previousSize =>
      simp only [current] at stepped undisputed
      cases stepped
      simp only [FlushPhase.delta]
      split
      next mine => rw [undisputed mine]
      next => rfl
    | check taken data previousSize infoSize =>
      simp only [current] at stepped undisputed
      split at stepped
      next superseded =>
        cases stepped
        simp only [FlushPhase.delta]
        split
        next mine =>
          rw [undisputed mine (by simpa [found] using superseded),Int.sub_self]
          rfl
        next => rfl
      next =>
        cases stepped
        exact congrArg (· + _) ((sameAccount_removeBlobFiles s env inner.blob).settled userId)
    | removeEntry data delta => simp only [current] at stepped; cases stepped; rfl
    | putReadCache data delta => simp only [current] at stepped; cases stepped; rfl
    | indexSync delta => simp only [current] at stepped; cases stepped; rfl
    | quotaGet delta =>
      simp only [current] at stepped
      split at stepped
      next nothing =>
        cases stepped
        simp only [FlushPhase.delta]
        split
        next mine => rw [nothing.resolve_right (by simp [mine.2])]
        next => rfl
      next something =>
        have counted : quotaExempt f.target.logicalPath = false := by grind
        simp only [counted,and_true]
        split at stepped
        next task pending =>
          have before : s.pendingQuotaDelta f.target.userId = task.delta := by
            simp [Shared.pendingQuotaDelta,pending]
          have merged : (s.mergeQuota f.target.userId (task.grow env.now delta)).settled userId = _ :=
            Shared.settled_merge f.target.userId (task.grow env.now delta)
          have grown : (task.grow env.now delta).delta = task.delta + delta := rfl
          split at stepped
          all_goals
            cases stepped
            rw [merged,before,grown]
            simp only [FlushPhase.delta]
            grind
        next => cases stepped; rfl
    | quotaRemove =>
      simp only [current] at stepped undisputed
      cases stepped
      rw [Shared.settled_erase]
      simp only [FlushPhase.delta]
      split
      next mine =>
        rw [← mine,undisputed mine.symm]
        omega
      next => omega
    | quotaInsert delta =>
      simp only [current] at stepped undisputed
      cases stepped
      rw [Shared.settled_merge]
      simp only [FlushPhase.delta]
      by_cases mine : f.target.userId = userId
      · subst mine
        simp only [undisputed rfl,↓reduceIte,ite_self]
        omega
      · simp only [mine,Ne.symm mine,false_and,↓reduceIte,Int.add_zero]
    | _ => simp [current,FlushPhase.quiet] at quiet

theorem quotaStep_settled {userId : Text} {q : QuotaTask} {phase : QuotaPhase}
    (stepped : quotaStep m env s q = some (s',phase)) (filed : q.task.userId = q.userKey) :
    s'.settled userId + carried userId (.quotaSync { q with phase }) =
      s.settled userId + carried userId (.quotaSync q) := by
  unfold quotaStep at stepped
  split at stepped
  next start =>
    simp only [carried,start]
    split at stepped
    next zero =>
      cases stepped
      simp [zero]
    next =>
      split at stepped
      next =>
        cases stepped
        rw [Shared.settled_used,filed]
        simp only [QuotaPhase.holds,and_true,and_false,↓reduceIte,Bool.false_eq_true,Int.add_zero,
          eq_comm]
      next =>
        cases stepped
        rfl
  next failed =>
    simp only [carried,failed]
    split at stepped
    next current pending =>
      cases stepped
      have before : s.pendingQuotaDelta q.userKey = current.delta := by
        simp [Shared.pendingQuotaDelta,pending]
      rw [Shared.settled_merge,before]
      simp only [QuotaPhase.holds,UserQuotaSyncTask.retry]
      grind
    next absent =>
      cases stepped
      have before : s.pendingQuotaDelta q.userKey = 0 := by
        simp [Shared.pendingQuotaDelta,absent]
      rw [Shared.settled_merge,before]
      simp only [QuotaPhase.holds,UserQuotaSyncTask.retry]
      grind
  next => contradiction

end steps

theorem filedMap_merge {s : Shared} (filed : FiledMap s) {key : Text} {task : UserQuotaSyncTask}
    (own : task.userId = key) : FiledMap (s.mergeQuota key task) := by
  intro other found present
  simp only [Shared.mergeQuota,Store.lookup_insert_eq] at present
  split at present
  next same =>
    cases present
    exact own.trans same.symm
  next => exact filed other found present

theorem filedMap_update {s : Shared} (filed : FiledMap s) {key : Text}
    {task : UserQuotaSyncTask} (change : UserQuotaSyncTask → UserQuotaSyncTask)
    (keeps : ∀ task, (change task).userId = task.userId)
    (pending : s.quotaSyncUsers.lookup key = some task) :
    FiledMap (s.mergeQuota key (change task)) :=
  filedMap_merge filed ((keeps task).trans (filed key task pending))

theorem filedMap_erase {s : Shared} (filed : FiledMap s) (key : Text) :
    FiledMap { s with quotaSyncUsers := s.quotaSyncUsers.erase key } := by
  intro other found present
  simp only [Store.lookup_erase_eq] at present
  split at present
  next => contradiction
  next => exact filed other found present

theorem SameAccount.filed {s s' : Shared} (same : SameAccount s s') (filed : FiledMap s) :
    FiledMap s' := by
  intro key task present
  exact filed key task (same.pending ▸ present)

theorem flushStep_filed {m : WriteCacheManager} {env : Env} {s s' : Shared} {f : FlushTask}
    {phase : FlushPhase} (filed : FiledMap s) (stepped : flushStep m env s f = some (s',phase)) :
    FiledMap s' := by
  cases quiet : f.phase.quiet with
  | true => exact (flushStep_quiet quiet stepped []).1.filed filed
  | false =>
    unfold flushStep at stepped
    repeat' split at stepped
    all_goals cases stepped
    all_goals first
      | exact filed
      | exact (sameAccount_removeBlobFiles _ _ _).filed filed
      | exact filedMap_merge filed rfl
      | exact filedMap_erase filed _
      | exact filedMap_update filed (·.grow _ _) (fun _ => rfl) ‹_›

theorem quotaStep_filed {m : WriteCacheManager} {env : Env} {s s' : Shared} {q : QuotaTask}
    {phase : QuotaPhase} (filed : FiledMap s) (own : q.task.userId = q.userKey)
    (stepped : quotaStep m env s q = some (s',phase)) : FiledMap s' := by
  unfold quotaStep at stepped
  repeat' split at stepped
  all_goals cases stepped
  · exact filed
  · exact filed
  · exact filed
  · exact filedMap_update filed (·.retry _ _ _) (fun _ => rfl) ‹_›
  · exact filedMap_merge filed own

theorem taskStep_settled {m : WriteCacheManager} {userId : Text} (plain : '/' ∉ userId)
    {tick : Nat} {env : Env} {s s' : Shared} {task task' : Task}
    (stepped : taskStep m tick env s task = some (s',task')) (filed : FiledMap s)
    (own : FiledTask task)
    (undisputed : ∀ f, task = .flush f → FlushUndisputed userId env s f) :
    FiledMap s' ∧ FiledTask task' ∧
      s'.settled userId + carried userId task' = s.settled userId + carried userId task := by
  cases task with
  | enqueue e =>
    obtain ⟨⟨shared,e'⟩,computed,same⟩ := Option.map_eq_some_iff.mp stepped
    cases same
    have kept := enqueueStep_sameAccount computed
    exact ⟨kept.filed filed,trivial,congrArg (· + 0) (kept.settled userId)⟩
  | flush f =>
    obtain ⟨⟨shared,phase⟩,computed,same⟩ := Option.map_eq_some_iff.mp stepped
    cases same
    exact ⟨flushStep_filed filed computed,trivial,
      flushStep_settled plain computed (undisputed f rfl)⟩
  | quotaSync q =>
    obtain ⟨⟨shared,phase⟩,computed,same⟩ := Option.map_eq_some_iff.mp stepped
    cases same
    exact ⟨quotaStep_filed filed own computed,own,quotaStep_settled computed own⟩

/-- What a run keeps: the filing, the numbering and the account. -/
structure QuotaInvariant (userId : Text) (opening : Int) (s : State) : Prop where
  numbered : Numbered s
  map : FiledMap s.shared
  tasks : ∀ t task, s.tasks.lookup t = some task → FiledTask task
  balanced : balance userId s = opening

theorem QuotaInvariant.spawn {userId : Text} {opening : Int} {s : State}
    (inv : QuotaInvariant userId opening s) {shared : Shared} {task : Task}
    (map : FiledMap shared) (own : FiledTask task)
    (same : shared.settled userId + carried userId task = s.shared.settled userId) :
    QuotaInvariant userId opening (s.spawn shared task) := by
  refine ⟨numbered_spawn inv.numbered shared task,map,?_,?_⟩
  · intro t found present
    simp only [State.spawn,Store.lookup_insert_eq] at present
    split at present
    next => cases present; exact own
    next => exact inv.tasks t found present
  · have fresh := inv.numbered s.nextTask (Nat.le_refl _)
    have before := inv.balanced
    simp only [balance,State.spawn,Store.total_insert,Store.share_none _ fresh] at before ⊢
    omega

theorem quotaInvariant_step {m : WriteCacheManager} {userId : Text} (plain : '/' ∉ userId)
    {opening : Int} {s s' : State} {action : Action} (inv : QuotaInvariant userId opening s)
    (undisputed : Undisputed userId s action) (stepped : cacheStep m s action = some s') :
    QuotaInvariant userId opening s' := by
  have numbered := numbered_step inv.numbered stepped
  rcases cacheStep_cases stepped with ⟨target,data,-,rfl⟩ | ⟨r,force,record,-,-,rfl⟩ |
    ⟨key,task,-,pending,rfl⟩ | ⟨t,env,task,shared,task',rfl,found,computed,rfl⟩ | ⟨path,-,rfl⟩
  · exact inv.spawn inv.map trivial (Int.add_zero _)
  · exact inv.spawn inv.map trivial (by simp [carried,FlushTask.carried,FlushPhase.delta])
  · have own : FiledTask (.quotaSync ⟨key,task,.apply⟩) := inv.map key task pending
    refine inv.spawn (filedMap_erase inv.map key) own ?_
    have taken : s.shared.pendingQuotaDelta key = task.delta := by
      simp [Shared.pendingQuotaDelta,pending]
    rw [Shared.settled_erase,taken]
    simp only [carried,QuotaPhase.holds,and_true]
    grind
  · have own := inv.tasks t task found
    have fair : ∀ f, task = .flush f → FlushUndisputed userId env s.shared f := by
      rintro f rfl
      simpa only [Undisputed,found] using undisputed
    obtain ⟨map,filed,same⟩ := taskStep_settled plain computed inv.map own fair
    refine ⟨numbered,map,?_,?_⟩
    · intro u other present
      simp only [State.resume,Store.lookup_insert_eq] at present
      split at present
      next => cases present; exact filed
      next => exact inv.tasks u other present
    · have before := inv.balanced
      simp only [balance,State.resume,Store.total_insert_found _ _ found] at before ⊢
      omega
  · exact ⟨numbered,inv.map,inv.tasks,inv.balanced⟩

/-- A start: nothing runs and no delta is pending. -/
structure QuotaStart (s : State) : Prop where
  idle : s.tasks = ∅
  nothingPending : s.shared.quotaSyncUsers = ∅

/-- Flushes and quota synchronisations have all returned. -/
def Returned : Task → Bool
  | .enqueue _ => true
  | .flush f => match f.phase with
    | .done _ => true
    | _ => false
  | .quotaSync q => !q.phase.holds

def Quiescent (s : State) : Prop := ∀ t task, s.tasks.lookup t = some task → Returned task = true

theorem quotaStart_invariant {userId : Text} {s : State} (start : QuotaStart s) :
    QuotaInvariant userId (s.shared.storageUsed userId - s.shared.usage userId) s := by
  refine ⟨?_,?_,?_,?_⟩
  · intro t _
    rw [start.idle,AList.lookup_empty]
  · intro key task present
    rw [start.nothingPending,AList.lookup_empty] at present
    contradiction
  · intro t task present
    rw [start.idle,AList.lookup_empty] at present
    contradiction
  · simp [balance,start.idle,Shared.settled,Shared.pendingQuotaDelta,start.nothingPending]

theorem returned_carried {userId : Text} {task : Task} (returned : Returned task = true) :
    carried userId task = 0 := by
  cases task with
  | enqueue e => rfl
  | flush f =>
    simp only [Returned] at returned
    split at returned
    next ended => simp [carried,FlushTask.carried,ended,FlushPhase.delta]
    next => contradiction
  | quotaSync q =>
    have released : q.phase.holds = false := by simpa [Returned] using returned
    simp [carried,released]

/-- Along every run in which no flush misplaces its size change, the deltas
applied and pending at rest are the growth of the user's bytes on the primary. -/
theorem quota_deltas_conserved {m : WriteCacheManager} {userId : Text} (plain : '/' ∉ userId)
    {s final : State} {actions : List Action} (start : QuotaStart s)
    (run : (cache m).Run (Undisputed userId) s actions final) (rest : Quiescent final) :
    (final.shared.storageUsed userId - s.shared.storageUsed userId) +
        final.shared.pendingQuotaDelta userId =
      final.shared.usage userId - s.shared.usage userId := by
  have kept := run.invariant (fun _ _ _ inv fair stepped => quotaInvariant_step plain inv fair stepped)
    (quotaStart_invariant start)
  have settled := kept.balanced
  have nothing : Store.total (fun _ => carried userId) final.tasks = 0 :=
    Store.total_zero _ fun t task present => returned_carried (rest t task present)
  rw [balance,nothing] at settled
  simp only [Shared.settled] at settled
  omega

instance (s : State) : Decidable (Quiescent s) :=
  decidable_of_iff (∀ cell ∈ s.tasks.entries, Returned cell.2 = true)
    ⟨fun all t task present => all ⟨t,task⟩ (AList.mem_lookup_iff.mp present),
      fun all cell member => all cell.1 cell.2 (AList.mem_lookup_iff.mpr member)⟩

/-- Two new files are flushed; both flushes find no task in the map, and the
second insertion replaces the first one's delta. -/
def racingInserts : List Action :=
  .enqueue fileA [1] :: advances 0 10 ++ .enqueue fileB [2,3] :: advances 1 10 ++
    .flush 0 true :: advances 2 10 ++ .flush 1 true :: advances 3 10 ++
    advances 2 1 ++ advances 3 1

theorem racing_inserts_lose_delta :
    ¬ ∀ actions final, (cache memoryManager).exec (.fresh ∅) actions = some final →
      Quiescent final →
        final.shared.storageUsed fileA.userId + final.shared.pendingQuotaDelta fileA.userId =
          final.shared.usage fileA.userId :=
  Transition.System.exec_refutes racingInserts (by decide +kernel)

/-- The same two flushes one after the other, then the synchronisation. -/
def orderlyFlushes : List Action :=
  .enqueue fileA [1] :: advances 0 10 ++ .enqueue fileB [2,3] :: advances 1 10 ++
    .flush 0 true :: advances 2 11 ++ .flush 1 true :: advances 3 10 ++
    .takeQuota fileA.userId :: advances 4 1

theorem orderly_flushes_conserved :
    ∃ final, (cache memoryManager).Run (Undisputed fileA.userId) (.fresh ∅) orderlyFlushes final ∧
      final.shared.storageUsed fileA.userId - 0 + final.shared.pendingQuotaDelta fileA.userId =
        final.shared.usage fileA.userId - 0 := by
  have computed : ((cache memoryManager).execAllowed (Undisputed fileA.userId) (.fresh ∅)
      orderlyFlushes).any (fun final => decide (Quiescent final)) = true := by decide +kernel
  obtain ⟨final,reached,rest⟩ := Option.any_eq_true _ _ |>.mp computed
  have run := Transition.System.execAllowed_run reached
  exact ⟨final,run,quota_deltas_conserved fileA.plainUser ⟨rfl,rfl⟩ run (of_decide_eq_true rest)⟩

end StorageHub.WriteCache
