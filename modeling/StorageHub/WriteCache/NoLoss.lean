import StorageHub.WriteCache.View

/-! Acknowledged writes. The condition names the steps at which the cache can
lose one; every other step is a step of a write-back cache, so along runs
without them an acknowledged write stays visible until it is replaced. -/
namespace StorageHub.WriteCache
open Library

/-- Some enqueue on the path took effect at or after the given time. -/
def State.effectSince (s : State) (path : Text) (tick : Nat) : Bool :=
  s.tasks.entries.any fun cell =>
    match cell.2 with
    | .enqueue e => e.target.path == path && e.effectAt.any (tick ≤ ·)
    | _ => false

def EnqueueUndisturbed (m : WriteCacheManager) (s : State) (env : Env) (e : EnqueueTask) : Prop :=
  match e.phase with
  -- an update does not fill a record that has left the map or is about to
  | .swap r generation _ _ =>
    (s.shared.inner r).map (·.generation) = some generation → s.live e.target.path = some r
  -- a new entry does not share the queue file with a live record or another new entry
  | .storeBlob =>
    m.backend = .localDir → env.ok = true →
      s.liveBlob e.target.path ≠ some (.disk (dataPath .queue e.target.path))
  | .insert true => s.shared.blobs.lookup (dataPath .queue e.target.path) = some e.data
  | .removeBlob _ file => env.ok = true → s.liveBlob file.key ≠ some (.disk file)
  -- a superseded update is not acknowledged before an update is in effect
  | .readSize _ => e.effectAt = none → s.effectSince e.target.path e.began = true
  | .markIndexSync none => e.effectAt = none → s.effectSince e.target.path e.began = true
  | _ => True

def FlushUndisturbed (s : State) (env : Env) (f : FlushTask) : Prop :=
  match f.phase with
  -- no late write of older data after the record has gone
  | .write _ data _ =>
    env.ok = true → s.live f.target.path = none →
      s.shared.primary.lookup f.target.path = some data
  -- the record still has the blob that was read, and the primary what was written
  | .check taken data _ _ =>
    ∀ inner ∈ s.shared.inner f.record, inner.generation = taken.generation →
      (s.live f.target.path = some f.record →
        inner.blob = taken.blob ∧ s.shared.primary.lookup f.target.path = some data) ∧
      (s.live f.target.path ≠ some f.record →
        ∀ file ∈ inner.blob.files, s.liveBlob file.key ≠ some (.disk file))
  | .removeEntry _ _ =>
    s.shared.entries.lookup f.target.path = none ∨
      s.shared.entries.lookup f.target.path = some f.record
  | .promoteSwap taken _ promo _ =>
    ∀ inner ∈ s.shared.inner f.record, inner.generation = promo.generation →
      s.live f.target.path = some f.record → inner.blob = taken.blob
  | .retireBlob file => env.ok = true → s.liveBlob file.key ≠ some (.disk file)
  | _ => True

def TaskUndisturbed (m : WriteCacheManager) (s : State) (env : Env) : Option Task → Prop
  | some (.enqueue e) => EnqueueUndisturbed m s env e
  | some (.flush f) => FlushUndisturbed s env f
  | _ => True

def Undisturbed (m : WriteCacheManager) (s : State) : Action → Prop
  | .advance t env => TaskUndisturbed m s env (s.tasks.lookup t)
  | _ => True

instance (m : WriteCacheManager) (s : State) (env : Env) (e : EnqueueTask) :
    Decidable (EnqueueUndisturbed m s env e) := by
  unfold EnqueueUndisturbed
  split <;> infer_instance

instance (s : State) (env : Env) (f : FlushTask) : Decidable (FlushUndisturbed s env f) := by
  obtain ⟨record,target,force,phase⟩ := f
  cases phase <;> (unfold FlushUndisturbed; dsimp only; infer_instance)

instance (m : WriteCacheManager) (s : State) (env : Env) (task : Option Task) :
    Decidable (TaskUndisturbed m s env task) := by
  cases task with
  | none => unfold TaskUndisturbed; infer_instance
  | some task => cases task <;> (unfold TaskUndisturbed; dsimp only; infer_instance)

instance (m : WriteCacheManager) : DecidableRel (Undisturbed m)
  | s,.advance t env => inferInstanceAs (Decidable (TaskUndisturbed m s env (s.tasks.lookup t)))
  | _,.enqueue _ _ | _,.flush _ _ | _,.takeQuota _ | _,.evict _ => inferInstanceAs (Decidable True)

theorem covered_of_effectSince {s : State} {path : Text} {tick : Nat}
    (since : s.effectSince path tick = true) (call : WriteBack.Call Bytes)
    (began : call.began = tick) : s.view.Covered path call := by
  obtain ⟨⟨t,task⟩,member,yes⟩ := List.any_eq_true.mp since
  have found : s.tasks.lookup t = some task := AList.mem_lookup_iff.mpr member
  cases task with
  | enqueue e =>
    simp only [Bool.and_eq_true,beq_iff_eq,Option.any_eq_true,decide_eq_true_eq] at yes
    obtain ⟨place,n,effect,after⟩ := yes
    refine ⟨_,n,⟨t,e.view,?_,place,rfl,effect⟩,began ▸ after⟩
    simp [State.view,Shared.view,State.agents,found,Task.view]
  | _ => contradiction

section simulation
variable {m : WriteCacheManager} {env : Env} {s : State} {t : Nat} {shared : Shared}

theorem agent_found {task : Task} {a : AgentView} (found : s.tasks.lookup t = some task)
    (viewed : task.view = some a) : s.view.agents t = some a := by
  simp [State.view,Shared.view,State.agents,found,viewed]

theorem quiet_step {task task' : Task} {a a' : AgentView} (found : s.tasks.lookup t = some task)
    (viewed : task.view = some a) (viewed' : task'.view = some a')
    (same : shared.view s.agents s.clock = s.view) (quiet : WriteBack.Quiet s.view a a') :
    ViewStep s.view (s.resume t shared task').view := by
  rw [view_resume viewed',same]
  exact .quiet _ _ _ _ (agent_found found viewed) quiet

/-- An enqueue moves on without taking effect. -/
theorem enqueue_quiet {e e' : EnqueueTask} (target : e'.target = e.target)
    (data : e'.data = e.data) (began : e'.began = e.began) (effect : e'.effectAt = e.effectAt)
    (running : e.phase ≠ .done .acknowledged) (held : e'.held = e.held ∨ e'.held = none)
    (known : ∀ f ∈ e'.known, f ∈ e.known ∨ (e'.held = none ∧ ∃ d, e.held = some (f,d)))
    (acknowledged : e'.phase = .done .acknowledged → e.effectAt = none →
      s.effectSince e.target.path e.began = true) : WriteBack.Quiet s.view e.view e'.view where
  path := congrArg CacheTarget.path target
  record := rfl
  held := held
  known f member := (known f member).imp_right .inl
  before := rfl
  after := rfl
  seen := .inl rfl
  seenKnown _ _ read := by contradiction
  call := by
    have before : (e.phase == .done .acknowledged) = false := by simpa using running
    simp only [EnqueueTask.view,data,began,effect,before]
    cases ended : (e'.phase == .done .acknowledged) with
    | false => exact .inl rfl
    | true => exact .inr ⟨_,rfl,rfl,fun overtaken =>
        covered_of_effectSince (acknowledged (by simpa using ended) overtaken) _ rfl⟩

/-- The steps of an enqueue that leave alone all that the view shows. -/
theorem enqueue_steps_quietly {e e' : EnqueueTask} (found : s.tasks.lookup t = some (.enqueue e))
    (same : shared.view s.agents s.clock = s.view) (target : e'.target = e.target)
    (data : e'.data = e.data) (began : e'.began = e.began) (effect : e'.effectAt = e.effectAt)
    (running : e.phase ≠ .done .acknowledged) (held : e'.held = e.held ∨ e'.held = none)
    (known : ∀ f ∈ e'.known, f ∈ e.known ∨ (e'.held = none ∧ ∃ d, e.held = some (f,d)))
    (acknowledged : e'.phase = .done .acknowledged → e.effectAt = none →
      s.effectSince e.target.path e.began = true) :
    ViewStep s.view (s.resume t shared (.enqueue e')).view :=
  quiet_step found rfl rfl same
    (enqueue_quiet target data began effect running held known acknowledged)

theorem staged_view {e : EnqueueTask} {r : RecordId} {generation previous : Nat}
    {staged : Option BlobFile} (current : e.phase = .swap r generation previous staged) :
    blobView (e.stagedBlob staged) = .memory e.data ∨
      ∃ f, blobView (e.stagedBlob staged) = .file f ∧ e.view.held = some (f,e.data) := by
  cases staged with
  | none => exact .inl rfl
  | some file => exact .inr ⟨file,rfl,by simp [EnqueueTask.view,EnqueueTask.held,current]⟩

theorem enqueue_simulates {e e' : EnqueueTask} (found : s.tasks.lookup t = some (.enqueue e))
    (undisturbed : EnqueueUndisturbed m s env e)
    (stepped : enqueueStep m s.clock env s.shared e = some (shared,e')) :
    ViewStep s.view (s.resume t shared (.enqueue e')).view := by
  have agent : s.view.agents t = some e.view := agent_found found rfl
  obtain ⟨target,data,phase,modifiedAt,deadlineAt,began,effectAt,endedAt⟩ := e
  cases phase with
  | bump r =>
    simp only [enqueueStep] at stepped
    split at stepped
    next => contradiction
    next inner filled =>
      have same (bumped : PendingWriteMutable) (blob : bumped.blob = inner.blob) :
          (s.shared.setInner r bumped).view s.agents s.clock = s.view :=
        view_setInner_same filled blob
      split at stepped
      all_goals
        cases stepped
        apply enqueue_steps_quietly found
        case same => exact same _ rfl
        all_goals simp [EnqueueTask.goto,EnqueueTask.held,EnqueueTask.known]
  | stageBlob r generation previous dir =>
    simp only [enqueueStep] at stepped
    split at stepped
    next =>
      cases stepped
      rw [view_resume rfl,view_stage]
      refine .stage _ t _ (stagedPath dir target.path s.shared.nextUuid) data _ agent rfl rfl rfl
        (by simp [stagedPath]) ?_ ?_ ?_
      · intro allocated
        exact Nat.lt_irrefl _ (allocated _ rfl)
      · rintro n ⟨⟩
        exact Nat.lt_succ_self _
      · exact fun f allocated n uuid => Nat.lt_succ_of_lt (allocated n uuid)
    next =>
      cases stepped
      apply enqueue_steps_quietly found rfl
      all_goals simp [EnqueueTask.finish,EnqueueTask.held,EnqueueTask.known]
  | swap r generation previous staged =>
    simp only [enqueueStep] at stepped
    split at stepped
    next => contradiction
    next inner filled =>
      split at stepped
      next unchanged =>
        cases stepped
        have live := live_iff.mp (undisturbed (by simp [filled,unchanged]))
        obtain ⟨record,present,rfl⟩ := inner_iff.mp filled
        have slot : s.view.slots r = some (recordView record) :=
          slots_iff.mpr ⟨record,present,rfl⟩
        rw [view_resume rfl]
        change ViewStep _ (((s.shared.setInner r _).view s.agents s.clock).advance t _)
        rw [view_setInner_fill present]
        cases blob : record.inner.blob with
        | memory before =>
          refine .install _ t _ _ r _ _ [] agent rfl rfl ?_ live slot rfl (by simp)
          exact staged_view rfl
        | disk file =>
          refine .install _ t _ _ r _ _ [file] agent rfl rfl ?_ live slot rfl ?_
          · exact staged_view rfl
          · simp [recordView,blobView,blob]
      next =>
        cases stepped
        apply enqueue_steps_quietly found rfl
        all_goals cases staged <;>
          simp [EnqueueTask.goto,EnqueueTask.held,EnqueueTask.known,EnqueueTask.stagedBlob,discardPhase]
  | removeBlob r file =>
    cases stepped
    rw [view_resume rfl,view_removeFile]
    split
    next ok =>
      refine .remove _ t _ _ file agent ?_ (List.mem_singleton_self file)
        (loose_of_liveBlob (undisturbed ok))
      apply enqueue_quiet
      all_goals simp [EnqueueTask.goto,EnqueueTask.held,EnqueueTask.known]
    next =>
      refine .quiet _ t _ _ agent ?_
      apply enqueue_quiet
      all_goals simp [EnqueueTask.goto,EnqueueTask.held,EnqueueTask.known]
  | storeBlob =>
    simp only [enqueueStep] at stepped
    split at stepped
    next =>
      cases stepped
      apply enqueue_steps_quietly found rfl
      all_goals simp [EnqueueTask.goto,EnqueueTask.held,EnqueueTask.known,EnqueueTask.storedBlob,
        PendingWriteBlob.files]
    next localDir =>
      split at stepped
      next ok =>
        cases stepped
        rw [view_resume rfl,view_writeFile]
        exact .rewrite _ t _ (dataPath .queue target.path) data agent rfl rfl rfl
          (fun n staged => by contradiction) (loose_of_liveBlob (undisturbed localDir ok))
      next =>
        cases stepped
        apply enqueue_steps_quietly found rfl
        all_goals simp [EnqueueTask.finish,EnqueueTask.held,EnqueueTask.known]
  | insert stored =>
    cases stepped
    rw [view_resume rfl,view_insertRecord]
    cases stored with
    | true =>
      refine .insert _ t _ _ s.shared.nextRecord _ [] _ agent rfl rfl rfl rfl undisturbed ?_
        (Nat.lt_irrefl _) (Nat.lt_succ_self _) (fun q issued => Nat.lt_succ_of_lt issued) (by simp)
      rintro f ⟨⟩
      exact ⟨List.mem_singleton_self _,rfl⟩
    | false =>
      exact .insert _ t _ _ s.shared.nextRecord _ [] _ agent rfl rfl rfl rfl rfl
        (fun f file => by contradiction) (Nat.lt_irrefl _) (Nat.lt_succ_self _)
        (fun q issued => Nat.lt_succ_of_lt issued) (by simp)
  | markIndexSync updated =>
    simp only [enqueueStep] at stepped
    split at stepped
    next r =>
      cases stepped
      apply enqueue_steps_quietly found rfl
      all_goals simp [EnqueueTask.goto,EnqueueTask.held,EnqueueTask.known]
    next =>
      cases stepped
      apply enqueue_steps_quietly found rfl
      case acknowledged => exact fun _ => undisturbed
      all_goals simp [EnqueueTask.finish,EnqueueTask.held,EnqueueTask.known]
  | readSize r =>
    simp only [enqueueStep] at stepped
    split at stepped
    next => contradiction
    next =>
      cases stepped
      apply enqueue_steps_quietly found rfl
      case acknowledged => exact fun _ => undisturbed
      all_goals simp [EnqueueTask.finish,EnqueueTask.held,EnqueueTask.known]
  | done outcome => simp [enqueueStep] at stepped
  | _ =>
    simp only [enqueueStep] at stepped
    repeat' split at stepped
    all_goals cases stepped
    all_goals apply enqueue_steps_quietly found rfl
    all_goals simp [EnqueueTask.goto,EnqueueTask.stamp,EnqueueTask.finish,EnqueueTask.held,
      EnqueueTask.known,EnqueueTask.storedBlob,PendingWriteBlob.files]

theorem read_known {phase : FlushPhase} {f : BlobFile} {data : Bytes}
    (read : (phase.read.map fun out => (blobView out.1.blob,out.2)) = some (.file f,data)) :
    f ∈ phase.known := by
  obtain ⟨⟨taken,bytes⟩,reading,same⟩ := Option.map_eq_some_iff.mp read
  simp only [FlushPhase.known,reading]
  cases blob : taken.blob <;> simp_all [blobView,PendingWriteBlob.files]

/-- A flush moves on, forgetting or learning the file of its record. -/
theorem flush_quiet {f : FlushTask} {phase : FlushPhase} (before : f.phase.condemns = false)
    (after : phase.condemns = false) (held : phase.held = f.phase.held ∨ phase.held = none)
    (known : ∀ g ∈ phase.known, g ∈ f.phase.known ∨
      (phase.held = none ∧ ∃ d, f.phase.held = some (g,d)) ∨
      ∃ inner, s.shared.inner f.record = some inner ∧ g ∈ inner.blob.files)
    (read : phase.read = f.phase.read ∨ phase.read = none) :
    WriteBack.Quiet s.view f.view { f with phase }.view where
  path := rfl
  record := rfl
  held := held
  known g member := by
    refine (known g member).imp_right fun other => other.imp_right ?_
    rintro ⟨inner,filled,file⟩
    obtain ⟨record,present,rfl⟩ := inner_iff.mp filled
    refine ⟨f.record,recordView record,slots_iff.mpr ⟨record,present,rfl⟩,?_⟩
    cases blob : record.inner.blob <;> simp_all [recordView,blobView,PendingWriteBlob.files]
  before := before
  after := after
  seen := read.imp (fun same => by simp [FlushTask.view,same]) fun nothing => by
    simp [FlushTask.view,nothing]
  seenKnown _ _ reading := read_known reading
  call := .inl rfl

theorem flush_steps_quietly {f : FlushTask} {phase : FlushPhase}
    (found : s.tasks.lookup t = some (.flush f)) (same : shared.view s.agents s.clock = s.view)
    (before : f.phase.condemns = false) (after : phase.condemns = false)
    (held : phase.held = f.phase.held ∨ phase.held = none)
    (known : ∀ g ∈ phase.known, g ∈ f.phase.known ∨
      (phase.held = none ∧ ∃ d, f.phase.held = some (g,d)) ∨
      ∃ inner, s.shared.inner f.record = some inner ∧ g ∈ inner.blob.files)
    (read : phase.read = f.phase.read ∨ phase.read = none) :
    ViewStep s.view (s.resume t shared (.flush { f with phase })).view :=
  quiet_step found rfl rfl same (flush_quiet before after held known read)

theorem flush_simulates {f : FlushTask} {phase : FlushPhase}
    (found : s.tasks.lookup t = some (.flush f)) (undisturbed : FlushUndisturbed s env f)
    (stepped : flushStep m env s.shared f = some (shared,phase)) :
    ViewStep s.view (s.resume t shared (.flush { f with phase })).view := by
  have agent : s.view.agents t = some f.view := agent_found found rfl
  obtain ⟨r,target,force,current⟩ := f
  simp only [flushStep] at stepped
  split at stepped
  next => contradiction
  next inner filled =>
  have same (changed : PendingWriteMutable) (blob : changed.blob = inner.blob) :
      (s.shared.setInner r changed).view s.agents s.clock = s.view :=
    view_setInner_same filled blob
  cases current with
  | readBlob taken =>
    have reads (data : Bytes) (present : s.shared.content taken.blob = some data) :
        ViewStep s.view
          (s.resume t s.shared (.flush ⟨r,target,force,.statBefore taken data⟩)).view := by
      rw [view_resume rfl]
      refine .read _ t _ (blobView taken.blob) data agent rfl ((content_view _).trans present) ?_
      intro g file
      change g ∈ taken.blob.files
      cases blob : taken.blob <;> simp_all [blobView,PendingWriteBlob.files]
    simp only at stepped
    split at stepped
    next _ _ data memory =>
      cases stepped
      exact reads data (by rw [memory]; rfl)
    next _ _ file data disk present =>
      cases stepped
      split at present
      next => exact reads data present
      next => contradiction
    next =>
      cases stepped
      apply flush_steps_quietly found rfl
      all_goals simp [FlushPhase.condemns,FlushPhase.held,FlushPhase.known,FlushPhase.read]
  | write taken data previousSize =>
    simp only at stepped
    split at stepped
    next ok =>
      cases stepped
      rw [view_resume rfl,view_writeCell]
      refine .writeBack _ t _ _ data agent ?_ ?_
      · exact flush_quiet rfl rfl (.inl rfl) (fun g member => .inl member) (.inl rfl)
      · cases live : s.live target.path with
        | none => exact .inr (undisturbed ok live)
        | some q => exact .inl ⟨q,live_iff.mp live⟩
    next =>
      cases stepped
      exact flush_steps_quietly found rfl rfl rfl (.inl rfl) (fun g member => .inl member) (.inl rfl)
  | promoteStageBlob taken data promo =>
    simp only at stepped
    split at stepped
    next =>
      cases stepped
      rw [view_resume rfl,view_stage]
      refine .stage _ t _ (stagedPath .abnormal target.path s.shared.nextUuid) data _ agent rfl rfl
        rfl (by simp [stagedPath]) ?_ ?_ ?_
      · intro allocated
        exact Nat.lt_irrefl _ (allocated _ rfl)
      · rintro n ⟨⟩
        exact Nat.lt_succ_self _
      · exact fun g allocated n uuid => Nat.lt_succ_of_lt (allocated n uuid)
    next =>
      cases stepped
      apply flush_steps_quietly found rfl
      all_goals simp [FlushPhase.condemns,FlushPhase.held,FlushPhase.known,FlushPhase.read]
  | promoteSwap taken data promo file =>
    simp only at stepped
    split at stepped
    next unchanged =>
      cases stepped
      obtain ⟨record,present,rfl⟩ := inner_iff.mp filled
      have slot : s.view.slots r = some (recordView record) := slots_iff.mpr ⟨record,present,rfl⟩
      have read : s.view.Live target.path r → (recordView record).blob = blobView taken.blob :=
        fun live => congrArg blobView (undisturbed record.inner filled unchanged (live_iff.mpr live))
      rw [view_resume rfl]
      change ViewStep _ (((s.shared.setInner r _).view s.agents s.clock).advance t _)
      rw [view_setInner_fill present]
      refine .promote _ t _ file data _ r _ record.inner.blob.files agent rfl rfl rfl rfl slot read ?_
      cases blob : record.inner.blob <;> simp [recordView,blobView,PendingWriteBlob.files,blob]
    next =>
      cases stepped
      apply flush_steps_quietly found rfl
      all_goals simp [FlushPhase.condemns,FlushPhase.held,FlushPhase.known,FlushPhase.read]
  | promoteDiscardBlob taken data file =>
    cases stepped
    have quiet : WriteBack.Quiet s.view _ (FlushTask.view ⟨r,target,force,.promoteDiscardMeta taken file⟩) :=
      flush_quiet (f := ⟨r,target,force,.promoteDiscardBlob taken data file⟩) rfl rfl (.inr rfl)
        (by simp [FlushPhase.known,FlushPhase.read]) (.inr rfl)
    rw [view_resume rfl,view_removeFile]
    split
    next => exact .discard _ t _ _ file data agent rfl quiet rfl
    next => exact .quiet _ t _ _ agent quiet
  | retireBlob file =>
    cases stepped
    have quiet : WriteBack.Quiet s.view _ (FlushTask.view ⟨r,target,force,.retireMeta file⟩) :=
      flush_quiet (f := ⟨r,target,force,.retireBlob file⟩) rfl rfl (.inr rfl)
        (by simp [FlushPhase.known,FlushPhase.read]) (.inr rfl)
    rw [view_resume rfl,view_removeFile]
    split
    next ok =>
      exact .remove _ t _ _ file agent quiet (List.mem_singleton_self file)
        (loose_of_liveBlob (undisturbed ok))
    next => exact .quiet _ t _ _ agent quiet
  | check taken data previousSize infoSize =>
    simp only at stepped
    split at stepped
    next =>
      cases stepped
      apply flush_steps_quietly found
      case same => exact same _ rfl
      all_goals simp [FlushPhase.condemns,FlushPhase.held,FlushPhase.known,FlushPhase.read]
    next unchanged =>
      cases stepped
      have fair := undisturbed inner filled (not_not.mp unchanged)
      obtain ⟨record,present,rfl⟩ := inner_iff.mp filled
      obtain ⟨files,changed,removed⟩ := view_removeBlobFiles s.shared s.agents s.clock env record.inner.blob
      rw [view_resume rfl]
      change ViewStep _ (((s.shared.removeBlobFiles env record.inner.blob).view s.agents
        s.clock).advance t _)
      rw [changed]
      refine .detach _ t _ _ r (recordView record) files agent rfl rfl
        (slots_iff.mpr ⟨record,present,rfl⟩) ?_ ?_ ?_ rfl
      · intro live
        obtain ⟨same,written⟩ := fair.1 (live_iff.mpr live)
        exact ⟨data,by rw [recordView,same]; rfl,written⟩
      · intro dead f file
        refine loose_of_liveBlob (fair.2 (fun live => dead (live_iff.mp live)) f ?_)
        cases blob : record.inner.blob <;> simp_all [recordView,blobView,PendingWriteBlob.files]
      · exact removed
  | removeEntry data delta =>
    cases stepped
    rw [view_resume rfl,view_removeEntry]
    exact .release _ t _ r agent rfl rfl undisturbed
  | done ok => simp at stepped
  | _ =>
    simp only at stepped
    repeat' split at stepped
    all_goals cases stepped
    all_goals apply flush_steps_quietly found
    all_goals first
      | rfl
      | exact .inl rfl
      | exact .inr rfl
      | exact same _ rfl
      | exact fun g member => .inl member
      | exact fun g member => .inr (.inr ⟨inner,filled,member⟩)
      | exact fun g member => absurd member List.not_mem_nil

theorem tick_of {s' : State} (shared : s'.shared.view s.agents s.clock = s.view)
    (agents : s'.agents = s.agents) (clock : s'.clock = s.clock + 1) :
    ViewStep s.view s'.view := by
  have same : s'.view = { s.view with clock := s.clock + 1 } := by
    rw [← shared,State.view,agents,clock]
    rfl
  rw [same]
  exact .tick _

theorem step_simulates {s' : State} {action : Action} (numbered : Numbered s)
    (undisturbed : Undisturbed m s action) (stepped : cacheStep m s action = some s') :
    ViewStep s.view s'.view := by
  have fresh : s.view.agents s.nextTask = none := by
    simp [State.view,Shared.view,State.agents,numbered s.nextTask (Nat.le_refl _)]
  rcases cacheStep_cases stepped with ⟨target,data,-,rfl⟩ | ⟨r,force,record,-,present,rfl⟩ |
    ⟨key,task,-,-,rfl⟩ | ⟨t,env,task,shared,task',rfl,found,computed,rfl⟩ | ⟨path,-,rfl⟩
  · rw [view_spawn rfl]
    refine .start _ _ _ fresh rfl rfl rfl rfl (fun r own => by contradiction) ?_
    rintro c ⟨⟩
    exact ⟨rfl,rfl,rfl⟩
  · rw [view_spawn rfl]
    refine .start _ _ _ fresh rfl rfl rfl rfl ?_ (fun c own => by contradiction)
    rintro q ⟨⟩
    exact ⟨recordView record,slots_iff.mpr ⟨record,present,rfl⟩,rfl⟩
  · refine tick_of rfl ?_ rfl
    funext u
    simp only [State.agents,State.spawn,Store.lookup_insert_eq]
    split
    next same => rw [same,numbered s.nextTask (Nat.le_refl _)]; rfl
    next => rfl
  · simp only [Undisturbed,found] at undisturbed
    cases task with
    | enqueue e =>
      obtain ⟨⟨_,e'⟩,advanced,same⟩ := Option.map_eq_some_iff.mp computed
      cases same
      exact enqueue_simulates found undisturbed advanced
    | flush f =>
      obtain ⟨⟨_,phase⟩,advanced,same⟩ := Option.map_eq_some_iff.mp computed
      cases same
      exact flush_simulates found undisturbed advanced
    | quotaSync q =>
      obtain ⟨⟨_,phase⟩,advanced,same⟩ := Option.map_eq_some_iff.mp computed
      cases same
      refine tick_of ?_ ?_ rfl
      · unfold quotaStep at advanced
        repeat' split at advanced
        all_goals cases advanced
        all_goals rfl
      · funext u
        simp only [State.agents,State.resume,Store.lookup_insert_eq]
        split
        next same => rw [same,found]; rfl
        next => rfl
  · exact tick_of rfl rfl rfl

end simulation

/-- A manager at rest, with whatever records it has loaded. -/
structure CacheStart (s : State) : Prop where
  idle : s.tasks = ∅
  issued : ∀ r record, s.shared.records.lookup r = some record → r < s.shared.nextRecord
  filed : ∀ r record file, s.shared.records.lookup r = some record →
    record.inner.blob = .disk file →
      file.key = record.target.path ∧ ∀ n, file.uuid = some n → n < s.shared.nextUuid
  mapped : ∀ path r, s.shared.entries.lookup path = some r →
    ∃ record, s.shared.records.lookup r = some record ∧ record.target.path = path

theorem cacheStart_fresh (primary : Store Text Bytes) : CacheStart (.fresh primary) := by
  constructor <;> simp [State.fresh]

abbrev CacheInvariant (s : State) : Prop :=
  Numbered s ∧ WriteBack.Invariant BlobFile.key (fun file => file.uuid = none) s.view

theorem cacheStart_invariant {s : State} (start : CacheStart s) : CacheInvariant s := by
  have nobody : ∀ t, s.view.agents t = none := by
    simp [State.view,Shared.view,State.agents,start.idle]
  have quiet : ∀ path c n, ¬ s.view.Effective path c n := by
    rintro path c n ⟨t,a,present,-⟩
    simp [nobody] at present
  refine ⟨fun t _ => by rw [start.idle,AList.lookup_empty],⟨?_,?_,?_⟩⟩
  · constructor
    case slotAllocated =>
      intro r slot file present same
      obtain ⟨record,found,rfl⟩ := slots_iff.mp present
      have disk : record.inner.blob = .disk file := by
        cases blob : record.inner.blob <;> simp_all [recordView,blobView]
      exact (start.filed r record file found disk).symm
    case slotIssued =>
      intro r slot present
      obtain ⟨record,found,-⟩ := slots_iff.mp present
      exact start.issued r record found
    case entrySlot =>
      intro path r mapped
      obtain ⟨record,found,place⟩ := start.mapped path r mapped
      exact ⟨recordView record,slots_iff.mpr ⟨record,found,rfl⟩,place⟩
    all_goals simp [nobody]
  · constructor <;> simp [nobody]
  · exact ⟨by simp [nobody],by simp [nobody],fun path c n effective => absurd effective (quiet path c n)⟩

theorem cacheInvariant_step {m : WriteCacheManager} {s s' : State} {action : Action}
    (inv : CacheInvariant s) (undisturbed : Undisturbed m s action)
    (stepped : cacheStep m s action = some s') : CacheInvariant s' :=
  ⟨numbered_step inv.1 stepped,inv.2.step (step_simulates inv.1 undisturbed stepped)⟩

/-- The data is in the pending blob of the path or in its file on the primary. -/
def Visible (s : State) (path : Text) (data : Bytes) : Prop :=
  ((s.shared.entries.lookup path).bind fun r => (s.shared.inner r).bind fun inner =>
    s.shared.content inner.blob) = some data ∨ s.shared.primary.lookup path = some data

instance (s : State) (path : Text) (data : Bytes) : Decidable (Visible s path data) := by
  unfold Visible
  infer_instance

/-- Every acknowledged enqueue on the path is visible, or one is that took
effect no earlier; for one that was superseded before it could take effect,
one that took effect since it began. -/
def NothingLost (s : State) (path : Text) : Prop :=
  ∀ t e, s.tasks.lookup t = some (.enqueue e) → e.target.path = path →
    e.phase = .done .acknowledged →
      ∃ u e' n, s.tasks.lookup u = some (.enqueue e') ∧ e'.target.path = path ∧
        e'.effectAt = some n ∧ e.effectAt.getD e.began ≤ n ∧ Visible s path e'.data

def Task.replaces (s : State) (e : EnqueueTask) : Task → Bool
  | .enqueue e' => e'.target.path == e.target.path &&
      e'.effectAt.any (e.effectAt.getD e.began ≤ ·) && decide (Visible s e.target.path e'.data)
  | _ => false

def Task.kept (s : State) (path : Text) : Task → Bool
  | .enqueue e =>
    if e.target.path = path ∧ e.phase = .done .acknowledged then
      s.tasks.entries.any fun cell => cell.2.replaces s e
    else true
  | _ => true

theorem nothingLost_iff {s : State} {path : Text} :
    NothingLost s path ↔ (s.tasks.entries.all fun cell => cell.2.kept s path) = true := by
  simp only [List.all_eq_true]
  constructor
  · rintro lossless ⟨t,task⟩ member
    have found : s.tasks.lookup t = some task := AList.mem_lookup_iff.mpr member
    cases task with
    | enqueue e =>
      simp only [Task.kept]
      split
      next acknowledged =>
        obtain ⟨place,ended⟩ := acknowledged
        obtain ⟨u,e',n,found',same,effect,after,visible⟩ := lossless t e found place ended
        refine List.any_eq_true.mpr ⟨⟨u,.enqueue e'⟩,AList.mem_lookup_iff.mp found',?_⟩
        subst place
        simp [Task.replaces,same,effect,after,visible]
      next => rfl
    | _ => rfl
  · rintro all t e found rfl acknowledged
    have kept := all ⟨t,.enqueue e⟩ (AList.mem_lookup_iff.mp found)
    simp only [Task.kept,acknowledged,and_self,↓reduceIte,List.any_eq_true] at kept
    obtain ⟨⟨u,task⟩,member,replaced⟩ := kept
    cases task with
    | enqueue e' =>
      simp only [Task.replaces,Bool.and_eq_true,beq_iff_eq,Option.any_eq_true,
        decide_eq_true_eq] at replaced
      obtain ⟨⟨place,n,effect,after⟩,visible⟩ := replaced
      exact ⟨u,e',n,AList.mem_lookup_iff.mpr member,place,effect,after,visible⟩
    | _ => contradiction

instance (s : State) (path : Text) : Decidable (NothingLost s path) :=
  decidable_of_iff _ nothingLost_iff.symm

theorem visible_of_shown {s : State} {path : Text} {data : Bytes} (shown : s.view.Shown path data) :
    Visible s path data := by
  rcases shown with ⟨r,slot,live,present,holds⟩ | ⟨-,holds⟩
  · obtain ⟨record,found,rfl⟩ := slots_iff.mp present
    have mapped : s.shared.entries.lookup path = some r := live.1
    have filled : s.shared.inner r = some record.inner := inner_iff.mpr ⟨record,found,rfl⟩
    have held := (content_view record.inner.blob).symm.trans holds
    exact .inl (by simp [mapped,filled,held])
  · exact .inr holds

theorem nothingLost_of_invariant {s : State} (inv : CacheInvariant s) (path : Text) :
    NothingLost s path := by
  rintro t e found rfl acknowledged
  obtain ⟨c,n,⟨u,a,present,place,call,effect⟩,after,shown⟩ :=
    inv.2.shown (agent_found found rfl) rfl (by simp [acknowledged])
  obtain ⟨task,filed,viewed⟩ := Option.bind_eq_some_iff.mp present
  cases task with
  | enqueue e' =>
    cases viewed
    cases call
    exact ⟨u,e',n,filed,place,effect,after,visible_of_shown shown⟩
  | flush f => cases viewed; contradiction
  | quotaSync q => contradiction

/-- Along every run without a disturbed step, no acknowledged write is lost. -/
theorem acknowledged_writes_kept {m : WriteCacheManager} {s final : State} {actions : List Action}
    (start : CacheStart s) (run : (cache m).Run (Undisturbed m) s actions final) (path : Text) :
    NothingLost final path :=
  nothingLost_of_invariant (run.invariant
    (fun _ _ _ inv undisturbed stepped => cacheInvariant_step inv undisturbed stepped)
    (cacheStart_invariant start)) path

/-- A flush takes its snapshot between the two lock sections of an update: the
old blob under the new generation. The update is acknowledged, and then the
flush's check passes and drops the new blob. -/
def staleFlush : List Action :=
  .enqueue fileA [1] :: advances 0 10 ++ .enqueue fileA [2] :: advances 1 5 ++
    .flush 0 true :: advances 2 5 ++ advances 1 5 ++ advances 2 6

theorem stale_flush_loses_write :
    ¬ ∀ actions final, (cache memoryManager).exec (.fresh ∅) actions = some final →
      NothingLost final fileA.path :=
  Transition.System.exec_refutes staleFlush (by decide +kernel)

/-- An update that overlaps a flush without harm: the check finds the new
generation, and a second flush writes the new data. -/
def overlappingUpdate : List Action :=
  .enqueue fileA [1] :: advances 0 10 ++ .flush 0 true :: advances 1 4 ++
    .enqueue fileA [2] :: advances 2 10 ++ advances 1 2 ++ .flush 0 true :: advances 3 10

theorem overlapping_update_kept :
    ∃ final, (cache memoryManager).Run (Undisturbed memoryManager) (.fresh ∅) overlappingUpdate
      final ∧ NothingLost final fileA.path := by
  have computed : ((cache memoryManager).execAllowed (Undisturbed memoryManager) (.fresh ∅)
      overlappingUpdate).isSome = true := by decide +kernel
  obtain ⟨final,reached⟩ := Option.isSome_iff_exists.mp computed
  have run := Transition.System.execAllowed_run reached
  exact ⟨final,run,acknowledged_writes_kept (cacheStart_fresh ∅) run fileA.path⟩

end StorageHub.WriteCache
