import StorageHub.Scoped.Stage
import StorageHub.Scoped.DiskSpec

/-! What the steps that settle an operation leave alone: flushes, log rows and
the read cache. -/
namespace StorageHub.Scoped
open Library WriteCache Vfs Effect

/-! ### Flushes -/

theorem removeBlobFiles_primary (s : Shared) (env : Env) (blob : PendingWriteBlob) :
    (s.removeBlobFiles env blob).primary = s.primary := by
  cases blob with
  | memory data => rfl
  | disk file => rfl

theorem flushStep_primary {m : WriteCacheManager} {env : Env} {s s' : Shared} {task : FlushTask}
    {phase : FlushPhase} (stepped : flushStep m env s task = some (s',phase)) :
    if FlushTask.writing task && env.ok then
      ∃ data, s'.primary = s.primary.insert task.target.path data
    else s'.primary = s.primary := by
  obtain ⟨record,target,force,now⟩ := task
  unfold flushStep at stepped
  split at stepped
  next => cases stepped
  next inner _ =>
    cases now with
    | write taken data previousSize =>
      dsimp only at stepped
      split at stepped
      next ok =>
        cases stepped
        rw [if_pos (by simp [FlushTask.writing,ok])]
        exact ⟨data,rfl⟩
      next failed =>
        cases stepped
        rw [if_neg (by simp [failed])]
    | check taken data previousSize infoSize =>
      rw [if_neg (by simp [FlushTask.writing])]
      dsimp only at stepped
      split at stepped
      next => cases stepped; rfl
      next => cases stepped; exact removeBlobFiles_primary s env inner.blob
    | _ =>
      rw [if_neg (by simp [FlushTask.writing])]
      dsimp only at stepped
      repeat' split at stepped
      all_goals cases stepped
      all_goals rfl

/-- What a flush may change: what the tasks share, and the directories when it
writes. -/
theorem flushWorldStep_cases {m : WriteCacheManager} {env : Env} {w w' : World}
    {task task' : FlushTask} (stepped : flushWorldStep m env w task = some (w',task')) :
    w' = { w with shared := w'.shared, dirs := w'.dirs } ∧
      (w'.primary = w.primary ∨ w.primary.accepts task.target.path = true ∧ ∃ data,
        w'.primary = ⟨w.primary.files.insert task.target.path data,
          w.primary.makeAncestors task.target.path⟩) := by
  obtain ⟨⟨shared,phase⟩,made,same⟩ := Option.map_eq_some_iff.mp stepped
  obtain ⟨rfl,rfl⟩ := Prod.mk.inj same
  refine ⟨rfl,?_⟩
  have primary := flushStep_primary made
  dsimp only at primary
  split at primary
  next wrote =>
    right
    obtain ⟨data,put⟩ := primary
    have allowed := wrote
    rw [Bool.and_eq_true,Bool.and_eq_true] at allowed
    rw [allowed.1,Bool.not_true,Bool.false_or] at allowed
    refine ⟨allowed.2.2,data,?_⟩
    rw [World.primary]
    dsimp only
    rw [if_pos wrote,put]
    rfl
  next idle =>
    left
    rw [World.primary]
    dsimp only
    rw [if_neg idle,primary]
    rfl

section keeping
variable {I : World → Prop}

theorem runSteps_keeps {τ : Type} {step : Env → World → τ → Option (World × τ)} {returned : τ → Bool}
    (kept : ∀ env w task w' task', step env w task = some (w',task') → I w → I w') :
    ∀ fuel task, Keeps I (runSteps step returned fuel task)
  | 0, task => Keeps.pure task
  | fuel + 1, task => by
    unfold runSteps
    split
    · exact Keeps.pure task
    · apply Keeps.bind
      · apply Keeps.perform
        intro env w holds
        split
        next w' task' stepped => exact kept env.toEnv w task w' task' stepped holds
        next => exact holds
      · exact fun task' => runSteps_keeps kept fuel task'

theorem flushEntry_keeps {m : WriteCacheManager}
    (kept : ∀ env w task w' task', flushWorldStep m env w task = some (w',task') → I w → I w')
    (record : RecordId) (force : Bool) : Keeps I (flushEntry m record force) := by
  apply Keeps.bind Keeps.get
  intro w
  split
  · exact Keeps.pure ()
  · apply Keeps.bind (runSteps_keeps kept taskFuel _)
    intro task
    split
    · exact Keeps.pure ()
    · exact Keeps.fail _

/-- The manager has a say only in the steps of its flushes. -/
def SurvivesFlush (I : World → Prop) : Prop :=
  ∀ m env w task w' task', flushWorldStep m env w task = some (w',task') → I w → I w'

theorem flushWriteCache_keeps (survives : SurvivesFlush I) (e : Engine) (path : Text) :
    Keeps I (e.flushWriteCache path) := by
  unfold Engine.flushWriteCache
  split
  · exact Keeps.pure ()
  · apply Keeps.bind Keeps.get
    intro w
    split
    · exact Keeps.pure ()
    · exact flushEntry_keeps (survives _) _ true

theorem flushPending_keeps (survives : SurvivesFlush I) (e : Engine) (path : Text) :
    Keeps I (e.flushPendingWriteCacheForPath path) := by
  unfold Engine.flushPendingWriteCacheForPath
  split
  · exact Keeps.pure ()
  · exact flushWriteCache_keeps survives e _

/-! ### The log and the read cache -/

theorem call_keeps {α : Type} {f : EngineEnv → World → Except VfsError α × World}
    (kept : ∀ env w, I w → I (f env w).2) : Keeps I (call f) := by
  apply Keeps.perform
  intro env w holds
  split
  · exact kept env w holds
  · exact holds

theorem regardless_keeps {α : Type} {m : Vfs α} (kept : Keeps I m) : Keeps I (regardless m) :=
  kept.attempt.bind fun _ => Keeps.pure ()

/-- The predicate does not look at the log. -/
def IgnoresLog (I : World → Prop) : Prop :=
  ∀ w wal nextWal, I w → I { w with wal, nextWal }

theorem markWal_keeps (ignores : IgnoresLog I) (walId : Option Nat) (status : WalStatus) :
    Keeps I (markWal walId status) := by
  unfold markWal
  split
  · exact Keeps.pure ()
  · exact regardless_keeps (call_keeps fun _ w holds => ignores w _ w.nextWal holds)

theorem beginWal_keeps (ignores : IgnoresLog I) (e : Engine) (operation : WalOperation) (skip : Bool) :
    Keeps I (e.beginWal operation skip) := by
  unfold Engine.beginWal
  split
  · exact Keeps.pure none
  · exact Keeps.map some (call_keeps fun _ w holds => ignores w _ _ holds)

theorem orFailWal_keeps {α : Type} (ignores : IgnoresLog I) (walId : Option Nat) {m : Vfs α}
    (kept : Keeps I m) : Keeps I (orFailWal walId m) := by
  apply Keeps.bind kept.attempt
  intro result
  split
  · exact Keeps.pure _
  · exact Keeps.bind (markWal_keeps ignores walId .failed) fun _ => Keeps.fail _

/-- The predicate does not look at the read cache. -/
def IgnoresReadCache (I : World → Prop) : Prop :=
  ∀ w readCache, I w → I { w with shared := { w.shared with readCache } }

theorem invalidate_keeps (ignores : IgnoresReadCache I) (e : Engine) (path : Text) :
    Keeps I (e.invalidateReadCache path) := Keeps.modify fun w holds => ignores w _ holds

/-- The predicate does not look at the index. -/
def IgnoresIndex (I : World → Prop) : Prop := ∀ w index nextUuid, I w → I { w with index, nextUuid }

theorem transact_keeps (ignores : IgnoresIndex I) (f : Int → Index → Except IndexError Index) :
    Keeps I (transact f) :=
  meets_transact (fun _ w index holds _ => ignores w index w.nextUuid holds) (fun _ _ holds => holds)
    fun _ holds => holds

theorem ensures_after {α β : Type} {m : Vfs α} {k : α → Vfs β} {Q : β → World → Prop}
    (kept : Keeps I m) (then_ : ∀ a, Ensures I (k a) Q) : Ensures I (m >>= k) Q :=
  Meets.bind (kept.weaken (fun _ _ _ => trivial) fun _ _ => trivial) then_

theorem ensures_orFailWal {α : Type} {P : World → Prop} {Q : α → World → Prop} (walId : Option Nat)
    {m : Vfs α} (met : Ensures P m Q) : Ensures P (orFailWal walId m) Q :=
  meets_orFailWal met fun _ _ _ => trivial

theorem ensures_operate {kind : ErrorKind} {P R : World → Prop} {f : World → Option World}
    (changed : ∀ w w', P w → f w = some w' → R w') : Ensures P (operate kind f) fun _ => R :=
  meets_operate changed (fun _ _ _ => trivial) fun _ _ => trivial

end keeping

/-! ### What a run shows -/

/-- The next call is let through, if the environment has decided on it. -/
def Granted : List (Choice EngineEnv) → Prop
  | .proceed env::_ => env.ok = true
  | .crash::_ => False
  | [] => True

instance : DecidablePred Granted
  | .proceed env::_ => inferInstanceAs (Decidable (env.ok = true))
  | .crash::_ => inferInstanceAs (Decidable False)
  | [] => inferInstanceAs (Decidable True)

theorem granted_nil : Granted [] := trivial

section runs
variable {α : Type} {w w' : World} {cs rest : List (Choice EngineEnv)} {a : α} {err : VfsError}

theorem call_done {f : EngineEnv → World → Except VfsError α × World}
    (done : call f w cs = .done a w' rest) :
    Granted cs ∧ ∃ env, f env w = (.ok a,w') := by
  cases cs with
  | nil =>
    rw [call_run] at done
    cases made : f default w with
    | mk result after =>
      rw [made] at done
      cases result with
      | ok b => cases done; exact ⟨trivial,default,made⟩
      | error err => cases done
  | cons choice later =>
    unfold call perform at done
    cases choice with
    | crash => cases done
    | proceed env =>
      by_cases ok : env.ok = true
      · cases made : f env w with
        | mk result after =>
          simp only [if_pos ok,made] at done
          cases result with
          | ok b => cases done; exact ⟨ok,env,made⟩
          | error err => cases done
      · simp only [if_neg ok] at done
        cases done

theorem query_done {f : World → α} (done : query f w cs = .done a w' rest) : a = f w ∧ w' = w := by
  obtain ⟨-,env,made⟩ := call_done done
  obtain ⟨value,state⟩ := Prod.mk.inj made
  exact ⟨(Except.ok.inj value).symm,state.symm⟩

theorem call_failed {f : EngineEnv → World → Except VfsError α × World}
    (failed : call f w cs = .failed err w' rest) :
    (¬Granted cs ∧ w' = w) ∨ ∃ env, f env w = (.error err,w') := by
  cases cs with
  | nil =>
    rw [call_run] at failed
    cases made : f default w with
    | mk result after =>
      rw [made] at failed
      cases result with
      | ok b => cases failed
      | error e => cases failed; exact .inr ⟨default,made⟩
  | cons choice later =>
    unfold call perform at failed
    cases choice with
    | crash => cases failed
    | proceed env =>
      by_cases ok : env.ok = true
      · cases made : f env w with
        | mk result after =>
          simp only [if_pos ok,made] at failed
          cases result with
          | ok b => cases failed
          | error e => cases failed; exact .inr ⟨env,made⟩
      · simp only [if_neg ok] at failed
        cases failed
        exact .inl ⟨ok,rfl⟩

/-- A call that is let through gives what it computes. -/
theorem call_granted {f : EngineEnv → World → Except VfsError α × World} (granted : Granted cs) :
    ∃ env, call f w cs = match f env w with
      | (.ok a,w') => .done a w' cs.tail
      | (.error err,w') => .failed err w' cs.tail := by
  cases cs with
  | nil => exact ⟨default,call_run f w⟩
  | cons choice later =>
    cases choice with
    | crash => exact granted.elim
    | proceed env =>
      have ok : env.ok = true := granted
      refine ⟨env,?_⟩
      rw [call,perform]
      simp only [if_pos ok]
      cases f env w with
      | mk result w' => cases result <;> rfl

/-- One that is not leaves the state as it is. -/
theorem call_denied {f : EngineEnv → World → Except VfsError α × World} (denied : ¬Granted cs) :
    (∃ err, call f w cs = .failed err w cs.tail) ∨ call f w cs = .crashed w := by
  cases cs with
  | nil => exact absurd trivial denied
  | cons choice later =>
    cases choice with
    | crash => exact .inr rfl
    | proceed env =>
      have ok : ¬env.ok = true := denied
      left
      refine ⟨env.error,?_⟩
      rw [call,perform]
      simp only [if_neg ok]
      rfl

theorem update_granted {f : World → World} (granted : Granted cs) :
    update f w cs = .done () (f w) cs.tail := by
  obtain ⟨env,ran⟩ := call_granted (w := w) (f := fun _ w => (.ok (),f w)) granted
  exact ran

theorem operate_granted {kind : ErrorKind} {f : World → Option World} (granted : Granted cs) :
    (∃ w', f w = some w' ∧ operate kind f w cs = .done () w' cs.tail) ∨
      (f w = none ∧ ∃ err, operate kind f w cs = .failed err w cs.tail) := by
  obtain ⟨env,ran⟩ : ∃ env : EngineEnv, operate kind f w cs = _ := call_granted granted
  cases made : f w with
  | some w' =>
    simp only [made] at ran
    exact .inl ⟨w',rfl,ran⟩
  | none =>
    simp only [made] at ran
    exact .inr ⟨rfl,_,ran⟩

theorem operate_denied {kind : ErrorKind} {f : World → Option World} (denied : ¬Granted cs) :
    (∃ err, operate kind f w cs = .failed err w cs.tail) ∨ operate kind f w cs = .crashed w :=
  call_denied denied

/-- A transaction that goes through was let through and not refused. -/
theorem transact_done {f : Int → Index → Except IndexError Index} {u : Unit}
    (done : transact f w cs = .done u w' rest) :
    Granted cs ∧ ∃ now index, f now w.index = .ok index ∧ w' = { w with index } := by
  obtain ⟨refused,middle,later,called,settled⟩ := bind_done w cs done
  obtain ⟨granted,env,made⟩ := call_done called
  refine ⟨granted,env.now,?_⟩
  split at made
  next index kept =>
    cases made
    cases settled
    exact ⟨index,kept,rfl⟩
  next refusal _ =>
    cases made
    cases refusal <;> cases settled

/-- One that fails leaves everything as it was. -/
theorem transact_failed {f : Int → Index → Except IndexError Index}
    (failed : transact f w cs = .failed err w' rest) :
    w' = w ∧ (Granted cs → ∃ now, f now w.index = .error .uniqueUserPath) := by
  rcases bind_failed w cs failed with early | ⟨refused,middle,later,called,settled⟩
  · rcases call_failed early with ⟨denied,same⟩ | ⟨env,made⟩
    · exact ⟨same,fun granted => absurd granted denied⟩
    · split at made
      next => cases made
      next => cases made
  · obtain ⟨-,env,made⟩ := call_done called
    split at made
    next => cases made; cases settled
    next refusal same =>
      cases made
      cases refusal with
      | charBoundary => cases settled
      | uniqueUserPath => cases settled; exact ⟨rfl,fun _ => ⟨env.now,same⟩⟩

end runs

/-- A run that gives a value leaves what the program keeps. -/
theorem keeps_done {α : Type} {I : World → Prop} {m : Vfs α} (kept : Keeps I m) {w w' : World}
    {cs rest : List (Choice EngineEnv)} {a : α} (holds : I w) (done : m w cs = .done a w' rest) :
    I w' := Meets.of_done kept holds done

theorem readOnly_done {α : Type} {m : Vfs α} (reads : ReadOnly m) {w w' : World}
    {cs rest : List (Choice EngineEnv)} {a : α} (done : m w cs = .done a w' rest) : w' = w :=
  Meets.of_done (reads w) rfl done

/-- After a program that changes nothing only what it answers matters. -/
theorem bind_congr_readOnly {α β : Type} {m : Vfs α} {k k' : α → Vfs β} (reads : ReadOnly m) {w : World}
    {cs : List (Choice EngineEnv)}
    (same : ∀ a rest, m w cs = .done a w rest → k a w rest = k' a w rest) :
    (m >>= k) w cs = (m >>= k') w cs := by
  rw [bind_apply,bind_apply]
  cases outcome : m w cs with
  | done a w' rest =>
    have stays := readOnly_done reads outcome
    subst stays
    exact same a rest outcome
  | failed err w' rest => rfl
  | crashed w' => rfl

end StorageHub.Scoped
