import StorageHub.Scoped.LoggedRename

/-! The recovery of a rename from the log, which may itself stop anywhere and be run again. -/
namespace StorageHub.Scoped
open Library WriteCache Paths Protected Vfs Effect

namespace LoggedRename
variable {r : LoggedRename} {e : Engine} {start : Start} {stored : Stored} {status status' : WalStatus} {w w' : World}

/-! ### Existence -/

theorem query_meets {α : Type} {f : World → α} {w : World} :
    Meets (· = w) (query f) (fun a w' => w' = w ∧ a = f w) (fun _ => (· = w)) (· = w) := by
  apply meets_call
  · rintro env _ a w' rfl _ made
    cases made
    exact ⟨rfl,rfl⟩
  · intro env w' err after _ made
    cases made
  · exact fun _ _ same => same
  · exact fun _ same => same

theorem poolPendingStat_quiet {key : Text} (quiet : w.shared.entries.lookup key = none) (cs : List (Choice EngineEnv)) :
    e.poolPendingStat key w cs = .done none w cs := by
  have none_ : e.pendingRecord key w = none := by
    rw [Engine.pendingRecord,quiet]
    cases e.writeCache <;> rfl
  change Outcome.done ((e.pendingRecord key w).map _) w cs = _
  rw [none_]
  rfl

theorem poolExists_vacant {key : Text} (quiet : w.shared.entries.lookup key = none)
    (vacant : w.primary.exists_ key = false) (unbacked : ∀ backup ∈ e.backup, backup.exists_ key = false) :
    Ensures (· = w) (e.poolExists key) fun found _ => found = false := by
  unfold Engine.poolExists
  apply Meets.bind (Q := fun hit w' => w' = w ∧ hit = none)
  · intro _ cs same
    rw [same,poolPendingStat_quiet quiet cs]
    exact ⟨rfl,rfl⟩
  intro hit
  cases hit with
  | some info => exact Ensures.of_pre fun _ holds => by cases holds.2
  | none =>
    have asked : Meets (· = w) (query fun w => w.primary.exists_ key).attempt
        (fun result w' => w' = w ∧ ∀ found, result = .ok found → found = false) (fun _ _ => True) fun _ => True := by
      apply Meets.attempt
      apply query_meets.consequence (fun _ same => same)
      · rintro found w' ⟨same,told⟩
        exact ⟨same,fun other equal => (Except.ok.inj equal).symm.trans (told.trans vacant)⟩
      · intro err w' same
        refine ⟨same,fun found equal => ?_⟩
        cases equal
      · exact fun _ _ => trivial
    have fallback (backup : Disk) (given : backup ∈ e.backup) :
        Ensures (· = w) (query fun _ => backup.exists_ key) fun found _ => found = false :=
      query_meets.consequence (fun _ same => same) (fun _ _ told => told.2.trans (unbacked backup given))
        (fun _ _ _ => trivial) fun _ _ => trivial
    apply Meets.bind (asked.consequence (fun _ holds => holds.1) (fun _ _ told => told) (fun _ _ told => told)
      fun _ told => told)
    intro result
    split
    · exact Ensures.of_pre fun _ holds => absurd (holds.2 true rfl) (by decide)
    · exact Meets.pure fun _ _ => rfl
    next backup given =>
      exact (fallback backup given).consequence (fun _ holds => holds.1) (fun _ _ told => told) (fun _ _ told => told)
        fun _ told => told
    · exact Meets.fail fun _ _ => trivial
    next backup given =>
      exact (fallback backup given).consequence (fun _ holds => holds.1) (fun _ _ told => told) (fun _ _ told => told)
        fun _ told => told

theorem existsImpl_vacant {path : Text} (lasting : isTempPath path = false) (free : e.Unprotected path)
    (quiet : w.shared.entries.lookup (e.getPhysicalPath path) = none)
    (vacant : w.primary.exists_ (e.getPhysicalPath path) = false)
    (unbacked : ∀ backup ∈ e.backup, backup.exists_ (e.getPhysicalPath path) = false) :
    Ensures (· = w) (e.existsImpl path) fun found _ => found = false := by
  have absent := poolExists_vacant quiet vacant unbacked
  unfold Engine.existsImpl
  apply Meets.bind (Q := fun hit w' => w' = w ∧ hit = none)
  · intro _ cs same
    have pending : e.pendingStat path = (do
        let info ← e.poolPendingStat (e.getPhysicalPath path)
        pure (info.map e.translateFileInfo)) := by
      rw [Engine.pendingStat,if_neg (by rw [lasting]; exact Bool.false_ne_true)]
    rw [same,pending,bind_run (poolPendingStat_quiet quiet cs)]
    exact ⟨rfl,rfl⟩
  intro hit
  cases hit with
  | some info => exact Ensures.of_pre fun _ holds => by cases holds.2
  | none =>
    simp only [lasting,Bool.false_eq_true,if_false]
    have looked : Ensures (fun w' => w' = w ∧ True) (e.getIndexMetadata path) fun _ => (· = w) :=
      ((e.getIndexMetadata_readOnly path).keeps (· = w)).consequence (fun _ holds => holds.1) (fun _ _ same => same)
        (fun _ _ _ => trivial) fun _ _ => trivial
    apply Meets.bind looked
    intro row
    cases row with
    | some row => exact absent
    | none =>
      cases resolved : e.resolveProtectedPlan with
      | error err =>
        have refused : e.getProtectedPlan path = fail err := by
          rw [Engine.getProtectedPlan,resolved]
          rfl
        rw [refused]
        exact Meets.fail fun _ _ => trivial
      | ok plan =>
        rw [Engine.getProtectedPlan_unprotected free resolved,pure_bind]
        exact absent

/-! ### Recovery -/

theorem exists_known (path : Text) : Keeps (r.Known e start status) (e.existsImpl path) :=
  (quietly_readOnly (e.existsImpl_readOnly path)).known

/-- What is renamed is found where it was put, or the question fails. -/
theorem existsDst_meets (sound : r.Sound e start) : Meets (r.Reached e start) (e.existsImpl r.dst)
    (fun found w => r.Reached e start w ∧ (found = true → r.Between e start w ∨ r.Completed e start w))
    (fun _ => r.Reached e start) (r.Reached e start) := by
  intro w cs reached
  have kept := (quietly_readOnly (e.existsImpl_readOnly r.dst)).reached w cs reached
  cases outcome : e.existsImpl r.dst w cs with
  | failed err w' rest => rw [outcome] at kept; exact kept
  | crashed w' => rw [outcome] at kept; exact kept
  | done found w' rest =>
    have same : w' = w := readOnly_done (e.existsImpl_readOnly r.dst) outcome
    refine ⟨same ▸ reached,fun told => ?_⟩
    rw [same]
    cases reached with
    | between here => exact .inl here
    | completed here => exact .inr here
    | before here =>
      obtain ⟨old,-,here⟩ := here
      have primary : w.primary = start.stored.disk := congrArg Stored.disk here.stored_eq
      have vacant : w.primary.exists_ (e.getPhysicalPath r.dst) = false := by
        rw [primary]
        exact sound.vacant
      have quiet := here.quiet _ (List.mem_cons_of_mem _ List.mem_cons_self)
      have absent := existsImpl_vacant sound.lasting sound.free quiet vacant sound.unbacked
      have nothing := absent.of_done rfl outcome
      rw [told] at nothing
      cases nothing

theorem recover_meets (sound : r.Sound e start) (status : WalStatus) (error : Bool → VfsError) :
    Meets (r.Known e start status) (r.recover e status error) (fun _ => r.Completed e start)
      (fun _ => r.Reached e start) (r.Reached e start) := by
  have again := rewrite_meets sound
  unfold recover
  split
  next done => exact Meets.pure fun _ known => known.metadata done
  next =>
    split
    next done =>
      exact again.consequence (fun _ known => known.physical done) (fun _ _ here => here) (fun _ _ here => here)
        fun _ here => here
    next =>
      apply Meets.bind (Q := fun _ => r.Reached e start)
      · exact (quietly_readOnly (e.existsImpl_readOnly r.src)).reached.consequence (fun _ known => known.reached)
          (fun _ _ here => here) (fun _ _ here => here) fun _ here => here
      intro firstExists
      apply Meets.bind (existsDst_meets sound)
      intro secondExists
      split
      · have moved := physicalMove_meets sound
        apply Meets.bind (moved.consequence (fun _ holds => holds.1) (fun _ _ here => here) (fun _ _ here => here)
          fun _ here => here)
        intro _
        exact again.consequence (fun _ here => .inl here) (fun _ _ here => here) (fun _ _ here => here) fun _ here => here
      · exact again.consequence (fun _ holds => holds.2 rfl) (fun _ _ here => here) (fun _ _ here => here)
          fun _ here => here
      · exact Meets.fail fun _ holds => holds.1
      · exact Meets.fail fun _ holds => holds.1

/-- What the log says tells how far it has got. -/
theorem Reached.known (reached : r.Reached e start w) (logged : w.wal = start.base ++ [⟨start.id,r.operation,status⟩]) :
    r.Known e start status w := by
  have told {stored : Stored} {old : WalStatus} (here : r.Here e start stored old w) : old = status := by
    have same : start.base ++ [⟨start.id,r.operation,old⟩] = start.base ++ [⟨start.id,r.operation,status⟩] :=
      here.log_holds.symm.trans logged
    have row := List.append_cancel_left same
    injection row with row
    injection row
  refine ⟨reached,?_,?_⟩
  · intro done
    cases reached with
    | before here =>
      obtain ⟨old,early,here⟩ := here
      rw [told here,done] at early
      cases early
    | between here => exact .inl here
    | completed here => exact .inr here
  · intro done
    cases reached with
    | before here =>
      obtain ⟨old,early,here⟩ := here
      rw [← told here,physical_of_metadata early] at done
      cases done
    | between here =>
      obtain ⟨disk,old,-,early,here⟩ := here
      rw [told here,done] at early
      cases early
    | completed here => exact here

theorem recoverOne_meets (sound : r.Sound e start)
    (recovers : Meets (r.Known e start status) (e.recoverOperation r.operation status) (fun _ => r.Completed e start)
      (fun _ => r.Reached e start) (r.Reached e start)) :
    Meets (r.Known e start status) (e.recoverOne ⟨start.id,r.operation,status⟩) (fun _ => r.Completed e start)
      (fun _ => r.Reached e start) (r.Reached e start) := by
  unfold Engine.recoverOne
  dsimp only
  split
  next idle =>
    have done : status.hasMetadataDone = true := by
      cases status with
      | completed => rfl
      | pending => cases idle
      | recovering => cases idle
      | physicalDone => cases idle
      | metadataDone => cases idle
      | failed => cases idle
    exact Meets.pure fun _ known => known.metadata done
  next =>
    have noted : Keeps (r.Known e start status) (update (setStatus start.id .recovering)) :=
      update_keeps fun _ known => known.setStatus sound rfl
    apply Meets.bind (noted.weaken (fun _ _ known => known.reached) fun _ known => known.reached)
    intro _
    have asked : Keeps (r.Known e start status) Engine.createRecoveryEngine :=
      (quietly_readOnly (query_readOnly _)).known
    apply Meets.bind (asked.weaken (fun _ _ known => known.reached) fun _ known => known.reached)
    intro _
    apply Meets.bind (Q := fun result w => (∀ u, result = .ok u → r.Completed e start w) ∧ r.Reached e start w)
    · apply Meets.attempt
      apply recovers.consequence (fun _ known => known) ?_ ?_ fun _ reached => reached
      · exact fun _ _ here => ⟨fun _ _ => here,.completed here⟩
      · intro err w reached
        refine ⟨fun u same => ?_,reached⟩
        cases same
    intro result
    cases result with
    | ok u =>
      have marked : Keeps (r.Completed e start) (update (setStatus start.id .completed)) :=
        update_keeps fun _ here => Completed.setStatus sound here .completed
      exact marked.consequence (fun _ holds => holds.1 u rfl) (fun _ _ here => here) (fun _ _ here => .completed here)
        fun _ here => .completed here
    | error err =>
      have marked : Keeps (r.Reached e start) (regardless (update (setStatus start.id .failed))) :=
        regardless_keeps (update_keeps fun _ here => Reached.setStatus sound here rfl)
      apply Meets.bind (marked.consequence (fun _ holds => holds.2) (fun _ _ here => here) (fun _ _ here => here)
        fun _ here => here)
      intro _
      exact Meets.fail fun _ reached => reached

/-! ### The whole log -/

/-- What a recovery of the log leaves that counts so many failures. -/
structure Recovered (r : LoggedRename) (e : Engine) (start : Start) (failures : Nat) (w : World) : Prop where
  reached : r.Reached e start w
  completed : failures = 0 → r.Completed e start w

theorem Quietly.recovered {α : Type} {m : Vfs α} {failures : Nat} (quietly : Quietly r e m) :
    Keeps (r.Recovered e start failures) m := by
  apply quietly.keeps (fun _ holds => holds.reached.quiet)
  intro _ _ holds same
  exact ⟨holds.reached.resumed same,fun none_ => (holds.completed none_).resumed same⟩

theorem quietly_maintenance (on_ : Bool) : Quietly r e (Effect.modify fun w => { w with maintenance := on_ }) := by
  intro stored log
  apply Keeps.modify
  intro w stage
  exact ⟨stage.stored_eq,stage.quiet,stage.log_holds⟩

theorem quietly_recalibrate : Quietly r e e.recalibrateStorageUsed := by
  intro stored log
  unfold Engine.recalibrateStorageUsed
  apply Keeps.bind ((query_readOnly _).keeps _)
  intro _
  apply Keeps.bind ((query_readOnly _).keeps _)
  intro totalUsed
  exact update_keeps fun _ stage => stage.at_rest _ rfl rfl

theorem recoverRows_meets (sound : r.Sound e start)
    (recovers : Meets (r.Known e start status) (e.recoverOperation r.operation status) (fun _ => r.Completed e start)
      (fun _ => r.Reached e start) (r.Reached e start)) :
    Meets (r.Known e start status) (e.recoverRows [⟨start.id,r.operation,status⟩]) (r.Recovered e start)
      (fun _ => r.Reached e start) (r.Reached e start) := by
  unfold Engine.recoverRows
  apply Meets.bind (Q := fun result w => (∀ u, result = .ok u → r.Completed e start w) ∧ r.Reached e start w)
  · apply Meets.attempt
    apply (recoverOne_meets sound recovers).consequence (fun _ known => known) ?_ ?_ fun _ reached => reached
    · exact fun _ _ here => ⟨fun _ _ => here,.completed here⟩
    · intro err w reached
      refine ⟨fun u same => ?_,reached⟩
      cases same
  intro result
  rw [Engine.recoverRows,pure_bind]
  cases result with
  | ok u => exact Meets.pure fun _ holds => ⟨holds.2,fun _ => holds.1 u rfl⟩
  | error err => exact Meets.pure fun _ holds => ⟨holds.2,fun none_ => by cases none_⟩

/-- The rows before are completed, and recovery does not look at them. -/
theorem active_rows (sound : r.Sound e start) :
    (start.base ++ [(⟨start.id,r.operation,status⟩ : WalRow)]).filter (fun row => row.status ≠ .completed) =
      if status = .completed then [] else [⟨start.id,r.operation,status⟩] := by
  have none_ : start.base.filter (fun row => row.status ≠ .completed) = [] := by
    rw [List.filter_eq_nil_iff]
    intro row inside active
    exact of_decide_eq_true active (sound.settled row inside)
  rw [List.filter_append,none_,List.nil_append]
  by_cases done : status = .completed
  · simp [done]
  · simp [done]

/-- A recovery of the log that counts no failure has completed the operation, and any other
way it ends leaves what it can be run on again. -/
theorem recoverAll_meets (sound : r.Sound e start)
    (recovers : ∀ status, Meets (r.Known e start status) (e.recoverOperation r.operation status)
      (fun _ => r.Completed e start) (fun _ => r.Reached e start) (r.Reached e start)) :
    Meets (r.Reached e start) e.recoverAll (r.Recovered e start) (fun _ => r.Reached e start) (r.Reached e start) := by
  intro w cs reached
  obtain ⟨stored,status,here⟩ := reached.log
  have logged : w.wal = start.base ++ [⟨start.id,r.operation,status⟩] := here.log_holds
  have known := reached.known logged
  revert cs
  suffices whole : Meets (· = w) e.recoverAll (r.Recovered e start) (fun _ => r.Reached e start) (r.Reached e start) from
    fun cs => whole w cs rfl
  unfold Engine.recoverAll
  apply Meets.bind (Q := fun rows w' => r.Known e start status w' ∧
    rows = if status = .completed then [] else [⟨start.id,r.operation,status⟩])
  · apply query_meets.consequence (fun _ same => same) ?_ (fun _ _ same => same ▸ reached) fun _ same => same ▸ reached
    rintro rows w' ⟨rfl,told⟩
    rw [logged,active_rows sound] at told
    exact ⟨known,told⟩
  intro rows
  apply Meets.of_fact
  intro told
  by_cases done : status = .completed
  · rw [told,if_pos done,if_pos rfl]
    exact Meets.pure fun _ known => ⟨known.reached,fun _ => known.metadata (by rw [done]; rfl)⟩
  · rw [told,if_neg done,if_neg (List.cons_ne_nil _ _)]
    apply Meets.bind ((quietly_maintenance true).known.weaken (fun _ _ known => known.reached) fun _ known => known.reached)
    intro _
    apply Meets.bind (recoverRows_meets sound (recovers status))
    intro failures
    have calibrated : Keeps (r.Recovered e start failures) (when (failures = 0) (regardless e.recalibrateStorageUsed)) := by
      unfold Vfs.when
      split
      · exact regardless_keeps quietly_recalibrate.recovered
      · exact Keeps.pure ()
    apply Meets.bind (calibrated.weaken (fun _ _ holds => holds.reached) fun _ holds => holds.reached)
    intro _
    apply Meets.bind ((quietly_maintenance false).recovered.weaken (fun _ _ holds => holds.reached) fun _ holds => holds.reached)
    intro _
    exact Meets.pure fun _ holds => holds

/-- From wherever a stop has left it, over any number of recoveries that are stopped or fail
in their turn, the first that counts no failure leaves the operation completed. -/
theorem recovered_of_attempts (sound : r.Sound e start)
    (recovers : ∀ status, Meets (r.Known e start status) (e.recoverOperation r.operation status)
      (fun _ => r.Completed e start) (fun _ => r.Reached e start) (r.Reached e start))
    (reached : r.Reached e start w) (tried : Attempts (r.Resumed e) e.recoverAll w w') :
    r.Reached e start w' ∧ ∀ cs, (e.recoverAll w' cs).value? = some 0 → r.Completed e start (e.recoverAll w' cs).state := by
  have met := recoverAll_meets sound recovers
  have all : Meets (r.Reached e start) e.recoverAll (fun _ => r.Reached e start) (fun _ => r.Reached e start)
      (r.Reached e start) := met.consequence (fun _ here => here) (fun _ _ holds => holds.reached) (fun _ _ here => here)
        fun _ here => here
  have there : r.Reached e start w' := tried.invariant all (fun _ _ here same => here.resumed same) reached
  refine ⟨there,?_⟩
  intro cs value
  have result := met w' cs there
  cases outcome : e.recoverAll w' cs with
  | done failures after rest =>
    rw [outcome] at result value
    exact result.completed (Option.some.inj value)
  | failed err after rest =>
    rw [outcome] at value
    cases value
  | crashed after =>
    rw [outcome] at value
    cases value

/-! ### Also where nothing was logged -/

/-- The log row was never written. The disk is one of those it may have been written on. -/
def Idle (r : LoggedRename) (e : Engine) (w₀ : World) (disks : Disk → Prop) (w : World) : Prop :=
  ∃ disk, disks disk ∧ Stage (r.paths e) ⟨disk,w₀.index⟩ (· = w₀.wal) w

def startAt (w₀ : World) (disk : Disk) : Start := ⟨⟨disk,w₀.index⟩,w₀.wal,w₀.nextWal⟩

/-- However an operation begun in a state ends, or its recovery does. -/
def Ended (r : LoggedRename) (e : Engine) (w₀ : World) (disks : Disk → Prop) (w : World) : Prop :=
  r.Idle e w₀ disks w ∨ ∃ disk, disks disk ∧ r.Reached e (startAt w₀ disk) w

def Done (r : LoggedRename) (e : Engine) (w₀ : World) (disks : Disk → Prop) (w : World) : Prop :=
  ∃ disk, disks disk ∧ r.Completed e (startAt w₀ disk) w

section ended
variable {w₀ : World} {disks : Disk → Prop}

theorem Ended.resumed (ended : r.Ended e w₀ disks w) (same : r.Resumed e w w') : r.Ended e w₀ disks w' := by
  rcases ended with ⟨disk,given,here⟩ | ⟨disk,given,here⟩
  · exact .inl ⟨disk,given,same.stored_eq.trans here.stored_eq,same.quiet,same.log_holds.trans here.log_holds⟩
  · exact .inr ⟨disk,given,here.resumed same⟩

theorem Quietly.idle {α : Type} {m : Vfs α} (quietly : Quietly r e m) : Keeps (r.Idle e w₀ disks) m := by
  apply quietly.keeps
  · rintro w ⟨disk,given,here⟩
    exact here.quiet
  · rintro w w' ⟨disk,given,here⟩ same
    exact ⟨disk,given,same.stored_eq.trans here.stored_eq,same.quiet,same.log_holds.trans here.log_holds⟩

/-- With every row completed there is nothing to recover. -/
theorem recoverAll_idle (settled : ∀ row ∈ w₀.wal, row.status = .completed) :
    Keeps (r.Idle e w₀ disks) e.recoverAll := by
  unfold Engine.recoverAll
  apply Meets.bind (Q := fun rows w => r.Idle e w₀ disks w ∧ rows = [])
  · intro w cs idle
    obtain ⟨disk,given,here⟩ := idle
    have none_ : w.wal.filter (fun row => row.status ≠ .completed) = [] := by
      rw [here.log_holds,List.filter_eq_nil_iff]
      intro row inside active
      exact of_decide_eq_true active (settled row inside)
    have asked : Meets (· = w) (query fun w => w.wal.filter fun row => row.status ≠ .completed)
        (fun rows w => r.Idle e w₀ disks w ∧ rows = []) (fun _ => r.Idle e w₀ disks) (r.Idle e w₀ disks) := by
      apply query_meets.consequence (fun _ same => same)
      · rintro rows w' ⟨rfl,told⟩
        exact ⟨⟨disk,given,here⟩,told.trans none_⟩
      · rintro err w' rfl
        exact ⟨disk,given,here⟩
      · rintro w' rfl
        exact ⟨disk,given,here⟩
    exact asked w cs rfl
  · intro rows
    apply Meets.of_fact
    intro none_
    rw [if_pos none_]
    exact Keeps.pure 0

/-- Whatever stops an operation, and then its recoveries: after one that counts no failure
either nothing was ever logged or the operation is completed. -/
theorem ended_of_attempts (settled : ∀ row ∈ w₀.wal, row.status = .completed)
    (sound : ∀ disk, disks disk → r.Sound e (startAt w₀ disk))
    (recovers : ∀ disk, disks disk → ∀ status, Meets (r.Known e (startAt w₀ disk) status)
      (e.recoverOperation r.operation status) (fun _ => r.Completed e (startAt w₀ disk))
      (fun _ => r.Reached e (startAt w₀ disk)) (r.Reached e (startAt w₀ disk)))
    (ended : r.Ended e w₀ disks w) (tried : Attempts (r.Resumed e) e.recoverAll w w') :
    r.Ended e w₀ disks w' ∧ ∀ cs, (e.recoverAll w' cs).value? = some 0 →
      r.Idle e w₀ disks (e.recoverAll w' cs).state ∨ r.Done e w₀ disks (e.recoverAll w' cs).state := by
  rcases ended with idle | ⟨disk,given,reached⟩
  · have kept : Keeps (r.Idle e w₀ disks) e.recoverAll := recoverAll_idle settled
    have there : r.Idle e w₀ disks w' := by
      apply tried.invariant kept _ idle
      rintro s s' ⟨disk,given,here⟩ same
      exact ⟨disk,given,same.stored_eq.trans here.stored_eq,same.quiet,same.log_holds.trans here.log_holds⟩
    exact ⟨.inl there,fun cs _ => .inl (kept.state cs there)⟩
  · obtain ⟨there,completes⟩ := recovered_of_attempts (sound disk given) (recovers disk given) reached tried
    exact ⟨.inr ⟨disk,given,there⟩,fun cs value => .inr ⟨disk,given,completes cs value⟩⟩

/-! ### The whole operation -/

/-- Before the row is written, with the number it will get. -/
def Ready (r : LoggedRename) (e : Engine) (w₀ : World) (disks : Disk → Prop) (w : World) : Prop :=
  r.Idle e w₀ disks w ∧ w.nextWal = w₀.nextWal

theorem beginWal_meets (walEnabled : e.walEnabled = true) :
    Meets (r.Ready e w₀ disks) (e.beginWal r.operation false)
      (fun walId w => (∃ disk, disks disk ∧ r.Before e (startAt w₀ disk) w) ∧ walId = some w₀.nextWal)
      (fun _ => r.Ended e w₀ disks) (r.Ended e w₀ disks) := by
  have logs : e.beginWal r.operation false = logOperation r.operation >>= fun id => pure (some id) := by
    rw [Engine.beginWal,walEnabled]
    rfl
  rw [logs]
  apply Meets.bind (Q := fun id w => (∃ disk, disks disk ∧ r.Before e (startAt w₀ disk) w) ∧ id = w₀.nextWal)
  · apply meets_call
    · rintro env w id w' ⟨⟨disk,given,here⟩,number⟩ _ made
      cases made
      refine ⟨⟨disk,given,.pending,rfl,here.stored_eq,here.quiet,?_⟩,number⟩
      have logged : w.wal = w₀.wal := here.log_holds
      change w.wal ++ [⟨w.nextWal,r.operation,.pending⟩] = w₀.wal ++ [⟨w₀.nextWal,r.operation,.pending⟩]
      rw [logged,number]
    · intro env w err w' _ made
      cases made
    · exact fun _ _ ready => .inl ready.1
    · exact fun _ ready => .inl ready.1
  · intro id
    apply Meets.pure
    rintro w ⟨begun,rfl⟩
    exact ⟨begun,rfl⟩

/-- However the logged part of an operation ends: nothing was logged, or it has got somewhere,
and to its end if it says so. -/
theorem logged_meets (walEnabled : e.walEnabled = true) (sound : ∀ disk, disks disk → r.Sound e (startAt w₀ disk)) :
    Meets (r.Ready e w₀ disks) (e.beginWal r.operation false >>= r.run e) (fun _ => r.Done e w₀ disks)
      (fun _ => r.Ended e w₀ disks) (r.Ended e w₀ disks) := by
  apply Meets.bind (beginWal_meets walEnabled)
  intro walId
  apply Meets.of_fact
  rintro rfl
  apply Meets.of_exists
  intro disk
  rintro w cs ⟨given,before⟩
  have met : Meets (r.Before e (startAt w₀ disk)) (r.run e (some w₀.nextWal)) (fun _ => r.Done e w₀ disks)
      (fun _ => r.Ended e w₀ disks) (r.Ended e w₀ disks) :=
    (run_meets (sound disk given)).consequence (fun _ here => here) (fun _ _ here => ⟨disk,given,here⟩)
      (fun _ _ here => .inr ⟨disk,given,here⟩) fun _ here => .inr ⟨disk,given,here⟩
  exact met w cs before

end ended
end LoggedRename
end StorageHub.Scoped
