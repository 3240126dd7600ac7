import Mathlib.Data.Finset.Insert
import Mathlib.Logic.Function.Basic
import StorageHub.Library.Transition
import StorageHub.Scoped.World

/-! The maintenance mode of the users: one set of locked users, the guards that
unlock on their drop, and recoveries that hold a guard of every affected user
while they replay. -/
namespace StorageHub.Scoped
open Library Vfs
open Library.Transition (System)

/-- Who holds a guard: a direct caller or a run of `recover_all`. -/
inductive Holder
  | caller (n : Nat)
  | recovery (n : Nat)
  deriving DecidableEq,Repr

structure UserMaintenanceGuard where
  holder : Holder
  userId : Text
  deriving DecidableEq,Repr

inductive RecoveryPhase
  | locking (affectedUsers pending : List Text)
  | replaying (affectedUsers : List Text)
  | returned
  deriving DecidableEq,Repr

structure MaintenanceState where
  lockedUsers : Finset Text
  /-- The guards that are alive. -/
  guards : List UserMaintenanceGuard
  recoveries : Nat → Option RecoveryPhase

inductive MaintenanceAction
  | enter (n : Nat) (userId : Text)
  | drop (guard : UserMaintenanceGuard)
  /-- `rows` are the users of the unfinished rows, `order` that of the hash set. -/
  | recoverAll (n : Nat) (rows order : List Text)
  | lockNext (n : Nat)
  | finish (n : Nat)
  | operation (userId : Text)

namespace MaintenanceState
variable (s : MaintenanceState)

def enterUserMaintenance (guard : UserMaintenanceGuard) : MaintenanceState :=
  { s with
    lockedUsers := insert guard.userId s.lockedUsers
    guards := guard::s.guards }

def dropGuard (guard : UserMaintenanceGuard) : MaintenanceState :=
  { s with
    lockedUsers := s.lockedUsers.erase guard.userId
    guards := s.guards.erase guard }

def isUserUnderMaintenance (userId : Text) : Bool := decide (userId ∈ s.lockedUsers)

def checkMaintenance (userId : Text) : Except VfsError Unit :=
  if s.isUserUnderMaintenance userId then .error .maintenanceMode else .ok ()

def setRecovery (n : Nat) (phase : RecoveryPhase) : MaintenanceState :=
  { s with recoveries := Function.update s.recoveries n (some phase) }

/-- A recovery drops its guards when it returns, a caller whenever it likes. -/
def Releasable : Holder → Prop
  | .caller _ => True
  | .recovery n => s.recoveries n = some .returned

instance (holder : Holder) : Decidable (s.Releasable holder) :=
  match holder with
  | .caller _ => inferInstanceAs (Decidable True)
  | .recovery n => inferInstanceAs (Decidable (s.recoveries n = some .returned))

def step (s : MaintenanceState) : MaintenanceAction → Option MaintenanceState
  | .enter n userId => some (s.enterUserMaintenance ⟨.caller n,userId⟩)
  | .drop guard =>
    if guard ∈ s.guards ∧ s.Releasable guard.holder then some (s.dropGuard guard) else none
  | .recoverAll n rows order =>
    if s.recoveries n = none ∧ order.Perm rows.dedup then
      -- without an unfinished row nobody is locked
      if rows = [] then some (s.setRecovery n .returned)
      else some (s.setRecovery n (.locking order order))
    else none
  | .lockNext n =>
    match s.recoveries n with
    | some (.locking affected (userId::pending)) =>
      some ((s.enterUserMaintenance ⟨.recovery n,userId⟩).setRecovery n (.locking affected pending))
    | some (.locking affected []) => some (s.setRecovery n (.replaying affected))
    | _ => none
  | .finish n =>
    match s.recoveries n with
    | some (.replaying _) => some (s.setRecovery n .returned)
    | _ => none
  | .operation userId =>
    match s.checkMaintenance userId with
    | .ok _ => some s
    | .error _ => none

/-- Some guard of the user is alive. -/
def Guarded (userId : Text) : Prop := ∃ guard ∈ s.guards, guard.userId = userId

/-- The users that are locked are those with a guard alive, and no operation of
a user passes while a recovery replays the user's rows. -/
structure Protects : Prop where
  exact : ∀ userId, s.isUserUnderMaintenance userId = true ↔ s.Guarded userId
  covers : ∀ n affected, s.recoveries n = some (.replaying affected) → ∀ userId ∈ affected,
    s.checkMaintenance userId = .error .maintenanceMode

/-- A guard is dropped only as the last one of its user. -/
def LastDrop : MaintenanceAction → Prop
  | .drop guard => ∀ other ∈ s.guards.erase guard, other.userId ≠ guard.userId
  | _ => True

/-- A recovery has the guards of the users it has locked so far. -/
structure Holding : Prop where
  locking : ∀ n affected pending, s.recoveries n = some (.locking affected pending) →
    ∀ userId ∈ affected, userId ∉ pending → ⟨.recovery n,userId⟩ ∈ s.guards
  replaying : ∀ n affected, s.recoveries n = some (.replaying affected) →
    ∀ userId ∈ affected, ⟨.recovery n,userId⟩ ∈ s.guards

/-- Entering locks the user of the guard and leaves the other users alone. -/
theorem guarded_enter (guard : UserMaintenanceGuard) (userId : Text) :
    (s.enterUserMaintenance guard).Guarded userId ↔ userId = guard.userId ∨ s.Guarded userId := by
  simp [Guarded,enterUserMaintenance,eq_comm]

variable {s}

theorem exact_enter (exact : ∀ userId, s.isUserUnderMaintenance userId = true ↔ s.Guarded userId)
    (guard : UserMaintenanceGuard) (userId : Text) :
    (s.enterUserMaintenance guard).isUserUnderMaintenance userId = true ↔
      (s.enterUserMaintenance guard).Guarded userId := by
  rw [guarded_enter,← exact userId]
  simp [isUserUnderMaintenance,enterUserMaintenance]

/-- After a drop the set is right exactly when the guard was the last of its user. -/
theorem exact_drop (exact : ∀ userId, s.isUserUnderMaintenance userId = true ↔ s.Guarded userId)
    (guard : UserMaintenanceGuard) :
    (∀ userId, (s.dropGuard guard).isUserUnderMaintenance userId = true ↔
      (s.dropGuard guard).Guarded userId) ↔ s.LastDrop (.drop guard) := by
  have unlocked (userId : Text) : (s.dropGuard guard).isUserUnderMaintenance userId = true ↔
      userId ≠ guard.userId ∧ s.Guarded userId := by
    rw [← exact userId]
    simp [isUserUnderMaintenance,dropGuard]
  constructor
  · intro after other kept same
    have guarded : (s.dropGuard guard).Guarded guard.userId := ⟨other,kept,same⟩
    have locked := (after guard.userId).mpr guarded
    exact ((unlocked guard.userId).mp locked).1 rfl
  · intro last userId
    rw [unlocked]
    constructor
    · rintro ⟨different,other,held,rfl⟩
      have distinct : other ≠ guard := fun same => different (by rw [same])
      exact ⟨other,(List.mem_erase_of_ne distinct).mpr held,rfl⟩
    · rintro ⟨other,kept,rfl⟩
      exact ⟨last other kept,other,List.mem_of_mem_erase kept,rfl⟩

/-- The guards of a recovery turn an exact set into protection of its users. -/
theorem protects_of_exact (holding : s.Holding)
    (exact : ∀ userId, s.isUserUnderMaintenance userId = true ↔ s.Guarded userId) :
    s.Protects := by
  refine ⟨exact,?_⟩
  intro n affected replaying userId covered
  have guarded : s.Guarded userId := ⟨_,holding.replaying n affected replaying userId covered,rfl⟩
  simp [checkMaintenance,(exact userId).mpr guarded]

theorem holding_enter (holding : s.Holding) (guard : UserMaintenanceGuard) :
    (s.enterUserMaintenance guard).Holding := by
  constructor
  · intro n affected pending phase userId covered taken
    exact List.mem_cons_of_mem _ (holding.locking n affected pending phase userId covered taken)
  · intro n affected phase userId covered
    exact List.mem_cons_of_mem _ (holding.replaying n affected phase userId covered)

/-- The guards of a recovery at work survive every drop. -/
theorem mem_dropGuard {guard : UserMaintenanceGuard} (releasable : s.Releasable guard.holder)
    {n : Nat} (working : s.recoveries n ≠ some .returned) {userId : Text}
    (held : ⟨.recovery n,userId⟩ ∈ s.guards) :
    ⟨.recovery n,userId⟩ ∈ (s.dropGuard guard).guards := by
  have distinct : (⟨.recovery n,userId⟩ : UserMaintenanceGuard) ≠ guard := by
    rintro rfl
    exact working releasable
  exact (List.mem_erase_of_ne distinct).mpr held

theorem holding_drop (holding : s.Holding) {guard : UserMaintenanceGuard}
    (releasable : s.Releasable guard.holder) : (s.dropGuard guard).Holding := by
  constructor
  · intro n affected pending phase userId covered taken
    have working : s.recoveries n ≠ some .returned := by
      rw [show s.recoveries n = _ from phase]
      simp
    exact mem_dropGuard releasable working
      (holding.locking n affected pending phase userId covered taken)
  · intro n affected phase userId covered
    have working : s.recoveries n ≠ some .returned := by
      rw [show s.recoveries n = _ from phase]
      simp
    exact mem_dropGuard releasable working (holding.replaying n affected phase userId covered)

/-- A recovery may enter a phase when it has the guards that phase asks for. -/
theorem holding_setRecovery (holding : s.Holding) {n : Nat} {phase : RecoveryPhase}
    (locking : ∀ affected pending, phase = .locking affected pending →
      ∀ userId ∈ affected, userId ∉ pending → ⟨.recovery n,userId⟩ ∈ s.guards)
    (replaying : ∀ affected, phase = .replaying affected →
      ∀ userId ∈ affected, ⟨.recovery n,userId⟩ ∈ s.guards) :
    (s.setRecovery n phase).Holding := by
  constructor
  · intro other affected pending current
    by_cases same : other = n
    · subst same
      exact locking affected pending (by simpa [setRecovery] using current)
    · exact holding.locking other affected pending (by simpa [setRecovery,same] using current)
  · intro other affected current
    by_cases same : other = n
    · subst same
      exact replaying affected (by simpa [setRecovery] using current)
    · exact holding.replaying other affected (by simpa [setRecovery,same] using current)

theorem holding_step {action : MaintenanceAction} {next : MaintenanceState} (holding : s.Holding)
    (stepped : s.step action = some next) : next.Holding := by
  cases action with
  | enter n userId =>
    cases stepped
    exact holding_enter holding _
  | drop guard =>
    simp only [step] at stepped
    split at stepped
    next allowed =>
      cases stepped
      exact holding_drop holding allowed.2
    next => contradiction
  | recoverAll n rows order =>
    simp only [step] at stepped
    split at stepped
    next =>
      split at stepped
      next =>
        cases stepped
        exact holding_setRecovery holding (by simp) (by simp)
      next =>
        cases stepped
        refine holding_setRecovery holding ?_ (by simp)
        intro affected pending started userId covered waiting
        obtain ⟨rfl,rfl⟩ := RecoveryPhase.locking.inj started
        exact absurd covered waiting
    next => contradiction
  | lockNext n =>
    simp only [step] at stepped
    split at stepped
    next affected locked pending phase =>
      cases stepped
      refine holding_setRecovery (holding_enter holding _) ?_ (by simp)
      intro affected' pending' started userId covered taken
      obtain ⟨rfl,rfl⟩ := RecoveryPhase.locking.inj started
      by_cases new : userId = locked
      · simp [enterUserMaintenance,new]
      · have earlier := holding.locking n affected _ phase userId covered (by simp [new,taken])
        exact List.mem_cons_of_mem _ earlier
    next affected phase =>
      cases stepped
      refine holding_setRecovery holding (by simp) ?_
      intro affected' started userId covered
      obtain rfl := RecoveryPhase.replaying.inj started
      exact holding.locking n affected [] phase userId covered (by simp)
    next => contradiction
  | finish n =>
    simp only [step] at stepped
    split at stepped
    next =>
      cases stepped
      exact holding_setRecovery holding (by simp) (by simp)
    next => contradiction
  | operation userId =>
    simp only [step] at stepped
    split at stepped
    next =>
      cases stepped
      exact holding
    next => contradiction

/-- Of all the steps only a drop can make the set of locked users wrong. -/
theorem exact_step {action : MaintenanceAction} {next : MaintenanceState}
    (exact : ∀ userId, s.isUserUnderMaintenance userId = true ↔ s.Guarded userId)
    (stepped : s.step action = some next) :
    (∀ userId, next.isUserUnderMaintenance userId = true ↔ next.Guarded userId) ↔
      s.LastDrop action := by
  cases action with
  | enter n userId =>
    cases stepped
    exact iff_of_true (exact_enter exact _) trivial
  | drop guard =>
    simp only [step] at stepped
    split at stepped
    next =>
      cases stepped
      exact exact_drop exact guard
    next => contradiction
  | recoverAll n rows order =>
    simp only [step] at stepped
    repeat' split at stepped
    all_goals cases stepped
    all_goals exact iff_of_true exact trivial
  | lockNext n =>
    simp only [step] at stepped
    split at stepped
    next affected locked pending phase =>
      cases stepped
      exact iff_of_true (exact_enter exact ⟨.recovery n,locked⟩) trivial
    next =>
      cases stepped
      exact iff_of_true exact trivial
    next => contradiction
  | finish n =>
    simp only [step] at stepped
    split at stepped
    next =>
      cases stepped
      exact iff_of_true exact trivial
    next => contradiction
  | operation userId =>
    simp only [step] at stepped
    split at stepped
    next =>
      cases stepped
      exact iff_of_true exact trivial
    next => contradiction

end MaintenanceState

def maintenance : System MaintenanceState MaintenanceAction where
  step := MaintenanceState.step

/-- The state at the start of the program. -/
def noMaintenance : MaintenanceState where
  lockedUsers := ∅
  guards := []
  recoveries := fun _ => none

theorem noMaintenance_holding : noMaintenance.Holding := by
  constructor
  · simp [noMaintenance]
  · simp [noMaintenance]

theorem noMaintenance_protects : noMaintenance.Protects := by
  apply MaintenanceState.protects_of_exact noMaintenance_holding
  intro userId
  simp [MaintenanceState.isUserUnderMaintenance,MaintenanceState.Guarded,noMaintenance]

/-- Along a run the maintenance mode protects the users of every guard exactly
when no drop leaves another guard of its user behind. -/
theorem maintenance_protects_iff {actions : List MaintenanceAction} {final : MaintenanceState}
    (computed : maintenance.exec noMaintenance actions = some final) :
    (∀ done, done <+: actions → ∀ reached, maintenance.exec noMaintenance done = some reached →
      reached.Protects) ↔
      maintenance.Run MaintenanceState.LastDrop noMaintenance actions final := by
  apply System.exec_always_iff (I := MaintenanceState.Holding)
  · intro s action next holding stepped
    exact MaintenanceState.holding_step holding stepped
  · intro s action next holding protects stepped
    have after := MaintenanceState.holding_step holding stepped
    rw [← MaintenanceState.exact_step protects.exact stepped]
    exact ⟨MaintenanceState.Protects.exact,MaintenanceState.protects_of_exact after⟩
  · exact noMaintenance_holding
  · exact noMaintenance_protects
  · exact computed

/-- A recovery of one user that returns and gives back its guard. -/
theorem maintenance_protects_recovery :
    ∃ final, maintenance.exec noMaintenance
        [.recoverAll 0 ["ann".toList,"ann".toList] ["ann".toList],.lockNext 0,.lockNext 0,.finish 0,
          .drop ⟨.recovery 0,"ann".toList⟩] = some final ∧
      ((∀ done, done <+: [.recoverAll 0 ["ann".toList,"ann".toList] ["ann".toList],.lockNext 0,
          .lockNext 0,.finish 0,.drop ⟨.recovery 0,"ann".toList⟩] →
          ∀ reached, maintenance.exec noMaintenance done = some reached → reached.Protects) ↔
        maintenance.Run MaintenanceState.LastDrop noMaintenance
          [.recoverAll 0 ["ann".toList,"ann".toList] ["ann".toList],.lockNext 0,.lockNext 0,.finish 0,
            .drop ⟨.recovery 0,"ann".toList⟩] final) :=
  ⟨_,rfl,maintenance_protects_iff rfl⟩

/-- A caller enters the maintenance mode of a user, a recovery of the user
locks and replays, and the caller's drop lets the user in meanwhile. -/
theorem early_drop_unlocks :
    ¬ ∀ actions reached, maintenance.exec noMaintenance actions = some reached → reached.Protects := by
  intro law
  have protects := law
    [.enter 0 "ann".toList,.recoverAll 0 ["ann".toList] ["ann".toList],.lockNext 0,.lockNext 0,
      .drop ⟨.caller 0,"ann".toList⟩] _ rfl
  have covered := protects.covers 0 ["ann".toList] (by decide +kernel) "ann".toList (by simp)
  have passes : (Except.ok () : Except VfsError Unit) = .error .maintenanceMode :=
    Eq.trans (by decide +kernel) covered
  cases passes

end StorageHub.Scoped
