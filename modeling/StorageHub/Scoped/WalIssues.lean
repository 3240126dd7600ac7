import Mathlib.Logic.Function.Basic
import StorageHub.Library.Transition
import StorageHub.Scoped.World

/-! One row of the write-ahead log between its live operation, recoveries and
replays that loaded it earlier, and administrators that mark it handled. Every
transition is an update by the id of the row, whatever its status. -/
namespace StorageHub.Scoped
open Library Vfs
open Library.Transition (System)

structure JournalRow where
  status : WalStatus
  failureReason : Option Text
  completedAt : Option Int
  deriving DecidableEq,Repr

def transitionOperation (status : WalStatus) (failureReason : Option Text) (now : Int) : JournalRow where
  status
  failureReason
  completedAt := if status = .completed then some now else none

def completedOperation (now : Int) : JournalRow := ⟨.completed,none,some now⟩

/-- The reason an administrator leaves; `note` is trimmed and not empty. -/
def handledReason (existing note : Option Text) : Text :=
  let handledNote :=
    match note with
    | some value => "ADMIN_MARKED_HANDLED: ".toList ++ value
    | none => "ADMIN_MARKED_HANDLED".toList
  match existing with
  | some (c::rest) => c::rest ++ '\n'::handledNote
  | _ => handledNote

/-- A live operation succeeds once nothing but its completion is left. -/
inductive LivePhase
  | notLogged
  | running
  | succeeded
  | returned
  deriving DecidableEq,Repr

/-- A run of `recover_one`, with the status of the row as it was loaded and,
in the end, the error of the recovery if it had one. -/
inductive RunPhase
  | notStarted
  | loaded (status : WalStatus)
  | recovering (status : WalStatus)
  | concluded (failure : Option Text)
  | returned
  deriving DecidableEq,Repr

inductive HandlerPhase
  | notStarted
  | loaded (failureReason : Text)
  | returned
  deriving DecidableEq,Repr

structure IssueState where
  row : Option JournalRow
  live : LivePhase
  runs : Nat → RunPhase
  handlers : Nat → HandlerPhase
  /-- The physical and index calls that recoveries have made for the row. -/
  recoveryCalls : Nat

inductive IssueAction
  | logOperation
  | markPhysicalDone (now : Int)
  | failOperation (reason : Text) (now : Int)
  | succeed
  | completeOperation (now : Int)
  | leaveLive
  | load (n : Nat)
  | markRecovering (n : Nat) (now : Int)
  | recover (n : Nat)
  | conclude (n : Nat) (failure : Option Text)
  | settle (n : Nat) (now : Int)
  | leaveRun (n : Nat)
  | loadIssue (n : Nat) (note : Option Text)
  | markHandled (n : Nat) (now : Int)

namespace IssueState
variable (s : IssueState)

def status : Option WalStatus := s.row.map JournalRow.status

/-- An update by id, of no row where there is none. -/
def updateRow (row : JournalRow) : IssueState := { s with row := s.row.map fun _ => row }

def setRun (n : Nat) (phase : RunPhase) : IssueState :=
  { s with runs := Function.update s.runs n phase }

def setHandler (n : Nat) (phase : HandlerPhase) : IssueState :=
  { s with handlers := Function.update s.handlers n phase }

def step (s : IssueState) : IssueAction → Option IssueState
  | .logOperation =>
    if s.live = .notLogged then
      some { s with row := some ⟨.pending,none,none⟩, live := .running }
    else none
  | .markPhysicalDone now =>
    if s.live = .running then some (s.updateRow (transitionOperation .physicalDone none now)) else none
  | .failOperation reason now =>
    if s.live = .running then some (s.updateRow (transitionOperation .failed (some reason) now))
    else none
  | .succeed => if s.live = .running then some { s with live := .succeeded } else none
  | .completeOperation now =>
    if s.live = .succeeded then
      some { s.updateRow (completedOperation now) with live := .returned }
    else none
  | .leaveLive => if s.live = .notLogged then none else some { s with live := .returned }
  | .load n =>
    match s.runs n,s.row with
    | .notStarted,some row =>
      -- a completed row is not loaded by `recover_all` and refused by `replay_issue`
      if row.status.isActive then some (s.setRun n (.loaded row.status)) else some (s.setRun n .returned)
    | _,_ => none
  | .markRecovering n now =>
    match s.runs n with
    | .loaded status =>
      some ((s.updateRow (transitionOperation .recovering none now)).setRun n (.recovering status))
    | _ => none
  | .recover n =>
    match s.runs n with
    | .recovering _ => some { s with recoveryCalls := s.recoveryCalls + 1 }
    | _ => none
  | .conclude n failure =>
    match s.runs n with
    | .recovering _ => some (s.setRun n (.concluded failure))
    | _ => none
  | .settle n now =>
    match s.runs n with
    | .concluded none => some ((s.updateRow (completedOperation now)).setRun n .returned)
    | .concluded (some err) =>
      some ((s.updateRow (transitionOperation .failed (some err) now)).setRun n .returned)
    | _ => none
  | .leaveRun n => if s.runs n = .notStarted then none else some (s.setRun n .returned)
  | .loadIssue n note =>
    match s.handlers n,s.row with
    | .notStarted,some row => some (s.setHandler n (.loaded (handledReason row.failureReason note)))
    | _,_ => none
  | .markHandled n now =>
    match s.handlers n with
    | .loaded reason =>
      some ((s.updateRow ⟨.completed,some reason,some now⟩).setHandler n .returned)
    | _ => none

end IssueState

/-- A run that may still act or move the row out of its status. -/
def RunPhase.atWork : RunPhase → Bool
  | .loaded _ | .recovering _ | .concluded (some _) => true
  | _ => false

/-- Nobody who logged or loaded the row is still on the way to a result. -/
structure IssueState.Settled (s : IssueState) : Prop where
  live : s.live ≠ .running
  runs : ∀ n, (s.runs n).atWork = false

namespace IssueState
variable {s : IssueState}

@[simp] theorem status_updateRow (row : JournalRow) :
    (s.updateRow row).status = s.status.map fun _ => row.status := by
  simp [status,updateRow,Function.comp_def]

@[simp] theorem status_setRun (n : Nat) (phase : RunPhase) : (s.setRun n phase).status = s.status := rfl

@[simp] theorem status_setHandler (n : Nat) (phase : HandlerPhase) :
    (s.setHandler n phase).status = s.status := rfl

/-- A run may change to a phase with no work left. -/
theorem settled_setRun (settled : s.Settled) {n : Nat} {phase : RunPhase} (rest : phase.atWork = false) :
    (s.setRun n phase).Settled := by
  refine ⟨settled.live,?_⟩
  intro other
  by_cases same : other = n
  · simpa [setRun,same] using rest
  · simpa [setRun,same] using settled.runs other

/-- The row is completed, nobody works on it, and the recoveries made `calls` calls. -/
structure Finished (calls : Nat) (s : IssueState) : Prop where
  status : s.status = some .completed
  settled : s.Settled
  calls : s.recoveryCalls = calls

variable {calls : Nat} {next : IssueState}

theorem finished_updateRow (finished : s.Finished calls) {row : JournalRow}
    (completed : row.status = .completed) : (s.updateRow row).Finished calls := by
  have status : (s.updateRow row).status = some .completed := by
    simp [finished.status,completed]
  exact ⟨status,⟨finished.settled.live,finished.settled.runs⟩,finished.calls⟩

theorem finished_setRun (finished : s.Finished calls) {n : Nat} {phase : RunPhase}
    (rest : phase.atWork = false) : (s.setRun n phase).Finished calls :=
  ⟨finished.status,settled_setRun finished.settled rest,finished.calls⟩

theorem finished_setHandler (finished : s.Finished calls) (n : Nat) (phase : HandlerPhase) :
    (s.setHandler n phase).Finished calls :=
  ⟨finished.status,⟨finished.settled.live,finished.settled.runs⟩,finished.calls⟩

theorem finished_live (finished : s.Finished calls) {live : LivePhase} (rest : live ≠ .running) :
    { s with live }.Finished calls :=
  ⟨finished.status,⟨rest,finished.settled.runs⟩,finished.calls⟩

/-- A completed row that nobody works on stays so, whatever comes next. -/
theorem finished_step {action : IssueAction} (logged : s.live ≠ .notLogged)
    (finished : s.Finished calls) (stepped : s.step action = some next) : next.Finished calls := by
  have idle := finished.settled.live
  have resting (n : Nat) := finished.settled.runs n
  cases action with
  | logOperation => simp [step,logged] at stepped
  | markPhysicalDone now => simp [step,idle] at stepped
  | failOperation reason now => simp [step,idle] at stepped
  | succeed => simp [step,idle] at stepped
  | completeOperation now =>
    simp only [step] at stepped
    split at stepped
    next =>
      cases stepped
      exact finished_live (finished_updateRow finished rfl) (by simp)
    next => contradiction
  | leaveLive =>
    simp only [step,if_neg logged] at stepped
    cases stepped
    exact finished_live finished (by simp)
  | load n =>
    simp only [step] at stepped
    split at stepped
    next row _ found =>
      have inactive : row.status.isActive = false := by
        have completed : some row.status = some WalStatus.completed := by
          rw [← finished.status,status,found,Option.map_some]
        simp [WalStatus.isActive,Option.some.inj completed]
      simp only [inactive,Bool.false_eq_true,if_false,Option.some.injEq] at stepped
      subst stepped
      exact finished_setRun finished rfl
    next => contradiction
  | markRecovering n now =>
    have rest := resting n
    simp only [step] at stepped
    split at stepped
    next started => simp [started,RunPhase.atWork] at rest
    next => contradiction
  | recover n =>
    have rest := resting n
    simp only [step] at stepped
    split at stepped
    next started => simp [started,RunPhase.atWork] at rest
    next => contradiction
  | conclude n failure =>
    have rest := resting n
    simp only [step] at stepped
    split at stepped
    next started => simp [started,RunPhase.atWork] at rest
    next => contradiction
  | settle n now =>
    have rest := resting n
    simp only [step] at stepped
    split at stepped
    next =>
      cases stepped
      exact finished_setRun (finished_updateRow finished rfl) rfl
    next failed => simp [failed,RunPhase.atWork] at rest
    next => contradiction
  | leaveRun n =>
    simp only [step] at stepped
    split at stepped
    next => contradiction
    next =>
      cases stepped
      exact finished_setRun finished rfl
  | loadIssue n note =>
    simp only [step] at stepped
    split at stepped
    next =>
      cases stepped
      exact finished_setHandler finished n _
    next => contradiction
  | markHandled n now =>
    simp only [step] at stepped
    split at stepped
    next =>
      cases stepped
      exact finished_setHandler (finished_updateRow finished rfl) n _
    next => contradiction

/-- There is no row before the live operation has logged it. -/
def Logged (s : IssueState) : Prop := s.live = .notLogged → s.row = none

theorem logged_of_completed (logged : s.Logged) (completed : s.status = some .completed) :
    s.live ≠ .notLogged := by
  intro before
  simp [status,logged before] at completed

theorem logged_updateRow (logged : s.Logged) (row : JournalRow) : (s.updateRow row).Logged := by
  intro before
  simp [updateRow,logged before]

theorem logged_step {action : IssueAction} (logged : s.Logged)
    (stepped : s.step action = some next) : next.Logged := by
  cases action with
  | logOperation =>
    simp only [step] at stepped
    split at stepped
    next =>
      cases stepped
      intro before
      cases before
    next => contradiction
  | succeed | completeOperation _ | leaveLive =>
    simp only [step] at stepped
    split at stepped
    all_goals first
      | contradiction
      | (cases stepped; intro before; cases before)
  | markPhysicalDone _ | failOperation _ _ =>
    simp only [step] at stepped
    split at stepped
    next =>
      cases stepped
      exact logged_updateRow logged _
    next => contradiction
  | recover n | conclude n _ | leaveRun n | loadIssue n _ =>
    simp only [step] at stepped
    split at stepped
    all_goals first
      | contradiction
      | (cases stepped; exact logged)
  | load n =>
    simp only [step] at stepped
    split at stepped
    next =>
      split at stepped
      all_goals
        cases stepped
        exact logged
    next => contradiction
  | markRecovering n now | settle n now | markHandled n now =>
    simp only [step] at stepped
    split at stepped
    all_goals first
      | contradiction
      | (cases stepped; exact logged_updateRow logged _)

/-- From a completed row the work that is left leads away. -/
theorem unsettled_continues (completed : s.status = some .completed) (working : ¬ s.Settled) :
    ∃ action next, s.step action = some next ∧
      (next.status ≠ some .completed ∨ next.recoveryCalls ≠ s.recoveryCalls) := by
  by_cases running : s.live = .running
  · refine ⟨.failOperation [] 0,_,if_pos running,.inl ?_⟩
    simp [completed,transitionOperation]
  · have someRun : ∃ n, (s.runs n).atWork = true := by
      by_contra resting
      apply working
      refine ⟨running,fun n => ?_⟩
      simpa using fun work => resting ⟨n,work⟩
    obtain ⟨n,work⟩ := someRun
    cases phase : s.runs n with
    | loaded status =>
      refine ⟨.markRecovering n 0,_,by simp only [step,phase]; rfl,.inl ?_⟩
      simp [completed,transitionOperation]
    | recovering status =>
      refine ⟨.recover n,_,by simp only [step,phase]; rfl,.inr ?_⟩
      simp
    | concluded failure =>
      cases failure with
      | none => simp [phase,RunPhase.atWork] at work
      | some err =>
        refine ⟨.settle n 0,_,by simp only [step,phase]; rfl,.inl ?_⟩
        simp [completed,transitionOperation]
    | notStarted => simp [phase,RunPhase.atWork] at work
    | returned => simp [phase,RunPhase.atWork] at work

end IssueState

def walIssue : System IssueState IssueAction where
  step := IssueState.step

def notLogged : IssueState where
  row := none
  live := .notLogged
  runs := fun _ => .notStarted
  handlers := fun _ => .notStarted
  recoveryCalls := 0

theorem logged_of_exec {done : List IssueAction} {s : IssueState}
    (reached : walIssue.exec notLogged done = some s) : s.Logged := by
  apply System.Run.invariant ?_ (System.exec_run reached)
  · intro _
    rfl
  · intro s action next logged _ stepped
    exact IssueState.logged_step logged stepped

/-- Wherever an interleaving has brought the row to `completed`, it stays so and
no recovery makes another call for it, in every continuation, exactly when the
live operation and every recovery that loaded the row before have their result. -/
theorem completed_final_iff {done : List IssueAction} {s : IssueState}
    (reached : walIssue.exec notLogged done = some s) (completed : s.status = some .completed) :
    (∀ more next, walIssue.exec s more = some next →
      next.status = some .completed ∧ next.recoveryCalls = s.recoveryCalls) ↔ s.Settled := by
  have logged := logged_of_exec reached
  constructor
  · intro final
    by_contra working
    obtain ⟨action,next,stepped,astray⟩ := IssueState.unsettled_continues completed working
    have after := final [action] next (by simp [System.exec,walIssue,stepped])
    exact astray.elim (fun moved => moved after.1) (fun called => called after.2)
  · intro settled more next computed
    have finished : next.Logged ∧ next.Finished s.recoveryCalls := by
      apply System.Run.invariant ?_ (System.exec_run computed)
      · exact ⟨logged,completed,settled,rfl⟩
      · intro s action next kept _ stepped
        have live := IssueState.logged_of_completed kept.1 kept.2.status
        exact ⟨IssueState.logged_step kept.1 stepped,IssueState.finished_step live kept.2 stepped⟩
    exact ⟨finished.2.status,finished.2.calls⟩

/-- An operation that completes its row before anything loads it. -/
theorem completed_final_alone :
    ∃ s, walIssue.exec notLogged [.logOperation,.markPhysicalDone 5,.succeed,.completeOperation 7] = some s ∧
      s.status = some .completed ∧
      ((∀ more next, walIssue.exec s more = some next →
        next.status = some .completed ∧ next.recoveryCalls = s.recoveryCalls) ↔ s.Settled) :=
  ⟨_,rfl,rfl,@completed_final_iff [.logOperation,.markPhysicalDone 5,.succeed,.completeOperation 7] _
    rfl rfl⟩

/-- A replay loads the row, the operation completes it, and the replay marks it
recovering and recovers it. -/
theorem replay_reopens :
    ¬ ∀ done s, walIssue.exec notLogged done = some s → s.status = some .completed →
      ∀ more next, walIssue.exec s more = some next →
        next.status = some .completed ∧ next.recoveryCalls = s.recoveryCalls := by
  intro law
  have final := law [.logOperation,.load 0,.markPhysicalDone 5,.succeed,.completeOperation 7] _ rfl rfl
    [.markRecovering 0 8,.recover 0] _ rfl
  exact absurd final.1 (by decide +kernel)

end StorageHub.Scoped
