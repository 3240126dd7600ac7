import StorageHub.Batch.Targets
import StorageHub.Library.Transition

/-! The executor of batch moves, copies and deletions: a bounded number of
operations at a time, results taken in the order in which they come back, the
cancellation looked at before and after each, and the verdict on the task. -/
namespace StorageHub.Batch
open Library Transition

/-! ### Tasks -/

/-- What the three tasks differ in: the sources with their targets, and the name
of the operation in the log. -/
structure BatchTask where
  operationType : Text
  plans : List (Text × Option Text)
  concurrency : Nat

def batchConcurrency (maxConcurrentTasks : Nat) : Nat := max maxConcurrentTasks 1

section
variable (exists_ : Text → Bool) (paths : List Text) (dstDir : Text) (maxConcurrentTasks : Nat)

def copyLikePlans : List (Text × Option Text) :=
  (prepareCopyLikeTargets exists_ dstDir paths).map fun plan => (plan.1,some plan.2)

def executeMove : BatchTask := ⟨"move".toList,copyLikePlans exists_ paths dstDir,batchConcurrency maxConcurrentTasks⟩

def executeCopy : BatchTask := ⟨"copy".toList,copyLikePlans exists_ paths dstDir,batchConcurrency maxConcurrentTasks⟩

def executeDelete : BatchTask :=
  ⟨"delete".toList,paths.map fun path => (path,none),batchConcurrency maxConcurrentTasks⟩

end

/-- A log entry, less the task's and the user's id and the time taken. -/
structure BatchOperationLog where
  operationType : Text
  filePath : Text
  targetPath : Option Text
  status : Text
  errorMessage : Option Text
  deriving DecidableEq

/-- The source with an index, and the error its operation came back with, if any. -/
structure Outcome where
  index : Nat
  error : Option Text
  deriving DecidableEq

def BatchTask.entry (b : BatchTask) (outcome : Outcome) : BatchOperationLog where
  operationType := b.operationType
  filePath := (b.plans.getD outcome.index ([],none)).1
  targetPath := (b.plans.getD outcome.index ([],none)).2
  status := if outcome.error.isNone then "success".toList else "failed".toList
  errorMessage := outcome.error

inductive Verdict
  | success
  | failed (message : Text)
  deriving DecidableEq

/-- Where the loop is. A source that was skipped for a cancellation has come back
without an outcome. -/
inductive Position
  | polling
  | skipped
  | received (outcome : Outcome)
  | recording (outcome : Outcome)
  | ended (verdict : Verdict)
  deriving DecidableEq

/-- `outcomes` are those of the operations that came back, `started` counts the
sources that were taken up. -/
structure TaskState where
  started : Nat
  running : List Nat
  position : Position
  successCount : Nat
  failedCount : Nat
  cancelled : Bool
  outcomes : List Outcome
  log : List BatchOperationLog
  deriving DecidableEq

def TaskState.start : TaskState := ⟨0,[],.polling,0,0,false,[],[]⟩

inductive TaskAction
  /-- What `is_cancelled` answers from now on. -/
  | signal (cancelled : Bool)
  | begin
  | finish (outcome : Outcome)
  | check
  | record (succeeds : Bool)
  | drain
  | timeout

namespace TaskState

def verdict (s : TaskState) : Verdict :=
  if s.failedCount = 0 then .success
  else .failed ("Completed with failures: ".toList ++ shown s.successCount ++ " success, ".toList ++
    shown s.failedCount ++ " failed".toList)

def receive (s : TaskState) (outcome : Outcome) : TaskState :=
  { s with
    running := s.running.erase outcome.index
    position := .received outcome
    outcomes := s.outcomes ++ [outcome] }

def count (s : TaskState) (outcome : Outcome) : TaskState :=
  { s with
    position := .recording outcome
    successCount := if outcome.error.isNone then s.successCount + 1 else s.successCount
    failedCount := if outcome.error.isNone then s.failedCount else s.failedCount + 1 }

/-- The result of a call that fails is dropped. -/
def write (s : TaskState) (succeeds : Bool) (entry : BatchOperationLog) : TaskState :=
  { s with
    position := .polling
    log := if succeeds then s.log ++ [entry] else s.log }

def finishWith (s : TaskState) (verdict : Verdict) : TaskState := { s with position := .ended verdict }

def verdictGiven (s : TaskState) : Option Verdict :=
  match s.position with
  | .ended verdict => some verdict
  | _ => none

end TaskState

def taskStep (b : BatchTask) (s : TaskState) : TaskAction → Option TaskState
  | .signal cancelled => some { s with cancelled }
  | .begin =>
    if s.position = .polling ∧ s.started < b.plans.length ∧ s.running.length < b.concurrency then
      some (if s.cancelled then { s with started := s.started + 1, position := .skipped }
        else { s with started := s.started + 1, running := s.running ++ [s.started] })
    else none
  | .finish outcome =>
    if s.position = .polling ∧ s.running.contains outcome.index = true then some (s.receive outcome) else none
  | .check =>
    match s.position with
    | .skipped => some (s.finishWith s.verdict)
    | .received outcome => some (if s.cancelled then s.finishWith s.verdict else s.count outcome)
    | _ => none
  | .record succeeds =>
    match s.position with
    | .recording outcome => some (s.write succeeds (b.entry outcome))
    | _ => none
  | .drain =>
    if s.position = .polling ∧ s.started = b.plans.length ∧ s.running = [] then some (s.finishWith s.verdict) else none
  | .timeout =>
    match s.position with
    | .polling | .recording _ => some (s.finishWith (.failed "Task timed out".toList))
    | _ => none

def executor (b : BatchTask) : System TaskState TaskAction := ⟨taskStep b⟩

/-! ### What the task reports -/

/-- Success means that every source came back without an error, and what came
back is in the log, once each. -/
structure TaskState.Reported (b : BatchTask) (sources : List Text) (s : TaskState) : Prop where
  complete : s.verdictGiven = some .success → ∀ i < sources.length, (⟨i,none⟩ : Outcome) ∈ s.outcomes
  once : (s.outcomes.map (·.index)).Nodup
  logged : s.log.Perm (s.outcomes.map b.entry)

/-- The cancellation is not seen between the return of an operation and its entry
in the log, and a source is skipped for it only after a failure; entries are
written, and the time does not run out while one is. -/
def Recorded (s : TaskState) : TaskAction → Prop
  | .check => (s.position = .skipped → s.failedCount ≠ 0) ∧
      (s.position ≠ .skipped → s.cancelled = false)
  | .record succeeds => succeeds = true
  | .timeout => s.position = .polling
  | .signal _ | .begin | .finish _ | .drain => True

/-! ### Every step -/

namespace TaskState

/-- The outcome in hand that is not in the log yet. -/
def unlogged (s : TaskState) : List Outcome :=
  match s.position with
  | .received outcome | .recording outcome => [outcome]
  | _ => []

def uncounted (s : TaskState) : List Outcome :=
  match s.position with
  | .received outcome => [outcome]
  | _ => []

def taken (s : TaskState) : List Nat := s.outcomes.map (·.index) ++ s.running

/-- What holds whatever happens. -/
structure Sound (b : BatchTask) (s : TaskState) : Prop where
  once : s.taken.Nodup
  below : ∀ i ∈ s.taken, i < s.started
  bound : s.started ≤ b.plans.length
  covers : s.position ≠ .skipped → s.verdictGiven = none → ∀ i < s.started, i ∈ s.taken
  missing : s.position = .skipped → ∃ i < b.plans.length, i ∉ s.outcomes.map (·.index)
  failures : s.verdictGiven = none →
    s.failedCount + s.uncounted.countP (·.error.isSome) = s.outcomes.countP (·.error.isSome)
  entries : (s.log ++ s.unlogged.map b.entry).Sublist (s.outcomes.map b.entry)

/-- The part that depends on what happens. -/
structure Honest (b : BatchTask) (s : TaskState) : Prop where
  complete : s.verdictGiven = some .success → ∀ i < b.plans.length, (⟨i,none⟩ : Outcome) ∈ s.outcomes
  all : s.log.length + s.unlogged.length = s.outcomes.length

variable {b : BatchTask} {s : TaskState}

theorem start_sound : start.Sound b where
  once := List.nodup_nil
  below i member := absurd member List.not_mem_nil
  bound := Nat.zero_le _
  covers _ _ i below := absurd below (Nat.not_lt_zero i)
  missing skipped := by cases skipped
  failures _ := rfl
  entries := List.nil_sublist _

theorem start_honest : start.Honest b where
  complete given := by cases given
  all := rfl

theorem Sound.room (sound : s.Sound b) : s.log.length + s.unlogged.length ≤ s.outcomes.length := by
  have room := sound.entries.length_le
  rw [List.length_append,List.length_map,List.length_map] at room
  exact room

/-! #### A source is taken up -/

theorem Sound.skip (sound : s.Sound b) (polling : s.position = .polling) (more : s.started < b.plans.length) :
    Sound b { s with started := s.started + 1, position := .skipped } where
  once := sound.once
  below i member := Nat.lt_succ_of_lt (sound.below i member)
  bound := more
  covers loop := absurd rfl loop
  missing _ := by
    refine ⟨s.started,more,fun member => ?_⟩
    have below := sound.below s.started (List.mem_append_left _ member)
    omega
  failures _ := by
    have failures := sound.failures (by rw [verdictGiven,polling])
    rw [uncounted,polling] at failures
    exact failures
  entries := by
    have entries := sound.entries
    rw [unlogged,polling] at entries
    exact entries

theorem Sound.begin (sound : s.Sound b) (polling : s.position = .polling) (more : s.started < b.plans.length) :
    Sound b { s with started := s.started + 1, running := s.running ++ [s.started] } where
  once := by
    rw [taken,← List.append_assoc,List.nodup_append]
    refine ⟨sound.once,List.nodup_singleton _,?_⟩
    intro i member j here same
    have below := sound.below i member
    rw [List.mem_singleton] at here
    omega
  below i member := by
    rw [taken,← List.append_assoc,List.mem_append,List.mem_singleton] at member
    rcases member with before | rfl
    · exact Nat.lt_succ_of_lt (sound.below i before)
    · exact Nat.lt_succ_self _
  bound := more
  covers _ _ i below := by
    rw [taken,← List.append_assoc,List.mem_append,List.mem_singleton]
    rcases Nat.lt_succ_iff_lt_or_eq.mp below with before | last
    · exact .inl (sound.covers (by rw [polling]; exact fun same => by cases same) (by rw [verdictGiven,polling]) i before)
    · exact .inr last
  missing skipped := sound.missing skipped
  failures := sound.failures
  entries := sound.entries

/-! #### An operation comes back -/

theorem Sound.receive (sound : s.Sound b) (polling : s.position = .polling) {outcome : Outcome}
    (inFlight : outcome.index ∈ s.running) : Sound b (s.receive outcome) := by
  have shape : (s.receive outcome).taken.Perm s.taken := by
    rw [taken,taken,TaskState.receive,List.map_append,List.map_singleton,List.append_assoc,List.singleton_append]
    exact (List.perm_cons_erase inFlight).symm.append_left _
  refine ⟨shape.nodup_iff.mpr sound.once,?_,sound.bound,?_,fun skipped => (by cases skipped),fun _ => ?_,?_⟩
  · intro i member
    exact sound.below i (shape.mem_iff.mp member)
  · intro _ _ i below
    apply shape.mem_iff.mpr
    exact sound.covers (by rw [polling]; exact fun same => by cases same) (by rw [verdictGiven,polling]) i below
  · have failures := sound.failures (by rw [verdictGiven,polling])
    rw [uncounted,polling,List.countP_nil,Nat.add_zero] at failures
    rw [uncounted,TaskState.receive,List.countP_append,failures]
  · have entries := sound.entries
    rw [unlogged,polling,List.map_nil,List.append_nil] at entries
    rw [unlogged,TaskState.receive,List.map_append]
    exact entries.append_right _

theorem Sound.count (sound : s.Sound b) {outcome : Outcome} (received : s.position = .received outcome) :
    Sound b (s.count outcome) := by
  refine ⟨sound.once,sound.below,sound.bound,?_,fun skipped => (by cases skipped),fun _ => ?_,?_⟩
  · intro _ _ i below
    exact sound.covers (by rw [received]; exact fun same => by cases same) (by rw [verdictGiven,received]) i below
  · have failures := sound.failures (by rw [verdictGiven,received])
    rw [uncounted,received,List.countP_singleton] at failures
    rw [uncounted,TaskState.count,List.countP_nil,Nat.add_zero,← failures]
    cases outcome.error with
    | none => rfl
    | some error => rfl
  · have entries := sound.entries
    rw [unlogged,received] at entries
    exact entries

theorem Sound.write (sound : s.Sound b) {outcome : Outcome} (recording : s.position = .recording outcome)
    (succeeds : Bool) : Sound b (s.write succeeds (b.entry outcome)) := by
  refine ⟨sound.once,sound.below,sound.bound,?_,fun skipped => (by cases skipped),fun _ => ?_,?_⟩
  · intro _ _ i below
    exact sound.covers (by rw [recording]; exact fun same => by cases same) (by rw [verdictGiven,recording]) i below
  · have failures := sound.failures (by rw [verdictGiven,recording])
    rw [uncounted,recording] at failures
    exact failures
  · have entries := sound.entries
    rw [unlogged,recording,List.map_singleton] at entries
    rw [unlogged,TaskState.write,List.map_nil,List.append_nil]
    cases succeeds with
    | true => exact entries
    | false => exact (List.sublist_append_left _ _).trans entries

theorem Sound.finishWith (sound : s.Sound b) (verdict : Verdict) : Sound b (s.finishWith verdict) := by
  refine ⟨sound.once,sound.below,sound.bound,fun _ none_ => (by cases none_),fun skipped => (by cases skipped),
    fun none_ => (by cases none_),?_⟩
  rw [unlogged,TaskState.finishWith,List.map_nil,List.append_nil]
  exact (List.sublist_append_left _ _).trans sound.entries

/-! #### What a step does to the report -/

/-- A step that leaves the outcomes and the entries in hand or written alone. -/
theorem Honest.of_same (next : TaskState) (outcomes : next.outcomes = s.outcomes)
    (held : next.log.length + next.unlogged.length = s.log.length + s.unlogged.length)
    (open_ : s.verdictGiven = none) (open' : next.verdictGiven = none) : next.Honest b ↔ s.Honest b := by
  constructor
  · intro honest
    refine ⟨fun given => ?_,?_⟩
    · rw [open_] at given
      cases given
    · rw [← held,honest.all,outcomes]
  · intro honest
    refine ⟨fun given => ?_,?_⟩
    · rw [open'] at given
      cases given
    · rw [held,honest.all,outcomes]

theorem honest_receive (polling : s.position = .polling) (outcome : Outcome) :
    (s.receive outcome).Honest b ↔ s.Honest b := by
  have closed : s.verdictGiven = none := by rw [verdictGiven,polling]
  have empty : s.unlogged = [] := by rw [unlogged,polling]
  constructor
  · intro honest
    refine ⟨fun given => ?_,?_⟩
    · rw [closed] at given
      cases given
    · have all := honest.all
      rw [unlogged,TaskState.receive,List.length_append] at all
      rw [empty]
      exact Nat.add_right_cancel all
  · intro honest
    refine ⟨fun given => (by cases given),?_⟩
    have all := honest.all
    rw [empty] at all
    rw [unlogged,TaskState.receive,List.length_append]
    exact congrArg (· + 1) all

/-- The time runs out: nothing is lost unless an outcome is in hand. -/
theorem honest_failed (message : Text) (closed : s.verdictGiven = none) :
    (s.finishWith (.failed message)).Honest b ↔ s.log.length = s.outcomes.length := by
  constructor
  · intro honest
    exact honest.all
  · intro all
    exact ⟨fun given => (by cases given),all⟩

/-- The loop ends with what it has counted. -/
theorem honest_verdict : (s.finishWith s.verdict).Honest b ↔
    (s.failedCount = 0 → ∀ i < b.plans.length, (⟨i,none⟩ : Outcome) ∈ s.outcomes) ∧
      s.log.length = s.outcomes.length := by
  have given : (s.finishWith s.verdict).verdictGiven = some .success ↔ s.failedCount = 0 := by
    change some s.verdict = some .success ↔ s.failedCount = 0
    rw [verdict]
    split
    next none_ => simp [none_]
    next some_ => simp [some_]
  constructor
  · intro honest
    exact ⟨fun none_ => honest.complete (given.mpr none_),honest.all⟩
  · intro both
    exact ⟨fun success => both.1 (given.mp success),both.2⟩

/-- Where nothing failed, what came back came back without an error. -/
theorem Sound.succeeded (sound : s.Sound b) (polling : s.position = .polling) (none_ : s.failedCount = 0) {i : Nat}
    (member : i ∈ s.outcomes.map (·.index)) : (⟨i,none⟩ : Outcome) ∈ s.outcomes := by
  obtain ⟨outcome,inside,rfl⟩ := List.mem_map.mp member
  have failures := sound.failures (by rw [verdictGiven,polling])
  rw [uncounted,polling,none_,List.countP_nil] at failures
  have clean := List.countP_eq_zero.mp failures.symm outcome inside
  cases error : outcome.error with
  | none =>
    rw [← error]
    exact inside
  | some message =>
    rw [error] at clean
    exact absurd rfl clean

end TaskState

/-! ### The whole run -/

section
variable {b : BatchTask} {s next : TaskState} {action : TaskAction}
open TaskState

theorem taskStep_sound (sound : s.Sound b) (stepped : taskStep b s action = some next) : next.Sound b := by
  cases action with
  | signal cancelled =>
    cases stepped
    exact ⟨sound.once,sound.below,sound.bound,sound.covers,sound.missing,sound.failures,sound.entries⟩
  | begin =>
    rw [taskStep] at stepped
    split at stepped
    next ready =>
      cases Option.some.inj stepped
      split
      next => exact sound.skip ready.1 ready.2.1
      next => exact sound.begin ready.1 ready.2.1
    next => cases stepped
  | finish outcome =>
    rw [taskStep] at stepped
    split at stepped
    next ready =>
      cases Option.some.inj stepped
      exact sound.receive ready.1 (List.contains_iff_mem.mp ready.2)
    next => cases stepped
  | check =>
    rw [taskStep] at stepped
    split at stepped
    next =>
      cases Option.some.inj stepped
      exact sound.finishWith _
    next outcome received =>
      cases Option.some.inj stepped
      split
      next => exact sound.finishWith _
      next => exact sound.count received
    next => cases stepped
  | record succeeds =>
    rw [taskStep] at stepped
    split at stepped
    next outcome recording =>
      cases Option.some.inj stepped
      exact sound.write recording succeeds
    next => cases stepped
  | drain =>
    rw [taskStep] at stepped
    split at stepped
    next =>
      cases Option.some.inj stepped
      exact sound.finishWith _
    next => cases stepped
  | timeout =>
    rw [taskStep] at stepped
    split at stepped
    next =>
      cases Option.some.inj stepped
      exact sound.finishWith _
    next =>
      cases Option.some.inj stepped
      exact sound.finishWith _
    next => cases stepped

/-- A step keeps the report honest exactly when nothing comes between an outcome
and its entry, and nothing is skipped unnoticed. -/
theorem taskStep_honest (sound : s.Sound b) (stepped : taskStep b s action = some next) :
    next.Honest b ↔ s.Honest b ∧ Recorded s action := by
  cases action with
  | signal cancelled =>
    cases stepped
    rw [Recorded,and_true]
    exact ⟨fun honest => ⟨honest.complete,honest.all⟩,fun honest => ⟨honest.complete,honest.all⟩⟩
  | begin =>
    rw [taskStep] at stepped
    split at stepped
    next ready =>
      cases Option.some.inj stepped
      have closed : s.verdictGiven = none := by rw [verdictGiven,ready.1]
      rw [Recorded,and_true]
      split
      next =>
        apply Honest.of_same (s := s) { s with started := s.started + 1, position := .skipped } rfl _ closed rfl
        rw [unlogged,unlogged,ready.1]
      next => exact Honest.of_same (s := s) _ rfl rfl closed closed
    next => cases stepped
  | finish outcome =>
    rw [taskStep] at stepped
    split at stepped
    next ready =>
      cases Option.some.inj stepped
      rw [Recorded,and_true]
      exact honest_receive ready.1 outcome
    next => cases stepped
  | check =>
    rw [taskStep] at stepped
    split at stepped
    next skipped =>
      cases Option.some.inj stepped
      obtain ⟨i,below,absent⟩ := sound.missing skipped
      have closed : s.verdictGiven = none := by rw [verdictGiven,skipped]
      rw [honest_verdict,Recorded,skipped]
      constructor
      · intro both
        refine ⟨⟨fun given => ?_,?_⟩,fun _ none_ => ?_,fun other => absurd rfl other⟩
        · rw [closed] at given
          cases given
        · rw [unlogged,skipped]
          exact both.2
        · exact absent (List.mem_map.mpr ⟨_,both.1 none_ i below,rfl⟩)
      · intro both
        refine ⟨fun none_ => absurd none_ (both.2.1 rfl),?_⟩
        have all := both.1.all
        rw [unlogged,skipped] at all
        exact all
    next outcome received =>
      cases Option.some.inj stepped
      have closed : s.verdictGiven = none := by rw [verdictGiven,received]
      rw [Recorded,received]
      split
      next cancelled =>
        have room := sound.room
        rw [unlogged,received,List.length_singleton] at room
        rw [honest_verdict]
        constructor
        · intro both
          omega
        · intro both
          have kept := both.2.2 (fun same => by cases same)
          rw [cancelled] at kept
          cases kept
      next kept =>
        rw [Bool.not_eq_true] at kept
        have same : (s.count outcome).Honest b ↔ s.Honest b := by
          apply Honest.of_same (s := s) (s.count outcome) rfl _ closed rfl
          rw [unlogged,unlogged,received,TaskState.count]
        rw [same]
        exact ⟨fun honest => ⟨honest,fun skipped => (by cases skipped),fun _ => kept⟩,fun both => both.1⟩
    next => cases stepped
  | record succeeds =>
    rw [taskStep] at stepped
    split at stepped
    next outcome recording =>
      cases Option.some.inj stepped
      have closed : s.verdictGiven = none := by rw [verdictGiven,recording]
      have held : s.unlogged = [outcome] := by rw [unlogged,recording]
      have room := sound.room
      rw [held,List.length_singleton] at room
      rw [Recorded]
      cases succeeds with
      | true =>
        rw [eq_self,and_true]
        apply Honest.of_same (s := s) (s.write true (b.entry outcome)) rfl _ closed rfl
        rw [held,unlogged,TaskState.write,if_pos rfl,List.length_append]
        rfl
      | false =>
        constructor
        · intro honest
          have all : s.log.length = s.outcomes.length := honest.all
          omega
        · intro both
          cases both.2
    next => cases stepped
  | drain =>
    rw [taskStep] at stepped
    split at stepped
    next ready =>
      cases Option.some.inj stepped
      obtain ⟨polling,through,idle⟩ := ready
      have closed : s.verdictGiven = none := by rw [verdictGiven,polling]
      have empty : s.unlogged = [] := by rw [unlogged,polling]
      have covered : ∀ i < b.plans.length, i ∈ s.outcomes.map (·.index) := by
        intro i below
        rw [← through] at below
        have member := sound.covers (by rw [polling]; exact fun same => by cases same) closed i below
        rw [taken,idle,List.append_nil] at member
        exact member
      rw [honest_verdict,Recorded,and_true]
      constructor
      · intro both
        refine ⟨fun given => ?_,?_⟩
        · rw [closed] at given
          cases given
        · rw [empty]
          exact both.2
      · intro honest
        refine ⟨fun none_ i below => sound.succeeded polling none_ (covered i below),?_⟩
        have all := honest.all
        rw [empty] at all
        exact all
    next => cases stepped
  | timeout =>
    rw [taskStep] at stepped
    split at stepped
    next polling =>
      cases Option.some.inj stepped
      have closed : s.verdictGiven = none := by rw [verdictGiven,polling]
      have empty : s.unlogged = [] := by rw [unlogged,polling]
      rw [honest_failed _ closed,Recorded,polling,eq_self,and_true]
      constructor
      · intro all
        refine ⟨fun given => ?_,?_⟩
        · rw [closed] at given
          cases given
        · rw [empty]
          exact all
      · intro honest
        have all := honest.all
        rw [empty] at all
        exact all
    next outcome recording =>
      cases Option.some.inj stepped
      have closed : s.verdictGiven = none := by rw [verdictGiven,recording]
      have room := sound.room
      rw [unlogged,recording,List.length_singleton] at room
      rw [honest_failed _ closed,Recorded,recording]
      constructor
      · intro all
        omega
      · intro both
        cases both.2
    next => cases stepped

/-- At the end, when nothing is in hand, honesty is the report. -/
theorem Sound.reported (sound : s.Sound b) (ended : s.verdictGiven.isSome = true) {sources : List Text}
    (planned : b.plans.length = sources.length) : s.Reported b sources ↔ s.Honest b := by
  have empty : s.unlogged = [] := by
    cases position : s.position with
    | ended verdict => rw [unlogged,position]
    | polling | skipped | received | recording =>
      rw [verdictGiven,position] at ended
      cases ended
  constructor
  · intro reported
    refine ⟨?_,?_⟩
    · rw [planned]
      exact reported.complete
    · have all := reported.logged.length_eq
      rw [List.length_map] at all
      rw [empty]
      exact all
  · intro honest
    refine ⟨?_,(List.nodup_append.mp sound.once).1,?_⟩
    · rw [← planned]
      exact honest.complete
    · have entries := sound.entries
      have all := honest.all
      rw [empty,List.map_nil,List.append_nil] at entries
      rw [empty] at all
      rw [entries.eq_of_length (by rw [List.length_map]; exact all)]

end

/-! ### The three tasks -/

section
variable {exists_ : Text → Bool} {paths : List Text} {dstDir : Text} {maxConcurrentTasks : Nat}

theorem prepareFrom_length (reserved srcPaths : List Text) :
    (prepareFrom exists_ dstDir reserved srcPaths).length = srcPaths.length := by
  induction srcPaths generalizing reserved with
  | nil => rfl
  | cons src rest ih =>
    rw [prepareFrom,List.length_cons,List.length_cons,ih]

/-- Every source has its plan. -/
theorem plans_length {b : BatchTask} (task : b ∈ [executeMove exists_ paths dstDir maxConcurrentTasks,
    executeCopy exists_ paths dstDir maxConcurrentTasks,executeDelete paths maxConcurrentTasks]) :
    b.plans.length = paths.length := by
  have copies : (copyLikePlans exists_ paths dstDir).length = paths.length := by
    rw [copyLikePlans,List.length_map]
    exact prepareFrom_length [] paths
  rcases List.mem_cons.mp task with rfl | task
  · exact copies
  · rcases List.mem_cons.mp task with rfl | task
    · exact copies
    · rw [List.mem_singleton.mp task,executeDelete,List.length_map]

/-- A task that has ended has reported what was done exactly when every step
recorded it. -/
theorem reported_iff {b : BatchTask} (task : b ∈ [executeMove exists_ paths dstDir maxConcurrentTasks,
      executeCopy exists_ paths dstDir maxConcurrentTasks,executeDelete paths maxConcurrentTasks])
    {actions : List TaskAction} {s : TaskState} (ran : (executor b).exec .start actions = some s)
    (ended : s.verdictGiven.isSome = true) :
    s.Reported b paths ↔ (executor b).Run Recorded .start actions s := by
  have kept : ∀ s action next, TaskState.Sound b s → (executor b).step s action = some next → TaskState.Sound b next :=
    fun s action next sound stepped => taskStep_sound sound stepped
  have sound : s.Sound b := by
    apply System.Run.invariant _ (System.exec_run ran) TaskState.start_sound
    exact fun s action next sound _ stepped => taskStep_sound sound stepped
  have honest := System.exec_final_iff kept (fun s action next sound stepped => taskStep_honest sound stepped)
    TaskState.start_sound ran
  rw [Sound.reported sound ended (plans_length task),honest,and_iff_right TaskState.start_honest]

end

def twoMoves : BatchTask := executeMove (fun _ => false) ["/a".toList,"/b".toList] "/d".toList 2

def bothMoved : List TaskAction :=
  [.begin,.begin,.finish ⟨1,none⟩,.check,.record true,.finish ⟨0,none⟩,.check,.record true,.drain]

theorem both_moved : ∃ s, (executor twoMoves).exec .start bothMoved = some s ∧
    (s.Reported twoMoves ["/a".toList,"/b".toList] ↔ (executor twoMoves).Run Recorded .start bothMoved s) := by
  have finished : ((executor twoMoves).exec .start bothMoved).any (·.verdictGiven.isSome) = true := by decide +kernel
  obtain ⟨s,ran,ended⟩ := (Option.any_eq_true _ _).mp finished
  exact ⟨s,ran,reported_iff List.mem_cons_self ran ended⟩

/-- Cancelled before the first deletion, the task is a success. -/
theorem cancelled_succeeds :
    ¬ ∀ (exists_ : Text → Bool) (paths : List Text) (dstDir : Text) (maxConcurrentTasks : Nat),
      ∀ b ∈ [executeMove exists_ paths dstDir maxConcurrentTasks,executeCopy exists_ paths dstDir maxConcurrentTasks,
        executeDelete paths maxConcurrentTasks], ∀ actions s, (executor b).exec .start actions = some s →
          s.verdictGiven.isSome = true → s.Reported b paths := by
  intro all
  have ran : (executor (executeDelete ["/a".toList] 1)).exec .start [.signal true,.begin,.check] =
      some ⟨1,[],.ended .success,0,0,true,[],[]⟩ := by decide +kernel
  have reported := all (fun _ => false) ["/a".toList] [] 1 _ (by simp) _ _ ran rfl
  exact absurd (reported.complete rfl 0 (by decide)) List.not_mem_nil

end StorageHub.Batch
