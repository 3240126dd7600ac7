import StorageHub.Library.Store
import StorageHub.Library.Transition
import StorageHub.TempFiles.Cleanup

/-! The set of active temporary files beside the guards that are alive: tasks
create files and directories, drop guards and clean up in any order. -/
namespace StorageHub.TempFiles
open Library Transition

/-- How the process shows a clock reading, and its id. -/
structure Process where
  stamp : Int → Text
  id : Nat

namespace Process
variable (p : Process)

/-- Eight times one letter that the process id gives. -/
def randomSuffix : Text := List.replicate 8 (Char.ofNat (97 + p.id % 256 % 26))

def tempFilename (pre : Text) (now : Int) : Text := pre ++ '_'::p.stamp now ++ '_'::p.randomSuffix

def tempPath (userId pre : Text) (now : Int) : TempPath := [userId,p.tempFilename pre now]

end Process

/-- Creations have made their file or directory and wait for the lock or hold
it; cleanups hold it for reading. -/
structure ActiveState where
  activeFiles : Finset TempPath
  guards : Store Nat TempPath
  creations : Store Nat TempPath
  writer : Option Nat
  cleanups : Nat

namespace ActiveState

def start : ActiveState := ⟨∅,∅,∅,none,0⟩

def lockFree (s : ActiveState) : Prop := s.writer = none ∧ s.cleanups = 0

instance (s : ActiveState) : Decidable s.lockFree := inferInstanceAs (Decidable (_ ∧ _))

end ActiveState

inductive ActiveAction
  /-- `create_user_temp_file` and `create_user_temp_dir` up to the lock. -/
  | create (task : Nat) (userId pre : Text) (now : Int)
  | lock (task : Nat)
  | insert (task guard : Nat)
  | cancel (task : Nat)
  | drop (guard : Nat)
  | startCleanup
  | finishCleanup

/-- A step of one task. A dropped guard takes its path out of the set when the
lock is free at that moment. -/
def activeStep (p : Process) (s : ActiveState) : ActiveAction → Option ActiveState
  | .create task userId pre now =>
    if (s.creations.lookup task).isNone then
      some { s with creations := s.creations.insert task (p.tempPath userId pre now) }
    else none
  | .lock task =>
    if (s.creations.lookup task).isSome ∧ s.lockFree then some { s with writer := some task } else none
  | .insert task guard =>
    if s.writer = some task ∧ (s.guards.lookup guard).isNone then
      (s.creations.lookup task).map fun path =>
        { s with
          activeFiles := Insert.insert path s.activeFiles
          guards := s.guards.insert guard path
          creations := s.creations.erase task
          writer := none }
    else none
  | .cancel task =>
    if (s.creations.lookup task).isSome ∧ s.writer ≠ some task then
      some { s with creations := s.creations.erase task }
    else none
  | .drop guard =>
    (s.guards.lookup guard).map fun path =>
      { s with
        activeFiles := if s.lockFree then s.activeFiles.erase path else s.activeFiles
        guards := s.guards.erase guard }
  | .startCleanup => if s.writer = none then some { s with cleanups := s.cleanups + 1 } else none
  | .finishCleanup => if 0 < s.cleanups then some { s with cleanups := s.cleanups - 1 } else none

def tempFiles (p : Process) : System ActiveState ActiveAction := ⟨activeStep p⟩

namespace ActiveState

/-- The active set is the set of the paths of live guards, and no two of them
have one path. -/
structure Exact (s : ActiveState) : Prop where
  active : ∀ path, path ∈ s.activeFiles ↔ ∃ guard, s.guards.lookup guard = some path
  apart : ∀ guard guard' path, s.guards.lookup guard = some path → s.guards.lookup guard' = some path →
    guard = guard'

/-- Nobody else has a path, with a guard or on the way to one. -/
def Vacant (path : TempPath) (s : ActiveState) : Prop :=
  (∀ cell ∈ s.guards.entries, cell.2 ≠ path) ∧ ∀ cell ∈ s.creations.entries, cell.2 ≠ path

instance (path : TempPath) (s : ActiveState) : Decidable (s.Vacant path) := inferInstanceAs (Decidable (_ ∧ _))

end ActiveState

/-- Names are fresh, and guards are dropped while nobody holds the lock. -/
def Orderly (p : Process) (s : ActiveState) : ActiveAction → Prop
  | .create _ userId pre now => s.Vacant (p.tempPath userId pre now)
  | .drop _ => s.lockFree
  | _ => True

instance (p : Process) : DecidableRel (Orderly p)
  | s,.create _ userId pre now => inferInstanceAs (Decidable (s.Vacant (p.tempPath userId pre now)))
  | s,.drop _ => inferInstanceAs (Decidable s.lockFree)
  | _,.lock _ | _,.insert _ _ | _,.cancel _ | _,.startCleanup | _,.finishCleanup => inferInstanceAs (Decidable True)

/-! ### Orderly runs -/

namespace ActiveState

/-- Besides what is exact, creations are on the way to paths of their own. -/
structure Sound (s : ActiveState) : Prop extends Exact s where
  coming : ∀ task task' path, s.creations.lookup task = some path → s.creations.lookup task' = some path →
    task = task'
  fresh : ∀ task guard path, s.creations.lookup task = some path → s.guards.lookup guard ≠ some path

theorem Vacant.guard {path : TempPath} {s : ActiveState} (vacant : s.Vacant path) (guard : Nat) :
    s.guards.lookup guard ≠ some path := fun found =>
  vacant.1 ⟨guard,path⟩ (AList.mem_lookup_iff.mp found) rfl

theorem Vacant.creation {path : TempPath} {s : ActiveState} (vacant : s.Vacant path) (task : Nat) :
    s.creations.lookup task ≠ some path := fun found =>
  vacant.2 ⟨task,path⟩ (AList.mem_lookup_iff.mp found) rfl

theorem start_sound : start.Sound where
  active path := by simp [start]
  apart guard guard' path found := by cases found
  coming task task' path found := by cases found
  fresh task guard path found := by cases found

variable {s : ActiveState}

theorem Sound.create (sound : s.Sound) {path : TempPath} (vacant : s.Vacant path) (task : Nat) :
    Sound { s with creations := s.creations.insert task path } where
  active := sound.active
  apart := sound.apart
  coming i j other here there := by
    rw [Store.lookup_insert_eq] at here there
    split at here
    next same =>
      cases here
      split at there
      next same' => exact same.trans same'.symm
      next => exact absurd there (vacant.creation j)
    next =>
      split at there
      next =>
        cases there
        exact absurd here (vacant.creation i)
      next => exact sound.coming i j other here there
  fresh i guard other here := by
    rw [Store.lookup_insert_eq] at here
    split at here
    next =>
      cases here
      exact vacant.guard guard
    next => exact sound.fresh i guard other here

theorem Sound.erase (sound : s.Sound) (task : Nat) : Sound { s with creations := s.creations.erase task } where
  active := sound.active
  apart := sound.apart
  coming i j other here there := by
    rw [Store.lookup_erase_eq] at here there
    split at here
    next => cases here
    next =>
      split at there
      next => cases there
      next => exact sound.coming i j other here there
  fresh i guard other here := by
    rw [Store.lookup_erase_eq] at here
    split at here
    next => cases here
    next => exact sound.fresh i guard other here

/-- The lock and the cleanups have no part in it. -/
theorem Sound.locked (sound : s.Sound) (writer : Option Nat) (cleanups : Nat) :
    Sound { s with writer, cleanups } := ⟨⟨sound.active,sound.apart⟩,sound.coming,sound.fresh⟩

theorem Sound.insert (sound : s.Sound) {task guard : Nat} {path : TempPath}
    (waiting : s.creations.lookup task = some path) (free : s.guards.lookup guard = none) :
    Sound { s with
      activeFiles := Insert.insert path s.activeFiles
      guards := s.guards.insert guard path
      creations := s.creations.erase task
      writer := none } where
  active other := by
    rw [Finset.mem_insert,sound.active other]
    constructor
    · rintro (rfl | ⟨holder,held⟩)
      · exact ⟨guard,by rw [Store.lookup_insert_eq,if_pos rfl]⟩
      · refine ⟨holder,?_⟩
        rw [Store.lookup_insert_eq]
        split
        next same =>
          rw [same,free] at held
          cases held
        next => exact held
    · rintro ⟨holder,held⟩
      rw [Store.lookup_insert_eq] at held
      split at held
      next =>
        cases held
        exact .inl rfl
      next => exact .inr ⟨holder,held⟩
  apart i j other here there := by
    rw [Store.lookup_insert_eq] at here there
    split at here
    next same =>
      cases here
      split at there
      next same' => exact same.trans same'.symm
      next => exact absurd there (sound.fresh task j path waiting)
    next =>
      split at there
      next =>
        cases there
        exact absurd here (sound.fresh task i path waiting)
      next => exact sound.apart i j other here there
  coming := (sound.erase task).coming
  fresh i holder other here := by
    rw [Store.lookup_erase_eq] at here
    split at here
    next => cases here
    next apart =>
      rw [Store.lookup_insert_eq]
      split
      next =>
        intro same
        cases same
        exact apart (sound.coming i task path here waiting)
      next => exact sound.fresh i holder other here

theorem Sound.drop (sound : s.Sound) {guard : Nat} {path : TempPath} (held : s.guards.lookup guard = some path) :
    Sound { s with activeFiles := s.activeFiles.erase path, guards := s.guards.erase guard } where
  active other := by
    rw [Finset.mem_erase,sound.active other]
    constructor
    · rintro ⟨different,holder,found⟩
      refine ⟨holder,?_⟩
      rw [Store.lookup_erase_eq]
      split
      next same =>
        rw [same,held] at found
        cases found
        exact absurd rfl different
      next => exact found
    · rintro ⟨holder,found⟩
      rw [Store.lookup_erase_eq] at found
      split at found
      next => cases found
      next apart =>
        refine ⟨?_,holder,found⟩
        intro same
        rw [same] at found
        exact apart (sound.apart holder guard path found held)
  apart i j other here there := by
    rw [Store.lookup_erase_eq] at here there
    split at here
    next => cases here
    next =>
      split at there
      next => cases there
      next => exact sound.apart i j other here there
  coming := sound.coming
  fresh i holder other here := by
    rw [Store.lookup_erase_eq]
    split
    next =>
      intro found
      cases found
    next => exact sound.fresh i holder other here

end ActiveState

theorem activeStep_sound (p : Process) {s next : ActiveState} {action : ActiveAction} (sound : s.Sound)
    (orderly : Orderly p s action) (stepped : activeStep p s action = some next) : next.Sound := by
  cases action with
  | create task userId pre now =>
    rw [activeStep] at stepped
    split at stepped
    next =>
      cases stepped
      exact sound.create orderly task
    next => cases stepped
  | lock task =>
    rw [activeStep] at stepped
    split at stepped
    next =>
      cases stepped
      exact sound.locked (some task) s.cleanups
    next => cases stepped
  | insert task guard =>
    rw [activeStep] at stepped
    split at stepped
    next ready =>
      obtain ⟨path,waiting,rfl⟩ := Option.map_eq_some_iff.mp stepped
      exact sound.insert waiting (Option.isNone_iff_eq_none.mp ready.2)
    next => cases stepped
  | cancel task =>
    rw [activeStep] at stepped
    split at stepped
    next =>
      cases stepped
      exact sound.erase task
    next => cases stepped
  | drop guard =>
    obtain ⟨path,held,rfl⟩ := Option.map_eq_some_iff.mp stepped
    have free : s.lockFree := orderly
    rw [if_pos free]
    exact sound.drop held
  | startCleanup =>
    rw [activeStep] at stepped
    split at stepped
    next =>
      cases stepped
      exact sound.locked s.writer (s.cleanups + 1)
    next => cases stepped
  | finishCleanup =>
    rw [activeStep] at stepped
    split at stepped
    next =>
      cases stepped
      exact sound.locked s.writer (s.cleanups - 1)
    next => cases stepped

/-- After every orderly run the active set is that of the live guards, each with
a path of its own. -/
theorem active_set_exact (p : Process) {actions : List ActiveAction} {s : ActiveState}
    (run : (tempFiles p).Run (Orderly p) .start actions s) : s.Exact := by
  have sound : s.Sound := by
    apply run.invariant
    · intro s action next sound orderly stepped
      exact activeStep_sound p sound orderly stepped
    · exact ActiveState.start_sound
  exact sound.toExact

def plainProcess : Process := ⟨fun now => (toString now).toList,7⟩

/-- Two files at two moments, one of their guards dropped between cleanups. -/
def orderlyRun : List ActiveAction :=
  [.create 0 "u".toList "job".toList 1,.lock 0,.insert 0 0,.startCleanup,.create 1 "u".toList "job".toList 2,
    .finishCleanup,.drop 0,.lock 1,.insert 1 1]

theorem active_set_two : ∃ s, (tempFiles plainProcess).Run (Orderly plainProcess) .start orderlyRun s ∧ s.Exact := by
  have runs : ((tempFiles plainProcess).execAllowed (Orderly plainProcess) .start orderlyRun).isSome = true := by
    decide +kernel
  obtain ⟨s,computed⟩ := Option.isSome_iff_exists.mp runs
  have run := System.execAllowed_run computed
  exact ⟨s,run,active_set_exact plainProcess run⟩

/-- A guard that is dropped while a cleanup runs. -/
def droppedInCleanup : List ActiveAction :=
  [.create 0 "u".toList "job".toList 1,.lock 0,.insert 0 0,.startCleanup,.drop 0,.finishCleanup]

/-- Its path stays in the set. -/
theorem dropped_guard_stays :
    ¬∀ p actions s, (tempFiles p).exec .start actions = some s → s.creations = ∅ → s.Exact := by
  intro law
  have ends : ((tempFiles plainProcess).exec .start droppedInCleanup).any (fun s =>
      !decide (s.activeFiles = ∅) && s.guards.entries.isEmpty && s.creations.entries.isEmpty) = true := by
    decide +kernel
  cases computed : (tempFiles plainProcess).exec .start droppedInCleanup with
  | none =>
    rw [computed] at ends
    cases ends
  | some s =>
    rw [computed,Option.any_some,Bool.and_eq_true,Bool.and_eq_true,Bool.not_eq_true',decide_eq_false_iff_not,
      List.isEmpty_iff,List.isEmpty_iff] at ends
    have exact_ := law plainProcess droppedInCleanup s computed (AList.ext ends.2)
    obtain ⟨path,member⟩ := Finset.nonempty_iff_ne_empty.mpr ends.1.1
    obtain ⟨guard,held⟩ := (exact_.active path).mp member
    have guards : s.guards = ∅ := AList.ext ends.1.2
    rw [guards] at held
    cases held

end StorageHub.TempFiles
