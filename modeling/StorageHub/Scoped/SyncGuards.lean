import StorageHub.Library.Locks
import StorageHub.Scoped.FileIndex
import StorageHub.Scoped.Sandbox

/-! The sync guards of one user, one mutex for each directory: a move takes the
guards of the parents of its source and of its destination in this order, a
sync of the index that of its directory. -/
namespace StorageHub.Scoped.SyncGuards
open Library Library.Locks Vfs

/-- `parent_path` of the moves. -/
def parentPath (path : Text) : Text := parentOf (Text.trimEnd '/' path)

inductive GuardedCall
  | moveFile (src dst : Text)
  | syncIndex (path : Text)
  deriving DecidableEq,Repr

/-- The guards of `move_file_impl` for validated paths. -/
def moveGuards (normSrc normDst : Text) : List Text :=
  if parentPath normDst ≠ parentPath normSrc then [parentPath normSrc,parentPath normDst]
  else [parentPath normSrc]

variable (decode : Text → Option Text) (planned : Text → Bool)

/-- The guards a call takes when nothing makes it return before. `planned` tells
the paths with an active protection plan: those take no guard. -/
def guardsOf : GuardedCall → List Text
  | .moveFile src dst =>
    match validateFileOperation decode src,validateFileOperation decode dst with
    | .ok normSrc,.ok normDst =>
      if planned normSrc || planned normDst then [] else moveGuards normSrc normDst
    | _,_ => []
  | .syncIndex path =>
    match validateFileOperation decode path with
    | .ok normalized => if planned normalized then [] else [normalized]
    | .error _ => []

/-- Some accepted move between unprotected paths leads from the directory `a`
into another directory `b`. -/
def MovesTo {ι : Type} (calls : ι → GuardedCall) (a b : Text) : Prop :=
  ∃ i src dst normSrc normDst, calls i = .moveFile src dst ∧
    validateFileOperation decode src = .ok normSrc ∧ validateFileOperation decode dst = .ok normDst ∧
    planned normSrc = false ∧ planned normDst = false ∧
    parentPath normSrc = a ∧ parentPath normDst = b ∧ a ≠ b

variable {decode planned}

theorem moveGuards_length (normSrc normDst : Text) : (moveGuards normSrc normDst).length ≤ 2 := by
  unfold moveGuards
  split
  · simp
  · simp

theorem guardsOf_length (call : GuardedCall) : (guardsOf decode planned call).length ≤ 2 := by
  cases call with
  | moveFile src dst =>
    simp only [guardsOf]
    split
    next normSrc normDst _ _ =>
      split
      · simp
      · exact moveGuards_length normSrc normDst
    next => simp
  | syncIndex path =>
    simp only [guardsOf]
    split
    next =>
      split
      · simp
      · simp
    next => simp

theorem moveGuards_pair {normSrc normDst a b : Text} (pair : moveGuards normSrc normDst = [a,b]) :
    parentPath normSrc = a ∧ parentPath normDst = b ∧ a ≠ b := by
  unfold moveGuards at pair
  split at pair
  next different =>
    obtain ⟨rfl,rfl⟩ : parentPath normSrc = a ∧ parentPath normDst = b := by simpa using pair
    exact ⟨rfl,rfl,Ne.symm different⟩
  next => simp at pair

/-- Only a move between two directories takes two guards. -/
theorem guardsOf_pair {call : GuardedCall} {a b : Text}
    (pair : guardsOf decode planned call = [a,b]) :
    ∃ src dst normSrc normDst, call = .moveFile src dst ∧
      validateFileOperation decode src = .ok normSrc ∧
      validateFileOperation decode dst = .ok normDst ∧
      planned normSrc = false ∧ planned normDst = false ∧
      parentPath normSrc = a ∧ parentPath normDst = b ∧ a ≠ b := by
  cases call with
  | moveFile src dst =>
    simp only [guardsOf] at pair
    split at pair
    next normSrc normDst source target =>
      split at pair
      next => simp at pair
      next open_ =>
        have unprotected : planned normSrc = false ∧ planned normDst = false := by
          simpa using open_
        have parents := moveGuards_pair pair
        exact ⟨src,dst,normSrc,normDst,rfl,source,target,unprotected.1,unprotected.2,parents⟩
    next => simp at pair
  | syncIndex path =>
    simp only [guardsOf] at pair
    split at pair
    next =>
      split at pair
      next => simp at pair
      next => simp at pair
    next => simp at pair

/-- One guard is asked for with the other in hand exactly by a move from the one
directory into the other. -/
theorem before_iff {ι : Type} (calls : ι → GuardedCall) (a b : Text) :
    Before (fun i => guardsOf decode planned (calls i)) a b ↔ MovesTo decode planned calls a b := by
  constructor
  · intro before
    obtain ⟨i,pair⟩ := before_pair (fun i => guardsOf_length (calls i)) before
    obtain ⟨src,dst,normSrc,normDst,call,rest⟩ := guardsOf_pair pair
    exact ⟨i,src,dst,normSrc,normDst,call,rest⟩
  · rintro ⟨i,src,dst,normSrc,normDst,call,source,target,free,free',rfl,rfl,different⟩
    have guards : guardsOf decode planned (calls i) = [parentPath normSrc,parentPath normDst] := by
      simp [guardsOf,call,source,target,free,free',moveGuards,Ne.symm different]
    exact ⟨i,guards.symm ▸ List.Sublist.refl _⟩

/-- Whatever the order of their steps, the moves and syncs of a user never wait
for each other in a cycle exactly when the moves lead around no cycle of
directories. -/
theorem moves_deadlock_free_iff {ι : Type} [DecidableEq ι] (decode : Text → Option Text)
    (planned : Text → Bool) (calls : ι → GuardedCall) :
    (∀ s, Reachable (fun i => guardsOf decode planned (calls i)) s → ¬ Deadlocked s) ↔
      ∀ dir, ¬ Relation.TransGen (MovesTo decode planned calls) dir dir := by
  have order : Before (fun i => guardsOf decode planned (calls i)) = MovesTo decode planned calls := by
    ext a b
    exact before_iff calls a b
  rw [deadlock_free_iff (fun i => guardsOf_length (calls i)),order]

/-- Two files that change places between two directories. -/
def oppositeMoves : Bool → GuardedCall
  | false => .moveFile "/a/x".toList "/b/x".toList
  | true => .moveFile "/b/y".toList "/a/y".toList

def oppositeGuards : Bool → List Text
  | false => ["/a".toList,"/b".toList]
  | true => ["/b".toList,"/a".toList]

theorem guardsOf_oppositeMoves :
    (fun back => guardsOf decodeAscii (fun _ => false) (oppositeMoves back)) = oppositeGuards := by
  ext back : 1
  cases back
  · decide +kernel
  · decide +kernel

/-- Each of the two moves can get its first guard, and then both wait. -/
theorem opposite_moves_deadlock :
    ¬ ∀ s, Reachable (fun back => guardsOf decodeAscii (fun _ => false) (oppositeMoves back)) s →
      ¬ Deadlocked s := by
  rw [guardsOf_oppositeMoves]
  intro law
  apply law _ ⟨[.enter false,.acquire false,.enter true,.acquire true],rfl⟩
  refine ⟨false,.tail (b := true) (.single ?_) ?_⟩
  · exact ⟨"/b".toList,[],by rfl,by decide +kernel⟩
  · exact ⟨"/a".toList,[],by rfl,by decide +kernel⟩

end StorageHub.Scoped.SyncGuards
