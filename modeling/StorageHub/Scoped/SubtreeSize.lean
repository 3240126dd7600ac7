import StorageHub.Scoped.Frames
import StorageHub.Scoped.IndexFrames
import StorageHub.Scoped.Recovery

/-! Recursive sizes. The sum is taken over what a LIKE of the path selects, and
after a recovery it becomes what the user is said to use. -/
namespace StorageHub.Scoped
open Library Vfs Effect

namespace Engine

def getRecursiveSizeImpl (e : Engine) (path : Text) : Vfs Int :=
  query fun w => Index.getTotalSize e.caseSensitiveLike e.userId path w.index

end Engine

namespace Index
variable (sensitive : Bool) (userId path : Text) (rows : Index)

/-- What the paths below a directory start with. -/
def subtreePrefix (path : Text) : Text := if path = ['/'] then ['/'] else path ++ ['/']

def inSubtree (path : Text) (row : IndexRow) : Bool :=
  row.path == path || Text.startsWith (subtreePrefix path) row.path

def selects (row : IndexRow) : Bool := at_ userId path row || likeBelow sensitive userId path row

/-- The sum of the sizes of the user's live rows that pass a test. -/
def liveSize (userId : Text) (rows : Index) (test : IndexRow → Bool) : Int :=
  ((rows.filter fun row => row.userId == userId && row.fileTrashedAt.isNone && test row).map (·.size)).sum

def subtreeSize : Int := liveSize userId rows (inSubtree path)

/-- Selected from outside the subtree. -/
def stray (row : IndexRow) : Bool := selects sensitive userId path row && !inSubtree path row

/-- Below the root by one slash. -/
def belowRoot (row : IndexRow) : Bool :=
  row.path != ['/'] && Text.startsWith ['/'] row.path && !Text.startsWith ['/','/'] row.path

/-- Neither the root nor below it by two slashes. -/
def besidesRoot (row : IndexRow) : Bool := row.path != ['/'] && !Text.startsWith ['/','/'] row.path

variable {sensitive userId path rows}

theorem liveSize_cons (row : IndexRow) (test : IndexRow → Bool) :
    liveSize userId (row::rows) test =
      (if row.userId == userId && row.fileTrashedAt.isNone && test row then row.size else 0) +
        liveSize userId rows test := by
  rw [liveSize,liveSize,List.filter_cons]
  split
  next => rw [List.map_cons,List.sum_cons]
  next => omega

/-- Two sums differ by what either has alone. -/
theorem liveSize_sub (test test' : IndexRow → Bool) :
    liveSize userId rows test - liveSize userId rows test' =
      liveSize userId rows (fun row => test row && !test' row) -
        liveSize userId rows fun row => test' row && !test row := by
  induction rows with
  | nil => rfl
  | cons row rest ih =>
    simp only [liveSize_cons]
    cases row.userId == userId <;> cases row.fileTrashedAt.isNone <;> cases test row <;>
      cases test' row <;> simp <;> omega

theorem liveSize_congr {test test' : IndexRow → Bool}
    (same : ∀ row ∈ rows, row.userId = userId → test row = test' row) :
    liveSize userId rows test = liveSize userId rows test' := by
  have selected : (rows.filter fun row => row.userId == userId && row.fileTrashedAt.isNone && test row) =
      rows.filter fun row => row.userId == userId && row.fileTrashedAt.isNone && test' row := by
    apply List.filter_congr
    intro row inside
    by_cases owner : row.userId = userId
    · rw [same row inside owner]
    · have foreign : (row.userId == userId) = false := beq_eq_false_iff_ne.mpr owner
      rw [foreign]
      rfl
  rw [liveSize,liveSize,selected]

theorem liveSize_none {test : IndexRow → Bool} (absent : ∀ row ∈ rows, row.userId = userId → test row = false) :
    liveSize userId rows test = 0 := by
  have selected : (rows.filter fun row => row.userId == userId && row.fileTrashedAt.isNone && test row) = [] := by
    rw [List.filter_eq_nil_iff]
    intro row inside passes
    rw [Bool.and_eq_true,Bool.and_eq_true,beq_iff_eq] at passes
    have fails := absent row inside passes.1.1
    rw [passes.2] at fails
    cases fails
  rw [liveSize,selected]
  rfl

theorem getTotalSize_eq : getTotalSize sensitive userId path rows =
    liveSize userId rows (selects sensitive userId path) := by
  have selected : (rows.filter fun row => (at_ userId path row || likeBelow sensitive userId path row) &&
      row.fileTrashedAt.isNone) = rows.filter fun row => row.userId == userId && row.fileTrashedAt.isNone &&
        selects sensitive userId path row := by
    apply List.filter_congr
    intro row _
    rw [selects,at_,likeBelow]
    cases row.userId == userId <;> cases row.fileTrashedAt.isNone <;> simp
  rw [getTotalSize,selected,liveSize]

/-- The pattern of the root needs two slashes. -/
theorem selects_root {row : IndexRow} (owner : row.userId = userId) :
    selects sensitive userId ['/'] row = (row.path == ['/'] || Text.startsWith ['/','/'] row.path) := by
  have liked : Text.like sensitive ['/','/','%'] row.path = Text.startsWith ['/','/'] row.path := by
    rw [Bool.eq_iff_iff,Text.like_slash,Text.startsWith_iff]
    constructor
    · intro ⟨rest,split,matched⟩
      obtain ⟨tail,split',-⟩ := Text.like_slash.mp matched
      exact ⟨tail,by rw [split,split']; rfl⟩
    · intro ⟨tail,split⟩
      exact ⟨'/'::tail,split.symm,Text.like_slash.mpr ⟨tail,rfl,Text.like_any sensitive tail⟩⟩
  rw [selects,at_,likeBelow,owner,beq_self_eq_true,Bool.true_and,Bool.true_and]
  exact congrArg (row.path == ['/'] || ·) liked

theorem selects_subtree {row : IndexRow} (owner : row.userId = userId) (nested : path ≠ ['/'])
    (inside : inSubtree path row = true) : selects sensitive userId path row = true := by
  rw [inSubtree,Bool.or_eq_true,beq_iff_eq,subtreePrefix,if_neg nested,Text.startsWith_iff] at inside
  rw [selects,Bool.or_eq_true]
  rcases inside with same | ⟨rest,split⟩
  · exact .inl (at_iff.mpr ⟨owner,same⟩)
  · right
    rw [likeBelow,owner,beq_self_eq_true,Bool.true_and,← split]
    have liked := Text.like_prefix sensitive (path ++ ['/']) rest
    rwa [List.append_assoc] at liked

theorem totalSize_iff : getTotalSize sensitive userId path rows = subtreeSize userId path rows ↔
    (path = ['/'] → liveSize userId rows belowRoot = 0) ∧
      (path ≠ ['/'] → liveSize userId rows (stray sensitive userId path) = 0) := by
  have apart : liveSize userId rows (selects sensitive userId path) - subtreeSize userId path rows =
      liveSize userId rows (stray sensitive userId path) -
        liveSize userId rows fun row => inSubtree path row && !selects sensitive userId path row :=
    liveSize_sub _ _
  rw [getTotalSize_eq]
  by_cases root : path = ['/']
  · subst root
    have none_ : liveSize userId rows (stray sensitive userId ['/']) = 0 := by
      apply liveSize_none
      intro row _ owner
      rw [stray,selects_root owner,inSubtree,subtreePrefix,if_pos rfl]
      cases row.path with
      | nil => rfl
      | cons c rest => cases rest <;> simp [Text.startsWith] <;> tauto
    have missed : (liveSize userId rows fun row => inSubtree ['/'] row && !selects sensitive userId ['/'] row) =
        liveSize userId rows belowRoot := by
      apply liveSize_congr
      intro row _ owner
      rw [selects_root owner,inSubtree,subtreePrefix,if_pos rfl,belowRoot,bne]
      cases row.path == ['/'] <;> simp
    rw [none_,missed] at apart
    constructor
    · intro same
      exact ⟨fun _ => by omega,fun nested => absurd rfl nested⟩
    · intro empty
      have nothing := empty.1 rfl
      omega
  · have missed : (liveSize userId rows fun row => inSubtree path row && !selects sensitive userId path row) =
        0 := by
      apply liveSize_none
      intro row _ owner
      cases inside : inSubtree path row with
      | false => rfl
      | true => rw [selects_subtree owner root inside]; rfl
    rw [missed] at apart
    constructor
    · intro same
      exact ⟨fun here => absurd here root,fun _ => by omega⟩
    · intro empty
      have nothing := empty.2 root
      omega

/-- The size of the root leaves out the user's other rows. -/
theorem rootSize_iff : getTotalSize sensitive userId ['/'] rows = liveSize userId rows (fun _ => true) ↔
    liveSize userId rows besidesRoot = 0 := by
  have apart : liveSize userId rows _ - liveSize userId rows _ = _ :=
    liveSize_sub (selects sensitive userId ['/']) fun _ => true
  have none_ : (liveSize userId rows fun row => selects sensitive userId ['/'] row && !true) = 0 := by
    apply liveSize_none
    intro row _ _
    simp
  have missed : (liveSize userId rows fun row => true && !selects sensitive userId ['/'] row) =
      liveSize userId rows besidesRoot := by
    apply liveSize_congr
    intro row _ owner
    rw [selects_root owner,besidesRoot,bne]
    cases row.path == ['/'] <;> simp
  rw [none_,missed] at apart
  rw [getTotalSize_eq]
  omega

end Index

namespace Engine
open Index
variable (e : Engine) (path : Text) (w : World)

/-- A recursive size that is returned is that of the subtree. -/
def SizeExact : Prop := ∀ cs size w' rest, e.getRecursiveSizeImpl path w cs = .done size w' rest →
  size = subtreeSize e.userId path w.index

/-- After a recovery the user is said to use what the live rows add up to. -/
def UsageExact : Prop := ∀ cs w' rest, e.recalibrateStorageUsed w cs = .done () w' rest →
  w'.shared.storageUsed e.userId = liveSize e.userId w.index fun _ => true

variable {e path w}

theorem recalibrate_stores {cs rest : List (Choice EngineEnv)} {w' : World}
    (done : e.recalibrateStorageUsed w cs = .done () w' rest) :
    w'.shared.storageUsed e.userId = getTotalSize e.caseSensitiveLike e.userId ['/'] w.index := by
  obtain ⟨_,_,_,created,later⟩ := bind_done w cs done
  obtain ⟨-,rfl⟩ := query_done created
  obtain ⟨total,_,_,summed,stored⟩ := bind_done _ _ later
  obtain ⟨rfl,rfl⟩ := query_done summed
  obtain ⟨-,env,made⟩ := call_done stored
  obtain ⟨-,rfl⟩ := Prod.mk.inj made
  exact Function.update_self ..

theorem recalibrate_run : e.recalibrateStorageUsed w [] = .done () { w with
    shared := { w.shared with
      storageUsed := Function.update w.shared.storageUsed e.userId
        (getTotalSize e.caseSensitiveLike e.userId ['/'] w.index) } } [] := rfl

/-- A recursive size is exact when what the pattern selects outside the subtree
adds up to nothing, that of the root only when what lies in it does; and the
usage only when all but the root's own row do. -/
theorem recursiveSize_exact_iff (e : Engine) (path : Text) (w : World) :
    (e.SizeExact path w ↔ (path = ['/'] → liveSize e.userId w.index belowRoot = 0) ∧
      (path ≠ ['/'] → liveSize e.userId w.index (stray e.caseSensitiveLike e.userId path) = 0)) ∧
    (e.UsageExact w ↔ liveSize e.userId w.index besidesRoot = 0) := by
  constructor
  · rw [← totalSize_iff]
    constructor
    · intro exact_
      exact exact_ [] _ w [] rfl
    · intro same cs size w' rest done
      obtain ⟨taken,-⟩ := query_done done
      rw [taken,same]
  · rw [← rootSize_iff]
    constructor
    · intro exact_
      have stored := exact_ [] _ [] recalibrate_run
      rwa [recalibrate_stores recalibrate_run] at stored
    · intro same cs w' rest done
      rw [recalibrate_stores done,same]

/-- One file of one byte, and the size of the root and the usage are nothing. -/
theorem root_size_empty : ¬plainEngine.SizeExact ['/'] (worldOf [] [] [liveRow 1 "/a.txt" false]) ∧
    ¬plainEngine.UsageExact (worldOf [] [] [liveRow 1 "/a.txt" false]) := by
  constructor
  · intro exact_
    have taken := exact_ [] _ _ [] rfl
    exact absurd taken (by decide +kernel)
  · intro usage
    have stored := usage [] _ [] recalibrate_run
    exact absurd stored (by decide +kernel)

end Engine
end StorageHub.Scoped
