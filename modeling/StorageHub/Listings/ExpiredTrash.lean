import StorageHub.Listings.Streams

/-! The job that empties the recycle bin: it asks for a batch of expired rows until
there is none, and a row leaves the batches only once its delete succeeds. -/
namespace StorageHub.Listings
open Library Library.Paging Scoped

/-- What comes of a row's turn in a batch. -/
inductive DeleteOutcome
  | deleted
  | failed
  | engineUnavailable
  deriving DecidableEq,Repr

/-- What the job depends on besides the table: how the database and the hash map of
users order rows, its settings, and the outcome of each turn of a row. -/
structure JobEnv where
  sql : Sql
  heap : Heap
  users : Heap
  retentionDays : Nat
  expiredAt : Int
  batchSize : Nat
  outcome : TableRow → Nat → DeleteOutcome

structure JobState where
  rows : List TableRow
  turns : TableRow → Nat
  totalDeleted : Nat

namespace JobEnv
variable (env : JobEnv)

def expired (row : TableRow) : Bool :=
  decide (env.retentionDays ≠ 0) && row.fileTrashedAt.any (fun at_ => decide (at_ < env.expiredAt)) &&
    row.parentPath == recycleBin && row.rowDeletedAt.isNone

def findExpiredTrashBatch (n : Nat) (rows : List TableRow) : List TableRow :=
  if env.retentionDays = 0 then []
  else limited (max env.batchSize 1) 0
    (env.heap.sorted n (fun a b => env.sql.byColumn a b .fileTrashedAt) (rows.filter env.expired))

def sameKey (a b : TableRow) : Bool := a.id == b.id && a.userId == b.userId

/-- One row of a batch, with the engine of its user. -/
def visit (st : JobState) (row : TableRow) : JobState :=
  let turns := fun other => if other = row then st.turns row + 1 else st.turns other
  match env.outcome row (st.turns row) with
  | .deleted => ⟨st.rows.filter fun other => !sameKey row other,turns,st.totalDeleted + 1⟩
  | .failed => ⟨st.rows,turns,st.totalDeleted⟩
  | .engineUnavailable => ⟨st.rows,turns,st.totalDeleted⟩

def round (n : Nat) (st : JobState) : JobState :=
  (env.users.order n (env.findExpiredTrashBatch n st.rows)).foldl env.visit st

/-- The loop of `cleanup_expired_trash`. -/
def cleanupLoop : Nat → Nat → JobState → Option JobState
  | 0, _, _ => none
  | fuel + 1, n, st =>
    if (env.findExpiredTrashBatch n st.rows).isEmpty then some st else cleanupLoop fuel (n + 1) (env.round n st)

def started (rows : List TableRow) : JobState := ⟨rows,fun _ => 0,0⟩

def cleanupExpiredTrash (rows : List TableRow) (fuel : Nat) : Option Nat :=
  if env.retentionDays = 0 then some 0 else (env.cleanupLoop fuel 0 (started rows)).map (·.totalDeleted)

/-- The state after some rounds of the loop. -/
def afterRounds (rows : List TableRow) : Nat → JobState
  | 0 => started rows
  | n + 1 => env.round n (afterRounds rows n)

variable {env} {st : JobState} {row : TableRow}

/-! ### One visit -/

theorem visit_rows (st : JobState) (row : TableRow) :
    (env.visit st row).rows = st.rows ∨ env.outcome row (st.turns row) = .deleted ∧
      (env.visit st row).rows = st.rows.filter fun other => !sameKey row other := by
  unfold visit
  cases given : env.outcome row (st.turns row) with
  | deleted => exact .inr ⟨rfl,rfl⟩
  | failed => exact .inl rfl
  | engineUnavailable => exact .inl rfl

theorem visit_turns (st : JobState) (row other : TableRow) :
    (env.visit st row).turns other = if other = row then st.turns row + 1 else st.turns other := by
  unfold visit
  cases env.outcome row (st.turns row) <;> rfl

theorem visit_sublist (st : JobState) (row : TableRow) : (env.visit st row).rows.Sublist st.rows := by
  rcases visit_rows st row with same | ⟨-,gone⟩
  · rw [same]
  · rw [gone]
    exact List.filter_sublist

theorem sameKey_self (row : TableRow) : sameKey row row = true := by
  rw [sameKey,Bool.and_eq_true,beq_iff_eq,beq_iff_eq]
  exact ⟨rfl,rfl⟩

/-- A visited row is still there only if its turn did not delete it. -/
theorem visit_stays (member : row ∈ (env.visit st row).rows) : env.outcome row (st.turns row) ≠ .deleted := by
  intro given
  have gone : (env.visit st row).rows = st.rows.filter fun other => !sameKey row other := by
    unfold visit
    rw [given]
  rw [gone,List.mem_filter,sameKey_self] at member
  exact absurd member.2 Bool.false_ne_true

/-! ### Turns that are left -/

variable {need : TableRow → Nat}

/-- Up to the turn that deletes it. -/
def left_ (env : JobEnv) (need : TableRow → Nat) (st : JobState) (row : TableRow) : Nat :=
  if env.expired row then need row + 1 - st.turns row else 0

/-- No row is beyond a turn that deletes it. -/
def InTime (env : JobEnv) (need : TableRow → Nat) (st : JobState) : Prop :=
  ∀ row ∈ st.rows, env.expired row = true → st.turns row ≤ need row ∧ env.outcome row (need row) = .deleted

theorem visit_inTime (inTime : env.InTime need st) (row : TableRow) : env.InTime need (env.visit st row) := by
  intro other member expired
  obtain ⟨before,sure⟩ := inTime other ((visit_sublist st row).subset member) expired
  refine ⟨?_,sure⟩
  rw [visit_turns]
  split
  next same =>
    rw [same] at member before sure ⊢
    have stays := visit_stays member
    have reached : st.turns row ≠ need row := by
      intro here
      exact stays (by rw [here]; exact sure)
    omega
  next => exact before

theorem sum_filter_add {α : Type} {rows : List α} {r : α} (keep : α → Bool) (f : α → Nat) (inside : r ∈ rows)
    (gone : keep r = false) : ((rows.filter keep).map f).sum + f r ≤ (rows.map f).sum := by
  induction rows with
  | nil => exact (List.not_mem_nil inside).elim
  | cons first rest ih =>
    have shorter : ((rest.filter keep).map f).sum ≤ (rest.map f).sum :=
      List.Sublist.sum_le_sum (List.filter_sublist.map f) fun _ _ => Nat.zero_le _
    rcases List.mem_cons.mp inside with here | later
    · rw [← here,List.filter_cons,if_neg (by rw [gone]; exact Bool.false_ne_true),List.map_cons,List.sum_cons]
      omega
    · have rest' := ih later
      rw [List.filter_cons,List.map_cons,List.sum_cons]
      split
      · rw [List.map_cons,List.sum_cons]
        omega
      · omega

def potential (env : JobEnv) (need : TableRow → Nat) (st : JobState) : Nat := (st.rows.map (env.left_ need st)).sum

theorem left_visit (st : JobState) (row other : TableRow) :
    env.left_ need (env.visit st row) other ≤ env.left_ need st other := by
  unfold left_
  rw [visit_turns]
  split
  next =>
    split
    next same =>
      rw [same]
      omega
    next => exact Nat.le_refl _
  next => exact Nat.le_refl _

theorem potential_visit_le (st : JobState) (row : TableRow) :
    env.potential need (env.visit st row) ≤ env.potential need st := by
  have shorter : ((env.visit st row).rows.map (env.left_ need st)).sum ≤ env.potential need st :=
    List.Sublist.sum_le_sum ((visit_sublist st row).map _) fun _ _ => Nat.zero_le _
  apply Nat.le_trans _ shorter
  exact List.sum_le_sum fun other _ => left_visit st row other

/-- The turn of a row that is left brings the job forward. -/
theorem potential_visit_lt (inTime : env.InTime need st) (inside : row ∈ st.rows) (expired : env.expired row = true) :
    env.potential need (env.visit st row) < env.potential need st := by
  obtain ⟨before,-⟩ := inTime row inside expired
  have some_ : 0 < env.left_ need st row := by
    rw [left_,if_pos expired]
    omega
  rcases visit_rows st row with same | ⟨-,gone⟩
  · rw [potential,same,potential]
    apply List.sum_lt_sum
    · intro other _
      exact left_visit st row other
    · refine ⟨row,inside,?_⟩
      rw [left_,left_,if_pos expired,if_pos expired,visit_turns,if_pos rfl]
      omega
  · have itself : (!sameKey row row) = false := by
      rw [sameKey_self]
      rfl
    have dropped := sum_filter_add (fun other => !sameKey row other) (env.left_ need st) inside itself
    have less : env.potential need (env.visit st row) ≤
        ((st.rows.filter fun other => !sameKey row other).map (env.left_ need st)).sum := by
      rw [potential,gone]
      exact List.sum_le_sum fun other _ => left_visit st row other
    rw [potential] at less ⊢
    rw [potential]
    omega

/-! ### Rounds -/

theorem foldl_visit {P : JobState → Prop} (keeps : ∀ st row, P st → P (env.visit st row)) (batch : List TableRow)
    (holds : P st) : P (batch.foldl env.visit st) := by
  induction batch generalizing st with
  | nil => exact holds
  | cons row rest ih => exact ih (keeps st row holds)

theorem mem_batch {n : Nat} {rows : List TableRow} (member : row ∈ env.findExpiredTrashBatch n rows) :
    row ∈ rows ∧ env.expired row = true := by
  unfold findExpiredTrashBatch at member
  split at member
  next => exact (List.not_mem_nil member).elim
  next =>
    have sorted := List.mem_of_mem_drop (List.mem_of_mem_take member)
    rw [Heap.sorted,List.mem_mergeSort,(env.heap.perm n _).mem_iff] at sorted
    exact List.mem_filter.mp sorted

/-- A batch is empty only when no expired row is left. -/
theorem batch_nil_iff {n : Nat} {rows : List TableRow} :
    env.findExpiredTrashBatch n rows = [] ↔ ∀ row ∈ rows, env.expired row = false := by
  have none_ : rows.filter env.expired = [] ↔ ∀ row ∈ rows, env.expired row = false := by
    rw [List.filter_eq_nil_iff]
    simp only [Bool.not_eq_true]
  unfold findExpiredTrashBatch
  split
  next unlimited =>
    refine ⟨fun _ row _ => ?_,fun _ => rfl⟩
    rw [expired,unlimited]
    rfl
  next =>
    rw [← none_,← List.length_eq_zero_iff,limited,List.drop_zero,List.length_take,Heap.length_sorted]
    have positive : 1 ≤ max env.batchSize 1 := Nat.le_max_right _ _
    rw [← List.length_eq_zero_iff]
    omega

theorem round_inTime (inTime : env.InTime need st) (n : Nat) : env.InTime need (env.round n st) :=
  foldl_visit (P := env.InTime need) (fun _ row kept => visit_inTime kept row) _ inTime

/-- A round with a batch takes a turn of an expired row. -/
theorem potential_round_lt (inTime : env.InTime need st) {n : Nat}
    (given : env.findExpiredTrashBatch n st.rows ≠ []) : env.potential need (env.round n st) < env.potential need st := by
  have order := env.users.perm n (env.findExpiredTrashBatch n st.rows)
  unfold round
  cases visited : env.users.order n (env.findExpiredTrashBatch n st.rows) with
  | nil =>
    rw [visited] at order
    exact absurd order.symm.eq_nil given
  | cons row rest =>
    rw [visited] at order
    obtain ⟨inside,expired⟩ := mem_batch (order.mem_iff.mp List.mem_cons_self)
    have first := potential_visit_lt inTime inside expired
    have later : env.potential need (rest.foldl env.visit (env.visit st row)) ≤ env.potential need (env.visit st row) :=
      foldl_visit (P := fun other => env.potential need other ≤ env.potential need (env.visit st row))
        (fun other row kept => Nat.le_trans (potential_visit_le other row) kept) rest (Nat.le_refl _)
    rw [List.foldl_cons]
    exact Nat.lt_of_le_of_lt later first

/-- The loop ends when every expired row has a turn that deletes it. -/
theorem cleanupLoop_ends (inTime : env.InTime need st) (n : Nat) : ∃ fuel out, env.cleanupLoop fuel n st = some out := by
  induction size : env.potential need st using Nat.strong_induction_on generalizing st n with
  | _ size ih =>
    by_cases done : env.findExpiredTrashBatch n st.rows = []
    · refine ⟨1,st,?_⟩
      rw [cleanupLoop,done]
      rfl
    · have less := potential_round_lt inTime done
      rw [size] at less
      obtain ⟨fuel,out,ended⟩ := ih _ less (round_inTime inTime n) (n + 1) rfl
      refine ⟨fuel + 1,out,?_⟩
      rw [cleanupLoop,if_neg (by simpa using done),ended]

/-! ### The whole job -/

/-- The loop stops after some of its rounds, with no expired row left. -/
theorem cleanupLoop_some {rows : List TableRow} {fuel n : Nat} {out : JobState}
    (ended : env.cleanupLoop fuel n (env.afterRounds rows n) = some out) :
    ∃ m, out = env.afterRounds rows m ∧ ∀ row ∈ out.rows, env.expired row = false := by
  induction fuel generalizing n with
  | zero => cases ended
  | succ fuel ih =>
    rw [cleanupLoop] at ended
    split at ended
    next done =>
      cases ended
      exact ⟨n,rfl,batch_nil_iff.mp (List.isEmpty_iff.mp done)⟩
    next => exact ih ended

/-- What is gone from the table was deleted on some turn. -/
def Accounted (env : JobEnv) (t : Table) (st : JobState) : Prop :=
  st.rows ⊆ t.rows ∧ ∀ row ∈ t.rows, row ∈ st.rows ∨ ∃ k, env.outcome row k = .deleted

theorem visit_accounted {t : Table} (inside : row ∈ t.rows) (kept : env.Accounted t st) :
    env.Accounted t (env.visit st row) := by
  refine ⟨fun other member => kept.1 ((visit_sublist st row).subset member),?_⟩
  intro other listed
  rcases kept.2 other listed with here | gone
  · rcases visit_rows st row with same | ⟨given,dropped⟩
    · rw [same]
      exact .inl here
    · rw [dropped,List.mem_filter]
      by_cases twin : sameKey row other = true
      · rw [sameKey,Bool.and_eq_true,beq_iff_eq,beq_iff_eq] at twin
        have one : row = other := List.inj_on_of_nodup_map t.keyed inside listed (Prod.ext twin.1 twin.2)
        exact .inr ⟨_,by rw [← one]; exact given⟩
      · exact .inl ⟨here,by simpa using twin⟩
  · exact .inr gone

theorem afterRounds_accounted (t : Table) (n : Nat) : env.Accounted t (env.afterRounds t.rows n) := by
  induction n with
  | zero => exact ⟨fun _ member => member,fun _ member => .inl member⟩
  | succ n ih =>
    have visited : ∀ row ∈ env.users.order n (env.findExpiredTrashBatch n (env.afterRounds t.rows n).rows),
        row ∈ t.rows := by
      intro row member
      exact ih.1 (mem_batch ((env.users.perm n _).mem_iff.mp member)).1
    rw [afterRounds,round]
    generalize env.users.order n (env.findExpiredTrashBatch n (env.afterRounds t.rows n).rows) = batch at visited
    generalize env.afterRounds t.rows n = st at ih
    induction batch generalizing st with
    | nil => exact ih
    | cons row rest again =>
      exact again (fun other member => visited other (List.mem_cons_of_mem _ member)) _
        (visit_accounted (visited row List.mem_cons_self) ih)

/-- The job returns, and each expired row that some turn deletes is gone at some point. -/
structure MakesProgress (env : JobEnv) (rows : List TableRow) : Prop where
  ends : ∃ fuel total, env.cleanupExpiredTrash rows fuel = some total
  deletes : ∀ row ∈ rows, env.expired row = true → (∃ k, env.outcome row k = .deleted) →
    ∃ n, row ∉ (env.afterRounds rows n).rows

def stuckRow : TableRow := trashedRow 1 ['a']

def laterRow : TableRow := { trashedRow 2 ['b'] with fileTrashedAt := some 6 }

/-- Batches of one row, and a row whose delete always fails. -/
def stuckEnv : JobEnv where
  sql := plainSql
  heap := plainHeap
  users := plainHeap
  retentionDays := 30
  expiredAt := 10
  batchSize := 1
  outcome row _ := if row = stuckRow then .failed else .deleted

theorem stuck_batch (n : Nat) : stuckEnv.findExpiredTrashBatch n [stuckRow,laterRow] = [stuckRow] := by
  have all : [stuckRow,laterRow].filter stuckEnv.expired = [stuckRow,laterRow] := by decide +kernel
  have arr : Arranges (fun a b => plainSql.byColumn a b .fileTrashedAt) [stuckRow,laterRow] [stuckRow,laterRow] :=
    ⟨List.Perm.refl _,by decide +kernel⟩
  have sorted : stuckEnv.heap.sorted n (fun a b => stuckEnv.sql.byColumn a b .fileTrashedAt) [stuckRow,laterRow] =
      [stuckRow,laterRow] := arr.mergeSort_eq
  rw [findExpiredTrashBatch,all,sorted]
  rfl

theorem stuck_round (n : Nat) {st : JobState} (whole : st.rows = [stuckRow,laterRow]) :
    (stuckEnv.round n st).rows = [stuckRow,laterRow] := by
  have failed : stuckEnv.outcome stuckRow (st.turns stuckRow) = .failed := rfl
  rw [round,whole,stuck_batch]
  change (stuckEnv.visit st stuckRow).rows = _
  rw [visit,failed]
  exact whole

theorem stuck_loop (fuel n : Nat) {st : JobState} (whole : st.rows = [stuckRow,laterRow]) :
    stuckEnv.cleanupLoop fuel n st = none := by
  induction fuel generalizing n st with
  | zero => rfl
  | succ fuel ih =>
    rw [cleanupLoop,whole,stuck_batch,if_neg (by decide)]
    exact ih (n + 1) (stuck_round n whole)

end JobEnv
end StorageHub.Listings
