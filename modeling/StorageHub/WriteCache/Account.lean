import StorageHub.Library.Ledger
import StorageHub.WriteCache.Filing
import StorageHub.WriteCache.View

/-! The byte account of the cache. An update records its size in one lock section
and settles the difference in a later one, so the counter is right for an entry
as long as nothing else counts the entry in between. -/
namespace StorageHub.WriteCache
open Library Library.Ledger

/-- What the counter should hold for a record. -/
def Shared.accounted (m : WriteCacheManager) (s : Shared) (r : RecordId) : Nat :=
  ((s.inner r).map m.accountedBytesForBlob).getD 0

/-- The sum over `entries` of `accounted_bytes_for_blob`. -/
def Shared.accountedTotal (m : WriteCacheManager) (s : Shared) : Int :=
  Store.total (fun _ r => (s.accounted m r : Int)) s.entries

/-- The update between its lock sections, or the removal, a task is at. -/
def Task.touch : Task → Option (Touch Text RecordId)
  | .enqueue e =>
    match e.phase with
    | .stageBlob r generation previous _ | .stageMeta r generation previous _
    | .swap r generation previous _ => some (.opened e.target.path r generation previous)
    | _ => none
  | .flush f =>
    match f.phase with
    | .removeEntry _ _ => some (.condemned f.target.path f.record)
    | _ => none
  | .quotaSync _ => none

/-- What a task has counted for an entry it is to insert. -/
def Task.ahead (m : WriteCacheManager) : Task → Nat
  | .enqueue e =>
    match e.phase with
    | .insert stored => m.accountedBytesForBlob (e.freshRecord stored).inner
    | _ => 0
  | _ => 0

/-- The accounted sizes that the updates under way have found, at the current
generation of the record. -/
def State.opens (s : State) (r : RecordId) : List Nat :=
  s.tasks.entries.filterMap fun cell =>
    match cell.2.touch with
    | some (.opened _ q generation previous) =>
      if q = r ∧ (s.shared.inner r).map (·.generation) = some generation then some previous else none
    | _ => none

def EnqueueAccountable (m : WriteCacheManager) (s : State) (env : Env) (e : EnqueueTask) : Prop :=
  match e.phase with
  -- the entry is in the map, and updates under way have found it as large as it is
  | .bump r =>
    s.live e.target.path = some r ∧ (∀ previous ∈ s.opens r, previous = s.shared.accounted m r) ∧
      ∀ inner ∈ s.shared.inner r, inner.generation < u64Max
  -- the staging succeeds, or its failure does not matter to the account
  | .stageBlob r generation previous _ | .stageMeta r generation previous _ =>
    env.ok = true ∨ (s.shared.inner r).map (·.generation) ≠ some generation ∨
      previous = s.shared.accounted m r
  -- the counter does not overflow
  | .swap r generation previous staged =>
    ∀ inner ∈ s.shared.inner r, inner.generation = generation →
      s.shared.accountedBytes +
        (m.accountedBytesForBlob { inner with blob := e.stagedBlob staged } - previous) < 2 ^ 64
  | .account stored =>
    s.shared.accountedBytes + m.accountedBytesForBlob (e.freshRecord stored).inner < 2 ^ 64
  | .insert _ => s.shared.entries.lookup e.target.path = none
  | _ => True

def FlushAccountable (m : WriteCacheManager) (s : State) (f : FlushTask) : Prop :=
  match f.phase with
  -- the entry is in the map and no update of it is under way
  | .check taken _ _ _ =>
    ∀ inner ∈ s.shared.inner f.record, inner.generation = taken.generation →
      s.live f.target.path = some f.record ∧ s.opens f.record = []
  -- nor has another promotion counted it since this one read its size
  | .promoteSwap _ _ promo file =>
    ∀ inner ∈ s.shared.inner f.record, inner.generation = promo.generation →
      s.live f.target.path = some f.record ∧ s.opens f.record = [] ∧
        promo.previousAccounted = s.shared.accounted m f.record ∧
          s.shared.accountedBytes +
            (m.accountedBytesForBlob { inner with blob := .disk file } - promo.previousAccounted) < 2 ^ 64
  | _ => True

def Accountable (m : WriteCacheManager) (s : State) : Action → Prop
  | .advance t env =>
    match s.tasks.lookup t with
    | some (.enqueue e) => EnqueueAccountable m s env e
    | some (.flush f) => FlushAccountable m s f
    | _ => True
  | _ => True

instance (m : WriteCacheManager) (s : State) (env : Env) : DecidablePred (EnqueueAccountable m s env)
  | ⟨_,_,.bump _,_,_,_,_,_⟩ | ⟨_,_,.stageBlob _ _ _ _,_,_,_,_,_⟩ | ⟨_,_,.stageMeta _ _ _ _,_,_,_,_,_⟩
  | ⟨_,_,.swap _ _ _ _,_,_,_,_,_⟩ | ⟨_,_,.account _,_,_,_,_,_⟩ | ⟨_,_,.insert _,_,_,_,_,_⟩ => by
    unfold EnqueueAccountable
    dsimp only
    infer_instance
  | ⟨_,_,.start,_,_,_,_,_⟩ | ⟨_,_,.admitLookup,_,_,_,_,_⟩ | ⟨_,_,.admitLoad _,_,_,_,_,_⟩
  | ⟨_,_,.lookup,_,_,_,_,_⟩ | ⟨_,_,.removeBlob _ _,_,_,_,_,_⟩ | ⟨_,_,.removeMeta _ _,_,_,_,_,_⟩
  | ⟨_,_,.storeBlob,_,_,_,_,_⟩ | ⟨_,_,.storeMeta,_,_,_,_,_⟩ | ⟨_,_,.markDirtyPath _,_,_,_,_,_⟩
  | ⟨_,_,.markDirtyDir _,_,_,_,_,_⟩ | ⟨_,_,.markIndexSync _,_,_,_,_,_⟩ | ⟨_,_,.readSize _,_,_,_,_,_⟩
  | ⟨_,_,.done _,_,_,_,_,_⟩ => isTrue trivial

instance (m : WriteCacheManager) (s : State) : DecidablePred (FlushAccountable m s)
  | ⟨_,_,_,.check _ _ _ _⟩ | ⟨_,_,_,.promoteSwap _ _ _ _⟩ => by
    unfold FlushAccountable
    dsimp only
    infer_instance
  | ⟨_,_,_,.snapshot⟩ | ⟨_,_,_,.readBlob _⟩ | ⟨_,_,_,.statBefore _ _⟩ | ⟨_,_,_,.write _ _ _⟩
  | ⟨_,_,_,.noteFailure _ _⟩ | ⟨_,_,_,.promoteRead _ _⟩ | ⟨_,_,_,.promoteMark _ _⟩
  | ⟨_,_,_,.alreadyAbnormal _⟩ | ⟨_,_,_,.promoteStageBlob _ _ _⟩ | ⟨_,_,_,.promoteStageMeta _ _ _ _⟩
  | ⟨_,_,_,.promoteDiscardBlob _ _ _⟩ | ⟨_,_,_,.promoteDiscardMeta _ _⟩ | ⟨_,_,_,.promoted _ _⟩
  | ⟨_,_,_,.retireBlob _⟩ | ⟨_,_,_,.retireMeta _⟩ | ⟨_,_,_,.finishFailure _⟩ | ⟨_,_,_,.statAfter _ _ _⟩
  | ⟨_,_,_,.removeEntry _ _⟩ | ⟨_,_,_,.putReadCache _ _⟩ | ⟨_,_,_,.indexSync _⟩ | ⟨_,_,_,.quotaGet _⟩
  | ⟨_,_,_,.quotaRemove⟩ | ⟨_,_,_,.quotaInsert _⟩ | ⟨_,_,_,.done _⟩ => isTrue trivial

def taskAccountable (m : WriteCacheManager) (s : State) (env : Env) : (task : Option Task) →
    Decidable (match task with
      | some (.enqueue e) => EnqueueAccountable m s env e
      | some (.flush f) => FlushAccountable m s f
      | _ => True)
  | some (.enqueue e) => inferInstanceAs (Decidable (EnqueueAccountable m s env e))
  | some (.flush f) => inferInstanceAs (Decidable (FlushAccountable m s f))
  | some (.quotaSync _) | none => isTrue trivial

instance (m : WriteCacheManager) : DecidableRel (Accountable m)
  | s,.advance t env => taskAccountable m s env (s.tasks.lookup t)
  | _,.enqueue _ _ | _,.flush _ _ | _,.takeQuota _ | _,.evict _ => inferInstanceAs (Decidable True)

/-- The amount that a step takes off the counter with `fetch_sub`. -/
def withdrawal (m : WriteCacheManager) (s : State) : Action → Nat
  | .advance t _ =>
    match s.tasks.lookup t with
    | some (.enqueue e) =>
      match e.phase,(e.phase.updates.bind s.shared.inner) with
      | .swap _ generation previous staged,some inner =>
        if inner.generation = generation then
          previous - m.accountedBytesForBlob { inner with blob := e.stagedBlob staged }
        else 0
      | _,_ => 0
    | some (.flush f) =>
      match f.phase,s.shared.inner f.record with
      | .check taken _ _ _,some inner =>
        if inner.generation = taken.generation then m.accountedBytesForBlob inner else 0
      | .promoteSwap _ _ promo file,some inner =>
        if inner.generation = promo.generation then
          promo.previousAccounted - m.accountedBytesForBlob { inner with blob := .disk file }
        else 0
      | _,_ => 0
    | _ => 0
  | _ => 0

/-! ### The account of a state -/

def Shared.cell (m : WriteCacheManager) (s : Shared) (r : RecordId) : Option Cell :=
  (s.inner r).map fun inner => ⟨inner.generation,m.accountedBytesForBlob inner⟩

def State.account (m : WriteCacheManager) (s : State) : Account Text RecordId where
  counter := s.shared.accountedBytes
  pending := (Store.total (fun _ task => (task.ahead m : Int)) s.tasks).toNat
  entries := s.shared.entries
  cells := s.shared.cell m
  touches := fun t => (s.tasks.lookup t).bind Task.touch

section
variable {m : WriteCacheManager} {s : State} {r : RecordId}

theorem accounted_of_inner {shared : Shared} {inner : PendingWriteMutable} (found : shared.inner r = some inner) :
    shared.accounted m r = m.accountedBytesForBlob inner := by
  simp [Shared.accounted,found]

theorem cell_of_inner {shared : Shared} {inner : PendingWriteMutable} (found : shared.inner r = some inner) :
    shared.cell m r = some ⟨inner.generation,m.accountedBytesForBlob inner⟩ := by
  simp [Shared.cell,found]

theorem inner_of_cell {shared : Shared} {cell : Cell} (found : shared.cell m r = some cell) :
    ∃ inner, shared.inner r = some inner ∧ inner.generation = cell.generation ∧
      m.accountedBytesForBlob inner = cell.amount := by
  obtain ⟨inner,present,rfl⟩ := Option.map_eq_some_iff.mp found
  exact ⟨inner,present,rfl,rfl⟩

/-- A lock section measures its record anew and no other. -/
theorem cell_setInner {shared : Shared} {before : PendingWriteMutable} (found : shared.inner r = some before)
    (inner : PendingWriteMutable) :
    (shared.setInner r inner).cell m = Function.update (shared.cell m) r
      (some ⟨inner.generation,m.accountedBytesForBlob inner⟩) := by
  ext1 q
  by_cases same : q = r
  · subst same
    simp [Shared.cell,Shared.inner_setInner found]
  · simp [Shared.cell,Shared.inner_setInner found,same]

theorem cell_setInner_same {shared : Shared} {before inner : PendingWriteMutable}
    (found : shared.inner r = some before) (generation : inner.generation = before.generation)
    (blob : inner.blob = before.blob) (size : inner.size = before.size) :
    (shared.setInner r inner).cell m = shared.cell m := by
  have amount : m.accountedBytesForBlob inner = m.accountedBytesForBlob before := by
    simp only [WriteCacheManager.accountedBytesForBlob,blob,size]
  rw [cell_setInner found,generation,amount,← cell_of_inner found,Function.update_eq_self]

theorem live_account {path : Text} : s.live path = some r ↔ (s.account m).Live path r := by
  have condemned : s.condemned r = true ↔ (s.account m).Condemned r := by
    simp only [State.condemned,List.any_eq_true]
    constructor
    · rintro ⟨⟨t,task⟩,member,yes⟩
      have found : s.tasks.lookup t = some task := AList.mem_lookup_iff.mpr member
      cases task with
      | flush f =>
        simp only [Task.condemns,Bool.and_eq_true,beq_iff_eq] at yes
        obtain ⟨rfl,doomed⟩ := yes
        refine ⟨t,f.target.path,?_⟩
        cases phase : f.phase with
        | removeEntry data delta => simp [State.account,found,Task.touch,phase]
        | _ => simp [phase,FlushPhase.condemns] at doomed
      | _ => contradiction
    · rintro ⟨t,k,touch⟩
      obtain ⟨task,found,touch⟩ := Option.bind_eq_some_iff.mp touch
      refine ⟨⟨t,task⟩,AList.mem_lookup_iff.mp found,?_⟩
      cases task with
      | enqueue e =>
        simp only [Task.touch] at touch
        split at touch
        all_goals cases touch
      | flush f =>
        simp only [Task.touch] at touch
        split at touch
        next phase =>
          cases touch
          simp [Task.condemns,phase,FlushPhase.condemns]
        next => cases touch
      | quotaSync q => cases touch
  simp only [State.live,Account.Live,← condemned]
  change _ ↔ s.shared.entries.lookup path = some r ∧ _
  cases s.shared.entries.lookup path with
  | none => simp
  | some q =>
    simp only [Option.some.injEq]
    split
    next doomed =>
      refine iff_of_false (by simp) ?_
      rintro ⟨rfl,spared⟩
      exact spared doomed
    next spared =>
      constructor
      · rintro ⟨⟩
        exact ⟨rfl,spared⟩
      · rintro ⟨rfl,_⟩
        rfl

theorem mem_opens {t : Nat} {k : Text} {cell : Cell} {previous : Nat}
    (touch : (s.account m).touches t = some (.opened k r cell.generation previous))
    (found : (s.account m).cells r = some cell) : previous ∈ s.opens r := by
  obtain ⟨task,present,touched⟩ := Option.bind_eq_some_iff.mp touch
  obtain ⟨inner,held,generation,_⟩ := inner_of_cell found
  refine List.mem_filterMap.mpr ⟨⟨t,task⟩,AList.mem_lookup_iff.mp present,?_⟩
  simp [touched,held,generation]

theorem not_updating (none_ : s.opens r = []) : ¬ (s.account m).Updating r := by
  rintro ⟨t,k,cell,previous,touch,found⟩
  have member := mem_opens touch found
  rw [none_] at member
  cases member

theorem square_account (same : ∀ previous ∈ s.opens r, previous = s.shared.accounted m r) :
    (s.account m).Square r := by
  intro t k cell previous touch found
  obtain ⟨inner,held,_,amount⟩ := inner_of_cell found
  rw [same previous (mem_opens touch found),accounted_of_inner held,amount]

theorem touches_found {t : Nat} {task : Task} (found : s.tasks.lookup t = some task) :
    (s.account m).touches t = task.touch := by
  simp [State.account,found]

/-- The account after a step of one task. -/
theorem account_resume {t : Nat} {task task' : Task} {shared : Shared}
    (found : s.tasks.lookup t = some task) :
    (s.resume t shared task').account m =
      { counter := shared.accountedBytes
        pending := (s.account m).pending + task'.ahead m - task.ahead m
        entries := shared.entries
        cells := shared.cell m
        touches := Function.update (s.account m).touches t task'.touch } := by
  have pending : (Store.total (fun _ task => (task.ahead m : Int)) (s.tasks.insert t task')).toNat =
      (Store.total (fun _ task => (task.ahead m : Int)) s.tasks).toNat + task'.ahead m - task.ahead m := by
    have part := booked_le_total (Task.ahead m) found
    rw [Store.total_insert_found _ _ found]
    omega
  have touches : (fun u => ((s.tasks.insert t task').lookup u).bind Task.touch) =
      Function.update (s.account m).touches t task'.touch := by
    ext1 u
    by_cases same : u = t
    · subst same
      simp
    · simp [State.account,same]
  simp only [State.account,State.resume,pending,touches]

end

/-! ### Steps -/

/-- The counter fits 64 bits and is made up of bookings. -/
structure Booked (m : WriteCacheManager) (s : State) : Prop where
  bounded : s.shared.accountedBytes < 2 ^ 64
  books : ∃ booked holder, Books booked holder (s.account m)

theorem Booked.of {m : WriteCacheManager} {s : State} {booked : RecordId → Nat}
    {holder : RecordId → Option Nat} (bounded : s.shared.accountedBytes < 2 ^ 64)
    (books : Books booked holder (s.account m)) : Booked m s := ⟨bounded,booked,holder,books⟩

section
variable {m : WriteCacheManager} {s : State} {t : Nat} {env : Env} {shared : Shared}

/-- A step that leaves all that is counted as it is. -/
theorem booked_still {task task' : Task} (booked : Booked m s) (found : s.tasks.lookup t = some task)
    (counter : shared.accountedBytes = s.shared.accountedBytes)
    (entries : shared.entries = s.shared.entries) (cells : shared.cell m = s.shared.cell m)
    (touch : task'.touch = task.touch) (ahead : task'.ahead m = task.ahead m) :
    Booked m (s.resume t shared task') := by
  obtain ⟨bounded,bookings,holder,books⟩ := booked
  refine ⟨counter ▸ bounded,bookings,holder,?_⟩
  have same : (s.resume t shared task').account m = s.account m := by
    rw [account_resume found,counter,entries,cells,touch,ahead,← touches_found found,
      Function.update_eq_self,Nat.add_sub_cancel]
    rfl
  rw [same]
  exact books

/-- A step that gives up an update whose entry is as large as the update found it. -/
theorem booked_close {task task' : Task} {k : Text} {r : RecordId} {generation previous : Nat}
    (booked : Booked m s) (found : s.tasks.lookup t = some task)
    (counter : shared.accountedBytes = s.shared.accountedBytes)
    (entries : shared.entries = s.shared.entries) (cells : shared.cell m = s.shared.cell m)
    (touch : task.touch = some (.opened k r generation previous)) (touch' : task'.touch = none)
    (ahead : task'.ahead m = task.ahead m)
    (harmless : (s.shared.inner r).map (·.generation) ≠ some generation ∨
      previous = s.shared.accounted m r) :
    Booked m (s.resume t shared task') := by
  obtain ⟨bounded,bookings,holder,books⟩ := booked
  have opened := (touches_found (m := m) found).trans touch
  apply Booked.of (counter ▸ bounded)
  rw [account_resume found,counter,entries,cells,touch',ahead,Nat.add_sub_cancel]
  apply books.close
  · intro k' q cell before open_ held
    obtain ⟨rfl,rfl,current,rfl⟩ : k = k' ∧ r = q ∧ generation = cell.generation ∧ previous = before := by
      simpa using opened.symm.trans open_
    obtain ⟨inner,present,same,amount⟩ := inner_of_cell held
    rcases harmless with moved | level
    · exact absurd (by simp [present,same,current]) moved
    · rw [level,accounted_of_inner present,amount]
  · intro k' q doomed
    cases opened.symm.trans doomed

/-- The first lock section of an update. -/
theorem booked_bump {e e' : EnqueueTask} {r : RecordId} {inner : PendingWriteMutable}
    (booked : Booked m s) (found : s.tasks.lookup t = some (.enqueue e)) (phase : e.phase = .bump r)
    (present : s.shared.inner r = some inner) (live : s.live e.target.path = some r)
    (square : ∀ previous ∈ s.opens r, previous = s.shared.accounted m r)
    (below : inner.generation < u64Max)
    (touch' : (Task.enqueue e').touch = some (.opened e.target.path r (e.bumped inner).generation
      (m.accountedBytesForBlob inner)))
    (ahead : (Task.enqueue e').ahead m = 0) :
    Booked m (s.resume t (s.shared.setInner r (e.bumped inner)) (.enqueue e')) := by
  obtain ⟨bounded,bookings,holder,books⟩ := booked
  have idle : (Task.enqueue e).touch = none := by simp [Task.touch,phase]
  have nothing : (Task.enqueue e).ahead m = 0 := by simp [Task.ahead,phase]
  have generation : (e.bumped inner).generation = inner.generation + 1 := Nat.min_eq_left below
  apply Booked.of
  · exact bounded
  · rw [account_resume found,touch',ahead,nothing,cell_setInner present,generation]
    exact books.begin (live_account.mp live) (cell_of_inner present) (square_account square)
      ((touches_found found).trans idle) _

/-- The last lock section of an update. -/
theorem booked_swap {e e' : EnqueueTask} {r : RecordId} {previous : Nat} {staged : Option BlobFile}
    {inner : PendingWriteMutable} (booked : Booked m s) (found : s.tasks.lookup t = some (.enqueue e))
    (phase : e.phase = .swap r inner.generation previous staged)
    (present : s.shared.inner r = some inner)
    (fits : s.shared.accountedBytes +
      (m.accountedBytesForBlob { inner with blob := e.stagedBlob staged } - previous) < 2 ^ 64)
    (touch' : (Task.enqueue e').touch = none) (ahead : (Task.enqueue e').ahead m = 0) :
    Booked m (s.resume t
      { s.shared.setInner r { inner with blob := e.stagedBlob staged } with
        accountedBytes := reaccount s.shared.accountedBytes previous
          (m.accountedBytesForBlob { inner with blob := e.stagedBlob staged }) } (.enqueue e')) := by
  obtain ⟨bounded,bookings,holder,books⟩ := booked
  have touch : (Task.enqueue e).touch = some (.opened e.target.path r inner.generation previous) := by
    simp [Task.touch,phase]
  have nothing : (Task.enqueue e).ahead m = 0 := by simp [Task.ahead,phase]
  have opened := (touches_found (m := m) found).trans touch
  have cell : (s.account m).cells r = some ⟨inner.generation,m.accountedBytesForBlob inner⟩ :=
    cell_of_inner present
  obtain ⟨_,booking,entry⟩ := books.opened t _ r _ previous opened cell
  have enough : previous ≤ s.shared.accountedBytes := booking ▸ books.booked_le entry
  have exactly := reaccount_exact enough bounded fits
  apply Booked.of
  · change reaccount _ _ _ < _
    omega
  · rw [account_resume found,touch',ahead,nothing]
    change Books _ _ ⟨_,_,_,(s.shared.setInner r { inner with blob := e.stagedBlob staged }).cell m,_⟩
    rw [cell_setInner present]
    apply books.settle opened cell
    rw [exactly]
    change ((s.shared.accountedBytes - previous + _ : Nat) : Int) = (s.shared.accountedBytes : Int) - _ + _
    omega

/-- The bytes of a new entry are counted before it is inserted. -/
theorem booked_account {e e' : EnqueueTask} {stored : Bool} (booked : Booked m s)
    (found : s.tasks.lookup t = some (.enqueue e)) (phase : e.phase = .account stored)
    (fits : s.shared.accountedBytes + m.accountedBytesForBlob (e.freshRecord stored).inner < 2 ^ 64)
    (touch' : (Task.enqueue e').touch = none)
    (ahead : (Task.enqueue e').ahead m = m.accountedBytesForBlob (e.freshRecord stored).inner) :
    Booked m (s.resume t
      { s.shared with
        accountedBytes := fetchAdd s.shared.accountedBytes
          (m.accountedBytesForBlob (e.freshRecord stored).inner) } (.enqueue e')) := by
  obtain ⟨bounded,bookings,holder,books⟩ := booked
  have idle : (Task.enqueue e).touch = none := by simp [Task.touch,phase]
  have nothing : (Task.enqueue e).ahead m = 0 := by simp [Task.ahead,phase]
  have exactly := fetchAdd_exact fits
  refine ⟨?_,bookings,holder,?_⟩
  · change fetchAdd _ _ < _
    omega
  · have unchanged : Function.update (s.account m).touches t none = (s.account m).touches := by
      rw [← (touches_found found).trans idle,Function.update_eq_self]
    rw [account_resume found,touch',ahead,nothing,unchanged,exactly]
    exact books.ahead _

/-- The new entry comes in where none is. -/
theorem booked_insert {e e' : EnqueueTask} {stored : Bool} (filed : RecordsFiled s.shared)
    (booked : Booked m s) (found : s.tasks.lookup t = some (.enqueue e))
    (phase : e.phase = .insert stored) (free : s.shared.entries.lookup e.target.path = none)
    (touch' : (Task.enqueue e').touch = none) (ahead : (Task.enqueue e').ahead m = 0) :
    Booked m (s.resume t (s.shared.insertRecord (e.freshRecord stored)) (.enqueue e')) := by
  obtain ⟨bounded,bookings,holder,books⟩ := booked
  have idle : (Task.enqueue e).touch = none := by simp [Task.touch,phase]
  have counted : (Task.enqueue e).ahead m = m.accountedBytesForBlob (e.freshRecord stored).inner := by
    simp [Task.ahead,phase]
  have absent : s.shared.records.lookup s.shared.nextRecord = none := by
    by_contra present
    obtain ⟨record,held⟩ := Option.ne_none_iff_exists'.mp present
    exact absurd (filed.issued _ record held) (lt_irrefl _)
  have unused : ∀ k, s.shared.entries.lookup k ≠ some s.shared.nextRecord := by
    intro k entry
    obtain ⟨record,held,_⟩ := filed.mapped k _ entry
    rw [absent] at held
    cases held
  have fresh : s.shared.cell m s.shared.nextRecord = none := by
    simp [Shared.cell,Shared.inner,absent]
  have cells : (s.shared.insertRecord (e.freshRecord stored)).cell m =
      Function.update (s.shared.cell m) s.shared.nextRecord
        (some ⟨1,m.accountedBytesForBlob (e.freshRecord stored).inner⟩) := by
    ext1 q
    by_cases same : q = s.shared.nextRecord
    · subst same
      simp only [Shared.cell,Shared.inner,Shared.insertRecord,AList.lookup_insert,Function.update_self]
      rfl
    · simp [Shared.cell,Shared.inner,Shared.insertRecord,same]
  have pending : (s.account m).pending =
      (s.account m).pending + 0 - m.accountedBytesForBlob (e.freshRecord stored).inner +
        m.accountedBytesForBlob (e.freshRecord stored).inner := by
    have part := booked_le_total (Task.ahead m) found
    rw [counted] at part
    simp only [State.account]
    omega
  have unchanged : Function.update (s.account m).touches t none = (s.account m).touches := by
    rw [← (touches_found found).trans idle,Function.update_eq_self]
  apply Booked.of
  · exact bounded
  · rw [account_resume found,touch',ahead,counted,cells,unchanged]
    exact books.enter free fresh unused pending

/-- A flush takes a checked entry off the counter. -/
theorem booked_check {f f' : FlushTask} {taken : FlushSnapshot} {data : Bytes}
    {previousSize infoSize : Int} {inner : PendingWriteMutable} (booked : Booked m s)
    (found : s.tasks.lookup t = some (.flush f))
    (phase : f.phase = .check taken data previousSize infoSize)
    (present : s.shared.inner f.record = some inner)
    (live : s.live f.target.path = some f.record) (closed : s.opens f.record = [])
    (counter : shared.accountedBytes =
      fetchSub s.shared.accountedBytes (m.accountedBytesForBlob inner))
    (entries : shared.entries = s.shared.entries) (records : shared.records = s.shared.records)
    (touch' : (Task.flush f').touch = some (.condemned f.target.path f.record)) :
    Booked m (s.resume t shared (.flush f')) := by
  obtain ⟨bounded,bookings,holder,books⟩ := booked
  have idle : (Task.flush f).touch = none := by simp [Task.touch,phase]
  have cell : (s.account m).cells f.record = some ⟨inner.generation,m.accountedBytesForBlob inner⟩ :=
    cell_of_inner present
  have alive : (s.account m).Live f.target.path f.record := live_account.mp live
  have booking : bookings f.record = m.accountedBytesForBlob inner :=
    books.live alive cell (not_updating closed)
  have enough : m.accountedBytesForBlob inner ≤ s.shared.accountedBytes :=
    booking ▸ books.booked_le alive.1
  have exactly := fetchSub_exact enough bounded
  have cells : shared.cell m = Function.update (s.shared.cell m) f.record
      (some ⟨inner.generation,m.accountedBytesForBlob inner⟩) := by
    rw [← cell_of_inner present,Function.update_eq_self]
    ext1 r
    rw [Shared.cell,Shared.inner,records]
    rfl
  apply Booked.of
  · change shared.accountedBytes < _
    omega
  · rw [account_resume found,touch',entries,cells,counter,exactly]
    apply books.condemn alive cell (not_updating closed) ((touches_found found).trans idle)
    change ((s.shared.accountedBytes - m.accountedBytesForBlob inner : Nat) : Int) =
      (s.shared.accountedBytes : Int) - (m.accountedBytesForBlob inner : Int)
    omega

/-- And then out of the map. -/
theorem booked_remove {f f' : FlushTask} {data : Bytes} {delta : Int} (booked : Booked m s)
    (found : s.tasks.lookup t = some (.flush f)) (phase : f.phase = .removeEntry data delta)
    (touch' : (Task.flush f').touch = none) :
    Booked m (s.resume t { s.shared with entries := s.shared.entries.erase f.target.path } (.flush f')) := by
  obtain ⟨bounded,bookings,holder,books⟩ := booked
  have touch : (Task.flush f).touch = some (.condemned f.target.path f.record) := by
    simp [Task.touch,phase]
  apply Booked.of
  · exact bounded
  · rw [account_resume found,touch']
    exact books.remove ((touches_found found).trans touch)

/-- A promotion measures the entry anew in one lock section. -/
theorem booked_promote {f f' : FlushTask} {taken : FlushSnapshot} {data : Bytes}
    {promo : PromotionSnapshot} {file : BlobFile} {inner current : PendingWriteMutable}
    (booked : Booked m s) (found : s.tasks.lookup t = some (.flush f))
    (phase : f.phase = .promoteSwap taken data promo file)
    (present : s.shared.inner f.record = some inner) (generation : current.generation = inner.generation)
    (live : s.live f.target.path = some f.record) (closed : s.opens f.record = [])
    (read : promo.previousAccounted = m.accountedBytesForBlob inner)
    (fits : s.shared.accountedBytes +
      (m.accountedBytesForBlob current - promo.previousAccounted) < 2 ^ 64)
    (touch' : (Task.flush f').touch = none) :
    Booked m (s.resume t
      { s.shared.setInner f.record current with
        accountedBytes := reaccount s.shared.accountedBytes promo.previousAccounted
          (m.accountedBytesForBlob current) } (.flush f')) := by
  obtain ⟨bounded,bookings,holder,books⟩ := booked
  have idle : (Task.flush f).touch = none := by simp [Task.touch,phase]
  have cell : (s.account m).cells f.record = some ⟨inner.generation,m.accountedBytesForBlob inner⟩ :=
    cell_of_inner present
  have alive : (s.account m).Live f.target.path f.record := live_account.mp live
  have booking : bookings f.record = m.accountedBytesForBlob inner :=
    books.live alive cell (not_updating closed)
  have enough : promo.previousAccounted ≤ s.shared.accountedBytes := by
    rw [read]
    exact booking ▸ books.booked_le alive.1
  have exactly := reaccount_exact enough bounded fits
  apply Booked.of
  · change reaccount _ _ _ < _
    omega
  · rw [account_resume found,touch']
    change Books _ _ ⟨_,_,_,(s.shared.setInner f.record current).cell m,_⟩
    rw [cell_setInner present,generation]
    apply books.recount alive cell (not_updating closed) ((touches_found found).trans idle)
    rw [exactly,read]
    change ((s.shared.accountedBytes - m.accountedBytesForBlob inner +
      m.accountedBytesForBlob current : Nat) : Int) = (s.shared.accountedBytes : Int) -
        (m.accountedBytesForBlob inner : Int) + (m.accountedBytesForBlob current : Int)
    omega

theorem booked_enqueue {tick : Nat} {e e' : EnqueueTask} (filed : RecordsFiled s.shared)
    (booked : Booked m s) (found : s.tasks.lookup t = some (.enqueue e))
    (accountable : EnqueueAccountable m s env e)
    (stepped : enqueueStep m tick env s.shared e = some (shared,e')) :
    Booked m (s.resume t shared (.enqueue e')) := by
  unfold enqueueStep at stepped
  unfold EnqueueAccountable at accountable
  cases phase : e.phase with
  | bump r =>
    rw [phase] at stepped accountable
    dsimp only at stepped accountable
    obtain ⟨live,square,below⟩ := accountable
    split at stepped
    next => cases stepped
    next inner present =>
      split at stepped
      all_goals
        cases stepped
        exact booked_bump booked found phase present live square (below inner present) rfl rfl
  | stageBlob r generation previous dir =>
    rw [phase] at stepped accountable
    dsimp only at stepped accountable
    have touch : (Task.enqueue e).touch = some (.opened e.target.path r generation previous) := by
      simp [Task.touch,phase]
    have ahead : (Task.enqueue e).ahead m = 0 := by simp [Task.ahead,phase]
    split at stepped
    next =>
      cases stepped
      exact booked_still booked found rfl rfl rfl touch.symm ahead.symm
    next failed =>
      cases stepped
      exact booked_close booked found rfl rfl rfl touch rfl ahead.symm (accountable.resolve_left failed)
  | stageMeta r generation previous file =>
    rw [phase] at stepped accountable
    dsimp only at stepped accountable
    have touch : (Task.enqueue e).touch = some (.opened e.target.path r generation previous) := by
      simp [Task.touch,phase]
    have ahead : (Task.enqueue e).ahead m = 0 := by simp [Task.ahead,phase]
    split at stepped
    next =>
      cases stepped
      exact booked_still booked found rfl rfl rfl touch.symm ahead.symm
    next failed =>
      cases stepped
      exact booked_close booked found rfl rfl rfl touch rfl ahead.symm (accountable.resolve_left failed)
  | swap r generation previous staged =>
    rw [phase] at stepped accountable
    dsimp only at stepped accountable
    split at stepped
    next => cases stepped
    next inner present =>
      split at stepped
      next current =>
        cases stepped
        subst current
        refine booked_swap booked found phase present (accountable inner present rfl) ?_ ?_
        · simp only [Task.touch,EnqueueTask.takeEffect,discardPhase]
          cases inner.blob with
          | memory data => rfl
          | disk file => rfl
        · simp only [Task.ahead,EnqueueTask.takeEffect,discardPhase]
          cases inner.blob with
          | memory data => rfl
          | disk file => rfl
      next moved =>
        cases stepped
        have touch : (Task.enqueue e).touch = some (.opened e.target.path r generation previous) := by
          simp [Task.touch,phase]
        refine booked_close booked found rfl rfl rfl touch ?_ ?_ (.inl (by simpa [present] using moved))
        · cases staged with
          | none => rfl
          | some file => rfl
        · cases staged with
          | none => simp [Task.ahead,phase]; rfl
          | some file => simp [Task.ahead,phase]; rfl
  | account stored =>
    rw [phase] at stepped accountable
    cases stepped
    exact booked_account booked found phase accountable rfl rfl
  | insert stored =>
    rw [phase] at stepped accountable
    cases stepped
    exact booked_insert filed booked found phase accountable rfl rfl
  | _ =>
    have touch : (Task.enqueue e).touch = none := by simp [Task.touch,phase]
    have ahead : (Task.enqueue e).ahead m = 0 := by simp [Task.ahead,phase]
    rw [phase] at stepped
    dsimp only at stepped
    repeat' split at stepped
    all_goals cases stepped
    all_goals exact booked_still booked found rfl rfl rfl touch.symm ahead.symm

/-- The sections of a flush in which it does not count its entry. -/
theorem flushStep_uncounted {s s' : Shared} {f : FlushTask} {phase : FlushPhase}
    (stepped : flushStep m env s f = some (s',phase))
    (check : ∀ taken data previousSize infoSize, f.phase ≠ .check taken data previousSize infoSize)
    (remove : ∀ data delta, f.phase ≠ .removeEntry data delta)
    (promote : ∀ taken data promo file, f.phase ≠ .promoteSwap taken data promo file) :
    s'.accountedBytes = s.accountedBytes ∧ s'.entries = s.entries ∧ s'.cell m = s.cell m ∧
      (Task.flush { f with phase }).touch = none := by
  unfold flushStep at stepped
  split at stepped
  next => cases stepped
  next inner found =>
    cases current : f.phase with
    | check taken data previousSize infoSize => exact absurd current (check _ _ _ _)
    | removeEntry data delta => exact absurd current (remove _ _)
    | promoteSwap taken data promo file => exact absurd current (promote _ _ _ _)
    | _ =>
      rw [current] at stepped
      dsimp only at stepped
      repeat' split at stepped
      all_goals cases stepped
      all_goals first
        | exact ⟨rfl,rfl,rfl,rfl⟩
        | exact ⟨rfl,rfl,cell_setInner_same found rfl rfl rfl,rfl⟩

theorem booked_flush {f : FlushTask} {phase : FlushPhase} (booked : Booked m s)
    (found : s.tasks.lookup t = some (.flush f)) (accountable : FlushAccountable m s f)
    (stepped : flushStep m env s.shared f = some (shared,phase)) :
    Booked m (s.resume t shared (.flush { f with phase })) := by
  have unchanged (touch : (Task.flush f).touch = none)
      (parts : shared.accountedBytes = s.shared.accountedBytes ∧ shared.entries = s.shared.entries ∧
        shared.cell m = s.shared.cell m ∧ (Task.flush { f with phase }).touch = none) :
      Booked m (s.resume t shared (.flush { f with phase })) :=
    booked_still booked found parts.1 parts.2.1 parts.2.2.1 (parts.2.2.2.trans touch.symm) rfl
  unfold FlushAccountable at accountable
  cases current : f.phase with
  | check taken data previousSize infoSize =>
    have touch : (Task.flush f).touch = none := by simp [Task.touch,current]
    rw [current] at accountable
    dsimp only at accountable
    unfold flushStep at stepped
    split at stepped
    next => cases stepped
    next inner present =>
      rw [current] at stepped
      dsimp only at stepped
      split at stepped
      next =>
        cases stepped
        exact unchanged touch ⟨rfl,rfl,cell_setInner_same present rfl rfl rfl,rfl⟩
      next same =>
        cases stepped
        obtain ⟨live,closed⟩ := accountable inner present (not_not.mp same)
        refine booked_check booked found current present live closed rfl ?_ ?_ rfl
        · cases inner.blob <;> rfl
        · cases inner.blob <;> rfl
  | removeEntry data delta =>
    unfold flushStep at stepped
    split at stepped
    next => cases stepped
    next =>
      rw [current] at stepped
      cases stepped
      exact booked_remove booked found current rfl
  | promoteSwap taken data promo file =>
    have touch : (Task.flush f).touch = none := by simp [Task.touch,current]
    rw [current] at accountable
    dsimp only at accountable
    unfold flushStep at stepped
    split at stepped
    next => cases stepped
    next inner present =>
      rw [current] at stepped
      dsimp only at stepped
      split at stepped
      next same =>
        cases stepped
        obtain ⟨live,closed,read,fits⟩ := accountable inner present same
        rw [accounted_of_inner present] at read
        exact booked_promote booked found current present rfl live closed read fits rfl
      next =>
        cases stepped
        exact unchanged touch ⟨rfl,rfl,rfl,rfl⟩
  | _ =>
    have touch : (Task.flush f).touch = none := by simp [Task.touch,current]
    refine unchanged touch (flushStep_uncounted stepped ?_ ?_ ?_)
    all_goals simp [current]

theorem booked_spawn {task : Task} (numbered : Numbered s) (booked : Booked m s)
    (counter : shared.accountedBytes = s.shared.accountedBytes)
    (entries : shared.entries = s.shared.entries) (records : shared.records = s.shared.records)
    (touch : task.touch = none) (ahead : task.ahead m = 0) : Booked m (s.spawn shared task) := by
  obtain ⟨bounded,bookings,holder,books⟩ := booked
  have fresh := numbered s.nextTask le_rfl
  have pending : Store.total (fun _ task => (task.ahead m : Int)) (s.tasks.insert s.nextTask task) =
      Store.total (fun _ task => (task.ahead m : Int)) s.tasks := by
    rw [Store.total_insert,Store.share_none _ fresh,ahead]
    simp
  have touches : (fun u => ((s.tasks.insert s.nextTask task).lookup u).bind Task.touch) =
      fun u => (s.tasks.lookup u).bind Task.touch := by
    ext1 u
    by_cases same : u = s.nextTask
    · subst same
      simp [fresh,touch]
    · simp [same]
  have cells : shared.cell m = s.shared.cell m := by
    ext1 r
    rw [Shared.cell,Shared.inner,records]
    rfl
  have same : (s.spawn shared task).account m = s.account m := by
    simp only [State.account,State.spawn,counter,entries,cells,pending,touches]
  refine ⟨counter ▸ bounded,bookings,holder,?_⟩
  rw [same]
  exact books

end

theorem booked_step {m : WriteCacheManager} {s s' : State} {action : Action} (filed : Filed s)
    (booked : Booked m s) (accountable : Accountable m s action)
    (stepped : cacheStep m s action = some s') : Booked m s' := by
  rcases cacheStep_cases stepped with ⟨target,data,rfl,rfl⟩ | ⟨r,force,record,rfl,_,rfl⟩ |
    ⟨key,task,rfl,_,rfl⟩ | ⟨t,env,task,shared,task',rfl,found,computed,rfl⟩ | ⟨path,rfl,rfl⟩
  · exact booked_spawn filed.numbered booked rfl rfl rfl rfl rfl
  · exact booked_spawn filed.numbered booked rfl rfl rfl rfl rfl
  · exact booked_spawn filed.numbered booked rfl rfl rfl rfl rfl
  · simp only [Accountable,found] at accountable
    cases task with
    | enqueue e =>
      obtain ⟨out,advanced,same⟩ := Option.map_eq_some_iff.mp computed
      cases same
      exact booked_enqueue filed.records booked found accountable advanced
    | flush f =>
      obtain ⟨out,advanced,same⟩ := Option.map_eq_some_iff.mp computed
      cases same
      exact booked_flush booked found accountable advanced
    | quotaSync q =>
      obtain ⟨out,advanced,same⟩ := Option.map_eq_some_iff.mp computed
      cases same
      have parts : out.1.accountedBytes = s.shared.accountedBytes ∧ out.1.entries = s.shared.entries ∧
          out.1.cell m = s.shared.cell m := by
        unfold quotaStep at advanced
        repeat' split at advanced
        all_goals cases advanced
        all_goals exact ⟨rfl,rfl,rfl⟩
      exact booked_still booked found parts.1 parts.2.1 parts.2.2 rfl rfl
  · exact ⟨booked.bounded,booked.books⟩

/-- What a step takes off the counter is there. -/
theorem withdrawal_le {m : WriteCacheManager} {s : State} {action : Action} (booked : Booked m s)
    (accountable : Accountable m s action) : withdrawal m s action ≤ s.shared.accountedBytes := by
  obtain ⟨bounded,bookings,holder,books⟩ := booked
  have live {path : Text} {r : RecordId} {inner : PendingWriteMutable}
      (present : s.shared.inner r = some inner) (alive : s.live path = some r) (closed : s.opens r = []) :
      m.accountedBytesForBlob inner ≤ s.shared.accountedBytes := by
    have account := (live_account (m := m)).mp alive
    have booking : bookings r = m.accountedBytesForBlob inner :=
      books.live account (cell_of_inner present) (not_updating closed)
    rw [← booking]
    exact books.booked_le account.1
  unfold withdrawal
  unfold Accountable at accountable
  split
  next t env =>
    dsimp only at accountable
    split
    next e found =>
      rw [found] at accountable
      dsimp only at accountable
      split
      next r generation previous staged inner phase present =>
        split
        next current =>
          subst current
          have held : s.shared.inner r = some inner := by simpa [phase,EnqueuePhase.updates] using present
          have touch : (Task.enqueue e).touch =
              some (.opened e.target.path r inner.generation previous) := by
            simp [Task.touch,phase]
          obtain ⟨_,booking,entry⟩ := books.opened t _ r _ previous
            ((touches_found (m := m) found).trans touch) (cell_of_inner held)
          have enough : previous ≤ s.shared.accountedBytes := booking ▸ books.booked_le entry
          omega
        next => exact Nat.zero_le _
      next => exact Nat.zero_le _
    next f found =>
      rw [found] at accountable
      dsimp only at accountable
      unfold FlushAccountable at accountable
      split
      next taken data previousSize infoSize inner phase present =>
        rw [phase] at accountable
        split
        next same =>
          obtain ⟨alive,closed⟩ := accountable inner present same
          exact live present alive closed
        next => exact Nat.zero_le _
      next taken data promo file inner phase present =>
        rw [phase] at accountable
        split
        next same =>
          obtain ⟨alive,closed,read,_⟩ := accountable inner present same
          rw [accounted_of_inner present] at read
          have enough := live present alive closed
          omega
        next => exact Nat.zero_le _
      next => exact Nat.zero_le _
    next => exact Nat.zero_le _
  next => exact Nat.zero_le _

/-- A manager at rest whose counter is right for the entries it has loaded. -/
structure AccountStart (m : WriteCacheManager) (s : State) : Prop where
  idle : s.tasks = ∅
  filed : RecordsFiled s.shared
  counted : (s.shared.accountedBytes : Int) = s.shared.accountedTotal m
  bounded : s.shared.accountedBytes < 2 ^ 64

/-- No enqueue and no flush is in progress. -/
def Task.ended : Task → Bool
  | .enqueue e =>
    match e.phase with
    | .done _ => true
    | _ => false
  | .flush f =>
    match f.phase with
    | .done _ => true
    | _ => false
  | .quotaSync _ => true

def AtRest (s : State) : Prop := ∀ t task, s.tasks.lookup t = some task → task.ended = true

instance (s : State) : Decidable (AtRest s) :=
  decidable_of_iff (∀ cell ∈ s.tasks.entries, cell.2.ended = true)
    ⟨fun all t task present => all ⟨t,task⟩ (AList.mem_lookup_iff.mp present),
      fun all cell member => all cell.1 cell.2 (AList.mem_lookup_iff.mpr member)⟩

theorem ended_touches_nothing {m : WriteCacheManager} {task : Task} (ended : task.ended = true) :
    task.touch = none ∧ task.ahead m = 0 := by
  cases task with
  | enqueue e =>
    simp only [Task.ended] at ended
    split at ended
    next phase => simp [Task.touch,Task.ahead,phase]
    next => contradiction
  | flush f =>
    simp only [Task.ended] at ended
    split at ended
    next phase => simp [Task.touch,Task.ahead,phase]
    next => contradiction
  | quotaSync q => exact ⟨rfl,rfl⟩

theorem booked_start {m : WriteCacheManager} {s : State} (start : AccountStart m s) : Booked m s := by
  have nobody : ∀ t, (s.account m).touches t = none := by
    intro t
    simp [State.account,start.idle]
  refine ⟨start.bounded,s.shared.accounted m,fun _ => none,?_⟩
  constructor
  · have counted := start.counted
    simp only [Shared.accountedTotal] at counted
    simp [State.account,start.idle,counted]
  · intro k k' r entry entry'
    obtain ⟨record,held,place⟩ := start.filed.mapped k r entry
    obtain ⟨record',held',place'⟩ := start.filed.mapped k' r entry'
    obtain rfl : record = record' := Option.some.inj (held.symm.trans held')
    rw [← place,place']
  · intro k r cell entry found _
    obtain ⟨inner,present,_,amount⟩ := inner_of_cell found
    rw [accounted_of_inner present,amount]
  · intro t k r generation previous touch
    rw [nobody] at touch
    cases touch
  · intro t k r cell previous touch
    rw [nobody] at touch
    cases touch
  · intro t k r touch
    rw [nobody] at touch
    cases touch
  · intro t r holds
    cases holds

/-- At rest the counter is the sum of what the entries account for. -/
theorem booked_at_rest {m : WriteCacheManager} {s : State} (filed : Filed s) (booked : Booked m s)
    (rest : AtRest s) : (s.shared.accountedBytes : Int) = s.shared.accountedTotal m := by
  obtain ⟨_,bookings,holder,books⟩ := booked
  have pending : (s.account m).pending = 0 := by
    have zero : Store.total (fun _ task => (task.ahead m : Int)) s.tasks = 0 := by
      apply Store.total_zero
      intro t task present
      rw [(ended_touches_nothing (rest t task present)).2]
      rfl
    simp [State.account,zero]
  have untouched : ∀ t, (s.account m).touches t = none := by
    intro t
    cases found : s.tasks.lookup t with
    | none => simp [State.account,found]
    | some task => exact (touches_found found).trans (ended_touches_nothing (m := m) (rest t task found)).1
  have filled : ∀ k r, (s.account m).entries.lookup k = some r → ((s.account m).cells r).isSome = true := by
    intro k r entry
    obtain ⟨record,held,_⟩ := filed.records.mapped k r entry
    simp [State.account,Shared.cell,Shared.inner,held]
  have total := books.at_rest pending untouched filled
  simpa [State.account,Shared.accountedTotal,Shared.accounted,Shared.cell,Option.map_map,Function.comp_def]
    using total

/-- Along every run in which nothing counts an entry between the two sections of
an update, the counter never wraps and is exact whenever no call is in progress. -/
theorem accounted_bytes_exact {m : WriteCacheManager} {s final : State} {actions : List Action}
    (start : AccountStart m s) (run : (cache m).Run (Accountable m) s actions final) :
    (∀ action, Accountable m final action → withdrawal m final action ≤ final.shared.accountedBytes) ∧
      (AtRest final → (final.shared.accountedBytes : Int) = final.shared.accountedTotal m) := by
  have filedStart : Filed s := by
    refine ⟨fun t _ => by rw [start.idle,AList.lookup_empty],start.filed,?_⟩
    intro t task found
    rw [start.idle,AList.lookup_empty] at found
    contradiction
  have kept : Filed final ∧ Booked m final := by
    apply Transition.System.Run.invariant ?_ run
    · exact ⟨filedStart,booked_start start⟩
    · intro s action next both accountable stepped
      exact ⟨filed_step both.1 stepped,booked_step both.1 both.2 accountable stepped⟩
  exact ⟨fun action => withdrawal_le kept.2,booked_at_rest kept.1 kept.2⟩

theorem accountStart_fresh (m : WriteCacheManager) (primary : Store Text Bytes) :
    AccountStart m (.fresh primary) := by
  refine ⟨rfl,⟨?_,?_⟩,rfl,by simp [State.fresh]⟩
  · simp [State.fresh]
  · simp [State.fresh]

/-- A new file, an update of it and a flush, one after the other. -/
def orderlyUpdate : List Action :=
  .enqueue fileA [1] :: advances 0 10 ++ .enqueue fileA [2,3] :: advances 1 10 ++
    .flush 0 true :: advances 2 11

theorem orderly_update_exact : ∃ final,
    (cache memoryManager).Run (Accountable memoryManager) (.fresh ∅) orderlyUpdate final ∧
      ((∀ action, Accountable memoryManager final action →
          withdrawal memoryManager final action ≤ final.shared.accountedBytes) ∧
        (AtRest final → (final.shared.accountedBytes : Int) = final.shared.accountedTotal memoryManager)) := by
  have computed : ((cache memoryManager).execAllowed (Accountable memoryManager) (.fresh ∅)
      orderlyUpdate).isSome = true := by decide +kernel
  obtain ⟨final,reached⟩ := Option.isSome_iff_exists.mp computed
  have run := Transition.System.execAllowed_run reached
  exact ⟨final,run,accounted_bytes_exact (accountStart_fresh memoryManager ∅) run⟩

/-- An update whose staging fails has recorded its size already; the flush takes
that size off the counter. -/
def failedStaging : List Action :=
  .enqueue fileA [1] :: advances 0 11 ++ .enqueue fileA [2,3] :: advances 1 5 ++
    .advance 1 ⟨false,0⟩ :: .flush 0 true :: advances 2 11

theorem failed_staging_wraps :
    ¬ ∀ actions final, (cache { memoryManager with backend := .localDir }).exec (.fresh ∅) actions = some final →
      AtRest final → (final.shared.accountedBytes : Int) =
        final.shared.accountedTotal { memoryManager with backend := .localDir } :=
  Transition.System.exec_refutes failedStaging (by decide +kernel)

end StorageHub.WriteCache
