import StorageHub.Library.Transition
import StorageHub.WriteCache.Record

/-! The read cache as a transition system. One step is one operation on the map
of entries, on the byte counter, on the clock of the last sweep or on a file;
the environment chooses the clock reading, whether a file operation succeeds and
which of the oldest entries an eviction takes. -/
namespace StorageHub.ReadCache
open Library
open WriteCache (Bytes CachePathPolicy fetchAdd fetchSub u64Max fetchAdd_exact fetchSub_exact)

inductive ReadCacheBackend
  | memory
  | localDir
  deriving DecidableEq,Repr

/-- The bytes themselves, or the file `{hash}.bin` of a key. -/
inductive ReadCacheBlob
  | memory (data : Bytes)
  | disk (key : Text)
  deriving DecidableEq

structure ReadCacheEntry where
  key : Text
  size : Nat
  lastAccessedAt : Int
  expiresAt : Int
  blob : ReadCacheBlob
  deriving DecidableEq

structure ReadCacheManager where
  enabled : Bool
  backend : ReadCacheBackend
  capacityBytes : Nat
  maxFileSizeBytes : Nat
  ttlSecs : Nat
  cleanupIntervalSecs : Nat
  policy : CachePathPolicy
  capacityFits : capacityBytes ≤ u64Max

def ReadCacheManager.shouldCache (m : ReadCacheManager) (path : Text) (size : Nat) : Bool :=
  m.enabled && m.policy.allows path && decide (0 < size) && decide (size ≤ m.maxFileSizeBytes) &&
    decide (size ≤ m.capacityBytes)

/-- The check of `ensure_capacity`, with its `saturating_add`. -/
def ReadCacheManager.fits (m : ReadCacheManager) (used required : Nat) : Bool :=
  decide (min (used + required) u64Max ≤ m.capacityBytes)

structure Shared where
  entries : Store Text ReadCacheEntry
  accountedBytes : Nat
  lastCleanupTs : Int
  dataFiles : Store Text Bytes

structure Env where
  ok : Bool
  now : Int
  pick : Nat
  deriving DecidableEq,Repr

namespace Shared
variable (s : Shared)

/-- The keys a sweep collects. -/
def expiredKeys (now : Int) : List Text :=
  (s.entries.entries.filter fun cell => decide (cell.2.expiresAt ≤ now)).map (·.1)

/-- An entry with the least `last_accessed_at`; which of several is up to the
order of the map. -/
def oldestKey (pick : Nat) : Option Text :=
  let cells := s.entries.entries
  let oldest := cells.filter fun cell =>
    cells.all fun other => decide (cell.2.lastAccessedAt ≤ other.2.lastAccessedAt)
  (oldest[pick % oldest.length]?).map (·.1)

end Shared

/-- A `remove` under way inside a call. -/
inductive Removal
  | take (key : Text)
  | subtract (entry : ReadCacheEntry)
  | discard (key : Text)
  deriving DecidableEq

/-- Where a call goes on once the removal it waits for is over. -/
inductive Phase
  | lookup
  | readFile (key : Text)
  | accept (data : Bytes)
  | sweepLoad (data : Bytes) (force : Bool)
  | sweepStore (data : Bytes) (force : Bool) (now : Int)
  | sweepCollect (data : Bytes) (force : Bool) (now : Int)
  | sweepRemove (data : Bytes) (force : Bool) (keys : List Text)
  | capacity (data : Bytes)
  | evict (data : Bytes)
  | stamp (data : Bytes)
  | writeData (data : Bytes) (createdAt : Int)
  | writeMeta (data : Bytes) (createdAt : Int)
  | abandon
  | count (data : Bytes) (createdAt : Int)
  | insert (data : Bytes) (createdAt : Int)
  | done (result : Option Bytes)
  deriving DecidableEq

structure Call where
  key : Text
  removal : Option Removal
  phase : Phase
  deriving DecidableEq

def Call.goto (call : Call) (phase : Phase) : Call := { call with phase }

def Call.removing (call : Call) (key : Text) (phase : Phase) : Call :=
  { call with removal := some (.take key), phase }

def removeStep (env : Env) (s : Shared) : Removal → Shared × Option Removal
  | .take key =>
    match s.entries.lookup key with
    | none => (s,none)
    | some entry => ({ s with entries := s.entries.erase key },some (.subtract entry))
  | .subtract entry =>
    let s := { s with accountedBytes := fetchSub s.accountedBytes entry.size }
    match entry.blob with
    | .memory _ => (s,none)
    | .disk key => (s,some (.discard key))
  | .discard key => ({ s with dataFiles := if env.ok then s.dataFiles.erase key else s.dataFiles },none)

/-- The entry a put files. -/
def ReadCacheManager.entryOf (m : ReadCacheManager) (key : Text) (data : Bytes) (createdAt : Int) :
    ReadCacheEntry where
  key := key
  size := data.length
  lastAccessedAt := createdAt
  expiresAt := createdAt + m.ttlSecs
  blob := match m.backend with
    | .memory => .memory data
    | .localDir => .disk key

section steps
variable (m : ReadCacheManager) (env : Env) (s : Shared) (call : Call)

/-- The whole of `get` up to the read of a file happens under the guard of its
entry. -/
def getStep : Shared × Call :=
  if !m.enabled || !m.policy.allows call.key then (s,call.goto (.done none))
  else match s.entries.lookup call.key with
    | none => (s,call.goto (.done none))
    | some entry =>
      if entry.expiresAt ≤ env.now then (s,call.removing call.key (.done none))
      else
        let s := { s with entries := s.entries.insert call.key { entry with lastAccessedAt := env.now } }
        match entry.blob with
        | .memory data => (s,call.goto (.done (some data)))
        | .disk file => (s,call.goto (.readFile file))

/-- `cleanup_expired_if_due`, first when a put begins and then, forced, when it
is to ensure capacity. -/
def sweepNext (data : Bytes) (force : Bool) : Phase :=
  if force then .capacity data else .sweepLoad data true

def phaseStep : Phase → Option (Shared × Call)
  | .lookup => some (getStep m env s call)
  | .readFile file =>
    match (if env.ok then s.dataFiles.lookup file else none) with
    | some data => some (s,call.goto (.done (some data)))
    | none => some (s,call.removing call.key (.done none))
  | .accept data =>
    if m.shouldCache call.key data.length then some (s,call.removing call.key (.sweepLoad data false))
    else some (s,call.goto (.done none))
  | .sweepLoad data force =>
    if !force && decide (env.now - s.lastCleanupTs < m.cleanupIntervalSecs) then
      some (s,call.goto (sweepNext data force))
    else some (s,call.goto (.sweepStore data force env.now))
  | .sweepStore data force now =>
    some ({ s with lastCleanupTs := now },call.goto (.sweepCollect data force now))
  | .sweepCollect data force now => some (s,call.goto (.sweepRemove data force (s.expiredKeys now)))
  | .sweepRemove data force keys =>
    match keys with
    | [] => some (s,call.goto (sweepNext data force))
    | key::rest => some (s,call.removing key (.sweepRemove data force rest))
  | .capacity data =>
    if m.fits s.accountedBytes data.length then some (s,call.goto (.stamp data))
    else some (s,call.goto (.evict data))
  | .evict data =>
    match s.oldestKey env.pick with
    | none => some (s,call.goto (.done none))
    | some key => some (s,call.removing key (.capacity data))
  | .stamp data =>
    match m.backend with
    | .memory => some (s,call.goto (.count data env.now))
    | .localDir => some (s,call.goto (.writeData data env.now))
  | .writeData data createdAt =>
    if env.ok then
      some ({ s with dataFiles := s.dataFiles.insert call.key data },call.goto (.writeMeta data createdAt))
    else some (s,call.goto .abandon)
  | .writeMeta data createdAt =>
    if env.ok then some (s,call.goto (.count data createdAt)) else some (s,call.goto .abandon)
  | .abandon =>
    some ({ s with dataFiles := if env.ok then s.dataFiles.erase call.key else s.dataFiles },
      call.goto (.done none))
  | .count data createdAt =>
    some ({ s with accountedBytes := fetchAdd s.accountedBytes data.length },call.goto (.insert data createdAt))
  | .insert data createdAt =>
    some ({ s with entries := s.entries.insert call.key (m.entryOf call.key data createdAt) },
      call.goto (.done none))
  | .done _ => none

def callStep : Option (Shared × Call) :=
  match call.removal with
  | some removal =>
    let out := removeStep env s removal
    some (out.1,{ call with removal := out.2 })
  | none => phaseStep m env s call call.phase

end steps

structure State where
  shared : Shared
  calls : Store Nat Call
  nextCall : Nat

inductive Action
  | get (key : Text)
  | put (key : Text) (data : Bytes)
  | remove (key : Text)
  | advance (call : Nat) (env : Env)
  deriving DecidableEq

def State.begin_ (s : State) (call : Call) : State :=
  { s with calls := s.calls.insert s.nextCall call, nextCall := s.nextCall + 1 }

def State.resume (s : State) (c : Nat) (shared : Shared) (call : Call) : State :=
  { s with shared, calls := s.calls.insert c call }

def cacheStep (m : ReadCacheManager) (s : State) : Action → Option State
  | .get key => some (s.begin_ ⟨key,none,.lookup⟩)
  | .put key data => some (s.begin_ ⟨key,none,.accept data⟩)
  | .remove key => some (s.begin_ ⟨key,some (.take key),.done none⟩)
  | .advance c env => (s.calls.lookup c).bind fun call =>
    (callStep m env s.shared call).map fun out => s.resume c out.1 out.2

def readCache (m : ReadCacheManager) : Transition.System State Action := ⟨cacheStep m⟩

def State.fresh : State := ⟨⟨∅,0,0,∅⟩,∅,0⟩

/-! ### Bounds -/

/-- The sum of the entry sizes. -/
def Shared.sizes (s : Shared) : Int := Store.total (fun _ entry => (entry.size : Int)) s.entries

/-- What a removal has taken out of the map and not yet off the counter. -/
def Removal.owed : Removal → Nat
  | .subtract entry => entry.size
  | .take _ | .discard _ => 0

/-- What a put has added to the counter and not yet filed. -/
def Phase.owed : Phase → Nat
  | .insert data _ => data.length
  | _ => 0

/-- What a put has found room for and not yet counted. -/
def Phase.granted : Phase → Nat
  | .stamp data | .writeData data _ | .writeMeta data _ | .count data _ => data.length
  | _ => 0

def Call.owed (call : Call) : Nat := call.removal.elim 0 Removal.owed + call.phase.owed

def State.owed (s : State) : Int := Store.total (fun _ call => (call.owed : Int)) s.calls

def State.granted (s : State) : Int := Store.total (fun _ call => (call.phase.granted : Int)) s.calls

section conditions
variable (m : ReadCacheManager) (s : State) (key : Text)

/-- Room is found for bytes that fit beside what other puts have found room for,
and an entry is filed where there is none. -/
def PhaseOrderly : Phase → Prop
  | .capacity data => m.fits s.shared.accountedBytes data.length = true →
    s.shared.accountedBytes + s.granted + data.length ≤ m.capacityBytes
  | .insert _ _ => s.shared.entries.lookup key = none
  | _ => True

def CallOrderly (call : Call) : Prop := call.removal = none → PhaseOrderly m s call.key call.phase

def Orderly : Action → Prop
  | .advance c _ => ∀ call ∈ s.calls.lookup c, CallOrderly m s call
  | .get _ | .put _ _ | .remove _ => True

instance : DecidablePred (PhaseOrderly m s key)
  | .capacity data => inferInstanceAs (Decidable (m.fits s.shared.accountedBytes data.length = true →
    s.shared.accountedBytes + s.granted + data.length ≤ m.capacityBytes))
  | .insert _ _ => inferInstanceAs (Decidable (s.shared.entries.lookup key = none))
  | .lookup | .readFile _ | .accept _ | .sweepLoad .. | .sweepStore .. | .sweepCollect ..
  | .sweepRemove .. | .evict _ | .stamp _ | .writeData .. | .writeMeta .. | .abandon | .count ..
  | .done _ => isTrue trivial

instance : DecidablePred (CallOrderly m s) := fun call =>
  inferInstanceAs (Decidable (call.removal = none → PhaseOrderly m s call.key call.phase))

end conditions

instance (m : ReadCacheManager) : DecidableRel (Orderly m)
  | s,.advance c _ => inferInstanceAs (Decidable (∀ call ∈ s.calls.lookup c, CallOrderly m s call))
  | _,.get _ | _,.put _ _ | _,.remove _ => isTrue trivial

def Call.ended : Call → Bool
  | ⟨_,none,.done _⟩ => true
  | _ => false

/-- No call is in progress. -/
def AtRest (s : State) : Prop := ∀ cell ∈ s.calls.entries, cell.2.ended = true

instance : DecidablePred AtRest := fun s =>
  inferInstanceAs (Decidable (∀ cell ∈ s.calls.entries, cell.2.ended = true))

/-- The account of a state: every byte counted is in an entry or owed by a call,
and all bytes counted or granted fit. -/
structure Balanced (m : ReadCacheManager) (s : State) : Prop where
  numbered : ∀ c, s.nextCall ≤ c → s.calls.lookup c = none
  counted : (s.shared.accountedBytes : Int) = s.shared.sizes + s.owed
  room : s.shared.accountedBytes + s.granted ≤ m.capacityBytes

section effects
variable {m : ReadCacheManager} {env : Env} {s s' : Shared} {call call' : Call}

theorem sizes_erase {key : Text} {entry : ReadCacheEntry} (found : s.entries.lookup key = some entry) :
    Shared.sizes { s with entries := s.entries.erase key } = s.sizes - entry.size := by
  unfold Shared.sizes
  rw [Store.total_erase,Store.share_some _ found]

/-- A removal takes off the counter what it has taken out of the map. -/
theorem removeStep_effect (env : Env) (removal : Removal) (owed : removal.owed ≤ s.accountedBytes)
    (bounded : s.accountedBytes < 2 ^ 64) :
    let out := removeStep env s removal
    (out.1.accountedBytes : Int) - out.1.sizes - (out.2.elim 0 Removal.owed : Nat) =
        s.accountedBytes - s.sizes - removal.owed ∧
      out.1.accountedBytes ≤ s.accountedBytes := by
  cases removal with
  | take key =>
    cases found : s.entries.lookup key with
    | none =>
      have still : removeStep env s (.take key) = (s,none) := by simp [removeStep,found]
      rw [still]
      exact ⟨rfl,le_refl _⟩
    | some entry =>
      have taken : removeStep env s (.take key) =
          ({ s with entries := s.entries.erase key },some (.subtract entry)) := by simp [removeStep,found]
      have sizes := sizes_erase found
      rw [taken]
      dsimp only [Option.elim_some,Removal.owed]
      constructor
      · omega
      · exact le_refl _
  | subtract entry =>
    have less : fetchSub s.accountedBytes entry.size = s.accountedBytes - entry.size :=
      fetchSub_exact owed bounded
    have enough : entry.size ≤ s.accountedBytes := owed
    have sizes : Shared.sizes { s with accountedBytes := s.accountedBytes - entry.size } = s.sizes := rfl
    cases kind : entry.blob with
    | memory data =>
      simp only [removeStep,less,kind,Option.elim_none,Removal.owed]
      omega
    | disk key =>
      simp only [removeStep,less,kind,Option.elim_some,Removal.owed]
      omega
  | discard key => exact ⟨rfl,le_refl _⟩

theorem sizes_touch {key : Text} {entry : ReadCacheEntry} (found : s.entries.lookup key = some entry)
    (now : Int) :
    Shared.sizes { s with entries := s.entries.insert key { entry with lastAccessedAt := now } } = s.sizes := by
  unfold Shared.sizes
  rw [Store.total_insert_found _ _ found]
  exact Int.sub_add_cancel _ _

theorem sizes_file (entry : ReadCacheEntry) {key : Text} (absent : s.entries.lookup key = none) :
    Shared.sizes { s with entries := s.entries.insert key entry } = s.sizes + entry.size := by
  unfold Shared.sizes
  rw [Store.total_insert,Store.share_none _ absent]
  omega

/-- A lookup moves no bytes. -/
theorem getStep_effect (m : ReadCacheManager) (env : Env) (s : Shared) (idle : call.removal = none) :
    (getStep m env s call).1.accountedBytes = s.accountedBytes ∧
      (getStep m env s call).1.sizes = s.sizes ∧ (getStep m env s call).2.owed = 0 ∧
        (getStep m env s call).2.phase.granted = 0 := by
  unfold getStep
  split
  next => simp [Call.goto,Call.owed,idle,Phase.owed,Phase.granted]
  next =>
    split
    next => simp [Call.goto,Call.owed,idle,Phase.owed,Phase.granted]
    next entry found =>
      split
      next => simp [Call.removing,Call.owed,Removal.owed,Phase.owed,Phase.granted]
      next =>
        have touched := sizes_touch found env.now
        dsimp only
        split <;> simp [touched,Call.goto,Call.owed,idle,Phase.owed,Phase.granted]

/-- A phase moves bytes between the counter, the map and what is owed or granted,
and grants only what it finds room for. -/
theorem phaseStep_effect {out : Shared × Call} (idle : call.removal = none)
    (advanced : phaseStep m env s call call.phase = some out)
    (bounded : s.accountedBytes + call.phase.granted < 2 ^ 64)
    (absent : ∀ data createdAt, call.phase = .insert data createdAt → s.entries.lookup call.key = none) :
    (out.1.accountedBytes : Int) - out.1.sizes - out.2.owed = s.accountedBytes - s.sizes - call.owed ∧
      (out.1.accountedBytes + out.2.phase.granted ≤ s.accountedBytes + call.phase.granted ∨
        ∃ data, call.phase = .capacity data ∧ m.fits s.accountedBytes data.length = true ∧
          out.1.accountedBytes = s.accountedBytes ∧ out.2.phase.granted = data.length) := by
  obtain ⟨key,removal,phase⟩ := call
  dsimp only at idle advanced bounded absent ⊢
  subst idle
  cases phase with
  | lookup =>
    cases advanced
    have idle : (⟨key,none,.lookup⟩ : Call).removal = none := rfl
    have moved := getStep_effect m env s idle
    obtain ⟨counter,sizes,owed,granted⟩ := moved
    rw [counter,sizes,owed,granted]
    exact ⟨rfl,.inl (Nat.le_refl _)⟩
  | readFile file =>
    simp only [phaseStep] at advanced
    split at advanced
    all_goals cases advanced
    all_goals exact ⟨rfl,.inl (Nat.le_refl _)⟩
  | accept data =>
    simp only [phaseStep] at advanced
    split at advanced
    all_goals cases advanced
    all_goals exact ⟨rfl,.inl (Nat.le_refl _)⟩
  | sweepLoad data force =>
    cases force
    all_goals
      simp only [phaseStep] at advanced
      split at advanced
      all_goals cases advanced
      all_goals exact ⟨rfl,.inl (Nat.le_refl _)⟩
  | sweepStore data force now =>
    cases advanced
    exact ⟨rfl,.inl (Nat.le_refl _)⟩
  | sweepCollect data force now =>
    cases advanced
    exact ⟨rfl,.inl (Nat.le_refl _)⟩
  | sweepRemove data force keys =>
    cases keys with
    | nil =>
      cases force
      all_goals cases advanced
      all_goals exact ⟨rfl,.inl (Nat.le_refl _)⟩
    | cons next rest =>
      cases advanced
      exact ⟨rfl,.inl (Nat.le_refl _)⟩
  | capacity data =>
    simp only [phaseStep] at advanced
    split at advanced
    next fits =>
      cases advanced
      exact ⟨rfl,.inr ⟨data,rfl,fits,rfl,rfl⟩⟩
    next =>
      cases advanced
      exact ⟨rfl,.inl (Nat.le_refl _)⟩
  | evict data =>
    simp only [phaseStep] at advanced
    split at advanced
    all_goals cases advanced
    all_goals exact ⟨rfl,.inl (Nat.le_refl _)⟩
  | stamp data =>
    simp only [phaseStep] at advanced
    split at advanced
    all_goals cases advanced
    all_goals exact ⟨rfl,.inl (Nat.le_refl _)⟩
  | writeData data createdAt | writeMeta data createdAt =>
    simp only [phaseStep] at advanced
    split at advanced
    all_goals cases advanced
    · exact ⟨rfl,.inl (Nat.le_refl _)⟩
    · exact ⟨rfl,.inl (Nat.le_add_right _ _)⟩
  | abandon =>
    cases advanced
    exact ⟨rfl,.inl (Nat.le_refl _)⟩
  | count data createdAt =>
    cases advanced
    have more : fetchAdd s.accountedBytes data.length = s.accountedBytes + data.length := fetchAdd_exact bounded
    have sizes (counter : Nat) : Shared.sizes { s with accountedBytes := counter } = s.sizes := rfl
    simp only [more,sizes,Call.goto,Call.owed,Option.elim_none,Phase.owed,Phase.granted]
    omega
  | insert data createdAt =>
    cases advanced
    have sizes := sizes_file (m.entryOf key data createdAt) (absent data createdAt rfl)
    have size : (m.entryOf key data createdAt).size = data.length := rfl
    simp only [sizes,size,Call.goto,Call.owed,Option.elim_none,Phase.owed,Phase.granted]
    omega
  | done result => cases advanced

end effects

section runs
variable {m : ReadCacheManager} {s final : State} {c : Nat} {call : Call}

theorem ended_owes_nothing (ended : call.ended = true) : call.owed = 0 := by
  unfold Call.ended at ended
  split at ended
  next => rfl
  next => contradiction

theorem sizes_nonneg (shared : Shared) : 0 ≤ shared.sizes :=
  Store.total_nonneg _ (fun _ _ => Int.natCast_nonneg _) _

theorem granted_nonneg (s : State) : 0 ≤ s.granted :=
  Store.total_nonneg _ (fun _ _ => Int.natCast_nonneg _) _

/-- What a call owes is on the counter. -/
theorem Balanced.owed_le (balanced : Balanced m s) (found : s.calls.lookup c = some call) :
    call.owed ≤ s.shared.accountedBytes := by
  have part := Store.measure_le_total (fun _ call => (call.owed : Int)) (fun _ _ => Int.natCast_nonneg _) found
  have entries := sizes_nonneg s.shared
  have counted := balanced.counted
  unfold State.owed at counted
  omega

/-- The counter and what a call has been granted stay below the capacity. -/
theorem Balanced.granted_le (balanced : Balanced m s) (found : s.calls.lookup c = some call) :
    s.shared.accountedBytes + call.phase.granted ≤ m.capacityBytes := by
  have part := Store.measure_le_total (fun _ call => (call.phase.granted : Int))
    (fun _ _ => Int.natCast_nonneg _) found
  have room := balanced.room
  unfold State.granted at room
  omega

/-- What one step of a call changes in the account. -/
theorem callStep_effect {env : Env} {out : Shared × Call} (balanced : Balanced m s)
    (found : s.calls.lookup c = some call) (orderly : CallOrderly m s call)
    (advanced : callStep m env s.shared call = some out) :
    (out.1.accountedBytes : Int) - out.1.sizes - out.2.owed =
        s.shared.accountedBytes - s.shared.sizes - call.owed ∧
      (out.1.accountedBytes : Int) + s.granted - call.phase.granted + out.2.phase.granted ≤
        m.capacityBytes := by
  have bounded : m.capacityBytes < 2 ^ 64 := Nat.lt_of_le_of_lt m.capacityFits (by decide)
  have owed := balanced.owed_le found
  have granted := balanced.granted_le found
  have room := balanced.room
  unfold callStep at advanced
  split at advanced
  next removal removing =>
    have share : call.owed = removal.owed + call.phase.owed := by simp [Call.owed,removing]
    have effect : _ ∧ _ := removeStep_effect env removal (s := s.shared) (by omega) (by omega)
    dsimp only at advanced effect
    generalize removeStep env s.shared removal = step at advanced effect
    obtain rfl := Option.some.inj advanced
    obtain ⟨moved,less⟩ := effect
    have share' : Call.owed { call with removal := step.2 } =
        step.2.elim 0 Removal.owed + call.phase.owed := rfl
    dsimp only
    rw [share',share]
    omega
  next idle =>
    have absent (data) (createdAt) (phase : call.phase = .insert data createdAt) :
        s.shared.entries.lookup call.key = none := by
      have fresh := orderly idle
      rw [phase] at fresh
      exact fresh
    obtain ⟨moved,less | ⟨data,phase,fits,same,grant⟩⟩ := phaseStep_effect idle advanced (by omega) absent
    · exact ⟨moved,by omega⟩
    · refine ⟨moved,?_⟩
      have enough := orderly idle
      rw [phase] at enough
      have enough := enough fits
      rw [same,grant,phase]
      simp only [Phase.granted]
      omega

theorem balanced_advance {env : Env} {out : Shared × Call} (balanced : Balanced m s)
    (found : s.calls.lookup c = some call) (orderly : CallOrderly m s call)
    (advanced : callStep m env s.shared call = some out) : Balanced m (s.resume c out.1 out.2) := by
  obtain ⟨moved,fits⟩ := callStep_effect balanced found orderly advanced
  have owed := Store.total_insert_found (fun _ call => (call.owed : Int)) out.2 found
  have granted := Store.total_insert_found (fun _ call => (call.phase.granted : Int)) out.2 found
  have counted := balanced.counted
  constructor
  · intro d later
    have other : d ≠ c := by
      rintro rfl
      rw [balanced.numbered d later] at found
      cases found
    exact (AList.lookup_insert_ne other).trans (balanced.numbered d later)
  · simp only [State.resume,State.owed] at counted ⊢
    omega
  · simp only [State.resume,State.granted] at fits ⊢
    omega

theorem balanced_begin {call : Call} (balanced : Balanced m s) (owed : call.owed = 0)
    (granted : call.phase.granted = 0) : Balanced m (s.begin_ call) := by
  have absent := balanced.numbered s.nextCall (Nat.le_refl _)
  have owed' := Store.total_insert (fun _ call => (call.owed : Int)) s.calls s.nextCall call
  have granted' := Store.total_insert (fun _ call => (call.phase.granted : Int)) s.calls s.nextCall call
  rw [Store.share_none _ absent] at owed' granted'
  have counted := balanced.counted
  have room := balanced.room
  constructor
  · intro d later
    simp only [State.begin_] at later ⊢
    rw [AList.lookup_insert_ne (by omega)]
    exact balanced.numbered d (by omega)
  · simp only [State.begin_,State.owed] at counted ⊢
    omega
  · simp only [State.begin_,State.granted] at room ⊢
    omega

theorem balanced_step {action : Action} {next : State} (balanced : Balanced m s)
    (orderly : Orderly m s action) (stepped : cacheStep m s action = some next) : Balanced m next := by
  cases action with
  | get key | put key data | remove key =>
    cases stepped
    exact balanced_begin balanced rfl rfl
  | advance c env =>
    obtain ⟨call,found,stepped⟩ := Option.bind_eq_some_iff.mp stepped
    obtain ⟨out,advanced,rfl⟩ := Option.map_eq_some_iff.mp stepped
    exact balanced_advance balanced found (orderly call found) advanced

/-- A cache as it is opened: no call is in progress and the entries it has
reloaded are counted and fit. -/
structure Opened (m : ReadCacheManager) (s : State) : Prop where
  idle : s.calls = ∅
  counted : (s.shared.accountedBytes : Int) = s.shared.sizes
  room : s.shared.accountedBytes ≤ m.capacityBytes

theorem Opened.balanced (opened : Opened m s) : Balanced m s := by
  obtain ⟨idle,counted,room⟩ := opened
  constructor
  · intro d _
    rw [idle,AList.lookup_empty]
  · simp [State.owed,idle,counted]
  · simpa [State.granted,idle] using room

/-- Along every run in which room is found beside what is granted already and no
entry is filed over another, no subtraction takes off more than the counter has,
and at rest the counter is the sum of the sizes and within the capacity. -/
theorem accounted_within_bounds {actions : List Action} (opened : Opened m s)
    (run : (readCache m).Run (Orderly m) s actions final) :
    (∀ c call entry, final.calls.lookup c = some call → call.removal = some (.subtract entry) →
        entry.size ≤ final.shared.accountedBytes) ∧
      (AtRest final → (final.shared.accountedBytes : Int) = final.shared.sizes ∧
        final.shared.accountedBytes ≤ m.capacityBytes) := by
  have balanced : Balanced m final := by
    apply Transition.System.Run.invariant ?_ run opened.balanced
    intro s action next balanced orderly stepped
    exact balanced_step balanced orderly stepped
  constructor
  · intro c call entry found removing
    have owed := balanced.owed_le found
    simp only [Call.owed,removing,Option.elim_some,Removal.owed] at owed
    omega
  · intro rest
    have nothing : final.owed = 0 := by
      apply Store.total_zero
      intro c call found
      rw [ended_owes_nothing (rest ⟨c,call⟩ (AList.mem_lookup_iff.mp found))]
      rfl
    have counted := balanced.counted
    have room := balanced.room
    have granted := granted_nonneg final
    omega

end runs

/-! ### Two puts at once -/

def smallCache (capacityBytes : Nat) (fits : capacityBytes ≤ u64Max) : ReadCacheManager where
  enabled := true
  backend := .memory
  capacityBytes := capacityBytes
  maxFileSizeBytes := 10
  ttlSecs := 100
  cleanupIntervalSecs := 25
  policy := .new true []
  capacityFits := fits

/-- Steps of one call at one time. -/
def advances (c : Nat) (now : Int) (steps : Nat) : List Action :=
  List.replicate steps (.advance c ⟨true,now,0⟩)

/-- A put, a hit, a put that has to evict for its room, and a removal, one call
after the other. -/
def callsInTurn : List Action :=
  .put "/a".toList [1,2] :: advances 0 1 11 ++ .get "/a".toList :: advances 1 2 1 ++
    .put "/b".toList [3] :: advances 2 3 15 ++ .remove "/b".toList :: advances 3 4 2

theorem calls_in_turn_bounded : ∃ final,
    (readCache (smallCache 2 (by decide))).Run (Orderly (smallCache 2 (by decide))) .fresh callsInTurn final ∧
      ((∀ c call entry, final.calls.lookup c = some call → call.removal = some (.subtract entry) →
          entry.size ≤ final.shared.accountedBytes) ∧
        (AtRest final → (final.shared.accountedBytes : Int) = final.shared.sizes ∧
          final.shared.accountedBytes ≤ 2)) := by
  have computed : ((readCache (smallCache 2 (by decide))).execAllowed (Orderly (smallCache 2 (by decide)))
      .fresh callsInTurn).isSome = true := by decide +kernel
  obtain ⟨final,reached⟩ := Option.isSome_iff_exists.mp computed
  have run := Transition.System.execAllowed_run reached
  exact ⟨final,run,accounted_within_bounds ⟨rfl,rfl,by decide⟩ run⟩

/-- Two puts that both find room before either has counted its bytes. -/
def racingPuts (first second : Text) : List Action :=
  .put first [1] :: .put second [2] :: advances 0 1 8 ++ advances 1 1 8 ++ advances 0 1 3 ++ advances 1 1 3

/-- Under one key the second entry replaces the first, whose bytes stay counted;
under two keys both bytes are kept where there was room for one. -/
theorem racing_puts_exceed :
    (¬ ∀ actions final, (readCache (smallCache 2 (by decide))).exec .fresh actions = some final →
      AtRest final → (final.shared.accountedBytes : Int) = final.shared.sizes) ∧
    ¬ ∀ actions final, (readCache (smallCache 1 (by decide))).exec .fresh actions = some final →
      AtRest final → final.shared.accountedBytes ≤ 1 := by
  constructor
  · exact Transition.System.exec_refutes (racingPuts "/a".toList "/a".toList) (by decide +kernel)
  · exact Transition.System.exec_refutes (racingPuts "/a".toList "/b".toList) (by decide +kernel)

end StorageHub.ReadCache
