import StorageHub.Scoped.IndexFrames
import StorageHub.Scoped.ReadSpec

/-! Whether a path is there: what `exists` says against what `stat` finds, when
every call gets through. -/
namespace StorageHub.Scoped
open Library WriteCache Protected Vfs Effect

def VfsError.isNotFound : VfsError → Bool
  | .notFound _ | .openDal .notFound | .io .notFound => true
  | _ => false

/-! ### Undisturbed runs -/

/-- Every call gets through. -/
def Undisturbed (cs : List (Choice EngineEnv)) : Prop :=
  ∀ c ∈ cs, ∃ env : EngineEnv, c = .proceed env ∧ env.ok = true

def settled {α : Type} (r : Except VfsError α) (w : World) (rest : List (Choice EngineEnv)) :
    Outcome World EngineEnv VfsError α :=
  match r with
  | .ok a => .done a w rest
  | .error err => .failed err w rest

/-- What a program says of `w` when every call gets through, changing nothing. -/
def Answers {α : Type} (m : Vfs α) (w : World) (r : Except VfsError α) : Prop :=
  ∀ cs, Undisturbed cs → ∃ rest, Undisturbed rest ∧ m w cs = settled r w rest

theorem undisturbed_nil : Undisturbed [] := fun _ member => absurd member List.not_mem_nil

namespace Answers
variable {α β : Type} {m : Vfs α} {k : α → Vfs β} {w : World} {a : α} {err : VfsError}

protected theorem pure (a : α) (w : World) : Answers (pure a : Vfs α) w (.ok a) :=
  fun cs calm => ⟨cs,calm,rfl⟩

protected theorem fail (err : VfsError) (w : World) : Answers (Effect.fail err : Vfs α) w (.error err) :=
  fun cs calm => ⟨cs,calm,rfl⟩

protected theorem get (w : World) : Answers (Effect.get : Vfs World) w (.ok w) :=
  fun cs calm => ⟨cs,calm,rfl⟩

protected theorem call {f : EngineEnv → World → Except VfsError α × World} {r : Except VfsError α}
    (steady : ∀ env, f env w = (r,w)) : Answers (call f) w r := by
  intro cs calm
  cases cs with
  | nil =>
    refine ⟨[],undisturbed_nil,?_⟩
    rw [call_run,steady]
    cases r with
    | ok a => rfl
    | error err => rfl
  | cons c later =>
    obtain ⟨env,rfl,ok⟩ := calm c List.mem_cons_self
    refine ⟨later,fun c member => calm c (List.mem_cons_of_mem _ member),?_⟩
    unfold Vfs.call perform
    simp only [if_pos ok,steady]
    cases r with
    | ok a => rfl
    | error err => rfl

protected theorem query (f : World → α) (w : World) : Answers (query f) w (.ok (f w)) :=
  Answers.call fun _ => rfl

theorem bind {r : Except VfsError β} (first : Answers m w (.ok a)) (later : Answers (k a) w r) :
    Answers (m >>= k) w r := by
  intro cs calm
  obtain ⟨middle,calm',ran⟩ := first cs calm
  obtain ⟨rest,calm'',ran'⟩ := later middle calm'
  exact ⟨rest,calm'',by rw [bind_run ran,ran']⟩

theorem bind_error (first : Answers m w (.error err)) : Answers (m >>= k) w (.error err) := by
  intro cs calm
  obtain ⟨rest,calm',ran⟩ := first cs calm
  exact ⟨rest,calm',by rw [bind_apply,ran]; rfl⟩

theorem attempt {r : Except VfsError α} (told : Answers m w r) : Answers m.attempt w (.ok r) := by
  intro cs calm
  obtain ⟨rest,calm',ran⟩ := told cs calm
  refine ⟨rest,calm',?_⟩
  cases r with
  | ok a => exact attempt_done ran
  | error err => exact Engine.attempt_failed ran

theorem map {f : α → β} (told : Answers m w (.ok a)) : Answers (f <$> m) w (.ok (f a)) :=
  told.bind (Answers.pure (f a) w)

end Answers

/-! ### The pool -/

/-- An answer that is a value when something is there and else says not found. -/
def Tells {α : Type} (there : Bool) (r : Except VfsError α) : Prop :=
  if there then ∃ a, r = .ok a else ∃ err, r = .error err ∧ err.isNotFound = true

namespace Engine
variable (e : Engine) (w : World) (path : Text)

theorem poolPendingStat_answers : Answers (e.poolPendingStat path) w
    (.ok ((e.pendingRecord path w).map fun inner => fileInfo path ⟨false,inner.size⟩)) :=
  fun cs calm => ⟨cs,calm,rfl⟩

theorem poolExists_answers : Answers (e.poolExists path) w (.ok (e.poolPresent w path)) := by
  have pending := e.poolPendingStat_answers w path
  rw [poolExists]
  cases record : e.pendingRecord path w with
  | some inner =>
    rw [record] at pending
    have there : e.poolPresent w path = true := by simp [poolPresent,record]
    rw [there]
    exact pending.bind (Answers.pure true w)
  | none =>
    rw [record] at pending
    apply pending.bind
    have asked : Answers (query fun w => w.primary.exists_ path).attempt w (.ok (.ok (w.primary.exists_ path))) :=
      (Answers.query _ w).attempt
    apply asked.bind
    cases here : w.primary.exists_ path with
    | true =>
      have there : e.poolPresent w path = true := by simp [poolPresent,here]
      rw [there]
      exact Answers.pure true w
    | false =>
      cases other : e.backup with
      | none =>
        have absent : e.poolPresent w path = false := by simp [poolPresent,record,here,other]
        rw [absent]
        exact Answers.pure false w
      | some backup =>
        have same : e.poolPresent w path = backup.exists_ path := by simp [poolPresent,record,here,other]
        rw [same]
        exact Answers.query (fun _ => backup.exists_ path) w

theorem primaryStat_answers : ∃ r, Answers (primaryStat path) w r ∧ Tells (w.primary.exists_ path) r := by
  cases found : w.primary.stat path with
  | none =>
    refine ⟨.error (.notFound path),Answers.call fun _ => by rw [found],?_⟩
    rw [Tells,Disk.exists_,found]
    exact ⟨_,rfl,rfl⟩
  | some m =>
    refine ⟨.ok (fileInfo path m),Answers.call fun _ => by rw [found],?_⟩
    rw [Tells,Disk.exists_,found]
    exact ⟨_,rfl⟩

theorem backupStat_answers (backup : Disk) :
    ∃ r, Answers (backupStat backup path) w r ∧ Tells (backup.exists_ path) r := by
  cases found : backup.stat path with
  | none =>
    refine ⟨.error (.notFound path),Answers.call fun _ => by rw [found],?_⟩
    rw [Tells,Disk.exists_,found]
    exact ⟨_,rfl,rfl⟩
  | some m =>
    refine ⟨.ok (fileInfo path m),Answers.call fun _ => by rw [found],?_⟩
    rw [Tells,Disk.exists_,found]
    exact ⟨_,rfl⟩

/-- The pool's own `stat` finds what its `exists` says is there. -/
theorem poolStat_answers : ∃ r, Answers (e.poolStat path) w r ∧ Tells (e.poolPresent w path) r := by
  have pending := e.poolPendingStat_answers w path
  rw [poolStat]
  cases record : e.pendingRecord path w with
  | some inner =>
    rw [record] at pending
    have there : e.poolPresent w path = true := by simp [poolPresent,record]
    rw [there]
    exact ⟨_,pending.bind (Answers.pure _ w),_,rfl⟩
  | none =>
    rw [record] at pending
    obtain ⟨r,asked,tells⟩ := primaryStat_answers w path
    cases here : w.primary.exists_ path with
    | true =>
      rw [here] at tells
      obtain ⟨info,rfl⟩ := tells
      have there : e.poolPresent w path = true := by simp [poolPresent,here]
      rw [there]
      exact ⟨_,pending.bind (asked.attempt.bind (Answers.pure info w)),info,rfl⟩
    | false =>
      rw [here] at tells
      obtain ⟨err,rfl,missing⟩ := tells
      cases other : e.backup with
      | none =>
        have absent : e.poolPresent w path = false := by simp [poolPresent,record,here,other]
        rw [absent]
        refine ⟨_,pending.bind (asked.attempt.bind ?_),err,rfl,missing⟩
        dsimp only
        rw [other]
        exact Answers.fail err w
      | some backup =>
        have same : e.poolPresent w path = backup.exists_ path := by simp [poolPresent,record,here,other]
        obtain ⟨r,asked',tells⟩ := backupStat_answers w path backup
        rw [same]
        refine ⟨r,pending.bind (asked.attempt.bind ?_),tells⟩
        dsimp only
        rw [other]
        exact asked'

/-! ### By logical path -/

def rowAt : Option IndexRow := Index.getFileMetadata e.userId path w.index

/-- Whether the primary or the backup has something where a path is stored. -/
def stored : Bool :=
  w.primary.exists_ (e.getPhysicalPath path) || e.backup.any fun backup => backup.exists_ (e.getPhysicalPath path)

variable {e w path}

theorem getIndexMetadata_answers : Answers (e.getIndexMetadata path) w (.ok (e.rowAt w path)) :=
  Answers.query _ w

theorem getProtectedPlan_answers {plan : Option ProtectedPathPlan} (resolved : e.resolveProtectedPlan = .ok plan) :
    Answers (e.getProtectedPlan path) w (.ok (plan.filter fun plan => plan.matchesPath path)) :=
  fun cs calm => ⟨cs,calm,e.getProtectedPlan_run w path cs resolved⟩

theorem getProtectedPlan_refuses {err : VfsError} (refused : e.resolveProtectedPlan = .error err) :
    Answers (e.getProtectedPlan path) w (.error err) := by
  rw [getProtectedPlan,refused]
  exact (Answers.fail err w).bind_error

theorem indexProbe_answers : Answers (e.indexProbe path) w
    (.ok (if e.isDirtyPath (e.getPhysicalPath path) w then none else e.rowAt w path)) := by
  rw [indexProbe]
  apply (Answers.get w).bind
  split
  · exact Answers.pure none w
  · exact getIndexMetadata_answers.attempt.bind (Answers.pure _ w)

theorem poolPresent_stored (idle : e.pendingRecord (e.getPhysicalPath path) w = none) :
    e.poolPresent w (e.getPhysicalPath path) = e.stored w path := by
  rw [poolPresent,idle,stored]
  rfl

/-- Outside the protected tree `stat` asks the storage, by way of the index or not. -/
theorem statPhysical_answers (idle : e.pendingRecord (e.getPhysicalPath path) w = none) :
    ∃ r, Answers (e.statPhysical path) w r ∧ Tells (e.stored w path) r := by
  have probed : Answers (e.indexProbe path) w _ := indexProbe_answers
  have same := poolPresent_stored idle
  rw [statPhysical]
  cases row : (if e.isDirtyPath (e.getPhysicalPath path) w then none else e.rowAt w path) with
  | none =>
    rw [row] at probed
    obtain ⟨r,asked,tells⟩ := e.poolStat_answers w (e.getPhysicalPath path)
    rw [same] at tells
    cases here : e.stored w path with
    | true =>
      rw [here] at tells
      obtain ⟨info,rfl⟩ := tells
      exact ⟨_,probed.bind (asked.bind (Answers.pure _ w)),_,rfl⟩
    | false =>
      rw [here] at tells
      obtain ⟨err,rfl,missing⟩ := tells
      exact ⟨_,probed.bind asked.bind_error,err,rfl,missing⟩
  | some found =>
    rw [row] at probed
    have asked := e.poolExists_answers w (e.getPhysicalPath path)
    rw [same] at asked
    cases here : e.stored w path with
    | true =>
      rw [here] at asked
      exact ⟨_,probed.bind (asked.bind (Answers.pure _ w)),_,rfl⟩
    | false =>
      rw [here] at asked
      exact ⟨_,probed.bind (asked.bind (Answers.fail _ w)),_,rfl,rfl⟩

theorem pendingStat_answers (lasting : isTempPath path = false) : Answers (e.pendingStat path) w
    (.ok ((e.pendingRecord (e.getPhysicalPath path) w).map fun inner =>
      e.translateFileInfo (fileInfo (e.getPhysicalPath path) ⟨false,inner.size⟩))) := by
  intro cs calm
  refine ⟨cs,calm,?_⟩
  rw [e.pendingStat_run w path cs,lasting]
  rfl

/-! ### Agreement -/

/-- `exists` says yes exactly when `stat` returns, and no exactly when `stat` says
not found. -/
def ExistsAgrees (e : Engine) (w : World) (path : Text) : Prop :=
  ∀ cs cs', Undisturbed cs → Undisturbed cs' →
    ((e.existsImpl path w cs).value? = some true ↔ (e.statImpl path w cs').value?.isSome = true) ∧
    ((e.existsImpl path w cs).value? = some false ↔
      ∃ err w' rest, e.statImpl path w cs' = .failed err w' rest ∧ err.isNotFound = true)

def Agree (said : Except VfsError Bool) (found : Except VfsError VfsFileInfo) : Prop :=
  (said = .ok true ↔ ∃ info, found = .ok info) ∧
    (said = .ok false ↔ ∃ err, found = .error err ∧ err.isNotFound = true)

theorem existsAgrees_of_answers {said : Except VfsError Bool} {found : Except VfsError VfsFileInfo}
    (told : Answers (e.existsImpl path) w said) (finds : Answers (e.statImpl path) w found) :
    e.ExistsAgrees w path ↔ Agree said found := by
  have spoken {cs : List (Choice EngineEnv)} (calm : Undisturbed cs) (b : Bool) :
      (e.existsImpl path w cs).value? = some b ↔ said = .ok b := by
    obtain ⟨rest,-,ran⟩ := told cs calm
    rw [ran]
    cases said with
    | ok a => simp [settled,Outcome.value?]
    | error err => simp [settled,Outcome.value?]
  have returned {cs : List (Choice EngineEnv)} (calm : Undisturbed cs) :
      (e.statImpl path w cs).value?.isSome = true ↔ ∃ info, found = .ok info := by
    obtain ⟨rest,-,ran⟩ := finds cs calm
    rw [ran]
    cases found with
    | ok a => simp [settled,Outcome.value?]
    | error err => simp [settled,Outcome.value?]
  have failed {cs : List (Choice EngineEnv)} (calm : Undisturbed cs) :
      (∃ err w' rest, e.statImpl path w cs = .failed err w' rest ∧ err.isNotFound = true) ↔
        ∃ err, found = .error err ∧ err.isNotFound = true := by
    obtain ⟨rest,-,ran⟩ := finds cs calm
    rw [ran]
    cases found with
    | ok a => simp [settled]
    | error err => simp [settled]
  constructor
  · intro agrees
    obtain ⟨yes,no⟩ := agrees [] [] undisturbed_nil undisturbed_nil
    rw [spoken undisturbed_nil,returned undisturbed_nil] at yes
    rw [spoken undisturbed_nil,failed undisturbed_nil] at no
    exact ⟨yes,no⟩
  · intro ⟨yes,no⟩ cs cs' calm calm'
    rw [spoken calm,spoken calm,returned calm',failed calm']
    exact ⟨yes,no⟩

theorem agree_of_tells (there : Bool) {found : Except VfsError VfsFileInfo} (tells : Tells there found) (b : Bool) :
    Agree (.ok b) found ↔ b = there := by
  rw [Agree]
  cases there with
  | true =>
    obtain ⟨info,rfl⟩ := tells
    cases b <;> simp
  | false =>
    obtain ⟨err,rfl,missing⟩ := tells
    cases b <;> simp [missing]

theorem agree_refused {err : VfsError} (said : Except VfsError Bool) :
    Agree said (.error err) ↔ said ≠ .ok true ∧ (said = .ok false ↔ err.isNotFound = true) := by
  rw [Agree]
  simp

/-- Where the two sources coincide: a protected path is stored under its own name
exactly when it has a row or is the root, and a path whose protection cannot be
told has no row. -/
structure Coincide (e : Engine) (w : World) (path : Text) : Prop where
  covered : ∀ plan, e.resolveProtectedPlan = .ok (some plan) → plan.matchesPath path = true →
    (e.stored w path = true ↔ (e.rowAt w path).isSome = true ∨ path = plan.root)
  refused : ∀ err, e.resolveProtectedPlan = .error err →
    if err.isNotFound then (e.rowAt w path).isSome = true ∧ e.stored w path = false
    else e.rowAt w path = none

section lasting
variable (lasting : isTempPath path = false)
include lasting

theorem existsImpl_pending {inner : PendingWriteMutable}
    (record : e.pendingRecord (e.getPhysicalPath path) w = some inner) :
    Answers (e.existsImpl path) w (.ok true) ∧ ∃ info, Answers (e.statImpl path) w (.ok info) := by
  have pending := pendingStat_answers (e := e) (w := w) lasting
  rw [record] at pending
  constructor
  · rw [existsImpl]
    exact pending.bind (Answers.pure true w)
  · rw [statImpl,if_neg (by rw [lasting]; exact Bool.false_ne_true)]
    exact ⟨_,pending.bind (Answers.pure _ w)⟩

variable (idle : e.pendingRecord (e.getPhysicalPath path) w = none)
include idle

/-- What `exists` asks once nothing is pending. -/
theorem existsImpl_answers {r : Except VfsError Bool}
    (asked : Answers (match e.rowAt w path with
      | some _ => e.poolExists (e.getPhysicalPath path)
      | none => do
        match ← e.getProtectedPlan path with
        | some plan => if path = plan.root then pure true else e.poolExists (e.getPhysicalPath path)
        | none => e.poolExists (e.getPhysicalPath path)) w r) : Answers (e.existsImpl path) w r := by
  have pending := pendingStat_answers (e := e) (w := w) lasting
  rw [idle] at pending
  rw [existsImpl]
  apply pending.bind
  dsimp only [Option.map_none]
  rw [if_neg (by rw [lasting]; exact Bool.false_ne_true)]
  exact getIndexMetadata_answers.bind asked

/-- What `stat` asks once nothing is pending. -/
theorem statImpl_answers {r : Except VfsError VfsFileInfo}
    (asked : Answers (do
      match ← e.getProtectedPlan path with
      | none => e.statPhysical path
      | some plan =>
        match ← e.getIndexMetadata path with
        | some row => pure (infoOfRow row)
        | none => if path ≠ plan.root then Effect.fail (.notFound path) else e.statPhysical path) w r) :
    Answers (e.statImpl path) w r := by
  have pending := pendingStat_answers (e := e) (w := w) lasting
  rw [idle] at pending
  rw [statImpl,if_neg (by rw [lasting]; exact Bool.false_ne_true)]
  exact pending.bind asked

omit lasting in
theorem stored_answers : Answers (e.poolExists (e.getPhysicalPath path)) w (.ok (e.stored w path)) := by
  have asked := e.poolExists_answers w (e.getPhysicalPath path)
  rwa [poolPresent_stored idle] at asked

/-- Outside the protected tree the two agree. -/
theorem agrees_uncovered {plan : Option ProtectedPathPlan} (resolved : e.resolveProtectedPlan = .ok plan)
    (uncovered : (plan.filter fun plan => plan.matchesPath path) = none) : e.ExistsAgrees w path := by
  have planned : Answers (e.getProtectedPlan path) w _ := getProtectedPlan_answers resolved
  rw [uncovered] at planned
  obtain ⟨found,asked,tells⟩ := statPhysical_answers idle
  have told : Answers (e.existsImpl path) w (.ok (e.stored w path)) := by
    apply existsImpl_answers lasting idle
    cases e.rowAt w path with
    | some row => exact stored_answers idle
    | none => exact planned.bind (stored_answers idle)
  apply (existsAgrees_of_answers told (statImpl_answers lasting idle (planned.bind asked))).mpr
  exact (agree_of_tells _ tells _).mpr rfl

theorem agrees_covered_iff {plan : Option ProtectedPathPlan} {covering : ProtectedPathPlan}
    (resolved : e.resolveProtectedPlan = .ok plan)
    (covered : (plan.filter fun plan => plan.matchesPath path) = some covering) :
    e.ExistsAgrees w path ↔ (e.stored w path = true ↔ (e.rowAt w path).isSome = true ∨ path = covering.root) := by
  have planned : Answers (e.getProtectedPlan path) w _ := getProtectedPlan_answers resolved
  rw [covered] at planned
  have indexed : Answers (e.getIndexMetadata path) w _ := getIndexMetadata_answers
  cases row : e.rowAt w path with
  | some found =>
    rw [row] at indexed
    have told : Answers (e.existsImpl path) w (.ok (e.stored w path)) := by
      apply existsImpl_answers lasting idle
      rw [row]
      exact stored_answers idle
    have finds : Answers (e.statImpl path) w (.ok (infoOfRow found)) :=
      statImpl_answers lasting idle (planned.bind (indexed.bind (Answers.pure _ w)))
    rw [existsAgrees_of_answers told finds,agree_of_tells true ⟨_,rfl⟩]
    simp
  | none =>
    rw [row] at indexed
    by_cases top : path = covering.root
    · have told : Answers (e.existsImpl path) w (.ok true) := by
        apply existsImpl_answers lasting idle
        rw [row]
        apply planned.bind
        dsimp only
        rw [if_pos top]
        exact Answers.pure true w
      obtain ⟨found,asked,tells⟩ := statPhysical_answers idle
      have finds : Answers (e.statImpl path) w found := by
        apply statImpl_answers lasting idle
        apply planned.bind
        apply indexed.bind
        dsimp only
        rw [if_neg (not_not.mpr top)]
        exact asked
      rw [existsAgrees_of_answers told finds,agree_of_tells _ tells]
      cases e.stored w path <;> simp [top]
    · have told : Answers (e.existsImpl path) w (.ok (e.stored w path)) := by
        apply existsImpl_answers lasting idle
        rw [row]
        apply planned.bind
        dsimp only
        rw [if_neg top]
        exact stored_answers idle
      have finds : Answers (e.statImpl path) w (.error (.notFound path)) := by
        apply statImpl_answers lasting idle
        apply planned.bind
        apply indexed.bind
        dsimp only
        rw [if_pos top]
        exact Answers.fail _ w
      rw [existsAgrees_of_answers told finds,agree_of_tells false ⟨_,rfl,rfl⟩]
      simp [top]

theorem agrees_refused_iff {err : VfsError} (refused : e.resolveProtectedPlan = .error err) :
    e.ExistsAgrees w path ↔
      if err.isNotFound then (e.rowAt w path).isSome = true ∧ e.stored w path = false
      else e.rowAt w path = none := by
  have planned : Answers (e.getProtectedPlan path) w _ := getProtectedPlan_refuses refused
  have finds : Answers (e.statImpl path) w (.error err) := statImpl_answers lasting idle planned.bind_error
  cases row : e.rowAt w path with
  | some found =>
    have told : Answers (e.existsImpl path) w (.ok (e.stored w path)) := by
      apply existsImpl_answers lasting idle
      rw [row]
      exact stored_answers idle
    rw [existsAgrees_of_answers told finds,agree_refused]
    cases err.isNotFound <;> cases e.stored w path <;> simp
  | none =>
    have told : Answers (e.existsImpl path) w (.error err) := by
      apply existsImpl_answers lasting idle
      rw [row]
      exact planned.bind_error
    rw [existsAgrees_of_answers told finds,agree_refused]
    cases err.isNotFound <;> simp

end lasting

theorem agrees_temp (temp : isTempPath path = true) : e.ExistsAgrees w path := by
  have pending : Answers (e.pendingStat path) w (.ok none) := by
    rw [pendingStat,if_pos temp]
    exact Answers.pure none w
  have told : Answers (e.existsImpl path) w (.ok (w.temp.exists_ (tempPath path))) := by
    rw [existsImpl]
    apply pending.bind
    dsimp only
    rw [if_pos temp]
    exact (Answers.get w).bind (Answers.pure _ w)
  cases found : w.temp.stat (tempPath path) with
  | none =>
    have finds : Answers (e.statImpl path) w (.error (.io .notFound)) := by
      rw [statImpl,if_pos temp]
      exact Answers.call fun _ => by rw [found]
    apply (existsAgrees_of_answers told finds).mpr
    rw [agree_of_tells false ⟨_,rfl,rfl⟩,Disk.exists_,found]
    rfl
  | some m =>
    have finds : Answers (e.statImpl path) w (.ok (fileInfo path m)) := by
      rw [statImpl,if_pos temp]
      exact Answers.call fun _ => by rw [found]
    apply (existsAgrees_of_answers told finds).mpr
    rw [agree_of_tells true ⟨_,rfl⟩,Disk.exists_,found]
    rfl

/-- `exists` agrees with `stat` on temporary and pending paths, and elsewhere
exactly where the sources they ask coincide. -/
theorem exists_agrees_iff (e : Engine) (w : World) (path : Text) : e.ExistsAgrees w path ↔
    isTempPath path = true ∨ (e.pendingRecord (e.getPhysicalPath path) w).isSome = true ∨ e.Coincide w path := by
  cases lasting : isTempPath path with
  | true => exact iff_of_true (agrees_temp lasting) (.inl rfl)
  | false =>
    cases record : e.pendingRecord (e.getPhysicalPath path) w with
    | some inner =>
      obtain ⟨told,info,finds⟩ := existsImpl_pending lasting record
      have agrees : e.ExistsAgrees w path := by
        apply (existsAgrees_of_answers told finds).mpr
        exact (agree_of_tells true ⟨info,rfl⟩ true).mpr rfl
      exact iff_of_true agrees (.inr (.inl rfl))
    | none =>
      have others : (false = true ∨ (none : Option PendingWriteMutable).isSome = true ∨ e.Coincide w path) ↔
          e.Coincide w path := by simp
      rw [others]
      cases resolved : e.resolveProtectedPlan with
      | error err =>
        rw [agrees_refused_iff lasting record resolved]
        constructor
        · intro same
          refine ⟨fun plan planned => ?_,fun err' refused => ?_⟩
          · rw [resolved] at planned
            cases planned
          · rw [resolved] at refused
            cases refused
            exact same
        · intro coincide
          exact coincide.refused err resolved
      | ok plan =>
        cases covered : plan.filter fun plan => plan.matchesPath path with
        | none =>
          refine iff_of_true (agrees_uncovered lasting record resolved covered) ⟨?_,?_⟩
          · intro other planned matches_
            rw [resolved] at planned
            cases planned
            rw [Option.filter_some,if_pos matches_] at covered
            cases covered
          · intro err refused
            rw [resolved] at refused
            cases refused
        | some covering =>
          obtain ⟨same,matches_⟩ := Option.filter_eq_some_iff.mp covered
          rw [agrees_covered_iff lasting record resolved covered]
          constructor
          · intro same'
            refine ⟨fun other planned _ => ?_,fun err refused => ?_⟩
            · rw [resolved,same] at planned
              cases planned
              exact same'
            · rw [resolved] at refused
              cases refused
          · intro coincide
            exact coincide.covered covering (by rw [resolved,same]) matches_

/-- A user whose `/p` is protected. -/
def secretEngine : Engine := { plainEngine with
  settings := some ⟨0,some "/p".toList⟩
  protectedDomain := .ok ⟨.obfuscate,"s".toList,4,.xorshift,none⟩ }

/-- A protected file is stored as a blob under another name. -/
def secretFile : World := worldOf [("u/.protected/1".toList,[1])] ["u".toList,"u/.protected".toList]
  [{ Index.liveRow 1 "/p/a" false with backendKey := some "u/.protected/1".toList }]

/-- A protected file that `stat` describes does not exist. -/
theorem secret_absent : ¬secretEngine.ExistsAgrees secretFile "/p/a".toList := by
  intro agrees
  have yes := (agrees [] [] undisturbed_nil undisturbed_nil).1
  have described : (secretEngine.statImpl "/p/a".toList secretFile []).value?.isSome = true := by decide +kernel
  exact absurd (yes.mpr described) (by decide +kernel)

end Engine
end StorageHub.Scoped
