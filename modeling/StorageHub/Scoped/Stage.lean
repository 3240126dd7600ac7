import StorageHub.Scoped.ReadSpec
import StorageHub.Scoped.Write

/-! How far an operation has got: the files, the directories and the index,
which a stop of the process leaves as they are, and the log row of the
operation. -/
namespace StorageHub.Scoped
open Library WriteCache Vfs Effect

structure Stored where
  disk : Disk
  index : Index

def World.stored (w : World) : Stored := ⟨w.primary,w.index⟩

/-- The stored state, the log, and no pending write for some physical paths. -/
structure Stage (paths : List Text) (stored : Stored) (log : List WalRow → Prop) (w : World) :
    Prop where
  stored_eq : w.stored = stored
  quiet : ∀ path ∈ paths, w.shared.entries.lookup path = none
  log_holds : log w.wal

/-- The log with the row of one operation, in one of some statuses; an operation
that is not logged has none. -/
def Logged (base : List WalRow) (operation : WalOperation) (walId : Option Nat)
    (statuses : List WalStatus) (log : List WalRow) : Prop :=
  match walId with
  | none => log = base
  | some id => ∃ status ∈ statuses, log = base ++ [⟨id,operation,status⟩]

section rules
variable {α β : Type} {P : World → Prop} {Q : α → World → Prop} {E : VfsError → World → Prop}
  {C : World → Prop}

theorem meets_readOnly {m : Vfs α} (reads : ReadOnly m) (onFail : ∀ err w, P w → E err w)
    (onCrash : ∀ w, P w → C w) : Meets P m (fun _ => P) E C :=
  Meets.weaken (reads.keeps P) onFail onCrash

theorem meets_when {c : Prop} [Decidable c] {m : Vfs Unit} {Q : Unit → World → Prop}
    (yes : c → Meets P m Q E C) (no : ¬c → ∀ w, P w → Q () w) : Meets P (when c m) Q E C := by
  unfold Vfs.when
  split
  next holds => exact yes holds
  next fails => exact Meets.pure (no fails)

theorem meets_regardless {m : Vfs α} {R : World → Prop} (met : Meets P m (fun _ => R) (fun _ => R) C) :
    Meets P (regardless m) (fun _ => R) E C := by
  apply Meets.bind (Q := fun _ => R) (Meets.attempt met)
  intro _
  exact Meets.pure fun _ holds => holds

theorem meets_call {f : EngineEnv → World → Except VfsError α × World}
    (onDone : ∀ env w a w', P w → env.ok = true → f env w = (.ok a,w') → Q a w')
    (onError : ∀ env w err w', P w → f env w = (.error err,w') → E err w')
    (onFail : ∀ err w, P w → E err w) (onCrash : ∀ w, P w → C w) : Meets P (call f) Q E C := by
  apply Meets.perform
  · intro env w a w' holds result
    split at result
    next ok => exact onDone env w a w' holds ok result
    next => cases result
  · intro env w err w' holds result
    split at result
    next => exact onError env w err w' holds result
    next =>
      cases result
      exact onFail _ w holds
  · exact onCrash

theorem meets_update {f : World → World} {R : World → Prop} (changed : ∀ w, P w → R (f w))
    (onFail : ∀ err w, P w → E err w) (onCrash : ∀ w, P w → C w) :
    Meets P (update f) (fun _ => R) E C := by
  apply meets_call
  · intro env w a w' holds _ result
    cases result
    exact changed w holds
  · intro env w err w' _ result
    cases result
  · exact onFail
  · exact onCrash

theorem meets_operate {kind : ErrorKind} {f : World → Option World} {R : World → Prop}
    (changed : ∀ w w', P w → f w = some w' → R w') (onFail : ∀ err w, P w → E err w)
    (onCrash : ∀ w, P w → C w) : Meets P (operate kind f) (fun _ => R) E C := by
  apply meets_call
  · intro env w a w' holds _ result
    split at result
    next w'' taken =>
      cases result
      exact changed w _ holds taken
    next => cases result
  · intro env w err w' holds result
    split at result
    next => cases result
    next =>
      cases result
      exact onFail _ w holds
  · exact onFail
  · exact onCrash

theorem meets_transact {f : Int → Index → Except IndexError Index} {R : World → Prop}
    (changed : ∀ now w index, P w → f now w.index = .ok index → R { w with index })
    (onFail : ∀ err w, P w → E err w) (onCrash : ∀ w, P w → C w) :
    Meets P (transact f) (fun _ => R) E C := by
  apply Meets.bind (Q := fun refused w => (refused = none ∧ R w) ∨ (refused ≠ none ∧ P w))
  · apply meets_call
    · intro env w a w' holds _ result
      cases outcome : f env.now w.index with
      | ok index =>
        rw [outcome] at result
        cases result
        exact .inl ⟨rfl,changed env.now w index holds outcome⟩
      | error refusal =>
        rw [outcome] at result
        cases result
        exact .inr ⟨by simp,holds⟩
    · intro env w err w' _ result
      cases outcome : f env.now w.index with
      | ok index => rw [outcome] at result; cases result
      | error refusal => rw [outcome] at result; cases result
    · exact onFail
    · exact onCrash
  · intro refused
    cases refused with
    | none =>
      apply Meets.pure
      rintro w (⟨-,holds⟩ | ⟨absurd_,-⟩)
      · exact holds
      · exact absurd rfl absurd_
    | some refusal =>
      have unchanged {w : World}
          (either : (some refusal = none ∧ R w) ∨ (some refusal ≠ none ∧ P w)) : P w := by
        rcases either with ⟨impossible,-⟩ | ⟨-,holds⟩
        · cases impossible
        · exact holds
      cases refusal with
      | charBoundary => exact fun w _ either => onCrash w (unchanged either)
      | uniqueUserPath => exact Meets.fail fun w either => onFail _ w (unchanged either)

theorem meets_orFailWal {walId : Option Nat} {m : Vfs α} (met : Meets P m Q E C)
    (failed : ∀ err w, E err w → C w) :
    Meets P (orFailWal walId m) Q (fun _ _ => True) C := by
  apply Meets.bind (Q := fun result w =>
    (∀ a, result = .ok a → Q a w) ∧ ∀ err, result = .error err → C w)
  · apply Meets.attempt
    apply met.consequence (fun _ holds => holds) ?_ ?_ fun _ holds => holds
    · exact fun a w holds => ⟨fun b same => Except.ok.inj same ▸ holds,nofun⟩
    · exact fun err w holds => ⟨nofun,fun _ _ => failed err w holds⟩
  · intro result
    cases result with
    | ok a => exact Meets.pure fun _ holds => holds.1 a rfl
    | error err =>
      apply Meets.bind (Q := fun _ _ => True)
      · unfold failWal markWal
        cases walId with
        | none => exact Meets.pure fun _ _ => trivial
        | some id =>
          apply meets_regardless
          exact meets_update (fun _ _ => trivial) (fun _ _ _ => trivial) fun _ holds => holds.2 err rfl
      · intro _
        exact Meets.fail fun _ _ => trivial

end rules

section stages
variable {paths : List Text} {stored : Stored} {log : List WalRow → Prop}
  {E : VfsError → World → Prop} {C : World → Prop}

theorem Stage.at_rest {w : World} (stage : Stage paths stored log w) (shared : Shared)
    (primary : shared.primary = w.shared.primary) (entries : shared.entries = w.shared.entries) :
    Stage paths stored log { w with shared } := by
  refine ⟨?_,?_,stage.log_holds⟩
  · rw [← stage.stored_eq]
    simp only [World.stored,World.primary,primary]
  · intro path inside
    change shared.entries.lookup path = none
    rw [entries]
    exact stage.quiet path inside

theorem invalidateReadCache_keeps (e : Engine) (path : Text) :
    Keeps (Stage paths stored log) (e.invalidateReadCache path) :=
  Keeps.modify fun _ stage => stage.at_rest _ rfl rfl

theorem flushWriteCache_stage (e : Engine) {path : Text} (quiet : path ∈ paths) :
    Meets (Stage paths stored log) (e.flushWriteCache path) (fun _ => Stage paths stored log) E C := by
  unfold Engine.flushWriteCache
  split
  · exact Meets.pure fun _ holds => holds
  · intro w cs stage
    have absent := stage.quiet path quiet
    rw [bind_apply]
    simp only [get_apply,absent]
    exact stage

theorem flushPending_stage (e : Engine) {path : Text} (quiet : e.getPhysicalPath path ∈ paths) :
    Meets (Stage paths stored log) (e.flushPendingWriteCacheForPath path)
      (fun _ => Stage paths stored log) E C := by
  unfold Engine.flushPendingWriteCacheForPath
  split
  · exact Meets.pure fun _ holds => holds
  · exact flushWriteCache_stage e quiet

variable {base : List WalRow} {operation : WalOperation} {statuses : List WalStatus}

theorem setStatus_logged {id : Nat} (fresh : ∀ row ∈ base, row.id ≠ id) (status : WalStatus)
    {w : World} (logged : Logged base operation (some id) statuses w.wal) :
    Logged base operation (some id) (status::statuses) (setStatus id status w).wal := by
  obtain ⟨old,-,same⟩ := logged
  refine ⟨status,List.mem_cons_self,?_⟩
  have others : base.map (fun row => if row.id = id then { row with status } else row) = base := by
    rw [List.map_congr_left (g := fun row => row)]
    · exact List.map_id' base
    · intro row inside
      rw [if_neg (fresh row inside)]
  simp only [setStatus,same,List.map_append,others,List.map_cons,List.map_nil,if_true]

theorem Logged.mono {walId : Option Nat} {more : List WalStatus} (sub : statuses ⊆ more)
    {rows : List WalRow} (logged : Logged base operation walId statuses rows) :
    Logged base operation walId more rows := by
  cases walId with
  | none => exact logged
  | some id =>
    obtain ⟨status,inside,same⟩ := logged
    exact ⟨status,sub inside,same⟩

theorem Stage.mono {w : World} {log' : List WalRow → Prop} (stage : Stage paths stored log w)
    (weaker : ∀ rows, log rows → log' rows) : Stage paths stored log' w :=
  ⟨stage.stored_eq,stage.quiet,weaker _ stage.log_holds⟩

end stages
end StorageHub.Scoped
