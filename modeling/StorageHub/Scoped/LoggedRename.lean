import StorageHub.Library.Attempts
import StorageHub.Scoped.Restore
import StorageHub.Scoped.Recovery

/-! An operation that renames a tree and then rewrites the index, with its log row, and how
far it has got wherever it stops. -/
namespace StorageHub.Scoped
open Library WriteCache Paths Protected Vfs Effect

structure LoggedRename where
  src : Text
  dst : Text
  operation : WalOperation
  rewrite : Int → Index → Except IndexError Index

namespace LoggedRename

/-- What is stored when the log row is written, the rows before it and its number. -/
structure Start where
  stored : Stored
  base : List WalRow
  id : Nat

section programs
variable (r : LoggedRename) (e : Engine)

def run (walId : Option Nat) : Vfs VfsFileInfo := do
  let info ← orFailWal walId (e.moveRegularPathWithoutWal r.src r.dst)
  markWalPhysicalDone walId
  orFailWal walId (transact r.rewrite)
  completeWal walId
  pure info

def recover (status : WalStatus) (error : Bool → VfsError) : Vfs Unit :=
  if status.hasMetadataDone then pure ()
  else if status.hasPhysicalDone then transact r.rewrite
  else
    e.byExistence r.src r.dst
      (do
        e.physicalMoveWithoutWal r.src r.dst
        transact r.rewrite)
      (transact r.rewrite) error

end programs

/-! ### How far it has got -/

section phases
variable (r : LoggedRename) (e : Engine) (start : Start)

def paths : List Text := [e.getPhysicalPath r.src,e.getPhysicalPath r.dst]

def renamed : Option Disk := start.stored.disk.rename (e.getPhysicalPath r.src) (e.getPhysicalPath r.dst)

/-- What is stored and what the log row says, with nothing pending at the two paths. -/
def Here (stored : Stored) (status : WalStatus) : World → Prop :=
  Stage (r.paths e) stored fun log => log = start.base ++ [⟨start.id,r.operation,status⟩]

def Before (w : World) : Prop := ∃ status, status.hasPhysicalDone = false ∧ r.Here e start start.stored status w

def Between (w : World) : Prop := ∃ disk status, r.renamed e start = some disk ∧ status.hasMetadataDone = false ∧
  r.Here e start ⟨disk,start.stored.index⟩ status w

def Completed (w : World) : Prop := ∃ disk index now status, r.renamed e start = some disk ∧
  r.rewrite now start.stored.index = .ok index ∧ r.Here e start ⟨disk,index⟩ status w

inductive Reached (w : World) : Prop
  | before (here : r.Before e start w)
  | between (here : r.Between e start w)
  | completed (here : r.Completed e start w)

/-- What is known when the row had a status. -/
structure Known (status : WalStatus) (w : World) : Prop where
  reached : r.Reached e start w
  physical : status.hasPhysicalDone = true → r.Between e start w ∨ r.Completed e start w
  metadata : status.hasMetadataDone = true → r.Completed e start w

/-- Where the tree goes there is nothing yet, in the primary, in the backup or by the
protected root. A tree renamed is no longer where it was, and a rewrite made twice is one. -/
structure Sound : Prop where
  lasting : isTempPath r.dst = false
  free : e.Unprotected r.dst
  vacant : start.stored.disk.exists_ (e.getPhysicalPath r.dst) = false
  unbacked : ∀ backup ∈ e.backup, backup.exists_ (e.getPhysicalPath r.dst) = false
  tree : start.stored.disk.FileTree
  again : ∀ now index, r.rewrite now start.stored.index = .ok index → ∀ now', r.rewrite now' index = .ok index
  apart : ∀ row ∈ start.base, row.id ≠ start.id
  settled : ∀ row ∈ start.base, row.status = .completed

end phases

section rules
variable {r : LoggedRename} {e : Engine} {start : Start} {stored : Stored} {status status' : WalStatus} {w w' : World}

theorem physical_of_metadata (done : status.hasPhysicalDone = false) : status.hasMetadataDone = false := by
  cases status with
  | physicalDone => rfl
  | metadataDone => cases done
  | completed => cases done
  | pending => rfl
  | recovering => rfl
  | failed => rfl

/-! ### The log row -/

theorem Here.setStatus (apart : ∀ row ∈ start.base, row.id ≠ start.id) (here : r.Here e start stored status w)
    (status' : WalStatus) : r.Here e start stored status' (setStatus start.id status' w) := by
  have others : start.base.map (fun row => if row.id = start.id then { row with status := status' } else row) =
      start.base := by
    rw [List.map_congr_left (g := fun row => row)]
    · exact List.map_id' start.base
    · intro row inside
      rw [if_neg (apart row inside)]
  refine ⟨here.stored_eq,here.quiet,?_⟩
  have logged : w.wal = start.base ++ [⟨start.id,r.operation,status⟩] := here.log_holds
  simp only [Scoped.setStatus,logged,List.map_append,others,List.map_cons,List.map_nil,if_true]

theorem Before.setStatus (sound : r.Sound e start) (here : r.Before e start w) (early : status.hasPhysicalDone = false) :
    r.Before e start (setStatus start.id status w) := by
  obtain ⟨old,-,at_⟩ := here
  exact ⟨status,early,at_.setStatus sound.apart status⟩

theorem Between.setStatus (sound : r.Sound e start) (here : r.Between e start w) (early : status.hasMetadataDone = false) :
    r.Between e start (setStatus start.id status w) := by
  obtain ⟨disk,old,renamed,-,at_⟩ := here
  exact ⟨disk,status,renamed,early,at_.setStatus sound.apart status⟩

theorem Completed.setStatus (sound : r.Sound e start) (here : r.Completed e start w) (status : WalStatus) :
    r.Completed e start (setStatus start.id status w) := by
  obtain ⟨disk,index,now,old,renamed,made,at_⟩ := here
  exact ⟨disk,index,now,status,renamed,made,at_.setStatus sound.apart status⟩

theorem Reached.setStatus (sound : r.Sound e start) (here : r.Reached e start w) (early : status.hasPhysicalDone = false) :
    r.Reached e start (setStatus start.id status w) := by
  cases here with
  | before here => exact .before (Before.setStatus sound here early)
  | between here => exact .between (Between.setStatus sound here (physical_of_metadata early))
  | completed here => exact .completed (Completed.setStatus sound here status)

theorem Known.setStatus (sound : r.Sound e start) (known : r.Known e start status w) (early : status'.hasPhysicalDone = false) :
    r.Known e start status (setStatus start.id status' w) := by
  refine ⟨Reached.setStatus sound known.reached early,?_,?_⟩
  · intro done
    rcases known.physical done with between | completed
    · exact .inl (Between.setStatus sound between (physical_of_metadata early))
    · exact .inr (Completed.setStatus sound completed status')
  · exact fun done => Completed.setStatus sound (known.metadata done) status'

theorem update_keeps {P : World → Prop} {f : World → World} (kept : ∀ w, P w → P (f w)) : Keeps P (update f) :=
  call_keeps fun _ w holds => kept w holds

theorem markWal_some_keeps {P : World → Prop} {id : Nat} {status : WalStatus}
    (kept : ∀ w, P w → P (setStatus id status w)) : Keeps P (markWal (some id) status) :=
  regardless_keeps (update_keeps kept)

/-! ### A new process -/

/-- The files, the index and the log are as they were, and nothing is pending at the two
paths. -/
def Resumed (r : LoggedRename) (e : Engine) (w : World) : World → Prop := Stage (r.paths e) w.stored (· = w.wal)

theorem Here.resumed (here : r.Here e start stored status w) (same : r.Resumed e w w') :
    r.Here e start stored status w' :=
  ⟨same.stored_eq.trans here.stored_eq,same.quiet,same.log_holds.trans here.log_holds⟩

theorem Before.resumed (here : r.Before e start w) (same : r.Resumed e w w') : r.Before e start w' := by
  obtain ⟨status,early,here⟩ := here
  exact ⟨status,early,here.resumed same⟩

theorem Between.resumed (here : r.Between e start w) (same : r.Resumed e w w') : r.Between e start w' := by
  obtain ⟨disk,status,renamed,early,here⟩ := here
  exact ⟨disk,status,renamed,early,here.resumed same⟩

theorem Completed.resumed (here : r.Completed e start w) (same : r.Resumed e w w') : r.Completed e start w' := by
  obtain ⟨disk,index,now,status,renamed,made,here⟩ := here
  exact ⟨disk,index,now,status,renamed,made,here.resumed same⟩

theorem Reached.resumed (here : r.Reached e start w) (same : r.Resumed e w w') : r.Reached e start w' := by
  cases here with
  | before here => exact .before (here.resumed same)
  | between here => exact .between (here.resumed same)
  | completed here => exact .completed (here.resumed same)

theorem Known.resumed (known : r.Known e start status w) (same : r.Resumed e w w') : r.Known e start status w' := by
  refine ⟨known.reached.resumed same,?_,?_⟩
  · intro done
    exact (known.physical done).imp (fun here => here.resumed same) fun here => here.resumed same
  · exact fun done => (known.metadata done).resumed same

theorem Reached.log (here : r.Reached e start w) : ∃ stored status, r.Here e start stored status w := by
  cases here with
  | before here =>
    obtain ⟨status,-,here⟩ := here
    exact ⟨_,status,here⟩
  | between here =>
    obtain ⟨disk,status,-,-,here⟩ := here
    exact ⟨_,status,here⟩
  | completed here =>
    obtain ⟨disk,index,now,status,-,-,here⟩ := here
    exact ⟨_,status,here⟩

theorem Reached.quiet (here : r.Reached e start w) : ∀ path ∈ r.paths e, w.shared.entries.lookup path = none := by
  obtain ⟨stored,status,here⟩ := here.log
  exact here.quiet

/-! ### The rename -/

/-- A tree that was renamed is not there to be renamed again. -/
theorem renamed_once (sound : r.Sound e start) {disk : Disk} (renamed : r.renamed e start = some disk) :
    disk.rename (e.getPhysicalPath r.src) (e.getPhysicalPath r.dst) = none := by
  obtain ⟨file,dir⟩ := Disk.rename_leaves sound.tree renamed
  rw [Option.isSome_eq_false_iff] at dir
  rw [Disk.rename,file]
  simp only [dir,if_true]

/-- What leaves the files, the index, the log and the pending writes as they are. -/
def Quietly {α : Type} (r : LoggedRename) (e : Engine) (m : Vfs α) : Prop :=
  ∀ stored log, Keeps (Stage (r.paths e) stored log) m

theorem Quietly.keeps {α : Type} {m : Vfs α} {P : World → Prop} (quietly : Quietly r e m)
    (quiet : ∀ w, P w → ∀ path ∈ r.paths e, w.shared.entries.lookup path = none)
    (resumes : ∀ w w', P w → r.Resumed e w w' → P w') : Keeps P m := by
  intro w cs holds
  have kept := quietly w.stored (· = w.wal) w cs ⟨rfl,quiet w holds,rfl⟩
  cases outcome : m w cs with
  | done a w' rest => rw [outcome] at kept; exact resumes w w' holds kept
  | failed err w' rest => rw [outcome] at kept; exact resumes w w' holds kept
  | crashed w' => rw [outcome] at kept; exact resumes w w' holds kept

theorem Quietly.reached {α : Type} {m : Vfs α} (quietly : Quietly r e m) : Keeps (r.Reached e start) m :=
  quietly.keeps (fun _ here => here.quiet) fun _ _ here resumed => here.resumed resumed

theorem Quietly.known {α : Type} {m : Vfs α} (quietly : Quietly r e m) : Keeps (r.Known e start status) m :=
  quietly.keeps (fun _ known => known.reached.quiet) fun _ _ known resumed => known.resumed resumed

theorem quietly_readOnly {α : Type} {m : Vfs α} (reads : ReadOnly m) : Quietly r e m := fun _ _ => reads.keeps _

theorem quietly_invalidate (path : Text) : Quietly r e (e.invalidateReadCache path) :=
  fun _ _ => invalidateReadCache_keeps e path

/-- Only a tree that is not renamed yet can be. -/
theorem rename_meets (sound : r.Sound e start) : Meets (r.Reached e start)
    (operate .other fun w => (w.primary.rename (e.getPhysicalPath r.src) (e.getPhysicalPath r.dst)).map w.setPrimary)
    (fun _ => r.Between e start) (fun _ => r.Reached e start) (r.Reached e start) := by
  apply meets_operate
  · intro w w' reached taken
    obtain ⟨disk,made,rfl⟩ := Option.map_eq_some_iff.mp taken
    cases reached with
    | before here =>
      obtain ⟨status,early,here⟩ := here
      have same : w.primary = start.stored.disk := congrArg Stored.disk here.stored_eq
      rw [same] at made
      refine ⟨disk,status,made,physical_of_metadata early,?_,here.quiet,here.log_holds⟩
      rw [← here.stored_eq]
      rfl
    | between here =>
      obtain ⟨disk',status,renamed,-,here⟩ := here
      have same : w.primary = disk' := congrArg Stored.disk here.stored_eq
      rw [same,renamed_once sound renamed] at made
      cases made
    | completed here =>
      obtain ⟨disk',index,now,status,renamed,-,here⟩ := here
      have same : w.primary = disk' := congrArg Stored.disk here.stored_eq
      rw [same,renamed_once sound renamed] at made
      cases made
  · exact fun _ _ reached => reached
  · exact fun _ reached => reached

theorem renamePhysical_meets (sound : r.Sound e start) : Meets (r.Reached e start) (e.renamePhysical r.src r.dst)
    (fun _ => r.Between e start) (fun _ => r.Reached e start) (r.Reached e start) := by
  unfold Engine.renamePhysical
  split
  · exact Meets.fail fun _ reached => reached
  · have flushed (path : Text) (inside : e.getPhysicalPath path ∈ r.paths e) :
        Quietly r e (e.flushPendingWriteCacheForPath path) := fun _ _ => flushPending_stage e inside
    apply Meets.bind (flushed r.src List.mem_cons_self).reached
    intro _
    apply Meets.bind (flushed r.dst (List.mem_cons_of_mem _ List.mem_cons_self)).reached
    intro _
    apply Meets.bind (quietly_invalidate _).reached
    intro _
    apply Meets.bind (quietly_invalidate _).reached
    intro _
    exact rename_meets sound

theorem keeps_between {α : Type} {m : Vfs α} (reads : ReadOnly m) : Meets (r.Between e start) m
    (fun _ => r.Between e start) (fun _ => r.Reached e start) (r.Reached e start) :=
  (reads.keeps _).weaken (fun _ _ here => .between here) fun _ here => .between here

theorem moveRegular_meets (sound : r.Sound e start) : Meets (r.Reached e start)
    (e.moveRegularPathWithoutWal r.src r.dst) (fun _ => r.Between e start) (fun _ => r.Reached e start)
    (r.Reached e start) := by
  rw [Engine.moveRegularPathWithoutWal_split]
  apply Meets.bind (renamePhysical_meets sound)
  intro _
  exact keeps_between (Engine.statRenamed_readOnly r.dst)

theorem physicalMove_meets (sound : r.Sound e start) : Meets (r.Reached e start)
    (e.physicalMoveWithoutWal r.src r.dst) (fun _ => r.Between e start) (fun _ => r.Reached e start)
    (r.Reached e start) := by
  unfold Engine.physicalMoveWithoutWal Engine.poolMoveFile
  simp only [bind_assoc]
  apply Meets.bind (quietly_invalidate _).reached
  intro _
  apply Meets.bind (quietly_invalidate _).reached
  intro _
  apply Meets.bind (rename_meets sound)
  intro _
  apply Meets.bind (keeps_between (e.poolStat_readOnly _))
  intro _
  exact Meets.pure fun _ here => here

/-! ### The rewrite -/

/-- A rewrite after the rename completes the operation, also where it was made before. -/
theorem rewrite_meets (sound : r.Sound e start) : Meets (fun w => r.Between e start w ∨ r.Completed e start w)
    (transact r.rewrite) (fun _ => r.Completed e start) (fun _ => r.Reached e start) (r.Reached e start) := by
  have reached {w : World} (here : r.Between e start w ∨ r.Completed e start w) : r.Reached e start w :=
    here.elim .between .completed
  apply meets_transact
  · intro now w index here made
    rcases here with ⟨disk,status,renamed,-,here⟩ | ⟨disk,old,before,status,renamed,first,here⟩
    · have same : w.index = start.stored.index := congrArg Stored.index here.stored_eq
      rw [same] at made
      refine ⟨disk,index,now,status,renamed,made,?_,here.quiet,here.log_holds⟩
      have primary : w.primary = disk := congrArg Stored.disk here.stored_eq
      rw [← primary]
      rfl
    · have same : w.index = old := congrArg Stored.index here.stored_eq
      rw [same,sound.again before old first now] at made
      have kept : index = w.index := same.trans (Except.ok.inj made) |>.symm
      rw [kept]
      exact ⟨disk,old,before,status,renamed,first,here⟩
  · exact fun _ _ here => reached here
  · exact fun _ here => reached here

/-! ### The operation -/

theorem markWal_reached (sound : r.Sound e start) (early : status.hasPhysicalDone = false) :
    Keeps (r.Reached e start) (markWal (some start.id) status) :=
  markWal_some_keeps fun _ here => Reached.setStatus sound here early

theorem orFailWal_reached {α : Type} {P : World → Prop} {Q : α → World → Prop} {m : Vfs α} (sound : r.Sound e start)
    (met : Meets P m Q (fun _ => r.Reached e start) (r.Reached e start)) :
    Meets P (orFailWal (some start.id) m) Q (fun _ => r.Reached e start) (r.Reached e start) := by
  unfold orFailWal
  apply Meets.bind (Q := fun result w => (∀ a, result = .ok a → Q a w) ∧ ∀ err, result = .error err → r.Reached e start w)
  · apply Meets.attempt
    apply met.consequence (fun _ holds => holds) ?_ ?_ fun _ reached => reached
    · intro a w holds
      refine ⟨fun b same => Except.ok.inj same ▸ holds,fun err same => ?_⟩
      cases same
    · intro err w reached
      refine ⟨fun b same => ?_,fun _ _ => reached⟩
      cases same
  · intro result
    cases result with
    | ok a => exact Meets.pure fun _ holds => holds.1 a rfl
    | error err =>
      have marked : Meets (r.Reached e start) (failWal (some start.id)) (fun _ => r.Reached e start)
          (fun _ => r.Reached e start) (r.Reached e start) := markWal_reached sound rfl
      apply Meets.bind (marked.consequence (fun _ holds => holds.2 err rfl) (fun _ _ reached => reached)
        (fun _ _ reached => reached) fun _ reached => reached)
      intro _
      exact Meets.fail fun _ reached => reached

/-- However the operation ends it has got somewhere, and to its end if it says so. -/
theorem run_meets (sound : r.Sound e start) : Meets (r.Before e start) (r.run e (some start.id))
    (fun _ => r.Completed e start) (fun _ => r.Reached e start) (r.Reached e start) := by
  unfold run
  have moved : Meets (r.Before e start) (e.moveRegularPathWithoutWal r.src r.dst) (fun _ => r.Between e start)
      (fun _ => r.Reached e start) (r.Reached e start) :=
    (moveRegular_meets sound).consequence (fun _ here => .before here) (fun _ _ here => here) (fun _ _ here => here)
      fun _ here => here
  apply Meets.bind (orFailWal_reached sound moved)
  intro info
  have marked : Keeps (r.Between e start) (markWalPhysicalDone (some start.id)) :=
    markWal_some_keeps fun _ here => Between.setStatus sound here rfl
  apply Meets.bind (marked.weaken (fun _ _ here => .between here) fun _ here => .between here)
  intro _
  have rewritten : Meets (r.Between e start) (transact r.rewrite) (fun _ => r.Completed e start)
      (fun _ => r.Reached e start) (r.Reached e start) :=
    (rewrite_meets sound).consequence (fun _ here => .inl here) (fun _ _ here => here) (fun _ _ here => here)
      fun _ here => here
  apply Meets.bind (orFailWal_reached sound rewritten)
  intro _
  have noted : Keeps (r.Completed e start) (completeWal (some start.id)) :=
    markWal_some_keeps fun _ here => Completed.setStatus sound here .completed
  apply Meets.bind (noted.weaken (fun _ _ here => .completed here) fun _ here => .completed here)
  intro _
  exact Meets.pure fun _ here => here

end rules
end LoggedRename
end StorageHub.Scoped
