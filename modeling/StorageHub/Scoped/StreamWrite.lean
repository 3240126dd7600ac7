import StorageHub.Scoped.Frames
import StorageHub.Scoped.Write

/-! A streamed write chunk by chunk, and what it leaves at other paths. -/
namespace StorageHub.Scoped
open Library WriteCache Vfs Effect

/-- Where the bytes of an unfinished writer are: in the file already, or with
the backend until the writer is closed. -/
inductive WriterKind
  | inPlace
  | onClose
  deriving DecidableEq,Repr

def tempPathOf (path : Text) : Text := path ++ ".tmp".toList

/-- `writer(path)`: one in place truncates the file. -/
def openWriter (kind : WriterKind) (path : Text) : Vfs Unit := operate .other fun w =>
  if w.primary.accepts path then
    match kind with
    | .inPlace => (w.primary.write path []).map w.setPrimary
    | .onClose => some w
  else none

def appendChunk (kind : WriterKind) (path : Text) (chunk : Bytes) : Vfs Unit := update fun w =>
  match kind with
  | .inPlace =>
    w.setPrimary { w.primary with
      files := w.primary.files.insert path ((w.primary.files.lookup path).getD [] ++ chunk) }
  | .onClose => w

/-- The bytes a writer has taken when the stream has ended. -/
def writeChunks (kind : WriterKind) (path : Text) : Bytes → ByteStream → Vfs Bytes
  | taken, [] => pure taken
  | _, .error err::_ => Effect.fail err
  | taken, .ok chunk::rest => do
    appendChunk kind path chunk
    writeChunks kind path (taken ++ chunk) rest

def closeWriter (kind : WriterKind) (path : Text) (taken : Bytes) : Vfs Unit := operate .other fun w =>
  match kind with
  | .inPlace => some w
  | .onClose => (w.primary.write path taken).map w.setPrimary

/-- `VfsPool::write_stream`, every call of the writer one step. -/
def Engine.poolWriteChunks (e : Engine) (kind : WriterKind) (path : Text) (stream : ByteStream) :
    Vfs VfsFileInfo := do
  e.invalidateReadCache path
  openWriter kind (tempPathOf path)
  let taken ← writeChunks kind (tempPathOf path) [] stream
  closeWriter kind (tempPathOf path) taken
  operate .other fun w => (w.primary.rename (tempPathOf path) path).map w.setPrimary
  e.poolStat path

/-! ### How far a stream gets -/

/-- What the writer has taken when the stream or a call breaks off, or the whole
stream with the choices for the calls after it. -/
inductive StreamEnd
  | cut (taken : Bytes)
  | whole (taken : Bytes) (rest : List (Choice EngineEnv))

def streamEnd : Bytes → ByteStream → List (Choice EngineEnv) → StreamEnd
  | taken, [], cs => .whole taken cs
  | taken, .error _::_, _ => .cut taken
  | taken, .ok chunk::rest, cs => if Granted cs then streamEnd (taken ++ chunk) rest cs.tail else .cut taken

/-- The primary while a writer that has taken some bytes is open. -/
def writing (kind : WriterKind) (path : Text) (taken : Bytes) (d : Disk) : Disk :=
  match kind with
  | .inPlace => ⟨d.files.insert path taken,d.makeAncestors path⟩
  | .onClose => d

theorem writeChunks_outcome (kind : WriterKind) (path : Text) (d : Disk) (stream : ByteStream) :
    ∀ (taken : Bytes) (w : World) (cs : List (Choice EngineEnv)), w.primary = writing kind path taken d →
      match streamEnd taken stream cs with
      | .cut taken' => (writeChunks kind path taken stream w cs).value? = none ∧
          (writeChunks kind path taken stream w cs).state.primary = writing kind path taken' d
      | .whole taken' rest => writeChunks kind path taken stream w cs =
          .done taken' (w.setPrimary (writing kind path taken' d)) rest := by
  induction stream with
  | nil =>
    intro taken w cs open_
    change Outcome.done taken w cs = _
    rw [← open_]
    rfl
  | cons item stream ih =>
    intro taken w cs open_
    cases item with
    | error err => exact ⟨rfl,open_⟩
    | ok chunk =>
      rw [streamEnd]
      by_cases granted : Granted cs
      · rw [if_pos granted,writeChunks]
        have appended : appendChunk kind path chunk w cs =
            .done () (w.setPrimary (writing kind path (taken ++ chunk) d)) cs.tail := by
          refine (update_granted granted).trans (congrArg (Outcome.done () · cs.tail) ?_)
          cases kind with
          | onClose =>
            change w = w.setPrimary d
            have same : w.primary = d := open_
            rw [← same]
            rfl
          | inPlace =>
            dsimp only
            rw [open_]
            simp only [writing,AList.lookup_insert,Option.getD_some,AList.insert_insert]
        rw [bind_run appended]
        exact ih (taken ++ chunk) (w.setPrimary (writing kind path (taken ++ chunk) d)) cs.tail rfl
      · rw [if_neg granted,writeChunks,bind_apply]
        rcases call_denied (f := fun _ w => ((.ok (),_) : Except VfsError Unit × World)) (w := w) granted with
          ⟨err,failed⟩ | stopped
        · rw [appendChunk,update,failed]
          exact ⟨rfl,open_⟩
        · rw [appendChunk,update,stopped]
          exact ⟨rfl,open_⟩

/-! ### What it leaves -/

/-- The files at other paths are as they were, and so are the directories but
those above the path. -/
structure OthersKept (path : Text) (d d' : Disk) : Prop where
  files : ∀ q, q ≠ path → d'.files.lookup q = d.files.lookup q
  dirs : ∀ q, q ∉ ancestors path → (d'.dirs.lookup q).isSome = (d.dirs.lookup q).isSome

theorem OthersKept.refl (path : Text) (d : Disk) : OthersKept path d d := ⟨fun _ _ => rfl,fun _ _ => rfl⟩

theorem tempPathOf_ne (path : Text) : tempPathOf path ≠ path := by
  intro same
  have long := congrArg List.length same
  have four : ".tmp".toList.length = 4 := by decide
  rw [tempPathOf,List.length_append,four] at long
  omega

/-- The temporary file is in the directory of the file. -/
theorem ancestors_tempPathOf (path dir : Text) :
    dir ∈ ancestors (tempPathOf path) ↔ dir ∈ ancestors path := by
  have plain : '/' ∉ ".tmp".toList := by decide
  rw [mem_ancestors,mem_ancestors,and_congr_right_iff]
  intro _
  rw [Text.below_iff,Text.below_iff,tempPathOf]
  generalize ".tmp".toList = suffix at plain
  constructor
  · rintro ⟨rest,split⟩
    rcases List.append_eq_append_iff.mp split with ⟨more,longer,ending⟩ | ⟨more,shorter,ending⟩
    · exfalso
      apply plain
      rw [ending]
      simp
    · cases more with
      | nil =>
        exfalso
        apply plain
        rw [List.nil_append] at ending
        rw [← ending]
        exact List.mem_cons_self
      | cons c more =>
        rw [List.cons_append] at ending
        exact ⟨more,by rw [shorter,(List.cons.inj ending).1]⟩
  · rintro ⟨rest,split⟩
    exact ⟨rest ++ suffix,by rw [split]; simp⟩

theorem not_above_temp (path : Text) : path ∉ ancestors (tempPathOf path) := by
  rw [ancestors_tempPathOf,mem_ancestors]
  rintro ⟨-,under⟩
  obtain ⟨rest,split⟩ := Text.below_iff.mp under
  have long := congrArg List.length split
  rw [List.length_append,List.length_cons] at long
  omega

theorem temp_not_above (path : Text) : tempPathOf path ∉ ancestors path := by
  rw [mem_ancestors]
  rintro ⟨-,under⟩
  obtain ⟨rest,split⟩ := Text.below_iff.mp under
  have long := congrArg List.length split
  rw [tempPathOf,List.length_append,List.length_append,List.length_cons] at long
  omega

section leaves
variable {d d' : Disk} {path : Text} {taken : Bytes}

theorem dirs_kept_temp (q : Text) (outside : q ∉ ancestors path) :
    ((d.makeAncestors (tempPathOf path)).lookup q).isSome = (d.dirs.lookup q).isSome := by
  have above : q ∉ ancestors (tempPathOf path) := fun inside =>
    outside ((ancestors_tempPathOf path q).mp inside)
  rw [Disk.lookup_makeAncestors,decide_eq_false above,Bool.false_or]

/-- A temporary file left behind harms nothing where the same file was there
before. -/
theorem othersKept_left_iff (files : d'.files = d.files.insert (tempPathOf path) taken)
    (dirs : d'.dirs = d.makeAncestors (tempPathOf path)) :
    OthersKept path d d' ↔ d.files.lookup (tempPathOf path) = some taken := by
  constructor
  · intro kept
    have same := kept.files (tempPathOf path) (tempPathOf_ne path)
    rw [files,AList.lookup_insert] at same
    exact same.symm
  · intro before
    constructor
    · intro q _
      rw [files,Store.lookup_insert_eq]
      split
      next here => rw [here,before]
      next => rfl
    · intro q outside
      rw [dirs]
      exact dirs_kept_temp q outside

/-- Closed and renamed, a writer harms nothing where no temporary file was. -/
theorem othersKept_renamed_iff
    (files : d'.files = ((d.files.insert (tempPathOf path) taken).erase (tempPathOf path)).insert path taken)
    (dirs : d'.dirs = Disk.makeAncestors ⟨d.files.insert (tempPathOf path) taken,
      d.makeAncestors (tempPathOf path)⟩ path) :
    OthersKept path d d' ↔ d.files.lookup (tempPathOf path) = none := by
  constructor
  · intro kept
    have same := kept.files (tempPathOf path) (tempPathOf_ne path)
    rw [files,AList.lookup_insert_ne (tempPathOf_ne path),AList.lookup_erase] at same
    exact same.symm
  · intro before
    constructor
    · intro q other
      rw [files,AList.lookup_insert_ne other,Store.lookup_erase_eq]
      split
      next here => rw [here,before]
      next here => rw [AList.lookup_insert_ne here]
    · intro q outside
      rw [dirs,Disk.lookup_makeAncestors,decide_eq_false outside,Bool.false_or]
      exact dirs_kept_temp q outside

/-- Whether a path is no directory, neither by its spelling nor on the disk. -/
def Disk.takesFile (d : Disk) (path : Text) : Bool :=
  !hasTrailingSlash path && (d.dirs.lookup path).isNone

/-- The closed temporary file takes the place of the target unless that is a
directory. -/
theorem rename_temp (accepted : d.accepts (tempPathOf path) = true) :
    Disk.rename ⟨d.files.insert (tempPathOf path) taken,d.makeAncestors (tempPathOf path)⟩
        (tempPathOf path) path =
      if d.takesFile path then
        some ⟨((d.files.insert (tempPathOf path) taken).erase (tempPathOf path)).insert path taken,
          Disk.makeAncestors ⟨d.files.insert (tempPathOf path) taken,
            d.makeAncestors (tempPathOf path)⟩ path⟩
      else none := by
  have target : ((d.makeAncestors (tempPathOf path)).lookup path).isNone =
      (d.dirs.lookup path).isNone := by
    rw [← Option.not_isSome,← Option.not_isSome,Disk.lookup_makeAncestors,
      decide_eq_false (not_above_temp path),Bool.false_or]
  have above : (ancestors path).all (fun dir =>
      ((d.files.insert (tempPathOf path) taken).lookup dir).isNone) = true := by
    rw [List.all_eq_true]
    intro dir inside
    have other : dir ≠ tempPathOf path := fun same => temp_not_above path (same ▸ inside)
    rw [AList.lookup_insert_ne other,Option.isNone_iff_eq_none]
    exact (Disk.accepts_iff.mp accepted).2.2 dir ((ancestors_tempPathOf path dir).mpr inside)
  rw [Disk.rename]
  simp only [AList.lookup_insert,Disk.accepts,target,above,Bool.and_true,tempPathOf_ne,ne_eq,
    not_false_eq_true,decide_true,Bool.true_and]
  rfl

end leaves

/-- When a streamed write touches no other path: nothing of it reached the
temporary name, or what it left there was there before, or the name was free and
the write complete. -/
def StreamClean (kind : WriterKind) (d : Disk) (path : Text) (stream : ByteStream)
    (cs : List (Choice EngineEnv)) : Prop :=
  Granted cs → d.accepts (tempPathOf path) = true →
    match streamEnd [] stream cs.tail with
    | .cut taken => kind = .inPlace → d.files.lookup (tempPathOf path) = some taken
    | .whole taken rest =>
      if Granted rest then
        if Granted rest.tail ∧ d.takesFile path = true then
          d.files.lookup (tempPathOf path) = none
        else d.files.lookup (tempPathOf path) = some taken
      else kind = .inPlace → d.files.lookup (tempPathOf path) = some taken

theorem writing_kept_iff {kind : WriterKind} {d d' : Disk} {path : Text} {taken : Bytes}
    (primary : d' = writing kind (tempPathOf path) taken d) : OthersKept path d d' ↔
      (kind = .inPlace → d.files.lookup (tempPathOf path) = some taken) := by
  cases kind with
  | inPlace =>
    rw [othersKept_left_iff (by rw [primary]; rfl) (by rw [primary]; rfl)]
    simp
  | onClose =>
    rw [primary]
    exact iff_of_true (OthersKept.refl path d) fun impossible => by cases impossible

theorem state_of_denied {kind : ErrorKind} {α : Type} {f : World → Option World} {k : Unit → Vfs α}
    {w : World} {cs : List (Choice EngineEnv)} (denied : ¬Granted cs) :
    ((operate kind f >>= k) w cs).state = w := by
  rw [bind_apply]
  rcases (operate_denied denied : (∃ err, operate kind f w cs = _) ∨ _) with ⟨err,failed⟩ | stopped
  · rw [failed]
    rfl
  · rw [stopped]
    rfl

theorem state_of_refused {kind : ErrorKind} {α : Type} {f : World → Option World} {k : Unit → Vfs α}
    {w : World} (cs : List (Choice EngineEnv)) (refused : f w = none) :
    ((operate kind f >>= k) w cs).state = w := by
  by_cases granted : Granted cs
  · rw [bind_apply]
    rcases @operate_granted w cs kind f granted with ⟨w',made,-⟩ | ⟨-,err,failed⟩
    · rw [refused] at made
      cases made
    · rw [failed]
      rfl
  · exact state_of_denied granted

theorem operate_run {kind : ErrorKind} {f : World → Option World} {w w' : World}
    {cs : List (Choice EngineEnv)} (granted : Granted cs) (made : f w = some w') :
    operate kind f w cs = .done () w' cs.tail := by
  rcases @operate_granted w cs kind f granted with ⟨w₁,same,ran⟩ | ⟨refused,-⟩
  · rw [made] at same
    rw [ran,Option.some.inj same]
  · rw [made] at refused
    cases refused

theorem readOnly_state {α : Type} {m : Vfs α} (reads : ReadOnly m) (w : World)
    (cs : List (Choice EngineEnv)) : (m w cs).state = w := (reads w).state cs rfl

/-- From the close of the temporary file on. -/
theorem closed_kept_iff (e : Engine) {kind : WriterKind} {d : Disk} {path : Text} {taken : Bytes}
    {w : World} {rest : List (Choice EngineEnv)} (accepted : d.accepts (tempPathOf path) = true)
    (open_ : w.primary = writing kind (tempPathOf path) taken d) :
    OthersKept path d ((do
        closeWriter kind (tempPathOf path) taken
        operate .other fun w => (w.primary.rename (tempPathOf path) path).map w.setPrimary
        e.poolStat path : Vfs VfsFileInfo) w rest).state.primary ↔
      if Granted rest then
        if Granted rest.tail ∧ d.takesFile path = true then
          d.files.lookup (tempPathOf path) = none
        else d.files.lookup (tempPathOf path) = some taken
      else kind = .inPlace → d.files.lookup (tempPathOf path) = some taken := by
  by_cases granted : Granted rest
  · rw [if_pos granted]
    -- closed, the temporary file has all the bytes, whatever the kind of writer
    obtain ⟨w₁,closes,primary⟩ : ∃ w₁, closeWriter kind (tempPathOf path) taken w rest =
        .done () w₁ rest.tail ∧ w₁.primary =
          ⟨d.files.insert (tempPathOf path) taken,d.makeAncestors (tempPathOf path)⟩ := by
      cases kind with
      | inPlace => exact ⟨w,operate_run granted rfl,open_⟩
      | onClose =>
        have same : w.primary = d := open_
        refine ⟨w.setPrimary ⟨d.files.insert (tempPathOf path) taken,
          d.makeAncestors (tempPathOf path)⟩,operate_run granted ?_,rfl⟩
        dsimp only
        rw [same,Disk.write,if_pos accepted]
        rfl
    rw [bind_run closes]
    by_cases granted' : Granted rest.tail
    · have outcome := @rename_temp d path taken accepted
      by_cases vacant : d.takesFile path = true
      · rw [if_pos vacant] at outcome
        rw [if_pos ⟨granted',vacant⟩,bind_run (operate_run granted' (by rw [primary,outcome]; rfl)),
          readOnly_state (e.poolStat_readOnly path)]
        exact othersKept_renamed_iff rfl rfl
      · rw [if_neg vacant] at outcome
        rw [if_neg fun both => vacant both.2,state_of_refused _ (by rw [primary,outcome]; rfl)]
        exact othersKept_left_iff (by rw [primary]) (by rw [primary])
    · rw [if_neg fun both => granted' both.1,state_of_denied granted']
      exact othersKept_left_iff (by rw [primary]) (by rw [primary])
  · rw [if_neg granted,closeWriter,state_of_denied granted]
    exact writing_kept_iff open_

/-- However a streamed write ends, it leaves every other path alone exactly when
it is clean. -/
theorem poolWriteChunks_kept_iff (e : Engine) (kind : WriterKind) (w : World) (path : Text)
    (stream : ByteStream) (cs : List (Choice EngineEnv)) :
    OthersKept path w.primary (e.poolWriteChunks kind path stream w cs).state.primary ↔
      StreamClean kind w.primary path stream cs := by
  have start : e.poolWriteChunks kind path stream w cs = (do
      openWriter kind (tempPathOf path)
      let taken ← writeChunks kind (tempPathOf path) [] stream
      closeWriter kind (tempPathOf path) taken
      operate .other fun w => (w.primary.rename (tempPathOf path) path).map w.setPrimary
      e.poolStat path : Vfs VfsFileInfo) { w with shared := { w.shared with
        readCache := if e.readCache.isSome then w.shared.readCache.erase path else w.shared.readCache } }
        cs := rfl
  rw [start]
  generalize invalidated : { w with shared := { w.shared with
    readCache := if e.readCache.isSome then w.shared.readCache.erase path else w.shared.readCache } } = w₀
  have primary : w₀.primary = w.primary := by rw [← invalidated]; rfl
  rw [← primary,StreamClean]
  by_cases granted : Granted cs
  · by_cases accepted : w₀.primary.accepts (tempPathOf path) = true
    · obtain ⟨w₁,opens,writes⟩ : ∃ w₁, openWriter kind (tempPathOf path) w₀ cs = .done () w₁ cs.tail ∧
          w₁.primary = writing kind (tempPathOf path) [] w₀.primary := by
        cases kind with
        | inPlace =>
          refine ⟨w₀.setPrimary ⟨w₀.primary.files.insert (tempPathOf path) [],
            w₀.primary.makeAncestors (tempPathOf path)⟩,operate_run granted ?_,rfl⟩
          dsimp only
          rw [if_pos accepted,Disk.write,if_pos accepted]
          rfl
        | onClose =>
          refine ⟨w₀,operate_run granted ?_,rfl⟩
          dsimp only
          rw [if_pos accepted]
      rw [bind_run opens]
      have written := writeChunks_outcome kind (tempPathOf path) w₀.primary stream [] w₁ cs.tail writes
      simp only [granted,accepted,true_imp_iff]
      cases ends : streamEnd [] stream cs.tail with
      | cut taken =>
        rw [ends] at written
        obtain ⟨unfinished,left⟩ := written
        rw [bind_apply]
        cases outcome : writeChunks kind (tempPathOf path) [] stream w₁ cs.tail with
        | done taken' w₂ rest => rw [outcome] at unfinished; cases unfinished
        | failed err w₂ rest =>
          rw [outcome] at left
          exact writing_kept_iff left
        | crashed w₂ =>
          rw [outcome] at left
          exact writing_kept_iff left
      | whole taken rest =>
        rw [ends] at written
        rw [bind_run written]
        exact closed_kept_iff e accepted rfl
    · rw [openWriter,state_of_refused cs (by rw [if_neg accepted])]
      exact iff_of_true (OthersKept.refl path _) fun _ accepts => absurd accepts accepted
  · rw [openWriter,state_of_denied granted]
    exact iff_of_true (OthersKept.refl path _) fun grants => absurd grants granted

/-! ### Undisturbed -/

theorem streamEnd_chunks (chunks : List Bytes) : ∀ taken : Bytes,
    streamEnd taken (chunks.map .ok) [] = .whole (taken ++ chunks.flatten) [] := by
  induction chunks with
  | nil => simp [streamEnd]
  | cons chunk chunks ih =>
    intro taken
    have granted : Granted [] := granted_nil
    rw [List.map_cons,streamEnd,if_pos granted,List.tail_nil,ih,List.flatten_cons,List.append_assoc]

theorem operate_run_refused {kind : ErrorKind} {f : World → Option World} {w : World}
    (refused : f w = none) : operate kind f w [] = .failed (.openDal kind) w [] := by
  rw [operate,call_run,refused]

theorem writer_run (e : Engine) (kind : WriterKind) (path : Text) (chunks : List Bytes) (w₀ : World) :
    (do
      openWriter kind (tempPathOf path)
      let taken ← writeChunks kind (tempPathOf path) [] (chunks.map .ok)
      closeWriter kind (tempPathOf path) taken
      operate .other fun w => (w.primary.rename (tempPathOf path) path).map w.setPrimary
      e.poolStat path : Vfs VfsFileInfo) w₀ [] = (do
      operate .other fun w => (w.primary.write (tempPathOf path) chunks.flatten).map w.setPrimary
      operate .other fun w => (w.primary.rename (tempPathOf path) path).map w.setPrimary
      e.poolStat path : Vfs VfsFileInfo) w₀ [] := by
  have granted : Granted [] := granted_nil
  by_cases accepted : w₀.primary.accepts (tempPathOf path) = true
  · have written : operate .other (fun w : World =>
        (w.primary.write (tempPathOf path) chunks.flatten).map w.setPrimary) w₀ [] =
          .done () (w₀.setPrimary ⟨w₀.primary.files.insert (tempPathOf path) chunks.flatten,
            w₀.primary.makeAncestors (tempPathOf path)⟩) [] := by
      apply operate_run granted
      rw [Disk.write,if_pos accepted]
      rfl
    have opens : openWriter kind (tempPathOf path) w₀ [] =
        .done () (w₀.setPrimary (writing kind (tempPathOf path) [] w₀.primary)) [] := by
      apply operate_run granted
      rw [if_pos accepted]
      cases kind with
      | inPlace =>
        dsimp only
        rw [Disk.write,if_pos accepted]
        rfl
      | onClose => rfl
    have taken := writeChunks_outcome kind (tempPathOf path) w₀.primary (chunks.map .ok) []
      (w₀.setPrimary (writing kind (tempPathOf path) [] w₀.primary)) [] rfl
    rw [streamEnd_chunks,List.nil_append] at taken
    have closes : closeWriter kind (tempPathOf path) chunks.flatten
        (w₀.setPrimary (writing kind (tempPathOf path) chunks.flatten w₀.primary)) [] =
          .done () (w₀.setPrimary ⟨w₀.primary.files.insert (tempPathOf path) chunks.flatten,
            w₀.primary.makeAncestors (tempPathOf path)⟩) [] := by
      apply operate_run granted
      cases kind with
      | inPlace => rfl
      | onClose =>
        change ((Disk.write w₀.primary (tempPathOf path) chunks.flatten).map _) = _
        rw [Disk.write,if_pos accepted]
        rfl
    rw [bind_run written,bind_run opens,bind_run taken]
    exact bind_run closes
  · have refused : operate .other (fun w : World =>
        (w.primary.write (tempPathOf path) chunks.flatten).map w.setPrimary) w₀ [] =
          .failed (.openDal .other) w₀ [] := by
      apply operate_run_refused
      rw [Disk.write,if_neg accepted]
      rfl
    have unopened : openWriter kind (tempPathOf path) w₀ [] = .failed (.openDal .other) w₀ [] := by
      apply operate_run_refused
      rw [if_neg accepted]
    rw [bind_apply,bind_apply,refused,unopened]

/-- When nothing fails, the kind of writer and the cut of the stream into
chunks make no difference. -/
theorem poolWriteChunks_run (e : Engine) (kind : WriterKind) (path : Text) (chunks : List Bytes)
    (w : World) :
    e.poolWriteChunks kind path (chunks.map .ok) w [] = e.poolWriteStream path chunks.flatten w [] :=
  writer_run e kind path chunks _

end StorageHub.Scoped
