import StorageHub.Mounts.Overlay

/-! A move between two storages: a copy of a tree, then the deletion of the
tree. What counts as one file in the destination is up to its storage. -/
namespace StorageHub.Mounts
open Library WriteCache Paths Scoped Effect

/-! ### Trees of a source -/

/-- What is at a path: a file, or a directory with the names and the paths of
its children. -/
inductive SourceEntry
  | file (data : Bytes)
  | dir (children : List (Text × Text))

def SourceEntry.isDir : SourceEntry → Bool
  | .file _ => false
  | .dir _ => true

section source
variable (look : Text → Option SourceEntry)

/-- A file lies at or below a path, by some names. -/
inductive Lies : Text → List Text → Bytes → Prop
  | file {path data} (here : look path = some (.file data)) : Lies path [] data
  | child {path children name place names data} (here : look path = some (.dir children))
      (listed : (name,place) ∈ children) (below : Lies place names data) : Lies path (name::names) data

/-- A path of the tree of `src`, by the names that lead to it. -/
inductive Along (src : Text) : List Text → Text → Prop
  | start : Along src [] src
  | child {names path children name place} (above : Along src names path)
      (here : look path = some (.dir children)) (listed : (name,place) ∈ children) :
      Along src (names ++ [name]) place

/-- A name of a child is neither empty nor a path. -/
def ChildName (name : Text) : Prop := name ≠ [] ∧ '/' ∉ name

/-- Names lead to one file at most. -/
structure SourceTree (src : Text) : Prop where
  names : ∀ names data, Lies look src names data → ∀ name ∈ names, ChildName name
  single : ∀ names data data', Lies look src names data → Lies look src names data' → data = data'

variable {look} {src path : Text} {names rest : List Text} {data : Bytes}

theorem lies_along (along : Along look src names path) (lies : Lies look path rest data) :
    Lies look src (names ++ rest) data := by
  induction along generalizing rest with
  | start => exact lies
  | child above here listed ih =>
    rw [List.append_assoc]
    exact ih (.child here listed lies)

end source

/-! ### Two storages -/

/-- Where the copy puts what some names lead to. -/
def placeOf (dst : Text) (names : List Text) : Text := names.foldl joinLogicalPath dst

/-- Different names lead to different files. -/
def TellsApart {κ : Type} (key : Text → κ) (dst : Text) : Prop :=
  ∀ names names', (∀ name ∈ names, ChildName name) → (∀ name ∈ names', ChildName name) →
    key (placeOf dst names) = key (placeOf dst names') → names = names'

section storages
variable {σ ω κ : Type} (src dst : VfsStorage σ ω) (look : σ → Text → Option SourceEntry) (key : Text → κ)
  (files : σ → κ → Option Bytes)

structure Unchanged (s s' : σ) : Prop where
  source : look s' = look s
  target : files s' = files s

/-- Two storages that do not share anything, by the calls a move makes of them.
`look` is what is in the source and `files` are the files of the destination; a
call may fail, and then changes nothing, save that a failed write leaves
anything at its path and a failed deletion in the source. -/
structure Separate : Prop where
  stat : ∀ path s, Meets (· = s) (src.stat path)
    (fun info s' => Unchanged look files s s' ∧ ∃ entry, look s path = some entry ∧ entry.isDir = info.isDir)
    (fun _ => Unchanged look files s) (Unchanged look files s)
  list : ∀ path s, Meets (· = s) (src.list path)
    (fun entries s' => Unchanged look files s s' ∧ ∃ children, look s path = some (.dir children) ∧
      ∀ child, child ∈ children ↔ ∃ entry ∈ entries, (entry.name,entry.path) = child)
    (fun _ => Unchanged look files s) (Unchanged look files s)
  readStream : ∀ path s, Meets (· = s) (src.readStream path)
    (fun read s' => Unchanged look files s s' ∧ look s path = some (.file read.1))
    (fun _ => Unchanged look files s) (Unchanged look files s)
  delete : ∀ path found, Keeps (files · = found) (src.delete path)
  exists_ : ∀ path s, Keeps (Unchanged look files s) (dst.exists_ path)
  createDirAll : ∀ path s, Keeps (Unchanged look files s) (dst.createDirAll path)
  writeStream : ∀ path data s, Meets (· = s) (dst.writeStream path data)
    (fun _ s' => look s' = look s ∧ files s' (key path) = some data ∧ ∀ k, k ≠ key path → files s' k = files s k)
    (fun _ s' => look s' = look s) fun s' => look s' = look s
  statTarget : ∀ path s, Keeps (Unchanged look files s) (dst.stat path)

/-- Every file of the tree is in the destination, with its content. -/
def Arrived (tree : Text → Option SourceEntry) (from_ to_ : Text) (s : σ) : Prop :=
  ∀ names data, Lies tree from_ names data → files s (key (placeOf to_ names)) = some data

end storages

/-! ### The copy -/

section rules
variable {σ ω ε α : Type} {m : Effect σ ω ε α} {P : σ → Prop} {Q : α → σ → Prop} {E : ε → σ → Prop} {C : σ → Prop}

theorem meets_from (each : ∀ s, P s → Meets (· = s) m Q E C) : Meets P m Q E C :=
  fun s cs holds => each s holds s cs rfl

theorem meets_fact {fact : Prop} (met : fact → Meets P m Q E C) : Meets (fun s => P s ∧ fact) m Q E C :=
  fun s cs holds => met holds.2 s cs holds.1

theorem keeps_from {R : σ → σ → Prop} (refl : ∀ s, R s s) (each : ∀ s, Keeps (R s) m) {s : σ} :
    Meets (· = s) m (fun _ => R s) (fun _ => R s) (R s) :=
  (each s).consequence (fun s' same => by rw [same]; exact refl s) (fun _ _ holds => holds)
    (fun _ _ holds => holds) fun _ holds => holds

theorem ensures_of_meets {P' : σ → Prop} {Q' : α → σ → Prop} (met : Meets P m Q E C) (pre : ∀ s, P' s → P s)
    (post : ∀ a s, Q a s → Q' a s) : Ensures P' m Q' :=
  met.consequence pre post (fun _ _ _ => trivial) fun _ _ => trivial

/-- What a loop keeps while its entries are worked off. -/
theorem meets_forEach {α : Type} {body : α → Effect σ ω VfsError Unit} {I : List α → σ → Prop}
    {E : VfsError → σ → Prop} {entries : List α}
    (step : ∀ entry rest, entry ∈ entries → Meets (I (entry::rest)) (body entry) (fun _ => I rest) E C) :
    Meets (I entries) (forEach body entries) (fun _ => I []) E C := by
  induction entries with
  | nil => exact Meets.pure fun _ holds => holds
  | cons entry rest ih =>
    apply (step entry rest List.mem_cons_self).bind
    intro _
    exact ih fun entry' rest' member => step entry' rest' (List.mem_cons_of_mem _ member)

end rules

section copy
variable {σ ω κ : Type} {src dst : VfsStorage σ ω} {look : σ → Text → Option SourceEntry} {key : Text → κ}
  {files : σ → κ → Option Bytes} {tree : Text → Option SourceEntry} {from_ to_ : Text}

/-- The source is as it was, and of the files by some names those of the tree
have arrived. -/
structure Kept (look : σ → Text → Option SourceEntry) (key : Text → κ) (files : σ → κ → Option Bytes)
    (tree : Text → Option SourceEntry) (from_ to_ : Text) (copied : List Text → Prop) (s : σ) : Prop where
  source : look s = tree
  target : ∀ names data, copied names → Lies tree from_ names data → files s (key (placeOf to_ names)) = some data

/-- The names of a file at or below a path that `names` lead to. -/
def LiesBelow (tree : Text → Option SourceEntry) (path : Text) (names whole : List Text) : Prop :=
  ∃ rest data, whole = names ++ rest ∧ Lies tree path rest data

theorem kept_unchanged {copied : List Text → Prop} {s s' : σ} (same : Unchanged look files s s')
    (kept : Kept look key files tree from_ to_ copied s) : Kept look key files tree from_ to_ copied s' := by
  refine ⟨same.source.trans kept.source,?_⟩
  rw [same.target]
  exact kept.target

theorem kept_mono {copied more : List Text → Prop} {s : σ} (fewer : ∀ names, more names → copied names)
    (kept : Kept look key files tree from_ to_ copied s) : Kept look key files tree from_ to_ more s :=
  ⟨kept.source,fun names data here lies => kept.target names data (fewer names here) lies⟩

/-- A call that changes nothing, and what its value tells. -/
theorem meets_unchanged {α : Type} {m : Effect σ ω VfsError α} (fact : α → (Text → Option SourceEntry) → Prop)
    (law : ∀ s, Meets (· = s) m (fun a s' => Unchanged look files s s' ∧ fact a (look s))
      (fun _ => Unchanged look files s) (Unchanged look files s)) (copied : List Text → Prop) :
    Meets (Kept look key files tree from_ to_ copied) m
      (fun a s => Kept look key files tree from_ to_ copied s ∧ fact a tree) (fun _ s => look s = tree)
      fun s => look s = tree := by
  apply meets_from
  intro s kept
  apply (law s).consequence (fun _ same => same)
  · rintro a s' ⟨same,told⟩
    rw [kept.source] at told
    exact ⟨kept_unchanged same kept,told⟩
  · exact fun _ s' same => same.source.trans kept.source
  · exact fun s' same => same.source.trans kept.source

theorem unchanged_refl (s : σ) : Unchanged look files s s := ⟨rfl,rfl⟩

theorem meets_kept {α : Type} {m : Effect σ ω VfsError α} (law : ∀ s, Keeps (Unchanged look files s) m)
    (copied : List Text → Prop) :
    Meets (Kept look key files tree from_ to_ copied) m (fun _ => Kept look key files tree from_ to_ copied)
      (fun _ s => look s = tree) fun s => look s = tree := by
  apply meets_from
  intro s kept
  apply (keeps_from unchanged_refl law).consequence (fun _ same => same)
  · exact fun _ s' same => kept_unchanged same kept
  · exact fun _ s' same => same.source.trans kept.source
  · exact fun s' same => same.source.trans kept.source

theorem ensureParentDir_kept (separate : Separate src dst look key files) (path : Text)
    (copied : List Text → Prop) :
    Meets (Kept look key files tree from_ to_ copied) (ensureParentDir dst path)
      (fun _ => Kept look key files tree from_ to_ copied) (fun _ s => look s = tree) fun s => look s = tree := by
  apply meets_kept
  intro s
  unfold ensureParentDir
  dsimp only
  split
  next => exact Keeps.pure ()
  next =>
    apply Keeps.bind (separate.exists_ _ s)
    intro present
    split
    next => exact Keeps.pure ()
    next => exact (separate.createDirAll _ s).bind fun _ => Keeps.pure ()

/-- A write puts one file of the tree in its place, and no other file has it. -/
theorem write_kept (separate : Separate src dst look key files) (whole : SourceTree tree from_)
    (tells : TellsApart key to_) {names : List Text} {path : Text} {data : Bytes} (along : Along tree from_ names path)
    (here : tree path = some (.file data)) (copied : List Text → Prop) :
    Meets (Kept look key files tree from_ to_ copied) (dst.writeStream (placeOf to_ names) data)
      (fun _ => Kept look key files tree from_ to_ fun other => copied other ∨ LiesBelow tree path names other)
      (fun _ s => look s = tree) fun s => look s = tree := by
  have lies : Lies tree from_ names data := by
    have found := lies_along along (.file here)
    rwa [List.append_nil] at found
  apply meets_from
  intro s kept
  apply (separate.writeStream (placeOf to_ names) data s).consequence (fun _ same => same)
  · rintro _ s' ⟨source,written,others⟩
    refine ⟨source.trans kept.source,?_⟩
    intro other content either found
    by_cases same : key (placeOf to_ other) = key (placeOf to_ names)
    · have equal := tells other names (whole.names other content found) (whole.names names data lies) same
      subst equal
      rw [written,whole.single other content data found lies]
    · rw [others _ same]
      rcases either with before | ⟨rest,_,split,below⟩
      · exact kept.target other content before found
      · cases below with
        | file _ =>
          rw [List.append_nil] at split
          exact absurd (by rw [split]) same
        | child there _ _ =>
          rw [here] at there
          cases there
  · exact fun _ s' same => same.trans kept.source
  · exact fun s' same => same.trans kept.source

/-- The copy of a path of the tree brings the files below it. -/
theorem copyPathBetween_kept (separate : Separate src dst look key files) (whole : SourceTree tree from_)
    (tells : TellsApart key to_) (fuel : Nat) {names : List Text} {path : Text} (along : Along tree from_ names path)
    (copied : List Text → Prop) :
    Meets (Kept look key files tree from_ to_ copied) (copyPathBetween src dst fuel path (placeOf to_ names))
      (fun _ => Kept look key files tree from_ to_ fun other => copied other ∨ LiesBelow tree path names other)
      (fun _ s => look s = tree) fun s => look s = tree := by
  induction fuel generalizing names path copied with
  | zero => exact Meets.fail fun _ kept => kept.source
  | succ fuel ih =>
    rw [copyPathBetween]
    apply Meets.bind (meets_unchanged (fun info tree => ∃ entry, tree path = some entry ∧ entry.isDir = info.isDir)
      (separate.stat path) copied)
    intro info
    apply meets_fact
    rintro ⟨entry,here,kind⟩
    split
    next directory =>
      apply Meets.bind (meets_kept (separate.createDirAll _) copied)
      intro _
      apply Meets.bind (meets_unchanged (fun entries tree => ∃ children, tree path = some (.dir children) ∧
        ∀ child, child ∈ children ↔ ∃ entry ∈ entries, (entry.name,entry.path) = child) (separate.list path) copied)
      intro entries
      apply meets_fact
      rintro ⟨children,listed,all⟩
      have step (some_ : List FileInfo) (inside : ∀ entry ∈ some_, (entry.name,entry.path) ∈ children)
          (copied : List Text → Prop) : Meets (Kept look key files tree from_ to_ copied)
          (forEach (fun entry => copyPathBetween src dst fuel entry.path
            (joinLogicalPath (placeOf to_ names) entry.name)) some_)
          (fun _ => Kept look key files tree from_ to_ fun other => copied other ∨
            ∃ entry ∈ some_, LiesBelow tree entry.path (names ++ [entry.name]) other)
          (fun _ s => look s = tree) fun s => look s = tree := by
        induction some_ generalizing copied with
        | nil =>
          apply Meets.pure
          intro s kept
          apply kept_mono _ kept
          rintro other (before | ⟨entry,none_,-⟩)
          · exact before
          · cases none_
        | cons entry rest inner =>
          have below := Along.child along listed (inside entry List.mem_cons_self)
          have place : joinLogicalPath (placeOf to_ names) entry.name = placeOf to_ (names ++ [entry.name]) := by
            rw [placeOf,placeOf,List.foldl_append]
            rfl
          rw [forEach]
          apply Meets.bind
          · rw [place]
            exact ih below copied
          · intro _
            have later := inner (fun entry member => inside entry (List.mem_cons_of_mem _ member))
              fun other => copied other ∨ LiesBelow tree entry.path (names ++ [entry.name]) other
            apply later.consequence (fun _ kept => kept) _ (fun _ _ same => same) fun _ same => same
            intro _ s kept
            apply kept_mono _ kept
            rintro other (before | ⟨next,member,lies⟩)
            · exact .inl (.inl before)
            · rcases List.mem_cons.mp member with same | further
              · rw [same] at lies
                exact .inl (.inr lies)
              · exact .inr ⟨next,further,lies⟩
      have looped := step entries (fun entry member => (all _).mpr ⟨entry,member,rfl⟩) copied
      apply looped.consequence (fun _ kept => kept) _ (fun _ _ same => same) fun _ same => same
      intro _ s kept
      apply kept_mono _ kept
      rintro other (before | ⟨rest,data,split,lies⟩)
      · exact .inl before
      · cases lies with
        | file there =>
          rw [listed] at there
          cases there
        | @child _ children' name place names' _ there inside below =>
          rw [listed] at there
          cases there
          obtain ⟨entry,member,same⟩ := (all _).mp inside
          obtain ⟨rfl,rfl⟩ := Prod.mk.inj same
          exact .inr ⟨entry,member,names',data,by rw [split,List.append_assoc]; rfl,below⟩
    next plain =>
      apply Meets.bind (ensureParentDir_kept separate _ copied)
      intro _
      apply Meets.bind (meets_unchanged (fun read tree => tree path = some (.file read.1)) (separate.readStream path) copied)
      intro (data,info)
      apply meets_fact
      intro file
      apply Meets.bind (write_kept separate whole tells along file copied)
      intro _
      exact Meets.pure fun _ kept => kept

/-! ### The deletion -/

theorem deletePathRecursive_keeps (separate : Separate src dst look key files) (found : κ → Option Bytes)
    (fuel : Nat) (path : Text) : Keeps (files · = found) (deletePathRecursive src fuel path) := by
  have reads {α : Type} {m : Effect σ ω VfsError α} (fact : σ → α → Prop)
      (law : ∀ s, Meets (· = s) m (fun a s' => Unchanged look files s s' ∧ fact s a)
        (fun _ => Unchanged look files s) (Unchanged look files s)) : Keeps (files · = found) m := by
    apply meets_from
    intro s same
    apply (law s).consequence (fun _ here => here)
    · exact fun _ s' after => after.1.target.trans same
    · exact fun _ s' after => after.target.trans same
    · exact fun s' after => after.target.trans same
  induction fuel generalizing path with
  | zero => exact Keeps.fail _
  | succ fuel ih =>
    rw [deletePathRecursive]
    apply Keeps.bind (reads (fun s info => ∃ entry, look s path = some entry ∧ entry.isDir = info.isDir)
      (separate.stat path))
    intro info
    have last : Keeps (files · = found) (do
        let _ ← src.delete path
        pure () : Effect σ ω VfsError Unit) := (separate.delete path found).bind fun _ => Keeps.pure ()
    dsimp only
    split
    next =>
      apply Keeps.bind (reads (fun s entries => ∃ children, look s path = some (.dir children) ∧
        ∀ child, child ∈ children ↔ ∃ entry ∈ entries, (entry.name,entry.path) = child) (separate.list path))
      intro entries
      apply Keeps.bind
      · induction entries with
        | nil => exact Keeps.pure ()
        | cons entry rest inner =>
          rw [forEach]
          exact (ih entry.path).bind fun _ => inner
      · exact fun _ => last
    next => exact last

theorem arrived_keeps {s : σ} (arrived : Arrived key files tree from_ to_ s) {α : Type} {m : Effect σ ω VfsError α}
    (kept : ∀ found, Keeps (files · = found) m) : Meets (· = s) m (fun _ => Arrived key files tree from_ to_)
      (fun _ => Arrived key files tree from_ to_) (Arrived key files tree from_ to_) := by
  have moved (s' : σ) (same : files s' = files s) : Arrived key files tree from_ to_ s' := by
    rw [Arrived,same]
    exact arrived
  exact (kept (files s)).consequence (fun _ same => by rw [same]) (fun _ => moved) (fun _ => moved) moved

/-- All that is copied has arrived, whatever becomes of the source. -/
theorem copied_arrived {s : σ}
    (kept : Kept look key files tree from_ to_ (fun other => False ∨ LiesBelow tree from_ [] other) s) :
    Arrived key files tree from_ to_ s :=
  fun names data lies => kept.target names data (.inr ⟨names,data,rfl,lies⟩) lies

end copy

/-! ### The move -/

namespace MountedUserStorage
variable {σ ω κ : Type} {s : MountedUserStorage σ ω} {src dst : Text} {source target : StorageEndpoint σ ω}
  {look : σ → Text → Option SourceEntry} {key : Text → κ} {files : σ → κ → Option Bytes} {w : σ}

theorem copy_source (separate : Separate source.storage target.storage look key files)
    (whole : SourceTree (look w) source.path) (tells : TellsApart key target.path) (fuel : Nat) :
    Meets (· = w) (copyPathBetween source.storage target.storage fuel source.path target.path)
      (fun _ => Arrived key files (look w) source.path target.path) (fun _ s => look s = look w)
      fun s => look s = look w := by
  have along : Along (look w) source.path [] source.path := .start
  apply (copyPathBetween_kept separate whole tells fuel along fun _ => False).consequence
  · rintro _ rfl
    exact ⟨rfl,fun _ _ nothing => nothing.elim⟩
  · exact fun _ _ kept => copied_arrived kept
  · exact fun _ _ same => same
  · exact fun _ same => same

theorem stat_keeps (resolved : s.resolveEndpoint dst = .ok target)
    (separate : Separate source.storage target.storage look key files) (found : κ → Option Bytes) :
    Keeps (files · = found) (s.stat dst) := by
  have kept : Keeps (files · = found) (target.storage.stat target.path) := by
    apply meets_from
    intro s' same
    apply (separate.statTarget target.path s').consequence
    · rintro _ rfl
      exact unchanged_refl _
    · exact fun _ _ after => after.target.trans same
    · exact fun _ _ after => after.target.trans same
    · exact fun _ after => after.target.trans same
  rw [stat,resolved,ofExcept_ok,pure_bind]
  split
  next runtime =>
    split
    next => exact Keeps.pure _
    next => exact Keeps.map _ kept
  next => exact kept

end MountedUserStorage

/-! ### Storages that take paths as they are -/

section plain
variable {dst : Text}

theorem placeOf_append (trimmed : Text.trimEnd '/' dst = dst) (nested : dst ≠ ['/']) {names : List Text}
    (valid : ∀ name ∈ names, ChildName name) : placeOf dst names = dst ++ names.flatMap ('/' :: ·) := by
  induction names generalizing dst with
  | nil => rw [placeOf,List.foldl_nil,List.flatMap_nil,List.append_nil]
  | cons name rest ih =>
    obtain ⟨given,plain⟩ := valid name List.mem_cons_self
    have joined : joinLogicalPath dst name = dst ++ '/'::name := by
      have start : Text.trimStart '/' name = name := by
        apply trimStart_of_head
        intro slash
        exact plain (List.mem_of_mem_head? slash)
      rw [joinLogicalPath,if_neg given,if_neg nested,trimmed,start]
    obtain ⟨init,last,split⟩ := List.eq_nil_or_concat name |>.resolve_left given
    have other : last ≠ '/' := by
      rintro rfl
      apply plain
      rw [split]
      simp
    have ends : dst ++ '/'::name = (dst ++ '/'::init) ++ [last] := by
      rw [split]
      simp
    have longer : dst ++ '/'::name ≠ ['/'] := by
      intro alone
      have counted := congrArg List.length alone
      have positive := List.length_pos_of_ne_nil given
      simp at counted
      omega
    have later := @ih (dst ++ '/'::name) (by rw [ends,trimEnd_of_last other]) longer
      fun name member => valid name (List.mem_cons_of_mem _ member)
    rw [placeOf] at later ⊢
    rw [List.foldl_cons,joined,later,List.flatMap_cons,List.append_assoc]

theorem flatMap_injective {names names' : List Text} (valid : ∀ name ∈ names, ChildName name)
    (valid' : ∀ name ∈ names', ChildName name)
    (same : names.flatMap ('/' :: ·) = names'.flatMap ('/' :: ·)) : names = names' := by
  have first {name rest : Text} (plain : '/' ∉ name) (ends : rest = [] ∨ ∃ tail, rest = '/'::tail) :
      (name ++ rest).takeWhile (· != '/') = name := by
    have whole : name.takeWhile (· != '/') = name := by
      rw [List.takeWhile_eq_self_iff]
      intro c member
      rw [bne_iff_ne]
      rintro rfl
      exact plain member
    have stops : rest.takeWhile (· != '/') = [] := by
      rcases ends with empty | ⟨tail,slash⟩
      · rw [empty]
        rfl
      · rw [slash]
        rfl
    rw [List.takeWhile_append,whole,if_pos rfl,stops,List.append_nil]
  have ends (names : List Text) : names.flatMap ('/' :: ·) = [] ∨ ∃ tail, names.flatMap ('/' :: ·) = '/'::tail := by
    cases names with
    | nil => exact .inl rfl
    | cons name rest => exact .inr ⟨name ++ rest.flatMap ('/' :: ·),rfl⟩
  induction names generalizing names' with
  | nil =>
    cases names' with
    | nil => rfl
    | cons name rest => cases same
  | cons name rest ih =>
    cases names' with
    | nil => cases same
    | cons name' rest' =>
      rw [List.flatMap_cons,List.flatMap_cons,List.cons_append,List.cons_append] at same
      have tails := (List.cons.inj same).2
      have heads := congrArg (List.takeWhile (· != '/')) tails
      rw [first (valid name List.mem_cons_self).2 (ends rest),
        first (valid' name' List.mem_cons_self).2 (ends rest')] at heads
      rw [heads] at tails ⊢
      rw [ih (fun name member => valid name (List.mem_cons_of_mem _ member))
        (fun name member => valid' name (List.mem_cons_of_mem _ member)) (List.append_cancel_left tails)]

/-- Below a path in normal form different names make different paths. -/
theorem tellsApart_id (trimmed : Text.trimEnd '/' dst = dst) (nested : dst ≠ ['/']) : TellsApart id dst := by
  intro names names' valid valid' same
  rw [id,id,placeOf_append trimmed nested valid,placeOf_append trimmed nested valid'] at same
  exact flatMap_injective valid valid' (List.append_cancel_left same)

end plain

/-! ### A small move -/

structure TwoDisks where
  left : Text → Option Bytes
  right : Text → Option Bytes

def smallFile (path : Text) (data : Bytes) : FileInfo := ⟨fileInfo path ⟨false,data.length⟩,none⟩

def smallDir (path : Text) : FileInfo := ⟨fileInfo path ⟨true,0⟩,none⟩

/-- The disk on the left, with a directory `/d` for a file `/d/f`. -/
def leftStorage : VfsStorage TwoDisks Unit where
  read path := Effect.fail (.notFound path)
  write path _ := Effect.fail (.notFound path)
  readStream path := do
    let s ← Effect.get
    if path = "/d".toList then Effect.fail (.io .other)
    else
      match s.left path with
      | some data => pure (data,smallFile path data)
      | none => Effect.fail (.notFound path)
  writeStream path _ := Effect.fail (.notFound path)
  exists_ path := do
    let s ← Effect.get
    pure (s.left path).isSome
  stat path := do
    let s ← Effect.get
    if path = "/d".toList then pure (smallDir path)
    else
      match s.left path with
      | some data => pure (smallFile path data)
      | none => Effect.fail (.notFound path)
  list path := do
    let s ← Effect.get
    if path = "/d".toList then pure (((s.left "/d/f".toList).map (smallFile "/d/f".toList)).toList)
    else Effect.fail (.notFound path)
  listRecursive path := Effect.fail (.notFound path)
  createDirAll path := Effect.fail (.notFound path)
  delete path := do
    Effect.modify fun s => { s with left := Function.update s.left path none }
    pure (smallFile path [])
  moveFile path _ := Effect.fail (.notFound path)

/-- The disk on the right, with all directories there are. -/
def rightStorage : VfsStorage TwoDisks Unit where
  read path := Effect.fail (.notFound path)
  write path _ := Effect.fail (.notFound path)
  readStream path := Effect.fail (.notFound path)
  writeStream path data := do
    Effect.modify fun s => { s with right := Function.update s.right path (some data) }
    pure (smallFile path data)
  exists_ _ := pure true
  stat path := do
    let s ← Effect.get
    match s.right path with
    | some data => pure (smallFile path data)
    | none => pure (smallDir path)
  list path := Effect.fail (.notFound path)
  listRecursive path := Effect.fail (.notFound path)
  createDirAll path := pure (smallDir path)
  delete path := Effect.fail (.notFound path)
  moveFile path _ := Effect.fail (.notFound path)

def leftLook (s : TwoDisks) (path : Text) : Option SourceEntry :=
  if path = "/d".toList then
    some (.dir ((s.left "/d/f".toList).map fun _ => ("f".toList,"/d/f".toList)).toList)
  else (s.left path).map .file

theorem small_separate : Separate leftStorage rightStorage leftLook id TwoDisks.right where
  stat path _ := by
    rintro s cs rfl
    by_cases top : path = "/d".toList
    · simp only [leftStorage,bind_apply,get_apply,if_pos top,pure_apply]
      exact ⟨unchanged_refl _,_,if_pos top,rfl⟩
    · cases found : s.left path with
      | none =>
        simp only [leftStorage,bind_apply,get_apply,if_neg top,found,fail_apply]
        exact unchanged_refl _
      | some data =>
        simp only [leftStorage,bind_apply,get_apply,if_neg top,found,pure_apply]
        exact ⟨unchanged_refl _,.file data,by rw [leftLook,if_neg top,found]; rfl,rfl⟩
  list path _ := by
    rintro s cs rfl
    by_cases top : path = "/d".toList
    · simp only [leftStorage,bind_apply,get_apply,if_pos top,pure_apply]
      refine ⟨unchanged_refl _,_,if_pos top,?_⟩
      intro child
      cases s.left "/d/f".toList with
      | none => simp
      | some data =>
        simp only [Option.map_some,Option.toList_some,List.mem_singleton,exists_eq_left]
        exact eq_comm
    · simp only [leftStorage,bind_apply,get_apply,if_neg top,fail_apply]
      exact unchanged_refl _
  readStream path _ := by
    rintro s cs rfl
    by_cases top : path = "/d".toList
    · simp only [leftStorage,bind_apply,get_apply,if_pos top,fail_apply]
      exact unchanged_refl _
    · cases found : s.left path with
      | none =>
        simp only [leftStorage,bind_apply,get_apply,if_neg top,found,fail_apply]
        exact unchanged_refl _
      | some data =>
        simp only [leftStorage,bind_apply,get_apply,if_neg top,found,pure_apply]
        exact ⟨unchanged_refl _,by rw [leftLook,if_neg top,found]; rfl⟩
  delete path found := by
    apply Keeps.bind
    · exact Keeps.modify fun s same => same
    · exact fun _ => Keeps.pure _
  exists_ path s := Keeps.pure _
  createDirAll path s := Keeps.pure _
  writeStream path data _ := by
    rintro s cs rfl
    simp only [rightStorage,bind_apply,modify_apply,pure_apply]
    refine ⟨rfl,Function.update_self ..,?_⟩
    intro k other
    exact Function.update_of_ne other ..
  statTarget path s := by
    apply Keeps.bind Keeps.get
    intro s'
    split
    next => exact Keeps.pure _
    next => exact Keeps.pure _

/-- A directory with one file, and a mount to move it into. -/
def smallMounted : MountedUserStorage TwoDisks Unit :=
  ⟨leftStorage,[⟨⟨"1".toList,"/m".toList,none,0⟩,rightStorage⟩]⟩

def oneFile : TwoDisks where
  left path := if path = "/d/f".toList then some [1] else none
  right _ := none

theorem oneFile_look (path : Text) : leftLook oneFile path =
    if path = "/d".toList then some (.dir [("f".toList,"/d/f".toList)])
    else if path = "/d/f".toList then some (.file [1]) else none := by
  rw [leftLook,oneFile]
  split
  next => rfl
  next =>
    dsimp only
    split
    next => rfl
    next => rfl

theorem oneFile_lies {path : Text} {names : List Text} {data : Bytes} (lies : Lies (leftLook oneFile) path names data) :
    data = [1] ∧ (path = "/d".toList ∧ names = ["f".toList] ∨ path = "/d/f".toList ∧ names = []) := by
  induction lies with
  | @file path data here =>
    rw [oneFile_look] at here
    split at here
    next => cases here
    next =>
      split at here
      next inner =>
        cases here
        exact ⟨rfl,.inr ⟨inner,rfl⟩⟩
      next => cases here
  | @child path children name place names data here listed below ih =>
    rw [oneFile_look] at here
    split at here
    next top =>
      cases here
      obtain ⟨rfl,rfl⟩ := Prod.mk.inj (List.mem_singleton.mp listed)
      obtain ⟨content,⟨outer,-⟩ | ⟨-,rfl⟩⟩ := ih
      · exact absurd outer (by decide)
      · exact ⟨content,.inl ⟨top,rfl⟩⟩
    next =>
      split at here
      next => cases here
      next => cases here

theorem oneFile_tree : SourceTree (leftLook oneFile) "/d".toList where
  names names data lies name member := by
    obtain ⟨-,⟨-,rfl⟩ | ⟨-,rfl⟩⟩ := oneFile_lies lies
    · rw [List.mem_singleton.mp member]
      exact ⟨by decide,by decide⟩
    · cases member
  single names data data' lies lies' := (oneFile_lies lies).1.trans (oneFile_lies lies').1.symm

namespace MountedUserStorage

end MountedUserStorage
end StorageHub.Mounts
