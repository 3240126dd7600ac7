import StorageHub.WriteCache.Restarts

/-! Runs of the cache with restarts. -/
namespace StorageHub.WriteCache
open Library Shared

/-! ### Steps of a process -/

/-- The tasks on a path come one after the other, and no removal fails. -/
def InTurn (s : State) : Action → Prop
  | .enqueue target _ => s.idle target.path = true
  | .flush r _ => ∀ record ∈ s.shared.records.lookup r,
      s.shared.entries.lookup record.target.path = some r ∧ s.idle record.target.path = true
  | .takeQuota _ => True
  | .advance t env => ∀ task ∈ s.tasks.lookup t, task.removes = true → env.ok = true
  | .evict _ => True

section step
variable {m : WriteCacheManager} {s s' : State} {shared : Shared} {path : Text} {t : Nat} {task task' : Task}
  {shown : Option Bytes}

theorem lookup_spawn (u : Nat) :
    (s.spawn shared task).tasks.lookup u = if u = s.nextTask then some task else s.tasks.lookup u :=
  Store.lookup_insert_eq ..

theorem lookup_resume (u : Nat) : (s.resume t shared task).tasks.lookup u = if u = t then some task else s.tasks.lookup u :=
  Store.lookup_insert_eq ..

/-- A task that begins brings no acknowledged write. -/
theorem fresh_spawn (numbered : Numbered s) (quiet : ∀ e, task = .enqueue e → e.phase ≠ .done .acknowledged)
    (fresh : s.Fresh path shown) : (s.spawn shared task).Fresh path shown := by
  apply fresh.mono
  · intro u e found _ told
    rw [lookup_spawn] at found
    split at found
    next => exact absurd told (quiet e (Option.some.inj found))
    next => exact found
  · intro u e found
    refine ⟨e,?_,rfl,rfl⟩
    rw [lookup_spawn,if_neg]
    · exact found
    · rintro rfl
      rw [numbered _ (Nat.le_refl _)] at found
      cases found

theorem idle_spawn {place : Text} (numbered : Numbered s) (idle : (s.spawn shared task).idle place = true) :
    s.idle place = true := by
  rw [idle_iff] at idle ⊢
  intro u other found there
  apply idle u other _ there
  rw [lookup_spawn,if_neg]
  · exact found
  · rintro rfl
    rw [numbered _ (Nat.le_refl _)] at found
    cases found

/-- A task begins on a path that is idle, or on none. -/
theorem durable_spawn (durable : Durable s) (filed : Filed (s.spawn shared task)) (alike : Alike s.shared shared)
    (quiet : ∀ e, task = .enqueue e → e.phase ≠ .done .acknowledged)
    (turn : ∀ path, task.place = some path → s.idle path = true)
    (kept : task.ended = false → task.Kept (s.spawn shared task) shared) : Durable (s.spawn shared task) where
  filed := filed
  all := alike.kept durable.all
  latest := by
    intro u v one other place found busy found' there
    rw [lookup_spawn] at found found'
    split at found
    next first =>
      -- the new task has the last number
      rw [first]
      split at found'
      next same => exact same.le
      next =>
        by_contra beyond
        rw [durable.filed.numbered v (Nat.le_of_lt (Nat.lt_of_not_le beyond))] at found'
        cases found'
    next =>
      split at found'
      next =>
        cases found'
        have idle := idle_iff.mp (turn place there) u one found (busyAt_iff.mp busy).1
        rw [(busyAt_iff.mp busy).2] at idle
        cases idle
      next => exact durable.latest found busy found' there
  settled idle := alike.same.settled (durable.settled (idle_spawn durable.filed.numbered idle))
  kept := by
    intro u other found running
    rw [lookup_spawn] at found
    split at found
    next =>
      cases found
      exact kept running
    next =>
      have before := durable.kept found running
      cases place : other.place with
      | none =>
        cases other with
        | quotaSync q => trivial
        | enqueue e => cases place
        | flush f => cases place
      | some path => exact before.same place alike.same fun _ => fresh_spawn durable.filed.numbered quiet
  fresh path := by
    have same : (s.spawn shared task).shared.shown path = s.shared.shown path := alike.shown
    rw [same]
    exact fresh_spawn durable.filed.numbered quiet (durable.fresh path)

/-- A task takes a step on its path. -/
theorem durable_resume (durable : Durable s) (filed : Filed (s.resume t shared task')) (found : s.tasks.lookup t = some task)
    (place : task.place = some path) (running : task.ended = false) (place' : task'.place = some path)
    (elsewhere : Elsewhere path s.shared shared)
    (calls : ∀ e, task = .enqueue e → ∃ e', task' = .enqueue e' ∧ e'.target = e.target ∧ e'.data = e.data)
    (kept : task'.Kept (s.resume t shared task') shared) (settled : task'.ended = true → shared.Settled path)
    (fresh : (s.resume t shared task').Fresh path (shared.shown path)) : Durable (s.resume t shared task') := by
  have busy : task.busyAt path = true := busyAt_iff.mpr ⟨place,running⟩
  have other_mono {place : Text} (apart : place ≠ path) (shown : Option Bytes) (fresh : s.Fresh place shown) :
      (s.resume t shared task').Fresh place shown := by
    apply fresh.mono
    · intro u e found' here _
      rw [lookup_resume] at found'
      split at found'
      next =>
        cases found'
        exact absurd (here.symm.trans (Option.some.inj place')) apart
      next => exact found'
    · intro u e found'
      rw [lookup_resume]
      split
      next same =>
        rw [same,found] at found'
        cases found'
        obtain ⟨e',rfl,target,data⟩ := calls e rfl
        exact ⟨e',rfl,target,data⟩
      next => exact ⟨e,found',rfl,rfl⟩
  constructor
  · exact filed
  · exact elsewhere.kept durable.all
  · intro u v one other at_ found' busy' found'' there
    -- where the task that has moved is, it was before
    have before (w : Nat) (here : Task) (there : (s.resume t shared task').tasks.lookup w = some here) (at_' : here.place = some at_) :
        ∃ old, s.tasks.lookup w = some old ∧ old.place = some at_ := by
      rw [lookup_resume] at there
      split at there
      next same =>
        cases there
        exact ⟨task,by rw [same]; exact found,place.trans (place'.symm.trans at_')⟩
      next => exact ⟨here,there,at_'⟩
    obtain ⟨old,old_found,old_there⟩ := before v other found'' there
    rw [lookup_resume] at found'
    split at found'
    next same =>
      cases found'
      have here : at_ = path := Option.some.inj ((busyAt_iff.mp busy').1.symm.trans place')
      rw [here] at old_there
      rw [same]
      exact durable.latest found busy old_found old_there
    next => exact durable.latest found' busy' old_found old_there
  · intro at_ idle
    rw [idle_iff] at idle
    by_cases same : at_ = path
    · rw [same]
      apply settled
      apply idle t task' _ (by rw [same]; exact place')
      rw [lookup_resume,if_pos rfl]
    · apply (elsewhere.same same).settled
      apply durable.settled
      rw [idle_iff]
      intro u other found' there
      apply idle u other _ there
      rw [lookup_resume,if_neg]
      · exact found'
      · rintro rfl
        rw [found] at found'
        cases found'
        exact same (Option.some.inj (there.symm.trans place))
  · intro u other found' running'
    rw [lookup_resume] at found'
    split at found'
    next =>
      cases found'
      exact kept
    next differ =>
      have before := durable.kept found' running'
      cases there : other.place with
      | none =>
        cases other with
        | quotaSync q => trivial
        | enqueue e => cases there
        | flush f => cases there
      | some at_ =>
        have apart : at_ ≠ path := by
          rintro rfl
          have first := durable.latest found busy found' there
          have second := durable.latest found' (busyAt_iff.mpr ⟨there,running'⟩) found place
          exact differ (Nat.le_antisymm first second)
        exact before.same there (elsewhere.same apart) (other_mono apart)
  · intro at_
    by_cases same : at_ = path
    · rw [same]
      exact fresh
    · have shown : shared.shown at_ = s.shared.shown at_ := (durable.anchored at_).shown (elsewhere.same same)
      change (s.resume t shared task').Fresh at_ (shared.shown at_)
      rw [shown]
      exact other_mono same _ (durable.fresh at_)

theorem phase_of_ended {e : EnqueueTask} (ended : Task.ended (.enqueue e) = true) : ∃ outcome, e.phase = .done outcome := by
  cases phase : e.phase with
  | done outcome => exact ⟨outcome,rfl⟩
  | _ => simp [Task.ended,phase] at ended

theorem flush_phase_of_ended {f : FlushTask} (ended : Task.ended (.flush f) = true) : ∃ ok, f.phase = .done ok := by
  cases phase : f.phase with
  | done ok => exact ⟨ok,rfl⟩
  | _ => simp [Task.ended,phase] at ended

theorem enqueueStep_call {tick : Nat} {env : Env} {shared' : Shared} {e e' : EnqueueTask}
    (stepped : enqueueStep m tick env shared e = some (shared',e')) : e'.target = e.target ∧ e'.data = e.data := by
  unfold enqueueStep at stepped
  repeat' split at stepped
  all_goals cases stepped
  all_goals exact ⟨rfl,rfl⟩

/-- The step of an enqueue that is under way. -/
theorem durable_enqueue {env : Env} {e e' : EnqueueTask} (durable : Durable s) (localDir : m.backend = .localDir)
    (filed : Filed (s.resume t shared (.enqueue e'))) (found : s.tasks.lookup t = some (.enqueue e))
    (stepped : enqueueStep m s.clock env s.shared e = some (shared,e'))
    (ok : Task.removes (.enqueue e) = true → env.ok = true) : Durable (s.resume t shared (.enqueue e')) := by
  have running : Task.ended (.enqueue e) = false := by
    by_contra ended
    obtain ⟨outcome,phase⟩ := phase_of_ended (by simpa using ended)
    unfold enqueueStep at stepped
    rw [phase] at stepped
    cases stepped
  have kept : e.Kept (s.Fresh e.target.path) s.shared := durable.kept found running
  have moves := enqueueStep_moves stepped localDir ok durable.all durable.filed.records kept (durable.fresh _)
  obtain ⟨target,data⟩ := enqueueStep_call stepped
  have calls (old : EnqueueTask) (here : Task.enqueue e = .enqueue old) :
      ∃ new, Task.enqueue e' = .enqueue new ∧ new.target = old.target ∧ new.data = old.data := by
    cases here
    exact ⟨e',rfl,target,data⟩
  have mono (quiet : e'.phase ≠ .done .acknowledged) (shown : Option Bytes) (fresh : s.Fresh e.target.path shown) :
      (s.resume t shared (.enqueue e')).Fresh e.target.path shown := by
    apply fresh.mono
    · intro u other found' _ told
      rw [lookup_resume] at found'
      split at found'
      next =>
        cases found'
        exact absurd told quiet
      next => exact found'
    · intro u other found'
      rw [lookup_resume]
      split
      next same =>
        rw [same,found] at found'
        cases found'
        exact ⟨e',rfl,target,data⟩
      next => exact ⟨other,found',rfl,rfl⟩
  -- what the enqueue brings is later than all that has been told
  have own : (s.resume t shared (.enqueue e')).Fresh e.target.path (some e.data) := by
    intro u other found' here _
    refine ⟨t,e',?_,?_,by rw [target],by rw [data]⟩
    · rw [lookup_resume] at found'
      split at found'
      next same => exact same.le
      next => exact durable.latest found (busyAt_iff.mpr ⟨rfl,running⟩) found' (congrArg some here)
    · rw [lookup_resume,if_pos rfl]
  have path' : e'.target.path = e.target.path := by rw [target]
  apply durable_resume durable filed found rfl running (congrArg some path') moves.elsewhere calls
  · by_cases told : e'.phase = .done .acknowledged
    · change e'.Kept _ shared
      have settled := moves.kept
      rw [EnqueueTask.Kept,told] at settled ⊢
      exact settled
    · change e'.Kept ((s.resume t shared (.enqueue e')).Fresh e'.target.path) shared
      rw [path']
      exact moves.kept.same (Same.refl shared) (mono told)
  · intro ended
    have settled := moves.kept
    obtain ⟨outcome,phase⟩ := phase_of_ended ended
    rw [EnqueueTask.Kept,phase] at settled
    rw [← path']
    exact settled
  · by_cases told : e'.phase = .done .acknowledged
    · rw [moves.told told]
      exact own
    · rcases moves.shown with still | new
      · rw [still]
        exact mono told _ (durable.fresh _)
      · rw [new]
        exact own

theorem durable_flush {env : Env} {f : FlushTask} {phase : FlushPhase} (durable : Durable s)
    (filed : Filed (s.resume t shared (.flush { f with phase }))) (found : s.tasks.lookup t = some (.flush f))
    (stepped : flushStep m env s.shared f = some (shared,phase)) (ok : Task.removes (.flush f) = true → env.ok = true) :
    Durable (s.resume t shared (.flush { f with phase })) := by
  have running : Task.ended (.flush f) = false := by
    by_contra ended
    obtain ⟨outcome,here⟩ := flush_phase_of_ended (by simpa using ended)
    unfold flushStep at stepped
    split at stepped
    next => cases stepped
    next =>
      rw [here] at stepped
      cases stepped
  have kept : f.Kept s.shared := durable.kept found running
  have moves := flushStep_moves stepped ok durable.all kept
  have none_ (e : EnqueueTask) (here : Task.flush f = .enqueue e) :
      ∃ e', Task.flush { f with phase } = .enqueue e' ∧ e'.target = e.target ∧ e'.data = e.data := by
    cases here
  apply durable_resume durable filed found rfl running rfl moves.elsewhere none_ moves.kept
  · intro ended
    have settled := moves.kept
    obtain ⟨outcome,here⟩ := flush_phase_of_ended ended
    have done_ : phase = .done outcome := here
    rw [done_] at settled
    exact settled
  · rw [moves.shown]
    apply (durable.fresh _).mono
    · intro u e found' _ _
      rw [lookup_resume] at found'
      split at found'
      next => cases found'
      next => exact found'
    · intro u e found'
      refine ⟨e,?_,rfl,rfl⟩
      rw [lookup_resume,if_neg]
      · exact found'
      · rintro rfl
        rw [found] at found'
        cases found'

theorem quotaStep_alike {env : Env} {shared' : Shared} {q : QuotaTask} {phase : QuotaPhase}
    (stepped : quotaStep m env shared q = some (shared',phase)) : Alike shared shared' := by
  unfold quotaStep at stepped
  repeat' split at stepped
  all_goals cases stepped
  all_goals exact ⟨rfl,rfl,rfl,rfl,rfl,rfl⟩

/-- Nothing of the enqueues, the flushes and the files changes. -/
theorem durable_alike (durable : Durable s) (filed : Filed s') (alike : Alike s.shared s'.shared)
    (enqueues : ∀ t e, s'.tasks.lookup t = some (.enqueue e) ↔ s.tasks.lookup t = some (.enqueue e))
    (flushes : ∀ t f, s'.tasks.lookup t = some (.flush f) ↔ s.tasks.lookup t = some (.flush f)) : Durable s' := by
  have placed {t : Nat} {task : Task} {path : Text} (place : task.place = some path) :
      s'.tasks.lookup t = some task ↔ s.tasks.lookup t = some task := by
    cases task with
    | enqueue e => exact enqueues t e
    | flush f => exact flushes t f
    | quotaSync q => cases place
  have fresh {path : Text} (shown : Option Bytes) (fresh : s.Fresh path shown) : s'.Fresh path shown := by
    apply fresh.mono
    · exact fun t e found _ _ => (enqueues t e).mp found
    · exact fun t e found => ⟨e,(enqueues t e).mpr found,rfl,rfl⟩
  constructor
  · exact filed
  · exact alike.kept durable.all
  · intro t u task other path found busy found' place
    exact durable.latest ((placed (busyAt_iff.mp busy).1).mp found) busy ((placed place).mp found') place
  · intro path idle
    apply alike.same.settled
    apply durable.settled
    rw [idle_iff] at idle ⊢
    exact fun t task found place => idle t task ((placed place).mpr found) place
  · intro t task found running
    cases place : task.place with
    | none =>
      cases task with
      | quotaSync q => trivial
      | enqueue e => cases place
      | flush f => cases place
    | some path => exact (durable.kept ((placed place).mp found) running).same place alike.same fresh
  · intro path
    rw [alike.shown]
    exact fresh _ (durable.fresh path)

theorem durable_quota {q q' : QuotaTask} (durable : Durable s) (filed : Filed (s.resume t shared (.quotaSync q')))
    (found : s.tasks.lookup t = some (.quotaSync q)) (alike : Alike s.shared shared) :
    Durable (s.resume t shared (.quotaSync q')) := by
  apply durable_alike durable filed alike
  · intro u e
    rw [lookup_resume]
    split
    next same => rw [same,found]; simp
    next => exact Iff.rfl
  · intro u f
    rw [lookup_resume]
    split
    next same => rw [same,found]; simp
    next => exact Iff.rfl

theorem durable_step {action : Action} (localDir : m.backend = .localDir) (durable : Durable s) (turn : InTurn s action)
    (stepped : cacheStep m s action = some s') : Durable s' := by
  have filed := filed_step durable.filed stepped
  rcases cacheStep_cases stepped with ⟨target,data,rfl,rfl⟩ | ⟨r,force,record,rfl,present,rfl⟩ |
    ⟨key,task,rfl,_,rfl⟩ | ⟨t,env,task,shared,task',rfl,found,computed,rfl⟩ | ⟨path,rfl,rfl⟩
  · have idle : s.idle target.path = true := turn
    apply durable_spawn durable filed (alike_refl _)
    · intro e new told
      cases new
      cases told
    · intro path place
      cases place
      exact idle
    · exact fun _ => durable.settled idle
  · obtain ⟨mapped,idle⟩ := turn record present
    apply durable_spawn durable filed (alike_refl _)
    · intro e new
      cases new
    · intro path place
      cases place
      exact idle
    · intro _
      rcases durable.settled idle with empty | ⟨r',record',file,data,at_⟩
      · rw [empty.unmapped] at mapped
        cases mapped
      · have same : r = r' := Option.some.inj (mapped.symm.trans at_.entry.mapped)
        rw [← same] at at_
        exact ⟨record',file,data,at_⟩
  · apply durable_spawn durable filed ⟨rfl,rfl,rfl,rfl,rfl,rfl⟩
    · intro e new
      cases new
    · intro path place
      cases place
    · intro ended
      cases ended
  · have ok : task.removes = true → env.ok = true := turn task found
    cases task with
    | enqueue e =>
      obtain ⟨out,computed',same⟩ := Option.map_eq_some_iff.mp computed
      cases same
      exact durable_enqueue durable localDir filed found computed' ok
    | flush f =>
      obtain ⟨out,computed',same⟩ := Option.map_eq_some_iff.mp computed
      cases same
      exact durable_flush durable filed found computed' ok
    | quotaSync q =>
      obtain ⟨out,computed',same⟩ := Option.map_eq_some_iff.mp computed
      cases same
      exact durable_quota durable filed found (quotaStep_alike computed')
  · apply durable_alike durable filed ⟨rfl,rfl,rfl,rfl,rfl,rfl⟩ (fun _ _ => Iff.rfl) fun _ _ => Iff.rfl

end step

/-! ### Loading -/

/-- What has been loaded after the files that were `seen`, of what was left at first. -/
structure Loaded (left : Shared) (seen : List BlobFile) (s : Shared) : Prop where
  blobs : s.blobs = left.blobs
  primary : s.primary = left.primary
  nextUuid : s.nextUuid = left.nextUuid
  metas (file : BlobFile) : s.metas.lookup file =
    if file ∈ seen ∧ left.blobs.lookup file = none then none else left.metas.lookup file
  records : RecordsFiled s
  entry {path : Text} {r : RecordId} : s.entries.lookup path = some r → ∃ record file, s.Entry path r record file ∧
    left.metas.lookup file ≠ none ∧ left.blobs.lookup file ≠ none
  found {file : BlobFile} : file ∈ seen → left.metas.lookup file ≠ none → left.blobs.lookup file ≠ none →
    s.entries.lookup file.key ≠ none

/-- Every call on the file goes well. -/
def LoadEnv.good (env : LoadEnv) : Bool := env.read && env.stat && env.remove

section load
variable {m : WriteCacheManager} {left s : Shared} {seen : List BlobFile} {abnormal : Bool} {found : BlobFile × LoadEnv}

/-- A record that is loaded has its file. -/
theorem Loaded.loadRecord {now : Int} {record : PendingWriteRecord} {file : BlobFile} (loaded : Loaded left seen s)
    (blob : record.inner.blob = .disk file) (key : file.key = record.target.path)
    (marked : record.inner.abnormalLogged = true → file.dir = .abnormal) (filed : left.metas.lookup file ≠ none)
    (there : left.blobs.lookup file ≠ none) : Loaded left (file::seen) (s.loadRecord m now record) where
  blobs := loaded.blobs
  primary := loaded.primary
  nextUuid := loaded.nextUuid
  metas place := by
    have same : (s.loadRecord m now record).metas = s.metas := rfl
    rw [same,loaded.metas place]
    by_cases here : place = file
    · rw [here,if_neg (fun both => there both.2),if_neg (fun both => there both.2)]
    · simp only [List.mem_cons,here,false_or]
  records := by
    have change : RecordChange s (s.loadRecord m now record) := .filed record rfl rfl rfl
    exact change.filed_records loaded.records
  entry := by
    intro path r mapped
    have mapped' : (s.entries.insert record.target.path s.nextRecord).lookup path = some r := mapped
    rw [Store.lookup_insert_eq] at mapped'
    split at mapped'
    next same =>
      cases mapped'
      refine ⟨record,file,⟨mapped,AList.lookup_insert _,same.symm,blob,key.trans same.symm,marked⟩,filed,there⟩
    next =>
      obtain ⟨other,place,entry,rest⟩ := loaded.entry mapped'
      have issued := loaded.records.issued r other entry.filed
      have still : (s.records.insert s.nextRecord record).lookup r = some other :=
        (AList.lookup_insert_ne issued.ne).trans entry.filed
      exact ⟨other,place,⟨mapped,still,entry.placed,entry.blob,entry.key,entry.marked⟩,rest⟩
  found := by
    intro place member filed' there'
    change (s.entries.insert record.target.path s.nextRecord).lookup place.key ≠ none
    rw [Store.lookup_insert_eq]
    split
    next => exact Option.some_ne_none _
    next apart =>
      rcases List.mem_cons.mp member with rfl | before
      · exact absurd key apart
      · exact loaded.found before filed' there'

/-- Metadata without a blob goes. -/
theorem Loaded.erase (loaded : Loaded left seen s) {file : BlobFile} (gone : left.blobs.lookup file = none) :
    Loaded left (file::seen) { s with metas := s.metas.erase file } where
  blobs := loaded.blobs
  primary := loaded.primary
  nextUuid := loaded.nextUuid
  metas place := by
    rw [Store.lookup_erase_eq,loaded.metas place]
    by_cases here : place = file
    · rw [here,if_pos rfl,if_pos ⟨List.mem_cons_self,gone⟩]
    · rw [if_neg here]
      simp only [List.mem_cons,here,false_or]
  records := ⟨loaded.records.issued,loaded.records.mapped⟩
  entry mapped := by
    obtain ⟨record,place,entry,rest⟩ := loaded.entry mapped
    exact ⟨record,place,⟨entry.mapped,entry.filed,entry.placed,entry.blob,entry.key,entry.marked⟩,rest⟩
  found := by
    intro place member filed there
    rcases List.mem_cons.mp member with rfl | before
    · exact absurd gone there
    · exact loaded.found before filed there

theorem loadEntry_loaded (shaped : ∀ file disk, left.metas.lookup file = some disk → Shaped file disk)
    (loaded : Loaded left seen s) (fresh : found.1 ∉ seen) (filed : left.metas.lookup found.1 ≠ none)
    (good : found.2.good = true) (dir : abnormal = true → found.1.dir = .abnormal) :
    Loaded left (found.1::seen) (s.loadEntry m abnormal found) := by
  obtain ⟨disk,present⟩ := Option.ne_none_iff_exists'.mp filed
  obtain ⟨file,target,known,place⟩ := shaped _ _ present
  have here : s.metas.lookup found.1 = some disk := by
    rw [loaded.metas,if_neg (fun both => fresh both.1)]
    exact present
  rw [LoadEnv.good,Bool.and_eq_true,Bool.and_eq_true] at good
  obtain ⟨⟨read,stat⟩,remove⟩ := good
  unfold Shared.loadEntry
  rw [here]
  dsimp only
  rw [if_pos read,file,stat,Bool.true_and]
  cases blob : s.blobs.lookup found.1 with
  | none =>
    rw [loaded.blobs] at blob
    rw [Option.isSome_none,if_neg Bool.false_ne_true,if_pos remove]
    exact loaded.erase blob
  | some data =>
    rw [Option.isSome_some,if_pos rfl,known]
    apply loaded.loadRecord
    · rw [PendingWriteDiskMeta.loadedPending,file]
    · exact place.symm
    · exact dir
    · exact filed
    · rw [← loaded.blobs,blob]
      exact Option.some_ne_none _

theorem loadEntriesFromDir_loaded (shaped : ∀ file disk, left.metas.lookup file = some disk → Shaped file disk)
    {listing : Listing} (once : (listing.map (·.1)).Nodup) (apart : ∀ found ∈ listing, found.1 ∉ seen)
    (filed : ∀ found ∈ listing, left.metas.lookup found.1 ≠ none) (good : ∀ found ∈ listing, found.2.good = true)
    (dir : ∀ found ∈ listing, abnormal = true → found.1.dir = .abnormal) (loaded : Loaded left seen s) :
    ∃ seen', Loaded left seen' (s.loadEntriesFromDir m abnormal listing) ∧
      ∀ file, file ∈ seen' ↔ file ∈ seen ∨ file ∈ listing.map (·.1) := by
  induction listing generalizing seen s with
  | nil => exact ⟨seen,loaded,fun file => by simp⟩
  | cons found rest ih =>
    rw [List.map_cons,List.nodup_cons] at once
    have first := loadEntry_loaded (m := m) shaped loaded (apart found List.mem_cons_self) (filed found List.mem_cons_self)
      (good found List.mem_cons_self) (dir found List.mem_cons_self)
    have apart' (other : BlobFile × LoadEnv) (member : other ∈ rest) : other.1 ∉ found.1::seen := by
      rw [List.mem_cons,not_or]
      refine ⟨?_,apart other (List.mem_cons_of_mem _ member)⟩
      intro same
      exact once.1 (List.mem_map.mpr ⟨other,member,same⟩)
    obtain ⟨seen',after,members⟩ := ih once.2 apart' (fun other member => filed other (List.mem_cons_of_mem _ member))
      (fun other member => good other (List.mem_cons_of_mem _ member))
      (fun other member => dir other (List.mem_cons_of_mem _ member)) first
    refine ⟨seen',after,?_⟩
    intro file
    rw [members,List.map_cons,List.mem_cons,List.mem_cons]
    tauto

end load

/-! ### Restarts -/

/-- The directories are listed whole, and every call on their files goes well. -/
def Shared.legible (s : Shared) (queue abnormal : Listing) : Bool :=
  (queue ++ abnormal).all (fun found => found.2.good) &&
    s.metas.keys.all fun file => (queue ++ abnormal).any fun found => found.1 == file

section restart
variable {m : WriteCacheManager} {s : State} {cut : Option Nat} {readCache : Store Text Bytes} {queue abnormal : Listing}

/-- A restart finds at a path no data, or that of one of its files. -/
theorem loadExistingEntries_loaded (left : Shared) (enabled : m.enabled = true) (localDir : m.backend = .localDir)
    (fresh : left.entries = ∅) (none_ : left.records = ∅)
    (shaped : ∀ file disk, left.metas.lookup file = some disk → Shaped file disk)
    (queued : left.isListing .queue queue = true) (marked : left.isListing .abnormal abnormal = true)
    (legible : left.legible queue abnormal = true) :
    ∃ seen, Loaded left seen (left.loadExistingEntries m queue abnormal) ∧
      ∀ file, left.metas.lookup file ≠ none → file ∈ seen := by
  rw [isListing,Bool.and_eq_true,decide_eq_true_iff,List.all_eq_true] at queued marked
  rw [Shared.legible,Bool.and_eq_true,List.all_eq_true,List.all_eq_true] at legible
  have filed {dir : BlobDir} {listing : Listing}
      (all : ∀ found ∈ listing, (found.1.dir == dir && (left.metas.lookup found.1).isSome) = true) (found : BlobFile × LoadEnv)
      (member : found ∈ listing) : found.1.dir = dir ∧ left.metas.lookup found.1 ≠ none := by
    have both := all found member
    rw [Bool.and_eq_true,beq_iff_eq] at both
    exact ⟨both.1,Option.isSome_iff_ne_none.mp both.2⟩
  have start : Loaded left [] left := by
    constructor
    · rfl
    · rfl
    · rfl
    · intro file
      simp
    · constructor
      · rw [none_]
        intro r record found
        cases found
      · rw [fresh]
        intro path r found
        cases found
    · rw [fresh]
      intro path r found
      cases found
    · intro file member
      cases member
  obtain ⟨seen,first,members⟩ := loadEntriesFromDir_loaded (m := m) shaped queued.1 (fun _ _ => List.not_mem_nil)
    (fun found member => (filed queued.2 found member).2)
    (fun found member => legible.1 found (List.mem_append_left _ member))
    (fun _ _ abnormal => absurd abnormal Bool.false_ne_true) start
  have apart (found : BlobFile × LoadEnv) (member : found ∈ abnormal) : found.1 ∉ seen := by
    rw [members]
    rintro (nothing | inside)
    · cases nothing
    · obtain ⟨other,member',same⟩ := List.mem_map.mp inside
      have here := (filed queued.2 other member').1
      rw [same,(filed marked.2 found member).1] at here
      cases here
  obtain ⟨seen',second,members'⟩ := loadEntriesFromDir_loaded (m := m) shaped marked.1 apart
    (fun found member => (filed marked.2 found member).2)
    (fun found member => legible.1 found (List.mem_append_right _ member))
    (fun found member _ => (filed marked.2 found member).1) first
  refine ⟨seen',?_,?_⟩
  · rw [loadExistingEntries,if_pos enabled,localDir]
    exact second
  · intro file present
    have listed := legible.2 file (AList.mem_keys.mpr (AList.lookup_isSome.mp (Option.isSome_iff_ne_none.mpr present)))
    obtain ⟨found,member,same⟩ := List.any_eq_true.mp listed
    rw [beq_iff_eq] at same
    rw [members',members,← same]
    rcases List.mem_append.mp member with first | second
    · exact .inl (.inr (List.mem_map_of_mem first))
    · exact .inr (List.mem_map_of_mem second)

/-- What a loaded path shows, and whether it is settled. -/
theorem Loaded.result {fresh : Option Bytes → Prop} {single : Prop} {left after : Shared} {seen : List BlobFile} {path : Text}
    (loaded : Loaded left seen after) (whole : ∀ file, left.metas.lookup file ≠ none → file ∈ seen)
    (backed : Backed fresh single left path) : fresh (after.shown path) ∧ (single → after.Settled path) := by
  have metas {file : BlobFile} (filed : after.metas.lookup file ≠ none) :
      left.metas.lookup file ≠ none ∧ left.blobs.lookup file ≠ none := by
    rw [loaded.metas] at filed
    split at filed
    next => exact absurd rfl filed
    next kept =>
      refine ⟨filed,?_⟩
      intro gone
      exact kept ⟨whole file filed,gone⟩
  cases entry : after.entries.lookup path with
  | none =>
    have nothing {file : BlobFile} (key : file.key = path) (filed : left.metas.lookup file ≠ none) :
        left.blobs.lookup file = none := by
      by_contra there
      have found := loaded.found (whole file filed) filed there
      rw [key,entry] at found
      exact found rfl
    have empty : after.Empty path := by
      refine ⟨entry,?_⟩
      intro file key
      constructor
      · intro filed
        exact absurd (nothing key (metas filed).1) (metas filed).2
      · intro member
        cases member
    rw [empty.shown,loaded.primary]
    exact ⟨backed.primary fun file key filed => nothing key filed,fun _ => .inl empty⟩
  | some r =>
    obtain ⟨record,file,here,filed,there⟩ := loaded.entry entry
    obtain ⟨data,content⟩ := Option.ne_none_iff_exists'.mp there
    have content' : after.blobs.lookup file = some data := by
      rw [loaded.blobs]
      exact content
    constructor
    · rw [here.shown,content']
      exact backed.data here.key filed content
    · intro single
      refine .inr ⟨r,record,file,data,here,content',?_⟩
      intro other key
      rw [List.mem_singleton]
      constructor
      · intro present
        obtain ⟨filed',there'⟩ := metas present
        obtain ⟨data',found'⟩ := Option.ne_none_iff_exists'.mp there'
        exact backed.one single key here.key filed' filed found' content
      · rintro rfl
        rw [loaded.metas,if_neg (fun both => there both.2)]
        exact filed

/-- The cut of a check leaves what a restart finds. -/
theorem cut_backed (durable : Durable s) (task : Option Task) (found : ∀ t ∈ task, ∃ u, s.tasks.lookup u = some t) :
    (s.shared.cutCheck task).metas = s.shared.metas ∧ (s.shared.cutCheck task).Kept ∧
      ∀ path, Backed (s.Fresh path) (s.anyBut none Task.doubles = false) (s.shared.cutCheck task) path := by
  have same : s.shared.metas = s.shared.metas ∧ s.shared.Kept ∧
      ∀ path, Backed (s.Fresh path) (s.anyBut none Task.doubles = false) s.shared path :=
    ⟨rfl,durable.all,durable.backed⟩
  unfold Shared.cutCheck
  split
  next f =>
    split
    next taken data previousSize infoSize inner phase present =>
      split
      next file held =>
        split
        next =>
          obtain ⟨u,there⟩ := found _ rfl
          have kept : f.Kept s.shared := durable.kept there (by rw [Task.ended,phase])
          rw [FlushTask.Kept,phase] at kept
          obtain ⟨record,place,at_,primary⟩ := kept
          have own : place = file := by
            have inner_ := inner_of_record at_.entry.filed
            rw [present] at inner_
            cases inner_
            exact PendingWriteBlob.disk.inj (at_.entry.blob.symm.trans held)
          rw [← own]
          have moved : Elsewhere f.target.path s.shared (s.shared.removeFile ⟨true,0⟩ place) := elsewhere_removeFile at_.entry.key
          refine ⟨rfl,moved.kept durable.all,?_⟩
          intro path
          by_cases here : path = f.target.path
          · rw [here]
            have gone : (s.shared.removeFile ⟨true,0⟩ place).blobs.lookup place = none := removed_file rfl
            have filing : (s.shared.removeFile ⟨true,0⟩ place).Filing f.target.path [place] := at_.filing
            apply backed_of_filing filing at_.entry.key
            · intro data' content
              rw [gone] at content
              cases content
            · intro _
              change s.Fresh f.target.path (s.shared.primary.lookup f.target.path)
              rw [primary,← at_.shown]
              exact durable.fresh _
          · exact (durable.backed path).same (moved.same here)
        next => exact same
      next => exact same
    next => exact same
  next => exact same

theorem lookup_restart (t : Nat) : (s.restart m cut readCache queue abnormal).tasks.lookup t =
    (s.tasks.lookup t).bind (Task.atStop s.clock) := Store.lookup_filterMap ..

theorem atStop_some {tick : Nat} {task task' : Task} (stopped : task.atStop tick = some task') :
    ∃ e e', task = .enqueue e ∧ task' = .enqueue e' ∧ e'.target = e.target ∧ e'.data = e.data ∧
      (∃ outcome, e'.phase = .done outcome) ∧ (e'.phase = .done .acknowledged → e' = e) := by
  cases task with
  | enqueue e =>
    unfold Task.atStop at stopped
    dsimp only at stopped
    split at stopped
    next outcome phase =>
      cases stopped
      exact ⟨e,e,rfl,rfl,rfl,rfl,⟨outcome,phase⟩,fun _ => rfl⟩
    next =>
      cases stopped
      exact ⟨e,_,rfl,rfl,rfl,rfl,⟨_,rfl⟩,fun told => by cases told⟩
  | flush f => cases stopped
  | quotaSync q => cases stopped

theorem fresh_restart {path : Text} {shown : Option Bytes} (fresh : s.Fresh path shown) :
    (s.restart m cut readCache queue abnormal).Fresh path shown := by
  apply fresh.mono
  · intro t e found _ told
    rw [lookup_restart] at found
    obtain ⟨task,found',stopped⟩ := Option.bind_eq_some_iff.mp found
    obtain ⟨old,new,rfl,same,-,-,-,whole⟩ := atStop_some stopped
    cases same
    rw [whole told]
    exact found'
  · intro t e found
    rw [lookup_restart,found,Option.bind_some]
    unfold Task.atStop
    dsimp only
    split
    next => exact ⟨e,rfl,rfl,rfl⟩
    next => exact ⟨_,rfl,rfl,rfl⟩

/-- After a restart every path shows what is fresh. Where no change was cut, the files are
again those of the entries. -/
theorem durable_restart (enabled : m.enabled = true) (localDir : m.backend = .localDir) (durable : Durable s)
    (queued : s.shared.isListing .queue queue = true) (marked : s.shared.isListing .abnormal abnormal = true)
    (legible : s.shared.legible queue abnormal = true) :
    (∀ path, (s.restart m cut readCache queue abnormal).Fresh path
      ((s.restart m cut readCache queue abnormal).shared.shown path)) ∧
      (s.anyBut none Task.doubles = false → Durable (s.restart m cut readCache queue abnormal)) := by
  have lookups : ∀ t ∈ cut.bind s.tasks.lookup, ∃ u, s.tasks.lookup u = some t := by
    intro task found
    obtain ⟨u,-,there⟩ := Option.bind_eq_some_iff.mp found
    exact ⟨u,there⟩
  obtain ⟨metas,all,backed⟩ := cut_backed durable (cut.bind s.tasks.lookup) lookups
  have queued' : ((s.shared.cutCheck (cut.bind s.tasks.lookup)).stopped readCache).isListing .queue queue = true := by
    rw [← queued,isListing,isListing]
    change (_ && queue.all fun found => _ && ((s.shared.cutCheck (cut.bind s.tasks.lookup)).metas.lookup found.1).isSome) = _
    rw [metas]
  have marked' : ((s.shared.cutCheck (cut.bind s.tasks.lookup)).stopped readCache).isListing .abnormal abnormal = true := by
    rw [← marked,isListing,isListing]
    change (_ && abnormal.all fun found => _ && ((s.shared.cutCheck (cut.bind s.tasks.lookup)).metas.lookup found.1).isSome) = _
    rw [metas]
  have legible' : ((s.shared.cutCheck (cut.bind s.tasks.lookup)).stopped readCache).legible queue abnormal = true := by
    rw [← legible,Shared.legible,Shared.legible]
    change (_ && (s.shared.cutCheck (cut.bind s.tasks.lookup)).metas.keys.all _) = _
    rw [metas]
  obtain ⟨seen,loaded,whole⟩ := loadExistingEntries_loaded ((s.shared.cutCheck (cut.bind s.tasks.lookup)).stopped readCache)
    enabled localDir rfl rfl (fun _ _ => all.shaped) queued' marked' legible'
  have stopped (path : Text) : Backed (s.Fresh path) (s.anyBut none Task.doubles = false)
      ((s.shared.cutCheck (cut.bind s.tasks.lookup)).stopped readCache) path :=
    ⟨(backed path).data,(backed path).primary,(backed path).one⟩
  have result (path : Text) := loaded.result whole (stopped path)
  have fresh (path : Text) : (s.restart m cut readCache queue abnormal).Fresh path
      ((s.restart m cut readCache queue abnormal).shared.shown path) := fresh_restart (result path).1
  refine ⟨fresh,?_⟩
  intro single
  -- every task of the last process is over
  have past {t : Nat} {task : Task} (found : (s.restart m cut readCache queue abnormal).tasks.lookup t = some task) :
      task.ended = true ∧ ∃ old, s.tasks.lookup t = some old ∧ old.place = task.place ∧ ∃ e, task = .enqueue e := by
    rw [lookup_restart] at found
    obtain ⟨old,found',stopped⟩ := Option.bind_eq_some_iff.mp found
    obtain ⟨e,e',rfl,rfl,target,-,⟨outcome,phase⟩,-⟩ := atStop_some stopped
    refine ⟨?_,_,found',?_,e',rfl⟩
    · rw [Task.ended,phase]
    · rw [Task.place,Task.place,target]
  constructor
  · constructor
    · intro t beyond
      rw [lookup_restart,durable.filed.numbered t beyond]
      rfl
    · exact loaded.records
    · intro t task found
      obtain ⟨ended,-,-,-,e,rfl⟩ := past found
      obtain ⟨outcome,phase⟩ := phase_of_ended ended
      intro r updating
      rw [phase] at updating
      cases updating
  · constructor
    · intro file uuid numbered there
      change uuid < (Shared.loadExistingEntries m _ queue abnormal).nextUuid
      rw [loaded.nextUuid]
      apply all.uuids numbered
      apply there.imp
      · intro present
        change (Shared.loadExistingEntries m _ queue abnormal).blobs.lookup file ≠ none at present
        rw [loaded.blobs] at present
        exact present
      · intro present
        change (Shared.loadExistingEntries m _ queue abnormal).metas.lookup file ≠ none at present
        rw [loaded.metas] at present
        split at present
        next => exact absurd rfl present
        next => exact present
    · intro file disk present
      change (Shared.loadExistingEntries m _ queue abnormal).metas.lookup file = some disk at present
      rw [loaded.metas] at present
      split at present
      next => cases present
      next => exact all.shaped present
  · intro t u task other path found busy _ _
    have running := (busyAt_iff.mp busy).2
    rw [(past found).1] at running
    cases running
  · exact fun _ => (result _).2 single
  · intro t task found running
    rw [(past found).1] at running
    cases running
  · exact fresh

end restart

/-! ### Runs -/

/-- The tasks on a path come one after the other and no removal fails. A restart can read
what is there, and does not cut a change of an entry's file. -/
def Orderly (s : State) : Event → Prop
  | .act action => InTurn s action
  | .restart _ _ queue abnormal => s.shared.legible queue abnormal = true ∧ s.anyBut none Task.doubles = false

instance (s : State) : (action : Action) → Decidable (InTurn s action)
  | .enqueue target _ => inferInstanceAs (Decidable (s.idle target.path = true))
  | .flush r _ => inferInstanceAs (Decidable (∀ record ∈ s.shared.records.lookup r,
      s.shared.entries.lookup record.target.path = some r ∧ s.idle record.target.path = true))
  | .takeQuota _ => inferInstanceAs (Decidable True)
  | .advance t env => inferInstanceAs (Decidable (∀ task ∈ s.tasks.lookup t, task.removes = true → env.ok = true))
  | .evict _ => inferInstanceAs (Decidable True)

instance : DecidableRel Orderly
  | s,.act action => inferInstanceAs (Decidable (InTurn s action))
  | s,.restart _ _ queue abnormal =>
    inferInstanceAs (Decidable (s.shared.legible queue abnormal = true ∧ s.anyBut none Task.doubles = false))

theorem durable_event {m : WriteCacheManager} {s s' : State} {event : Event} (enabled : m.enabled = true)
    (localDir : m.backend = .localDir) (durable : Durable s) (orderly : Orderly s event)
    (stepped : restartingStep m s event = some s') : Durable s' := by
  cases event with
  | act action => exact durable_step localDir durable orderly stepped
  | restart cut readCache queue abnormal =>
    rw [restartingStep] at stepped
    split at stepped
    next listed =>
      cases stepped
      rw [Bool.and_eq_true] at listed
      exact (durable_restart enabled localDir durable listed.1 listed.2 orderly.1).2 orderly.2
    next => cases stepped

theorem durable_fresh (primary : Store Text Bytes) : Durable (.fresh primary) := by
  have none_ (t : Nat) : (State.fresh primary).tasks.lookup t = none := rfl
  have unfiled (file : BlobFile) : (State.fresh primary).shared.metas.lookup file = none := rfl
  constructor
  · refine ⟨fun t _ => none_ t,⟨?_,?_⟩,?_⟩
    · intro r record found
      cases found
    · intro path r found
      cases found
    · intro t task found
      rw [none_] at found
      cases found
  · constructor
    · intro file uuid _ there
      have blob : (State.fresh primary).shared.blobs.lookup file = none := rfl
      rw [blob,unfiled] at there
      simp at there
    · intro file disk found
      rw [unfiled] at found
      cases found
  · intro t u task other path found
    rw [none_] at found
    cases found
  · intro path _
    refine .inl ⟨rfl,?_⟩
    intro file _
    rw [unfiled]
    simp
  · intro t task found
    rw [none_] at found
    cases found
  · intro path t e found
    rw [none_] at found
    cases found

def queueManager : WriteCacheManager := { memoryManager with backend := .localDir }

/-- A write, a restart that loads it, and an update. -/
def updateAfterRestart : List Event :=
  (.enqueue fileA [1] :: advances 0 11).map .act ++
    .restart none ∅ [(dataPath .queue fileA.path,⟨true,true,true,0⟩)] [] :: (.enqueue fileA [2] :: advances 1 14).map .act

end StorageHub.WriteCache
