import StorageHub.WriteCache.Account
import StorageHub.WriteCache.Reload

/-! What the files of the write cache hold while its tasks run. Where the tasks on a
path come one after the other and no removal fails, the metadata of a path is that of
its entry's file, and of one file more in the middle of a change. -/
namespace StorageHub.WriteCache
open Library

/-! ### Files and entries -/

namespace Shared
variable {s s' : Shared} {path : Text} {r : RecordId} {record : PendingWriteRecord} {file other : BlobFile} {data : Bytes}

/-- The files of a path that have metadata. -/
def Filing (s : Shared) (path : Text) (files : List BlobFile) : Prop :=
  ∀ file, file.key = path → (s.metas.lookup file ≠ none ↔ file ∈ files)

/-- The entry of a path, which has its data in a file. -/
structure Entry (s : Shared) (path : Text) (r : RecordId) (record : PendingWriteRecord) (file : BlobFile) : Prop where
  mapped : s.entries.lookup path = some r
  filed : s.records.lookup r = some record
  placed : record.target.path = path
  blob : record.inner.blob = .disk file
  key : file.key = path
  marked : record.inner.abnormalLogged = true → file.dir = .abnormal

/-- An entry whose file is the one that has metadata. -/
structure At (s : Shared) (path : Text) (r : RecordId) (record : PendingWriteRecord) (file : BlobFile)
    (data : Bytes) : Prop where
  entry : s.Entry path r record file
  content : s.blobs.lookup file = some data
  filing : s.Filing path [file]

/-- An entry in the middle of a change: one file more has metadata. -/
structure Beside (s : Shared) (path : Text) (r : RecordId) (record : PendingWriteRecord) (file : BlobFile)
    (data : Bytes) (other : BlobFile) : Prop where
  entry : s.Entry path r record file
  content : s.blobs.lookup file = some data
  filing : s.Filing path [file,other]
  key : other.key = path
  differ : other ≠ file

structure Empty (s : Shared) (path : Text) : Prop where
  unmapped : s.entries.lookup path = none
  filing : s.Filing path []

/-- No change is under way. -/
def Settled (s : Shared) (path : Text) : Prop := s.Empty path ∨ ∃ r record file data, s.At path r record file data

/-- What a reader is given: the pending data, or what the primary has. -/
def shown (s : Shared) (path : Text) : Option Bytes :=
  (((s.entries.lookup path).bind s.inner).bind fun inner => s.content inner.blob).or (s.primary.lookup path)

theorem Entry.shown (entry : s.Entry path r record file) :
    s.shown path = (s.blobs.lookup file).or (s.primary.lookup path) := by
  have inner : s.inner r = some record.inner := inner_of_record entry.filed
  rw [Shared.shown,entry.mapped,Option.bind_some,inner,Option.bind_some,entry.blob]
  rfl

theorem At.shown (at_ : s.At path r record file data) : s.shown path = some data := by
  rw [at_.entry.shown,at_.content]
  rfl

theorem Beside.shown (beside : s.Beside path r record file data other) : s.shown path = some data := by
  rw [beside.entry.shown,beside.content]
  rfl

theorem Empty.shown (empty : s.Empty path) : s.shown path = s.primary.lookup path := by
  rw [Shared.shown,empty.unmapped]
  rfl

/-! ### What a step leaves -/

/-- Two states have the same at a path. -/
structure Same (path : Text) (s s' : Shared) : Prop where
  entries : s'.entries.lookup path = s.entries.lookup path
  records {r : RecordId} {record : PendingWriteRecord} : s.records.lookup r = some record → record.target.path = path →
    s'.records.lookup r = some record
  blobs {file : BlobFile} : file.key = path → s'.blobs.lookup file = s.blobs.lookup file
  metas {file : BlobFile} : file.key = path → s'.metas.lookup file = s.metas.lookup file
  primary : s'.primary.lookup path = s.primary.lookup path

theorem Same.refl (s : Shared) : Same path s s := ⟨rfl,fun filed _ => filed,fun _ => rfl,fun _ => rfl,rfl⟩

section same
variable (same : Same path s s')
include same

theorem Same.filing {files : List BlobFile} (filing : s.Filing path files) : s'.Filing path files := by
  intro file key
  rw [same.metas key]
  exact filing file key

theorem Same.entry (entry : s.Entry path r record file) : s'.Entry path r record file where
  mapped := same.entries.trans entry.mapped
  filed := same.records entry.filed entry.placed
  placed := entry.placed
  blob := entry.blob
  key := entry.key
  marked := entry.marked

theorem Same.at_ (at_ : s.At path r record file data) : s'.At path r record file data :=
  ⟨same.entry at_.entry,(same.blobs at_.entry.key).trans at_.content,same.filing at_.filing⟩

theorem Same.beside (beside : s.Beside path r record file data other) : s'.Beside path r record file data other :=
  ⟨same.entry beside.entry,(same.blobs beside.entry.key).trans beside.content,same.filing beside.filing,beside.key,beside.differ⟩

theorem Same.empty (empty : s.Empty path) : s'.Empty path :=
  ⟨same.entries.trans empty.unmapped,same.filing empty.filing⟩

theorem Same.settled (settled : s.Settled path) : s'.Settled path := by
  rcases settled with empty | ⟨r,record,file,data,at_⟩
  · exact .inl (same.empty empty)
  · exact .inr ⟨r,record,file,data,same.at_ at_⟩

end same

/-- Metadata tells of the file that it lies beside. -/
def Shaped (file : BlobFile) (disk : PendingWriteDiskMeta) : Prop :=
  disk.blobFile file.dir = file ∧ ∃ target, disk.target? = some target ∧ target.path = file.key

/-- What holds of the files of all paths. -/
structure Kept (s : Shared) : Prop where
  uuids {file : BlobFile} {uuid : Nat} : file.uuid = some uuid → s.blobs.lookup file ≠ none ∨ s.metas.lookup file ≠ none →
    uuid < s.nextUuid
  shaped {file : BlobFile} {disk : PendingWriteDiskMeta} : s.metas.lookup file = some disk → Shaped file disk

/-- A step at one path leaves all others as they were. -/
structure Elsewhere (path : Text) (s s' : Shared) : Prop where
  same {place : Text} : place ≠ path → Same place s s'
  kept : s.Kept → s'.Kept

theorem Elsewhere.trans {s'' : Shared} (first : Elsewhere path s s') (second : Elsewhere path s' s'') :
    Elsewhere path s s'' where
  same apart :=
    have one := first.same apart
    have two := second.same apart
    ⟨two.entries.trans one.entries,fun filed placed => two.records (one.records filed placed) placed,
      fun key => (two.blobs key).trans (one.blobs key),fun key => (two.metas key).trans (one.metas key),
      two.primary.trans one.primary⟩
  kept kept := second.kept (first.kept kept)

/-! ### Changes of one thing -/

/-- Nothing of the records, the files and the primary is changed. -/
structure Alike (s s' : Shared) : Prop where
  records : s'.records = s.records
  entries : s'.entries = s.entries
  blobs : s'.blobs = s.blobs
  metas : s'.metas = s.metas
  primary : s'.primary = s.primary
  nextUuid : s'.nextUuid = s.nextUuid

theorem Alike.same (alike : Alike s s') : Same path s s' where
  entries := by rw [alike.entries]
  records filed _ := by rw [alike.records]; exact filed
  blobs _ := by rw [alike.blobs]
  metas _ := by rw [alike.metas]
  primary := by rw [alike.primary]

theorem Alike.kept (alike : Alike s s') (kept : s.Kept) : s'.Kept := by
  constructor
  · rw [alike.blobs,alike.metas,alike.nextUuid]
    exact kept.uuids
  · rw [alike.metas]
    exact kept.shaped

theorem Alike.elsewhere (alike : Alike s s') : Elsewhere path s s' := ⟨fun _ => alike.same,alike.kept⟩

theorem Same.shown_of (same : Same path s s') (empty : s.Empty path) : s'.shown path = s.shown path := by
  rw [empty.shown,(same.empty empty).shown,same.primary]

theorem alike_refl (s : Shared) : Alike s s := ⟨rfl,rfl,rfl,rfl,rfl,rfl⟩

theorem alike_account (s : Shared) (accountedBytes : Nat) : Alike s { s with accountedBytes } := ⟨rfl,rfl,rfl,rfl,rfl,rfl⟩

theorem Alike.shown (alike : Alike s s') : s'.shown path = s.shown path := by
  have inner (r : RecordId) : s'.inner r = s.inner r := by rw [Shared.inner,Shared.inner,alike.records]
  have content (blob : PendingWriteBlob) : s'.content blob = s.content blob := by
    cases blob with
    | memory data => rfl
    | disk file =>
      change s'.blobs.lookup file = s.blobs.lookup file
      rw [alike.blobs]
  rw [Shared.shown,Shared.shown,alike.entries,alike.primary]
  simp only [funext inner,content]

section setInner
variable {inner : PendingWriteMutable}

theorem records_setInner_eq (filed : s.records.lookup r = some record) (q : RecordId) :
    (s.setInner r inner).records.lookup q = if q = r then some { record with inner } else s.records.lookup q := by
  rw [setInner,filed]
  exact Store.lookup_insert_eq ..

theorem Entry.elsewhere_setInner (entry : s.Entry path r record file) : Elsewhere path s (s.setInner r inner) where
  same apart := by
    refine ⟨rfl,?_,fun _ => rfl,fun _ => rfl,rfl⟩
    intro q other filed placed
    have differ : q ≠ r := by
      rintro rfl
      rw [entry.filed] at filed
      cases filed
      exact apart (placed.symm.trans entry.placed)
    rw [records_setInner_eq entry.filed,if_neg differ]
    exact filed
  kept kept := ⟨kept.uuids,kept.shaped⟩

theorem Entry.setInner (entry : s.Entry path r record file) (blob : inner.blob = .disk other) (key : other.key = path)
    (marked : inner.abnormalLogged = true → other.dir = .abnormal) :
    (s.setInner r inner).Entry path r { record with inner } other where
  mapped := entry.mapped
  filed := by rw [records_setInner_eq entry.filed,if_pos rfl]
  placed := entry.placed
  blob := blob
  key := key
  marked := marked

theorem At.setInner (at_ : s.At path r record file data) (blob : inner.blob = record.inner.blob)
    (marked : inner.abnormalLogged = true → file.dir = .abnormal) :
    (s.setInner r inner).At path r { record with inner } file data :=
  ⟨at_.entry.setInner (blob.trans at_.entry.blob) at_.entry.key marked,at_.content,at_.filing⟩

theorem Beside.setInner (beside : s.Beside path r record file data other) (blob : inner.blob = record.inner.blob)
    (marked : inner.abnormalLogged = true → file.dir = .abnormal) :
    (s.setInner r inner).Beside path r { record with inner } file data other :=
  ⟨beside.entry.setInner (blob.trans beside.entry.blob) beside.entry.key marked,beside.content,beside.filing,
    beside.key,beside.differ⟩

/-- The record turns to the file beside its own. -/
theorem Beside.turn (beside : s.Beside path r record file data other) (inner : PendingWriteMutable) {data' : Bytes}
    (content : s.blobs.lookup other = some data') (blob : inner.blob = .disk other)
    (marked : inner.abnormalLogged = true → other.dir = .abnormal) :
    (s.setInner r inner).Beside path r { record with inner } other data' file where
  entry := beside.entry.setInner blob beside.key marked
  content := content
  filing place key := (beside.filing place key).trans (List.Perm.swap ..).mem_iff
  key := beside.entry.key
  differ := beside.differ.symm

end setInner

section files
variable {disk : PendingWriteDiskMeta} {env : Env} {files : List BlobFile} {nextUuid : Nat}

/-- A file is written, under a name that is in use or with the next one. -/
theorem elsewhere_writeFile (key : file.key = path) (later : s.nextUuid ≤ nextUuid)
    (named : ∀ uuid, file.uuid = some uuid → uuid < nextUuid) :
    Elsewhere path s { s with blobs := s.blobs.insert file data, nextUuid } where
  same apart := by
    refine ⟨rfl,fun filed _ => filed,?_,fun _ => rfl,rfl⟩
    intro place placed
    apply AList.lookup_insert_ne
    rintro rfl
    exact apart (placed.symm.trans key)
  kept kept := by
    refine ⟨?_,kept.shaped⟩
    intro place uuid numbered there
    by_cases same : place = file
    · rw [same] at numbered
      exact named uuid numbered
    · dsimp only at there
      rw [AList.lookup_insert_ne same] at there
      exact (kept.uuids numbered there).trans_le later

theorem elsewhere_writeMeta (key : file.key = path) (shaped : Shaped file disk)
    (there : s.blobs.lookup file = some data) : Elsewhere path s { s with metas := s.metas.insert file disk } where
  same apart := by
    refine ⟨rfl,fun filed _ => filed,fun _ => rfl,?_,rfl⟩
    intro place placed
    apply AList.lookup_insert_ne
    rintro rfl
    exact apart (placed.symm.trans key)
  kept kept := by
    constructor
    · intro place uuid numbered present
      by_cases same : place = file
      · apply kept.uuids numbered
        rw [same,there]
        exact .inl (Option.some_ne_none _)
      · dsimp only at present
        rw [AList.lookup_insert_ne same] at present
        exact kept.uuids numbered present
    · intro place disk' present
      dsimp only at present
      rw [Store.lookup_insert_eq] at present
      split at present
      next same =>
        cases present
        rw [same]
        exact shaped
      next => exact kept.shaped present

theorem elsewhere_removeFile (key : file.key = path) : Elsewhere path s (s.removeFile env file) where
  same apart := by
    refine ⟨rfl,fun filed _ => filed,?_,fun _ => rfl,rfl⟩
    intro place placed
    have differ : place ≠ file := by
      rintro rfl
      exact apart (placed.symm.trans key)
    rw [removeFile]
    split
    next => exact AList.lookup_erase_ne differ
    next => rfl
  kept kept := by
    refine ⟨?_,kept.shaped⟩
    intro place uuid numbered there
    apply kept.uuids numbered
    apply there.imp_left
    intro present absent
    apply present
    rw [removeFile]
    split
    next =>
      change (s.blobs.erase file).lookup place = none
      rw [Store.lookup_erase_eq,absent,ite_self]
    next => exact absent

theorem elsewhere_removeMetaFile (key : file.key = path) : Elsewhere path s (s.removeMetaFile env file) where
  same apart := by
    refine ⟨rfl,fun filed _ => filed,fun _ => rfl,?_,rfl⟩
    intro place placed
    have differ : place ≠ file := by
      rintro rfl
      exact apart (placed.symm.trans key)
    rw [removeMetaFile]
    split
    next => exact AList.lookup_erase_ne differ
    next => rfl
  kept kept := by
    have before {place : BlobFile} {disk : PendingWriteDiskMeta} (present : (s.removeMetaFile env file).metas.lookup place = some disk) :
        s.metas.lookup place = some disk := by
      rw [removeMetaFile] at present
      split at present
      next =>
        change (s.metas.erase file).lookup place = some disk at present
        rw [Store.lookup_erase_eq] at present
        split at present
        next => cases present
        next => exact present
      next => exact present
    constructor
    · intro place uuid numbered there
      apply kept.uuids numbered
      apply there.imp_right
      intro present
      obtain ⟨disk,found⟩ := Option.ne_none_iff_exists'.mp present
      rw [before found]
      exact Option.some_ne_none _
    · exact fun present => kept.shaped (before present)

theorem filing_insert (filing : s.Filing path files) (disk : PendingWriteDiskMeta) :
    Filing { s with metas := s.metas.insert file disk } path (file::files) := by
  intro place key
  dsimp only
  rw [Store.lookup_insert_eq,List.mem_cons]
  split
  next same => simp [same]
  next differ => simp [differ,filing place key]

theorem removeMetaFile_metas (ok : env.ok = true) : (s.removeMetaFile env file).metas = s.metas.erase file := if_pos ok

theorem removeFile_blobs (ok : env.ok = true) : (s.removeFile env file).blobs = s.blobs.erase file := if_pos ok

end files

/-! ### Changes of the files of an entry -/

section entry
variable {env : Env}

theorem At.writeFile (at_ : s.At path r record file data) (differ : other ≠ file) (data' : Bytes) (nextUuid : Nat) :
    At { s with blobs := s.blobs.insert other data', nextUuid } path r record file data where
  entry := ⟨at_.entry.mapped,at_.entry.filed,at_.entry.placed,at_.entry.blob,at_.entry.key,at_.entry.marked⟩
  content := (AList.lookup_insert_ne differ.symm).trans at_.content
  filing := at_.filing

theorem At.writeMeta (at_ : s.At path r record file data) (key : other.key = path) (fresh : s.metas.lookup other = none)
    (disk : PendingWriteDiskMeta) :
    Beside { s with metas := s.metas.insert other disk } path r record file data other where
  entry := ⟨at_.entry.mapped,at_.entry.filed,at_.entry.placed,at_.entry.blob,at_.entry.key,at_.entry.marked⟩
  content := at_.content
  filing place placed := (filing_insert at_.filing disk place placed).trans (List.Perm.swap ..).mem_iff
  key := key
  differ := by
    rintro rfl
    have filed : s.metas.lookup other ≠ none := (at_.filing other key).mpr List.mem_cons_self
    exact filed fresh

theorem Beside.removeFile (beside : s.Beside path r record file data other) (ok : env.ok = true) :
    (s.removeFile env other).Beside path r record file data other where
  entry := ⟨beside.entry.mapped,beside.entry.filed,beside.entry.placed,beside.entry.blob,beside.entry.key,beside.entry.marked⟩
  content := by
    rw [removeFile_blobs ok,AList.lookup_erase_ne beside.differ.symm]
    exact beside.content
  filing := beside.filing
  key := beside.key
  differ := beside.differ

theorem removed_file (ok : env.ok = true) : (s.removeFile env other).blobs.lookup other = none := by
  rw [removeFile_blobs ok]
  exact AList.lookup_erase _ _

theorem Beside.removeMetaFile (beside : s.Beside path r record file data other) (ok : env.ok = true) :
    (s.removeMetaFile env other).At path r record file data where
  entry := ⟨beside.entry.mapped,beside.entry.filed,beside.entry.placed,beside.entry.blob,beside.entry.key,beside.entry.marked⟩
  content := beside.content
  filing place placed := by
    rw [removeMetaFile_metas ok,Store.lookup_erase_eq]
    by_cases same : place = other
    · simp [same,beside.differ]
    · rw [if_neg same,beside.filing place placed]
      simp [same]

theorem Kept.nextUnused (all : s.Kept) (dir : BlobDir) (path : Text) :
    s.blobs.lookup (stagedPath dir path s.nextUuid) = none ∧ s.metas.lookup (stagedPath dir path s.nextUuid) = none := by
  by_contra used
  rw [not_and_or] at used
  exact Nat.lt_irrefl _ (all.uuids rfl used)

theorem At.ne_unused (at_ : s.At path r record file data) (unused : s.blobs.lookup other = none) : other ≠ file := by
  rintro rfl
  rw [at_.content] at unused
  cases unused

theorem elsewhere_stage {dir : BlobDir} {path : Text} :
    Elsewhere path s { s with blobs := s.blobs.insert (stagedPath dir path s.nextUuid) data, nextUuid := s.nextUuid + 1 } := by
  refine elsewhere_writeFile rfl (Nat.le_succ _) ?_
  intro uuid named
  cases named
  exact Nat.lt_succ_self _

/-- A file that is written for a new entry, and then its metadata. -/
structure Stored (s : Shared) (path : Text) (data : Bytes) (files : List BlobFile) : Prop where
  unmapped : s.entries.lookup path = none
  content : s.blobs.lookup (dataPath .queue path) = some data
  filing : s.Filing path files

theorem Empty.writeFile (empty : s.Empty path) (data : Bytes) :
    Stored { s with blobs := s.blobs.insert (dataPath .queue path) data } path data [] :=
  ⟨empty.unmapped,AList.lookup_insert _,empty.filing⟩

theorem Stored.empty (stored : s.Stored path data []) : s.Empty path := ⟨stored.unmapped,stored.filing⟩

theorem Stored.writeMeta (stored : s.Stored path data []) (disk : PendingWriteDiskMeta) :
    Stored { s with metas := s.metas.insert (dataPath .queue path) disk } path data [dataPath .queue path] :=
  ⟨stored.unmapped,stored.content,filing_insert stored.filing disk⟩

theorem Stored.same {files : List BlobFile} (stored : s.Stored path data files) (same : Same path s s') :
    s'.Stored path data files :=
  ⟨same.entries.trans stored.unmapped,(same.blobs rfl).trans stored.content,same.filing stored.filing⟩

theorem Stored.shown {files : List BlobFile} (stored : s.Stored path data files) : s.shown path = s.primary.lookup path := by
  rw [Shared.shown,stored.unmapped]
  rfl

theorem Stored.insertRecord (stored : s.Stored path data [dataPath .queue path]) (placed : record.target.path = path)
    (blob : record.inner.blob = .disk (dataPath .queue path)) (marked : record.inner.abnormalLogged = false) :
    (s.insertRecord record).At path s.nextRecord record (dataPath .queue path) data where
  entry := by
    refine ⟨?_,AList.lookup_insert _,placed,blob,rfl,?_⟩
    · change (s.entries.insert record.target.path s.nextRecord).lookup path = some s.nextRecord
      rw [placed]
      exact AList.lookup_insert _
    · rw [marked]
      exact fun abnormal => absurd abnormal Bool.false_ne_true
  content := stored.content
  filing := stored.filing

theorem elsewhere_insertRecord (filed : RecordsFiled s) (placed : record.target.path = path) :
    Elsewhere path s (s.insertRecord record) where
  same apart := by
    refine ⟨?_,?_,fun _ => rfl,fun _ => rfl,rfl⟩
    · apply AList.lookup_insert_ne
      rw [placed]
      exact apart
    · intro r other present _
      have issued := filed.issued r other present
      exact (AList.lookup_insert_ne issued.ne).trans present
  kept kept := ⟨kept.uuids,kept.shaped⟩

/-- The primary has what the entry had, and the files are gone. -/
structure Retired (s : Shared) (path : Text) (r : RecordId) (data : Bytes) : Prop where
  entry : ∃ record file, s.Entry path r record file ∧ s.blobs.lookup file = none
  filing : s.Filing path []
  primary : s.primary.lookup path = some data

theorem Retired.shown (retired : s.Retired path r data) : s.shown path = some data := by
  obtain ⟨record,file,entry,gone⟩ := retired.entry
  rw [entry.shown,gone,retired.primary]
  rfl

theorem Retired.same (retired : s.Retired path r data) (same : Same path s s') : s'.Retired path r data := by
  obtain ⟨record,file,entry,gone⟩ := retired.entry
  exact ⟨⟨record,file,same.entry entry,(same.blobs entry.key).trans gone⟩,same.filing retired.filing,
    same.primary.trans retired.primary⟩

theorem At.retire (at_ : s.At path r record file data) (ok : env.ok = true) (primary : s.primary.lookup path = some data) :
    ((s.removeFile env file).removeMetaFile env file).Retired path r data where
  entry := by
    refine ⟨record,file,?_,?_⟩
    · exact ⟨at_.entry.mapped,at_.entry.filed,at_.entry.placed,at_.entry.blob,at_.entry.key,at_.entry.marked⟩
    · exact removed_file ok
  filing place placed := by
    rw [removeMetaFile_metas ok]
    change (s.metas.erase file).lookup place ≠ none ↔ _
    rw [Store.lookup_erase_eq]
    by_cases same : place = file
    · simp [same]
    · rw [if_neg same,at_.filing place placed]
      simp [same]
  primary := primary

theorem Retired.removeEntry (retired : s.Retired path r data) : Empty { s with entries := s.entries.erase path } path :=
  ⟨AList.lookup_erase _ _,retired.filing⟩

theorem elsewhere_removeEntry : Elsewhere path s { s with entries := s.entries.erase path } where
  same apart := ⟨AList.lookup_erase_ne apart,fun filed _ => filed,fun _ => rfl,fun _ => rfl,rfl⟩
  kept kept := ⟨kept.uuids,kept.shaped⟩

theorem elsewhere_writePrimary : Elsewhere path s { s with primary := s.primary.insert path data } where
  same apart := ⟨rfl,fun filed _ => filed,fun _ => rfl,fun _ => rfl,AList.lookup_insert_ne apart⟩
  kept kept := ⟨kept.uuids,kept.shaped⟩

theorem At.writePrimary (at_ : s.At path r record file data) (data' : Bytes) :
    At { s with primary := s.primary.insert path data' } path r record file data where
  entry := ⟨at_.entry.mapped,at_.entry.filed,at_.entry.placed,at_.entry.blob,at_.entry.key,at_.entry.marked⟩
  content := at_.content
  filing := at_.filing

end entry

end Shared
end StorageHub.WriteCache
