import StorageHub.Listings.Totals

/-! The listings as streams of pages, against the one query they stand for. -/
namespace StorageHub.Listings
open Library Library.Paging Scoped

section
variable (sql : Sql) (heap : Heap) (pageSize fuel : Nat)

/-- Pages of `LIMIT` and `OFFSET` until one is not full. A failed query would end the
stream with its error. -/
def streamWithPageSize (cmp : TableRow → TableRow → Ordering) (matching : List TableRow) :
    Option (List (Except Text TableRow)) :=
  let pageSize := max pageSize 1
  drain (fun page => .ok (limited pageSize ((page - 1) * pageSize) (heap.sorted page cmp matching))) pageSize fuel 1
    true

def listFilesStreamWithPageSize (userId parentPath : Text) (rows : List TableRow) :
    Option (List (Except Text TableRow)) :=
  streamWithPageSize heap pageSize fuel (sql.foldersFirst .name false) (rows.filter (listFilter userId parentPath))

def searchFilesStreamWithPageSize (userId query : Text) (rows : List TableRow) :
    Option (List (Except Text TableRow)) :=
  streamWithPageSize heap pageSize fuel (sql.foldersFirst .name false) (rows.filter (searchFilter sql userId query))

/-- Unlike the page of favorites, the stream takes any number for a color. -/
def streamColorFilter (color : Option Int) (row : TableRow) : Bool :=
  color.all fun color => row.favoriteColor == color

def favoritesStreamed (userId : Text) (color : Option Int) (rows : List TableRow) : List TableRow :=
  (rows.filter (favoritesFilter userId)).filter (streamColorFilter color)

def listFavoritesStreamWithPageSize (userId : Text) (color : Option Int) (rows : List TableRow) :
    Option (List (Except Text TableRow)) :=
  streamWithPageSize heap pageSize fuel (sql.foldersFirst .name false) (favoritesStreamed userId color rows)

def listTrashStreamWithPageSize (userId : Text) (rows : List TableRow) : Option (List (Except Text TableRow)) :=
  streamWithPageSize heap pageSize fuel (sql.foldersFirst .fileTrashedAt true) (rows.filter (trashFilter userId))

end

/-- The stream ends and has given every matching row once. -/
def YieldsOnce (stream : Nat → Option (List (Except Text TableRow))) (matching : List TableRow) : Prop :=
  ∃ out : List TableRow, out.Perm matching ∧ ∃ bound, ∀ fuel, bound ≤ fuel → stream fuel = some (out.map .ok)

variable {cmp : TableRow → TableRow → Ordering} {matching : List TableRow}

theorem stream_pages (heap : Heap) (pageSize : Nat) {fuel : Nat}
    (enough : matching.length / max pageSize 1 + 2 ≤ fuel) :
    streamWithPageSize heap pageSize fuel cmp matching =
      some ((pages (max pageSize 1) (matching.length / max pageSize 1 + 1)
        fun k => heap.sorted (k + 1) cmp matching).map .ok) := by
  have even : ∀ k, (heap.sorted (k + 1) cmp matching).length = matching.length :=
    fun k => heap.length_sorted (k + 1) matching
  exact drain_pages (Nat.lt_of_lt_of_le Nat.zero_lt_one (Nat.le_max_right pageSize 1)) even (fun _ => rfl) enough

/-- What a stream gives for good is its pages. -/
theorem yieldsOnce_iff (heap : Heap) (pageSize : Nat) :
    YieldsOnce (fun fuel => streamWithPageSize heap pageSize fuel cmp matching) matching ↔
      (pages (max pageSize 1) (matching.length / max pageSize 1 + 1)
        fun k => heap.sorted (k + 1) cmp matching).Perm matching := by
  constructor
  · rintro ⟨out,perm,bound,ended⟩
    have here := ended (max bound (matching.length / max pageSize 1 + 2)) (Nat.le_max_left _ _)
    dsimp only at here
    rw [stream_pages heap pageSize (Nat.le_max_right _ _)] at here
    have same := List.map_injective_iff.mpr (fun _ _ => Except.ok.inj) (Option.some.inj here)
    rw [same]
    exact perm
  · intro perm
    exact ⟨_,perm,_,fun fuel enough => stream_pages heap pageSize enough⟩

/-- However the database orders equal rows, the stream gives each row once, exactly when
no page of it begins among equals. -/
theorem stream_once_iff [Std.TransCmp cmp] (distinct : matching.Nodup) (pageSize : Nat) :
    (∀ heap, YieldsOnce (fun fuel => streamWithPageSize heap pageSize fuel cmp matching) matching) ↔
      Separated cmp matching (max pageSize 1) := by
  have positive : 0 < max pageSize 1 := Nat.lt_of_lt_of_le Nat.zero_lt_one (Nat.le_max_right pageSize 1)
  have enough : matching.length ≤ (matching.length / max pageSize 1 + 1) * max pageSize 1 := by
    rw [Nat.succ_mul]
    exact Nat.le_of_lt (Nat.lt_div_mul_add positive)
  rw [← pages_complete_iff distinct enough]
  constructor
  · intro once arranged arr
    obtain ⟨heap,given⟩ := Heap.arranged arr
    have perm := (yieldsOnce_iff heap pageSize).mp (once heap)
    rw [funext given] at perm
    exact perm
  · intro complete heap
    rw [yieldsOnce_iff]
    exact complete _ fun k => heap.sorted_arranges (k + 1) matching

/-- Each of the four streams, for every table. -/
theorem streams_once_iff (sql : Sql) (t : Table) (userId : Text) (pageSize : Nat) :
    (∀ parentPath,
      (∀ heap, YieldsOnce (fun fuel => listFilesStreamWithPageSize sql heap pageSize fuel userId parentPath t.rows)
        (t.rows.filter (listFilter userId parentPath))) ↔
        Separated (sql.foldersFirst .name false) (t.rows.filter (listFilter userId parentPath)) (max pageSize 1)) ∧
    (∀ query,
      (∀ heap, YieldsOnce (fun fuel => searchFilesStreamWithPageSize sql heap pageSize fuel userId query t.rows)
        (t.rows.filter (searchFilter sql userId query))) ↔
        Separated (sql.foldersFirst .name false) (t.rows.filter (searchFilter sql userId query)) (max pageSize 1)) ∧
    (∀ color,
      (∀ heap, YieldsOnce (fun fuel => listFavoritesStreamWithPageSize sql heap pageSize fuel userId color t.rows)
        (favoritesStreamed userId color t.rows)) ↔
        Separated (sql.foldersFirst .name false) (favoritesStreamed userId color t.rows) (max pageSize 1)) ∧
    ((∀ heap, YieldsOnce (fun fuel => listTrashStreamWithPageSize sql heap pageSize fuel userId t.rows)
        (t.rows.filter (trashFilter userId))) ↔
      Separated (sql.foldersFirst .fileTrashedAt true) (t.rows.filter (trashFilter userId)) (max pageSize 1)) := by
  refine ⟨?_,?_,?_,?_⟩
  · intro parentPath
    exact stream_once_iff (t.nodup.filter _) pageSize
  · intro query
    exact stream_once_iff (t.nodup.filter _) pageSize
  · intro color
    exact stream_once_iff ((t.nodup.filter _).filter _) pageSize
  · exact stream_once_iff (t.nodup.filter _) pageSize

/-! ### Rows trashed at one time -/

def trashedRow (id : Nat) (name : Text) : TableRow where
  id
  userId := "u".toList
  parentPath := recycleBin
  name
  path := recycleBin ++ '/'::name
  isDir := false
  storageId := none
  backendType := none
  backendKey := none
  size := 0
  physicalSize := none
  protectedMeta := none
  fileTrashedAt := some 5
  rowCreatedAt := 0
  rowUpdatedAt := 0
  favoriteColor := 0
  originalPath := some ('/'::name)
  fileUpdatedAt := none
  rowDeletedAt := none

def trashedTogether : List TableRow := [trashedRow 1 ['a'],trashedRow 2 ['b']]

/-- A database that comes by the rows the other way round from its second query on. -/
def turningHeap : Heap where
  order n rows := if n ≤ 1 then rows else rows.reverse
  perm n rows := by
    split
    · exact List.Perm.refl rows
    · exact List.reverse_perm rows

theorem turningHeap_sorted (n : Nat) :
    turningHeap.sorted n (plainSql.foldersFirst .fileTrashedAt true) trashedTogether =
      if n ≤ 1 then trashedTogether else trashedTogether.reverse := by
  have straight : Arranges (plainSql.foldersFirst .fileTrashedAt true) trashedTogether trashedTogether :=
    ⟨List.Perm.refl _,by decide +kernel⟩
  have turned : Arranges (plainSql.foldersFirst .fileTrashedAt true) trashedTogether trashedTogether.reverse :=
    ⟨List.reverse_perm _,by decide +kernel⟩
  rw [Heap.sorted,turningHeap]
  dsimp only
  split
  · exact straight.mergeSort_eq
  · exact turned.mergeSort_eq

/-- A page each of two files that were trashed together can show one of them twice. -/
theorem trash_stream_repeats :
    listTrashStreamWithPageSize plainSql turningHeap 1 4 "u".toList trashedTogether =
        some [.ok (trashedRow 1 ['a']),.ok (trashedRow 1 ['a'])] ∧
      ¬YieldsOnce (fun fuel => listTrashStreamWithPageSize plainSql turningHeap 1 fuel "u".toList trashedTogether)
        (trashedTogether.filter (trashFilter "u".toList)) := by
  have all : trashedTogether.filter (trashFilter "u".toList) = trashedTogether := by decide +kernel
  have given : pages 1 3 (fun k => turningHeap.sorted (k + 1) (plainSql.foldersFirst .fileTrashedAt true)
      trashedTogether) = [trashedRow 1 ['a'],trashedRow 1 ['a']] := by
    simp only [turningHeap_sorted]
    decide +kernel
  have count : trashedTogether.length / max 1 1 + 1 = 3 := rfl
  unfold listTrashStreamWithPageSize
  rw [all,yieldsOnce_iff,count,stream_pages turningHeap 1 (by decide),count,Nat.max_self,given]
  refine ⟨rfl,?_⟩
  decide +kernel

end StorageHub.Listings
