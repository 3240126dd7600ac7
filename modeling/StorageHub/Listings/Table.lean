import StorageHub.Library.Paging
import StorageHub.Scoped.Listing

/-! The table of the index as the listing queries see it: which rows their filters
match, what they sort by, and what a page of a query can be. -/
namespace StorageHub.Listings
open Library Library.Paging Scoped

/-- A row with the columns the listings ask for besides those of the file. -/
structure TableRow extends IndexRow where
  fileUpdatedAt : Option Int
  rowDeletedAt : Option Int
  deriving DecidableEq,Repr

/-- Rows with a primary key. -/
structure Table where
  rows : List TableRow
  keyed : (rows.map fun row => (row.id,row.userId)).Nodup

theorem Table.nodup (t : Table) : t.rows.Nodup := List.Nodup.of_map _ t.keyed

/-- What the databases leave open: the case of LIKE, how texts are sorted and on
which side of the values NULL stands. -/
structure Sql where
  sensitive : Bool
  collate : Text → Text → Ordering
  lawful : Std.TransCmp collate
  nullsFirst : Bool

instance (sql : Sql) : Std.TransCmp sql.collate := sql.lawful

def Sql.nullable {α : Type} (sql : Sql) (cmp : α → α → Ordering) : Option α → Option α → Ordering
  | none, none => .eq
  | none, some _ => if sql.nullsFirst then .lt else .gt
  | some _, none => if sql.nullsFirst then .gt else .lt
  | some a, some b => cmp a b

instance (sql : Sql) {α : Type} (cmp : α → α → Ordering) [Std.TransCmp cmp] : Std.TransCmp (sql.nullable cmp) where
  eq_swap {a b} := by
    cases a <;> cases b <;> simp only [Sql.nullable]
    · rfl
    · cases sql.nullsFirst <;> rfl
    · cases sql.nullsFirst <;> rfl
    · exact Std.OrientedCmp.eq_swap
  isLE_trans {a b c} := by
    cases a <;> cases b <;> cases c <;> cases nulls : sql.nullsFirst <;> simp [Sql.nullable,nulls]
    all_goals exact Std.TransCmp.isLE_trans

/-! ### Filters -/

def Sql.contains (sql : Sql) (kw : Text) (s : Text) : Bool := Text.like sql.sensitive ('%'::kw ++ ['%']) s

def listFilter (userId parentPath : Text) (row : TableRow) : Bool :=
  row.userId == userId && row.parentPath == parentPath && row.rowDeletedAt.isNone && row.fileTrashedAt.isNone

def searchFilter (sql : Sql) (userId query : Text) (row : TableRow) : Bool :=
  row.userId == userId && sql.contains query row.name && row.rowDeletedAt.isNone && row.fileTrashedAt.isNone

def favoritesFilter (userId : Text) (row : TableRow) : Bool :=
  row.userId == userId && decide (0 < row.favoriteColor) && row.fileTrashedAt.isNone && row.rowDeletedAt.isNone

def trashFilter (userId : Text) (row : TableRow) : Bool :=
  row.userId == userId && row.fileTrashedAt.isSome && row.parentPath == recycleBin && row.rowDeletedAt.isNone

/-- An absent or empty keyword is no condition. -/
def keywordFilter (matching : Text → TableRow → Bool) (keyword : Option Text) (row : TableRow) : Bool :=
  keyword.all fun kw => kw.isEmpty || matching kw row

def Sql.nameOrPath (sql : Sql) (kw : Text) (row : TableRow) : Bool :=
  sql.contains kw row.name || sql.contains kw row.path

def Sql.nameOrPaths (sql : Sql) (kw : Text) (row : TableRow) : Bool :=
  sql.contains kw row.name || sql.contains kw row.path || row.originalPath.any (sql.contains kw)

/-! ### Sort keys -/

inductive SortColumn
  | name
  | path
  | originalPath
  | size
  | fileUpdatedAt
  | rowUpdatedAt
  | fileTrashedAt
  deriving DecidableEq,Repr

def Sql.byColumn (sql : Sql) (a b : TableRow) : SortColumn → Ordering
  | .name => sql.collate a.name b.name
  | .path => sql.collate a.path b.path
  | .originalPath => sql.nullable sql.collate a.originalPath b.originalPath
  | .size => compare a.size b.size
  | .fileUpdatedAt => sql.nullable compare a.fileUpdatedAt b.fileUpdatedAt
  | .rowUpdatedAt => compare a.rowUpdatedAt b.rowUpdatedAt
  | .fileTrashedAt => sql.nullable compare a.fileTrashedAt b.fileTrashedAt

/-- Directories first, then by a column in one of the two directions. -/
def Sql.foldersFirst (sql : Sql) (column : SortColumn) (descending : Bool) : TableRow → TableRow → Ordering :=
  compareLex (fun a b => compare b.isDir a.isDir) fun a b =>
    if descending then sql.byColumn b a column else sql.byColumn a b column

theorem trans_on {α β : Type} (cmp : β → β → Ordering) [Std.TransCmp cmp] (f : α → β) :
    Std.TransCmp fun a b => cmp (f a) (f b) where
  eq_swap := Std.OrientedCmp.eq_swap
  isLE_trans := Std.TransCmp.isLE_trans

theorem Sql.byColumn_trans (sql : Sql) (column : SortColumn) : Std.TransCmp fun a b => sql.byColumn a b column := by
  cases column with
  | name => exact trans_on sql.collate fun row : TableRow => row.name
  | path => exact trans_on sql.collate fun row : TableRow => row.path
  | originalPath => exact trans_on (sql.nullable sql.collate) fun row : TableRow => row.originalPath
  | size => exact trans_on compare fun row : TableRow => row.size
  | fileUpdatedAt => exact trans_on (sql.nullable compare) fun row : TableRow => row.fileUpdatedAt
  | rowUpdatedAt => exact trans_on compare fun row : TableRow => row.rowUpdatedAt
  | fileTrashedAt => exact trans_on (sql.nullable compare) fun row : TableRow => row.fileTrashedAt

theorem Sql.directed_trans (sql : Sql) (column : SortColumn) (descending : Bool) : Std.TransCmp fun a b : TableRow =>
    if descending then sql.byColumn b a column else sql.byColumn a b column := by
  have ascending := sql.byColumn_trans column
  cases descending with
  | false => exact ascending
  | true => exact @Std.TransCmp.opposite _ (fun a b => sql.byColumn a b column) ascending

instance (sql : Sql) (column : SortColumn) (descending : Bool) :
    Std.TransCmp (sql.foldersFirst column descending) := by
  have folders : Std.TransCmp fun a b : TableRow => compare b.isDir a.isDir :=
    @Std.TransCmp.opposite _ _ (trans_on compare fun row : TableRow => row.isDir)
  have keys := sql.directed_trans column descending
  rw [Sql.foldersFirst]
  infer_instance

/-! ### Queries -/

/-- The order in which the database comes by the rows of a query. Rows that are equal
under its sort key stay in that order. -/
structure Heap where
  order : Nat → List TableRow → List TableRow
  perm : ∀ n rows, (order n rows).Perm rows

/-- `ORDER BY` of the `n`th query. -/
def Heap.sorted (heap : Heap) (n : Nat) (cmp : TableRow → TableRow → Ordering) (rows : List TableRow) :
    List TableRow :=
  (heap.order n rows).mergeSort fun a b => (cmp a b).isLE

/-- `LIMIT` and `OFFSET`. -/
def limited {α : Type} (limit offset : Nat) (rows : List α) : List α := (rows.drop offset).take limit

section
variable {cmp : TableRow → TableRow → Ordering}

theorem Heap.sorted_arranges [Std.TransCmp cmp] (heap : Heap) (n : Nat) (rows : List TableRow) :
    Arranges cmp rows (heap.sorted n cmp rows) :=
  arranges_mergeSort (heap.perm n rows)

theorem Heap.length_sorted (heap : Heap) (n : Nat) (rows : List TableRow) :
    (heap.sorted n cmp rows).length = rows.length := by
  rw [Heap.sorted,List.length_mergeSort,(heap.perm n rows).length_eq]

/-- The database may come by the rows so that its queries give any sorted lists of them. -/
theorem Heap.arranged {rows : List TableRow} {arranged : Nat → List TableRow}
    (arr : ∀ k, Arranges cmp rows (arranged k)) :
    ∃ heap : Heap, ∀ k, heap.sorted (k + 1) cmp rows = arranged k := by
  refine ⟨⟨fun n other => if other = rows then arranged (n - 1) else other,?_⟩,?_⟩
  · intro n other
    split
    next same =>
      rw [same]
      exact (arr (n - 1)).perm
    next => exact List.Perm.refl other
  · intro k
    rw [Heap.sorted]
    dsimp only
    rw [if_pos rfl,Nat.add_sub_cancel]
    exact (arr k).mergeSort_eq

end
end StorageHub.Listings
