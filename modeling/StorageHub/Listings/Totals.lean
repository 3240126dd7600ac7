import StorageHub.Listings.Table

/-! The pages that ask for one row more than they show: only where there is one are
the rows counted, otherwise the total is what the page's end says. -/
namespace StorageHub.Listings
open Library Library.Paging Scoped

/-- A number wrapped to 64 bits with a sign. -/
def asI64 (n : Int) : Int := (n + 2 ^ 63) % 2 ^ 64 - 2 ^ 63

/-- A page of the sorted rows and the total given with it. `count` is what the count
function of the listing would give. -/
def probed (sorted : List TableRow) (page pageSize : Int) (count : Int) : List TableRow × Int :=
  let offset := asI64 ((page - 1) * pageSize)
  let pageSizeU64 := (max pageSize 1).toNat
  let files := limited (pageSizeU64 + 1) (asU64 offset) sorted
  let hasMore := decide (pageSizeU64 < files.length)
  let files := if hasMore then files.take pageSizeU64 else files
  (files,if !hasMore then offset + files.length else count)

section
variable (sql : Sql) (heap : Heap) (n : Nat)

/-! ### Search -/

def countSearchFiles (userId query : Text) (rows : List TableRow) : Int :=
  (rows.filter (searchFilter sql userId query)).length

def searchFilesPaginated (userId query : Text) (page pageSize : Int) (rows : List TableRow) :
    List TableRow × Int :=
  probed (heap.sorted n (sql.foldersFirst .name false) (rows.filter (searchFilter sql userId query)))
    page pageSize (countSearchFiles sql userId query rows)

/-! ### Favorites -/

/-- A color filter counts when it is a color. -/
def colorFilter (color : Option Int) (row : TableRow) : Bool :=
  color.all fun color => !decide (0 < color) || row.favoriteColor == color

def descendingOr (order default : Text) : Option Text → Bool
  | some given => given == order
  | none => default == order

def fileColumn (sortBy : Option Text) : SortColumn :=
  if sortBy = some "size".toList then .size
  else if sortBy = some "modified".toList then .fileUpdatedAt
  else if sortBy = some "path".toList then .path
  else if sortBy = some "created_at".toList then .rowUpdatedAt
  else .name

def favoriteRows (userId : Text) (keyword : Option Text) (color : Option Int) (rows : List TableRow) :
    List TableRow :=
  ((rows.filter (favoritesFilter userId)).filter (colorFilter color)).filter (keywordFilter sql.nameOrPath keyword)

def countFavoritesWithFilter (userId : Text) (keyword : Option Text) (color : Option Int)
    (rows : List TableRow) : Int :=
  (favoriteRows sql userId keyword color rows).length

def listFavoritesPaginated (userId : Text) (params : VfsPaginationParams) (color : Option Int)
    (rows : List TableRow) : List TableRow × Int :=
  probed (heap.sorted n (sql.foldersFirst (fileColumn params.sortBy)
      (descendingOr "desc".toList "asc".toList params.order)) (favoriteRows sql userId params.keyword color rows))
    params.page params.pageSize (countFavoritesWithFilter sql userId params.keyword color rows)

/-! ### Trash -/

def countTrashFiles (userId : Text) (rows : List TableRow) : Int := (rows.filter (trashFilter userId)).length

def listTrashPaginated (userId : Text) (page pageSize : Int) (rows : List TableRow) : List TableRow × Int :=
  probed (heap.sorted n (sql.foldersFirst .fileTrashedAt true) (rows.filter (trashFilter userId)))
    page pageSize (countTrashFiles userId rows)

def trashColumn (sortBy : Option Text) : SortColumn :=
  if sortBy = some "name".toList then .name
  else if sortBy = some "path".toList then .path
  else if sortBy = some "original_path".toList then .originalPath
  else if sortBy = some "size".toList then .size
  else if sortBy = some "modified".toList then .fileUpdatedAt
  else .fileTrashedAt

def trashRows (userId : Text) (keyword : Option Text) (rows : List TableRow) : List TableRow :=
  (rows.filter (trashFilter userId)).filter (keywordFilter sql.nameOrPaths keyword)

def countTrashFilesWithFilter (userId : Text) (keyword : Option Text) (rows : List TableRow) : Int :=
  (trashRows sql userId keyword rows).length

def listTrashPaginatedWithSort (userId : Text) (params : VfsPaginationParams) (rows : List TableRow) :
    List TableRow × Int :=
  probed (heap.sorted n (sql.foldersFirst (trashColumn params.sortBy)
      (descendingOr "desc".toList "desc".toList params.order)) (trashRows sql userId params.keyword rows))
    params.page params.pageSize (countTrashFilesWithFilter sql userId params.keyword rows)

end

/-! ### Totals -/

/-- The page begins no later than the matches end, or more of them follow it. -/
def StartsInside (page pageSize : Int) (count : Nat) : Prop :=
  (0 ≤ asI64 ((page - 1) * pageSize) ∧ asI64 ((page - 1) * pageSize) ≤ count) ∨
    asU64 (asI64 ((page - 1) * pageSize)) + (max pageSize 1).toNat < count

theorem asI64_range (n : Int) : -2 ^ 63 ≤ asI64 n ∧ asI64 n < 2 ^ 63 := by
  unfold asI64
  omega

theorem asU64_asI64 (n : Int) : (0 ≤ asI64 n ∧ (asU64 (asI64 n) : Int) = asI64 n) ∨
    (asI64 n < 0 ∧ (asU64 (asI64 n) : Int) = asI64 n + 2 ^ 64) := by
  have range := asI64_range n
  unfold asU64
  by_cases sign : 0 ≤ asI64 n
  · left
    refine ⟨sign,?_⟩
    rw [Int.emod_eq_of_lt sign (by omega)]
    omega
  · right
    have shifted : asI64 n % 2 ^ 64 = asI64 n + 2 ^ 64 := by
      rw [← Int.add_emod_right]
      exact Int.emod_eq_of_lt (by omega) (by omega)
    refine ⟨by omega,?_⟩
    rw [shifted]
    omega

/-- The total of a page is the count of the matches exactly when it begins within them. -/
theorem probed_total_iff (sorted : List TableRow) (page pageSize : Int) :
    (probed sorted page pageSize sorted.length).2 = sorted.length ↔ StartsInside page pageSize sorted.length := by
  have sized : (limited ((max pageSize 1).toNat + 1) (asU64 (asI64 ((page - 1) * pageSize))) sorted).length =
      min ((max pageSize 1).toNat + 1) (sorted.length - asU64 (asI64 ((page - 1) * pageSize))) := by
    rw [limited,List.length_take,List.length_drop]
  have casted := asU64_asI64 ((page - 1) * pageSize)
  unfold probed StartsInside
  dsimp only
  generalize asI64 ((page - 1) * pageSize) = offset at casted sized ⊢
  generalize limited ((max pageSize 1).toNat + 1) (asU64 offset) sorted = files at sized ⊢
  generalize (max pageSize 1).toNat = size at sized ⊢
  generalize asU64 offset = start at casted sized ⊢
  by_cases more : size < files.length
  · rw [decide_eq_true more]
    simp only [Bool.not_true,Bool.false_eq_true,if_false,true_iff]
    omega
  · rw [decide_eq_false more]
    simp only [Bool.not_false,if_true,Bool.false_eq_true,if_false]
    omega

/-- A listing's total is the number of the rows its filter matches exactly when the page
begins within them, and its count function gives that number. -/
def Counted (listed : List TableRow × Int) (count : Int) (matching : List TableRow) (page pageSize : Int) : Prop :=
  count = matching.length ∧ (listed.2 = matching.length ↔ StartsInside page pageSize matching.length)

theorem probed_counted (heap : Heap) (n : Nat) (cmp : TableRow → TableRow → Ordering) (matching : List TableRow)
    (page pageSize : Int) :
    Counted (probed (heap.sorted n cmp matching) page pageSize matching.length) matching.length matching page
      pageSize := by
  have total := probed_total_iff (heap.sorted n cmp matching) page pageSize
  rw [heap.length_sorted] at total
  exact ⟨rfl,total⟩

/-- The four listings give the count of their matches for a total exactly on the pages
that begin within them. -/
theorem totals_counted_iff (sql : Sql) (heap : Heap) (n : Nat) (rows : List TableRow) (userId : Text) :
    (∀ query page pageSize,
      Counted (searchFilesPaginated sql heap n userId query page pageSize rows)
        (countSearchFiles sql userId query rows) (rows.filter (searchFilter sql userId query)) page pageSize) ∧
    (∀ params color,
      Counted (listFavoritesPaginated sql heap n userId params color rows)
        (countFavoritesWithFilter sql userId params.keyword color rows)
        (favoriteRows sql userId params.keyword color rows) params.page params.pageSize) ∧
    (∀ page pageSize,
      Counted (listTrashPaginated sql heap n userId page pageSize rows) (countTrashFiles userId rows)
        (rows.filter (trashFilter userId)) page pageSize) ∧
    ∀ params,
      Counted (listTrashPaginatedWithSort sql heap n userId params rows)
        (countTrashFilesWithFilter sql userId params.keyword rows) (trashRows sql userId params.keyword rows)
        params.page params.pageSize := by
  refine ⟨?_,?_,?_,?_⟩
  · intro query page pageSize
    exact probed_counted heap n _ _ page pageSize
  · intro params color
    exact probed_counted heap n _ _ params.page params.pageSize
  · intro page pageSize
    exact probed_counted heap n _ _ page pageSize
  · intro params
    exact probed_counted heap n _ _ params.page params.pageSize

def plainSql : Sql := ⟨true,compare,inferInstance,true⟩

def plainHeap : Heap := ⟨fun _ rows => rows,fun _ rows => List.Perm.refl rows⟩

/-- The second page of an empty trash counts one row. -/
theorem empty_trash_counted : (listTrashPaginated plainSql plainHeap 1 "u".toList 2 1 []).2 ≠
    countTrashFiles "u".toList [] := by
  have total : (listTrashPaginated plainSql plainHeap 1 "u".toList 2 1 []).2 = 1 := by
    rw [listTrashPaginated,Heap.sorted]
    decide +kernel
  rw [total]
  decide

end StorageHub.Listings
