import StorageHub.Scoped.ListingSpec
import StorageHub.Listings.Table

/-! The pages of a directory against its listing, at one moment and with every call
getting through. -/
namespace StorageHub.Scoped
open Library Library.Paging WriteCache Protected Vfs Effect

/-- The same settings; a hash map and a table may give things in other orders. -/
structure ListConfig.Like (config other : ListConfig) : Prop where
  mode : other.mode = config.mode
  byTime : other.byTime = config.byTime

theorem ListConfig.Like.refl (config : ListConfig) : config.Like config := ⟨rfl,rfl⟩

namespace Engine
variable (e : Engine) (config : ListConfig) (now : Int) (dir : Text) (w : World) (size : Nat)

/-! ### The property -/

/-- The pages that `fetch` gives are the pages of the directory's listing, whatever orders
each call meets. -/
def PagesHold (fetch : ListConfig → Nat → Vfs (List VfsFileInfo × Int)) : Prop :=
  ∀ all w', Settles now (e.listImpl config dir) w (.ok all) w' →
    ∀ configs : Nat → ListConfig, (∀ k, config.Like (configs k)) →
      ∃ page : Nat → List VfsFileInfo × Int,
        (∀ k, ∃ w', Settles now (fetch (configs k) k) w (.ok (page k)) w') ∧ PagesOf all size page

def PagesList : Prop :=
  e.PagesHold config now dir w size fun other k => e.listFilesPaginatedImpl other dir (k + 1) size

def SortedPagesList (sortBy order : Option Text) : Prop :=
  e.PagesHold config now dir w size fun other k =>
    e.listFilesPaginatedWithSortImpl other dir ⟨k + 1,size,sortBy,order,none⟩

/-! ### The orders of pages -/

/-- Directories first, then by a key. -/
def rowOrder (cmp : IndexRow → IndexRow → Ordering) : IndexRow → IndexRow → Ordering :=
  compareLex (fun a b => compare b.isDir a.isDir) cmp

def infoOrder (params : VfsPaginationParams) : VfsFileInfo → VfsFileInfo → Ordering :=
  compareLex (fun a b => compare b.isDir a.isDir) fun a b => descending params (sortedBy config params a b)

def nameOrder (a b : VfsFileInfo) : Ordering := compare a.name b.name

def sortParams (sortBy order : Option Text) : VfsPaginationParams := ⟨1,1,sortBy,order,none⟩

/-! ### When pages and listing agree -/

/-- The rows that pages are cut from, when they are cut from the index. -/
def plainRows : Option (List IndexRow) :=
  if e.covers dir then some (e.rowsIn dir w)
  else if e.merges dir w then none
  else (some (e.rowsIn dir (e.refresh config now dir w))).filter fun rows => !rows.isEmpty

/-- A page by a sort key is cut from the storage's listing after a refresh. -/
def sortedRows : Option (List IndexRow) :=
  if e.covers dir then some (e.rowsIn dir w)
  else if e.merges dir w || config.mode == 2 then none
  else (some (e.rowsIn dir w)).filter fun rows => !rows.isEmpty

/-- Rows of the directory are all in its listing. -/
def RowsShown (rows : List IndexRow) : Prop :=
  if isTempPath dir = true then (rows.map infoOfRow).Perm (tempInfos dir w)
  else if e.covers dir = true then ∀ row ∈ rows, isHiddenStoragePath row.path = false
  else ∀ row ∈ rows, keepsEntry dir (infoOfRow row) = true

/-- After a refresh the rows of the directory are what the storage has. -/
def FreshShown : Prop :=
  if isTempPath dir = true then (e.storedInfos dir w).Perm (tempInfos dir w)
  else e.rowsIn dir (e.refresh config now dir w) ≠ [] →
    (e.storedInfos dir w).Perm (keptInfos dir (e.rowsIn dir (e.refresh config now dir w)))

structure PlainAgree : Prop where
  resolved : e.resolveProtectedPlan.toOption.isSome = true
  shown : ∀ rows ∈ e.plainRows config now dir w, e.RowsShown dir w rows
  visible : ∀ rows ∈ e.plainRows config now dir w, ∀ row ∈ rows, isHiddenStoragePath row.path = false
  separated : ∀ rows ∈ e.plainRows config now dir w, Separated (rowOrder Index.byName) rows size
  pending : e.covers dir = false → e.pendingInfos dir w ≠ [] → Separated nameOrder (e.merged config now dir w) size

structure SortedAgree (sortBy order : Option Text) : Prop where
  resolved : e.resolveProtectedPlan.toOption.isSome = true
  shown : ∀ rows ∈ e.sortedRows config dir w, e.RowsShown dir w rows
  separated : ∀ rows ∈ e.sortedRows config dir w,
    Separated (rowOrder (sortKey config (sortParams sortBy order))) rows size
  pending : e.covers dir = false → e.pendingInfos dir w ≠ [] →
    Separated (compareLex (infoOrder config (sortParams sortBy order)) nameOrder) (e.merged config now dir w) size
  fresh : e.covers dir = false → e.merges dir w = false → config.mode = 2 → e.FreshShown config now dir w

variable {e config now dir w size}

/-! ### Lawful orders -/

theorem directed_trans {α : Type} {cmp : α → α → Ordering} (lawful : Std.TransCmp cmp) (params : VfsPaginationParams) :
    Std.TransCmp fun a b => descending params (cmp a b) := by
  unfold descending
  split
  · have turned : (fun a b => (cmp a b).swap) = fun a b => cmp b a := by
      funext a b
      exact Std.OrientedCmp.eq_swap.symm
    rw [turned]
    exact @Std.TransCmp.opposite _ cmp lawful
  · exact lawful

theorem rowsSortedBy_trans (config : ListConfig) (params : VfsPaginationParams) :
    Std.TransCmp fun a b => rowsSortedBy config params a b := by
  unfold rowsSortedBy
  split
  · exact Listings.trans_on compare fun row : IndexRow => row.size
  split
  · exact @Listings.trans_on _ _ config.byTime config.timed infoOfRow
  split
  · exact Listings.trans_on compare fun row : IndexRow => row.path
  split
  · exact Listings.trans_on compare fun row : IndexRow => row.rowUpdatedAt
  · exact Listings.trans_on compare fun row : IndexRow => row.name

theorem sortedBy_trans (config : ListConfig) (params : VfsPaginationParams) :
    Std.TransCmp fun a b => sortedBy config params a b := by
  unfold sortedBy
  split
  · exact Listings.trans_on compare fun info : VfsFileInfo => info.size
  split
  · exact config.timed
  split
  · exact Listings.trans_on compare fun info : VfsFileInfo => info.path
  split
  · exact config.timed
  · exact Listings.trans_on compare fun info : VfsFileInfo => info.name

theorem rowOrder_trans {cmp : IndexRow → IndexRow → Ordering} (lawful : Std.TransCmp cmp) :
    Std.TransCmp (rowOrder cmp) := by
  have folders : Std.TransCmp fun a b : IndexRow => compare b.isDir a.isDir :=
    @Std.TransCmp.opposite _ _ (Listings.trans_on compare fun row : IndexRow => row.isDir)
  unfold rowOrder
  infer_instance

instance : Std.TransCmp (rowOrder Index.byName) :=
  rowOrder_trans (Listings.trans_on compare fun row : IndexRow => row.name)

instance (config : ListConfig) (params : VfsPaginationParams) : Std.TransCmp (rowOrder (sortKey config params)) :=
  rowOrder_trans (directed_trans (rowsSortedBy_trans config params) params)

instance (config : ListConfig) (params : VfsPaginationParams) : Std.TransCmp (infoOrder config params) := by
  have folders : Std.TransCmp fun a b : VfsFileInfo => compare b.isDir a.isDir :=
    @Std.TransCmp.opposite _ _ (Listings.trans_on compare fun info : VfsFileInfo => info.isDir)
  have keys := directed_trans (sortedBy_trans config params) params
  unfold infoOrder
  infer_instance

instance : Std.TransCmp nameOrder := Listings.trans_on compare fun info : VfsFileInfo => info.name

/-! ### Pages as cells -/

theorem asU64_small {n : Nat} (small : n < 2 ^ 64) : asU64 n = n := by
  unfold asU64
  omega

theorem page_offset (k size : Nat) : ((k : Int) + 1 - 1) * size = ((k * size : Nat) : Int) := by
  rw [Int.natCast_mul]
  congr 1
  omega

theorem pageRows_eq {cmp : IndexRow → IndexRow → Ordering} {k : Nat} (rows : List IndexRow)
    (near : k * size < 2 ^ 64) (word : size < 2 ^ 64) :
    pageRows config cmp (k + 1) size rows =
      cell size k ((config.heap rows).mergeSort fun a b => (rowOrder cmp a b).isLE) := by
  rw [pageRows,Index.selectPage,page_offset,asU64_small near,asU64_small word]
  rfl

theorem pageOf_eq {α : Type} (k : Nat) (all : List α) : pageOf (k + 1) size all = cell size k all := by
  rw [pageOf,page_offset,Int.toNat_natCast,Int.toNat_natCast]
  rfl

theorem paginate_eq (k : Nat) (sortBy order : Option Text) (all : List VfsFileInfo) :
    paginateWithSortInMemory config ⟨k + 1,size,sortBy,order,none⟩ all =
      (cell size k (all.mergeSort fun a b => (infoOrder config (sortParams sortBy order) a b).isLE),
        ((all.mergeSort fun a b => (infoOrder config (sortParams sortBy order) a b).isLE).length : Int)) := by
  have plain : all.filter (matchesKeyword config ⟨k + 1,size,sortBy,order,none⟩) = all := by
    rw [List.filter_eq_self]
    intro info _
    rfl
  rw [paginateWithSortInMemory,sortedListing,plain,pageOf_eq]
  rfl

/-! ### The orders of one moment -/

section like
variable {other : ListConfig} (like : config.Like other)
include like

theorem refresh_like : e.refresh other now dir w = e.refresh config now dir w := by
  rw [refresh,refresh,like.mode]

theorem unmerged_like : e.unmerged other now dir w = e.unmerged config now dir w := by
  rw [unmerged,unmerged,refresh_like like]

theorem merged_like : e.merged other now dir w = e.merged config now dir w := by
  rw [merged,merged,unmerged_like like]

theorem sortKey_like (params : VfsPaginationParams) : sortKey other params = sortKey config params := by
  funext a b
  rw [sortKey,sortKey,rowsSortedBy,rowsSortedBy,like.byTime]

theorem infoOrder_like (params : VfsPaginationParams) : infoOrder other params = infoOrder config params := by
  unfold infoOrder sortedBy
  rw [like.byTime]

end like

/-- A table may come by some rows in any order. -/
theorem heap_arranged {rows arranged : List IndexRow} (perm : arranged.Perm rows) :
    ∃ other : ListConfig, config.Like other ∧ other.heap rows = arranged := by
  refine ⟨{ config with
    heap := fun all => if all = rows then arranged else all
    heaped := ?_ },⟨rfl,rfl⟩,if_pos rfl⟩
  intro all
  split
  next same =>
    rw [same]
    exact perm
  next => exact List.Perm.refl all

/-- So may a hash map with its values. -/
theorem shuffle_arranged {all arranged : List VfsFileInfo} (perm : arranged.Perm all) :
    ∃ other : ListConfig, config.Like other ∧ other.shuffle all = arranged := by
  refine ⟨{ config with
    shuffle := fun some_ => if some_ = all then arranged else some_
    shuffled := ?_ },⟨rfl,rfl⟩,if_pos rfl⟩
  intro some_
  split
  next same =>
    rw [same]
    exact perm
  next => exact List.Perm.refl some_

/-! ### Pages of rows -/

/-- Pages that one query each cuts from some rows, for any orders the queries meet. -/
theorem rowPages_iff (config : ListConfig) {cmp : IndexRow → IndexRow → Ordering} [Std.TransCmp (rowOrder cmp)] {rows : List IndexRow}
    (positive : 0 < size) (word : size < 2 ^ 63) (fits : rows.length < 2 ^ 63)
    (paths : (rows.map IndexRow.path).Nodup) (p : IndexRow → Bool) (all : List VfsFileInfo) :
    (∀ configs : Nat → ListConfig, (∀ k, config.Like (configs k)) → PagesOf all size fun k =>
      (((pageRows (configs k) cmp (k + 1) size rows).filter p).map infoOfRow,(rows.length : Int))) ↔
    (∀ row ∈ rows, p row = true) ∧ (rows.map infoOfRow).Perm all ∧ Separated (rowOrder cmp) rows size := by
  have distinct : (rows.map infoOfRow).Nodup := by
    apply List.Nodup.of_map VfsFileInfo.path
    rw [List.map_map]
    exact paths
  have near {k : Nat} (asked : k = 0 ∨ k < pageCount rows.length size) : k * size < 2 ^ 64 := by
    rcases asked with rfl | within
    · omega
    · have inside := page_inside positive within
      omega
  rw [← pagesOf_iff positive distinct p all]
  constructor
  · intro held arranged arr
    have chosen (k : Nat) : ∃ other : ListConfig, config.Like other ∧ other.heap rows = arranged k :=
      heap_arranged (arr k).perm
    choose configs like heap using chosen
    have pages := held configs like
    have even : rows.length = all.length := by
      have total : (rows.length : Int) = all.length := pages.total 0 (.inl rfl)
      exact_mod_cast total
    apply pages.congr
    intro k asked
    rw [← even] at asked
    rw [pageRows_eq rows (near asked) (by omega),heap,(arr k).mergeSort_eq]
  · intro held configs like
    have pages := held (fun k => ((configs k).heap rows).mergeSort fun a b => (rowOrder cmp a b).isLE)
      fun k => arranges_mergeSort ((configs k).heaped rows)
    have even : rows.length = all.length := by
      have total : (rows.length : Int) = all.length := pages.total 0 (.inl rfl)
      exact_mod_cast total
    apply pages.congr
    intro k asked
    rw [← even] at asked
    rw [pageRows_eq rows (near asked) (by omega)]

/-! ### Pages of a merged listing -/

theorem merged_nodup : (e.merged config now dir w).Nodup := by
  apply List.Nodup.of_map VfsFileInfo.path
  have keys : (e.merged config now dir w).map VfsFileInfo.path =
      (mergeEntries (e.unmerged config now dir w ++ e.pendingInfos dir w)).entries.map (·.1) := by
    rw [merged,List.map_map]
    apply List.map_congr_left
    intro cell inside
    exact mergeEntries_filed (AList.mem_lookup_iff.mpr inside)
  rw [keys]
  exact (mergeEntries (e.unmerged config now dir w ++ e.pendingInfos dir w)).nodupKeys

theorem shuffled_arranges (config : ListConfig) (all : List VfsFileInfo) :
    Arranges nameOrder all ((config.shuffle all).mergeSort nameLe) := by
  have sorted : Arranges nameOrder all ((config.shuffle all).mergeSort fun a b => (nameOrder a b).isLE) :=
    arranges_mergeSort (config.shuffled all)
  exact sorted

/-- Pages of a list whose elements a hash map has put in order by name. -/
theorem mergedPages_iff (config : ListConfig) {merged all : List VfsFileInfo} (positive : 0 < size) (distinct : merged.Nodup)
    (perm : merged.Perm all) :
    (∀ configs : Nat → ListConfig, (∀ k, config.Like (configs k)) → PagesOf all size fun k =>
      (cell size k (((configs k).shuffle merged).mergeSort nameLe),(merged.length : Int))) ↔
    Separated nameOrder merged size := by
  rw [← wholePages_iff positive distinct perm]
  constructor
  · intro held arranged arr
    have chosen (k : Nat) : ∃ other : ListConfig, config.Like other ∧ other.shuffle merged = arranged k :=
      shuffle_arranged (arr k).perm
    choose configs like shuffle using chosen
    apply (held configs like).congr
    intro k _
    have sorted : (arranged k).mergeSort nameLe = arranged k := (arr k).mergeSort_eq
    rw [shuffle,sorted]
  · intro held configs _
    exact held _ fun k => shuffled_arranges (configs k) merged

/-- Sorted again by a key, ties stay in the order of their names. -/
theorem sortedPages_iff (config : ListConfig) {cmp : VfsFileInfo → VfsFileInfo → Ordering} [Std.TransCmp cmp] {merged all : List VfsFileInfo}
    (positive : 0 < size) (distinct : merged.Nodup) (perm : merged.Perm all) :
    (∀ configs : Nat → ListConfig, (∀ k, config.Like (configs k)) → PagesOf all size fun k =>
      (cell size k ((((configs k).shuffle merged).mergeSort nameLe).mergeSort fun a b => (cmp a b).isLE),
        (merged.length : Int))) ↔
    Separated (compareLex cmp nameOrder) merged size := by
  rw [← wholePages_iff positive distinct perm]
  constructor
  · intro held arranged arr
    have chosen (k : Nat) : ∃ other : ListConfig, config.Like other ∧ other.shuffle merged = arranged k :=
      shuffle_arranged (arr k).perm
    choose configs like shuffle using chosen
    apply (held configs like).congr
    intro k _
    have sorted : ((arranged k).mergeSort fun a b => (nameOrder a b).isLE).mergeSort (fun a b => (cmp a b).isLE) =
        arranged k := resort_eq distinct (arr k)
    have named : (fun a b => (nameOrder a b).isLE) = nameLe := rfl
    rw [named] at sorted
    rw [shuffle,sorted]
  · intro held configs _
    exact held _ fun k => arranges_resort distinct (shuffled_arranges (configs k) merged)

/-! ### Pages that all settle -/

section hold
variable {fetch : ListConfig → Nat → Vfs (List VfsFileInfo × Int)}

theorem pagesHold_unlisted (unlisted : ¬e.Lists dir w) : e.PagesHold config now dir w size fetch := by
  intro all w' given
  obtain ⟨err,failed⟩ := settles_unlisted config now unlisted
  obtain ⟨never,-⟩ := given.unique failed
  cases never

theorem not_pagesHold (lists : e.Lists dir w)
    (fails : ∃ err w', Settles now (fetch config 0) w (.error err) w') : ¬e.PagesHold config now dir w size fetch := by
  intro held
  obtain ⟨w',given⟩ := settles_listing config now lists
  obtain ⟨page,settles,-⟩ := held _ w' given (fun _ => config) fun _ => .refl config
  obtain ⟨w₁,answered⟩ := settles 0
  obtain ⟨err,w₂,failed⟩ := fails
  obtain ⟨never,-⟩ := answered.unique failed
  cases never

theorem pagesHold_iff (page : ListConfig → Nat → List VfsFileInfo × Int) (lists : e.Lists dir w)
    (settles : ∀ other, config.Like other → ∀ k, ∃ w', Settles now (fetch other k) w (.ok (page other k)) w') :
    e.PagesHold config now dir w size fetch ↔ ∀ configs : Nat → ListConfig, (∀ k, config.Like (configs k)) →
      PagesOf (e.listing config now dir w) size fun k => page (configs k) k := by
  obtain ⟨w',given⟩ := settles_listing config now lists
  constructor
  · intro held configs like
    obtain ⟨answers,answered,pages⟩ := held _ w' given configs like
    apply pages.congr
    intro k _
    obtain ⟨w₁,first⟩ := settles (configs k) (like k) k
    obtain ⟨w₂,second⟩ := answered k
    obtain ⟨same,-⟩ := first.unique second
    exact Except.ok.inj same
  · intro pages all w'' given' configs like
    obtain ⟨same,-⟩ := given.unique given'
    refine ⟨fun k => page (configs k) k,fun k => settles (configs k) (like k) k,?_⟩
    rw [← Except.ok.inj same]
    exact pages configs like

end hold

/-! ### Rows that the listing shows -/

theorem perm_filter_iff {α : Type} {xs : List α} {p : α → Bool} : xs.Perm (xs.filter p) ↔ ∀ x ∈ xs, p x = true := by
  constructor
  · intro perm
    have count := perm.length_eq
    exact List.length_filter_eq_length_iff.mp count.symm
  · intro all
    rw [List.filter_eq_self.mpr all]

theorem rowsShown_covered (covered : e.covers dir = true) :
    e.RowsShown dir w (e.rowsIn dir w) ↔ ((e.rowsIn dir w).map infoOfRow).Perm (e.listing config now dir w) := by
  unfold RowsShown listing
  cases temp : isTempPath dir with
  | true => rfl
  | false =>
    rw [if_neg Bool.false_ne_true,if_neg Bool.false_ne_true,if_pos covered,if_pos covered,visibleInfos]
    constructor
    · intro visible
      have all : (e.rowsIn dir w).filter (fun row => !isHiddenStoragePath row.path) = e.rowsIn dir w := by
        rw [List.filter_eq_self]
        intro row member
        rw [visible row member]
        rfl
      rw [all]
    · intro perm row member
      have count := perm.length_eq
      rw [List.length_map,List.length_map] at count
      have shown := List.length_filter_eq_length_iff.mp count.symm row member
      rw [Bool.not_eq_true'] at shown
      exact shown

theorem clean_parts (clean : e.merges dir w = false) :
    (e.pendingInfos dir w).isEmpty = true ∧ e.isDirtyDir (e.getPhysicalPath dir) w = false := by
  rw [merges,Bool.or_eq_false_iff,Bool.not_eq_false'] at clean
  exact clean

theorem listed_clean (clean : e.merges dir w = false) : e.listed config now dir w =
    if (e.rowsIn dir (e.refresh config now dir w)).isEmpty then e.storedInfos dir w
    else keptInfos dir (e.rowsIn dir (e.refresh config now dir w)) := by
  obtain ⟨nothing,tidy⟩ := clean_parts clean
  rw [listed,nothing,if_pos rfl,unmerged,tidy,if_neg Bool.false_ne_true]

theorem rowsShown_clean (free : e.covers dir = false) (clean : e.merges dir w = false)
    (some_ : e.rowsIn dir (e.refresh config now dir w) ≠ []) :
    e.RowsShown dir w (e.rowsIn dir (e.refresh config now dir w)) ↔
      ((e.rowsIn dir (e.refresh config now dir w)).map infoOfRow).Perm (e.listing config now dir w) := by
  have more : (e.rowsIn dir (e.refresh config now dir w)).isEmpty = false := List.isEmpty_eq_false_iff.mpr some_
  unfold RowsShown listing
  cases temp : isTempPath dir with
  | true => rfl
  | false =>
    rw [if_neg Bool.false_ne_true,if_neg Bool.false_ne_true,free,if_neg Bool.false_ne_true,if_neg Bool.false_ne_true,
      listed_clean clean,more,if_neg Bool.false_ne_true,keptInfos,perm_filter_iff,List.forall_mem_map]

theorem listFiles_paths {rows : Index} (unique : Index.UniquePaths rows) (userId : Text) :
    ((Index.listFiles userId dir rows).map IndexRow.path).Nodup := by
  apply List.Nodup.map_on
  · intro a member b member' same
    obtain ⟨inside,owner⟩ := List.mem_filter.mp member
    obtain ⟨inside',owner'⟩ := List.mem_filter.mp member'
    rw [Bool.and_eq_true,Bool.and_eq_true,beq_iff_eq] at owner owner'
    apply List.inj_on_of_nodup_map unique inside inside'
    rw [owner.1.1,owner'.1.1,same]
  · exact (List.Nodup.of_map _ unique).filter _

theorem listing_like {other : ListConfig} (like : config.Like other) (nothing : e.pendingInfos dir w = []) :
    e.listing other now dir w = e.listing config now dir w := by
  unfold listing listed
  rw [nothing,unmerged_like like]
  rfl

/-- Where the refresh leaves no rows the listing is the same after it. -/
theorem listing_refresh (unique : Index.UniquePaths w.index) (free : e.covers dir = false)
    (clean : e.merges dir w = false) (nothing : e.rowsIn dir (e.refresh config now dir w) = []) :
    e.listing config now dir (e.refresh config now dir w) = e.listing config now dir w := by
  have tempSame : tempInfos dir (e.refresh config now dir w) = tempInfos dir w := by
    unfold refresh
    split <;> rfl
  have clean' : e.merges dir (e.refresh config now dir w) = false := by
    rw [merges,pendingInfos_refresh,isDirtyDir_refresh]
    exact clean
  have again := rowsIn_refresh_again unique nothing
  unfold listing
  rw [tempSame,free,listed_clean clean,listed_clean clean',nothing,again,storedInfos_refresh]
  rfl

theorem lists_refresh (config : ListConfig) (now : Int) : e.Lists dir (e.refresh config now dir w) ↔ e.Lists dir w := by
  have same : (e.refresh config now dir w).temp = w.temp := by
    unfold refresh
    split <;> rfl
  unfold Lists
  rw [same]

/-! ### Pages by name -/

section plain
variable (positive : 0 < size)
include positive

theorem fixedPages {all arranged : List VfsFileInfo} (perm : arranged.Perm all) :
    PagesOf all size fun k => (cell size k arranged,(arranged.length : Int)) :=
  (pagesOf_fixed_iff positive).mpr perm

/-- Pages of the whole listing, when nothing is pending that a hash map would move. -/
theorem pagesList_fixed (lists : e.Lists dir w) {arranged : List VfsFileInfo}
    (perm : arranged.Perm (e.listing config now dir w))
    (settles : ∀ other, config.Like other → ∀ k : Nat, ∃ w', Settles now
      (e.listFilesPaginatedImpl other dir (k + 1) size) w (.ok (pageOf (k + 1) size arranged,arranged.length)) w') :
    e.PagesList config now dir w size := by
  apply (pagesHold_iff (fun _ k => (cell size k arranged,(arranged.length : Int))) lists ?_).mpr
  · intro _ _
    exact fixedPages positive perm
  · intro other like k
    obtain ⟨w',settled⟩ := settles other like k
    rw [pageOf_eq] at settled
    exact ⟨w',settled⟩

theorem pagesList_rows (lists : e.Lists dir w) (word : size < 2 ^ 63) {rows : List IndexRow}
    (fits : rows.length < 2 ^ 63) (paths : (rows.map IndexRow.path).Nodup)
    (shown : e.RowsShown dir w rows ↔ (rows.map infoOfRow).Perm (e.listing config now dir w))
    (settles : ∀ other, config.Like other → ∀ k : Nat, ∃ w', Settles now
      (e.listFilesPaginatedImpl other dir (k + 1) size) w
        (.ok (visibleInfos (pageRows other Index.byName (k + 1) size rows),rows.length)) w') :
    e.PagesList config now dir w size ↔ (∀ row ∈ rows, isHiddenStoragePath row.path = false) ∧
      e.RowsShown dir w rows ∧ Separated (rowOrder Index.byName) rows size := by
  have visible : (∀ row ∈ rows, (!isHiddenStoragePath row.path) = true) ↔
      ∀ row ∈ rows, isHiddenStoragePath row.path = false := by
    simp only [Bool.not_eq_true']
  rw [shown,← visible,← rowPages_iff config positive word fits paths]
  exact pagesHold_iff (fun other k => (visibleInfos (pageRows other Index.byName (k + 1) size rows),(rows.length : Int)))
    lists settles

omit positive in
/-- Only a lasting directory has pending writes. -/
theorem listing_pending (free : e.covers dir = false) (pending : e.pendingInfos dir w ≠ []) :
    e.listing config now dir w = (config.shuffle (e.merged config now dir w)).mergeSort nameLe := by
  have lasting : isTempPath dir = false := by
    cases temp : isTempPath dir with
    | false => rfl
    | true => exact absurd (if_pos temp) pending
  have some_ : (e.pendingInfos dir w).isEmpty = false := List.isEmpty_eq_false_iff.mpr pending
  rw [listing,lasting,if_neg Bool.false_ne_true,free,if_neg Bool.false_ne_true,listed,some_,if_neg Bool.false_ne_true]

omit positive in
theorem merged_perm (free : e.covers dir = false) (pending : e.pendingInfos dir w ≠ []) :
    (e.merged config now dir w).Perm (e.listing config now dir w) := by
  rw [listing_pending free pending]
  exact ((List.mergeSort_perm _ _).trans (config.shuffled _)).symm

/-- A hash map gives the listing of each page its order. -/
theorem pagesList_merged (lists : e.Lists dir w) (resolved : e.resolveProtectedPlan = .ok plan)
    (free : e.covers dir = false) (pending : e.pendingInfos dir w ≠ []) :
    e.PagesList config now dir w size ↔ Separated nameOrder (e.merged config now dir w) size := by
  have perm : (e.merged config now dir w).Perm (e.listing config now dir w) := merged_perm free pending
  rw [← mergedPages_iff config positive merged_nodup perm]
  apply pagesHold_iff (fun other k => (cell size k ((other.shuffle (e.merged config now dir w)).mergeSort nameLe),
    ((e.merged config now dir w).length : Int))) lists
  intro other like k
  obtain ⟨w',given⟩ := settles_listing other now lists
  have paged : Settles now (e.listFilesPaginatedImpl other dir (k + 1) size) w
      (.ok (pageOf (k + 1) size (e.listing other now dir w),(e.listing other now dir w).length)) w' :=
    settles_paginated_merged resolved free (merges_iff.mpr (.inl pending)) given
  have count : (other.shuffle (e.merged config now dir w)).length = (e.merged config now dir w).length :=
    (other.shuffled _).length_eq
  rw [pageOf_eq,listing_pending free pending,merged_like like,List.length_mergeSort,count] at paged
  exact ⟨w',paged⟩

end plain

theorem plainAgree_some (known : e.resolveProtectedPlan.toOption.isSome = true) {rows : List IndexRow}
    (cut : e.plainRows config now dir w = some rows)
    (alone : e.covers dir = false → e.pendingInfos dir w = []) :
    e.PlainAgree config now dir w size ↔ (∀ row ∈ rows, isHiddenStoragePath row.path = false) ∧
      e.RowsShown dir w rows ∧ Separated (rowOrder Index.byName) rows size := by
  constructor
  · intro agree
    exact ⟨agree.visible rows cut,agree.shown rows cut,agree.separated rows cut⟩
  · rintro ⟨visible,shown,separated⟩
    have only : ∀ other ∈ e.plainRows config now dir w, other = rows := by
      intro other here
      rw [cut] at here
      exact (Option.some.inj here).symm
    refine ⟨known,?_,?_,?_,fun free pending => absurd (alone free) pending⟩
    · intro other here
      rw [only other here]
      exact shown
    · intro other here
      rw [only other here]
      exact visible
    · intro other here
      rw [only other here]
      exact separated

theorem plainAgree_none (known : e.resolveProtectedPlan.toOption.isSome = true)
    (cut : e.plainRows config now dir w = none) (free : e.covers dir = false) :
    e.PlainAgree config now dir w size ↔
      (e.pendingInfos dir w ≠ [] → Separated nameOrder (e.merged config now dir w) size) := by
  have no_rows : ∀ rows, rows ∉ e.plainRows config now dir w := by
    intro rows here
    rw [cut] at here
    cases here
  constructor
  · intro agree
    exact agree.pending free
  · intro separated
    refine ⟨known,?_,?_,?_,fun _ => separated⟩
    · intro rows here
      exact absurd here (no_rows rows)
    · intro rows here
      exact absurd here (no_rows rows)
    · intro rows here
      exact absurd here (no_rows rows)

/-! The branches of a page by name, one after the other. -/

section branches
variable (unique : Index.UniquePaths w.index) (lists : e.Lists dir w) (positive : 0 < size)

include lists positive in
theorem pagesList_merging (resolved : e.resolveProtectedPlan = .ok plan) (free : e.covers dir = false)
    (merging : e.merges dir w = true) : e.PagesList config now dir w size ↔
      (e.pendingInfos dir w ≠ [] → Separated nameOrder (e.merged config now dir w) size) := by
  by_cases pending : e.pendingInfos dir w = []
  · constructor
    · intro _ some_
      exact absurd pending some_
    · intro _
      apply pagesList_fixed positive lists (List.Perm.refl _)
      intro other like k
      obtain ⟨w',given⟩ := settles_listing other now lists
      rw [listing_like like pending] at given
      exact ⟨w',settles_paginated_merged resolved free merging given⟩
  · rw [pagesList_merged positive lists resolved free pending]
    constructor
    · intro separated _
      exact separated
    · intro separated
      exact separated pending

include unique lists positive in
/-- An empty index leaves the pages to the listing. -/
theorem pagesList_empty (resolved : e.resolveProtectedPlan = .ok plan) (free : e.covers dir = false)
    (clean : e.merges dir w = false) (nothing : e.rowsIn dir (e.refresh config now dir w) = []) :
    e.PagesList config now dir w size := by
  apply pagesList_fixed positive lists (List.Perm.refl _)
  intro other like k
  have empty : e.rowsIn dir (e.refresh other now dir w) = [] := by
    rw [refresh_like like]
    exact nothing
  obtain ⟨w',given⟩ := settles_listing other now ((lists_refresh other now).mpr lists)
  rw [listing_refresh unique free clean empty,listing_like like (List.isEmpty_iff.mp (clean_parts clean).1)] at given
  exact ⟨w',settles_paginated_empty resolved free clean empty given⟩

include unique lists positive in
theorem pagesList_indexed (resolved : e.resolveProtectedPlan = .ok plan) (free : e.covers dir = false)
    (clean : e.merges dir w = false) (word : size < 2 ^ 63) {rows : List IndexRow}
    (indexed : e.rowsIn dir (e.refresh config now dir w) = rows) (some_ : rows ≠ []) (fits : rows.length < 2 ^ 63) :
    e.PagesList config now dir w size ↔ (∀ row ∈ rows, isHiddenStoragePath row.path = false) ∧
      e.RowsShown dir w rows ∧ Separated (rowOrder Index.byName) rows size := by
  subst indexed
  apply pagesList_rows positive lists word fits (listFiles_paths (refresh_unique unique) e.userId)
    (rowsShown_clean free clean some_)
  intro other like k
  rw [← refresh_like like] at some_ ⊢
  exact ⟨_,settles_paginated_rows resolved free clean some_⟩

end branches

/-- The pages of a directory by name are those of its listing exactly when the rows they
are cut from are visible and in the listing and no page begins among equal names, and
the same holds of what is merged with pending writes. -/
theorem pagesList_iff (unique : Index.UniquePaths w.index) (positive : 0 < size) (word : size < 2 ^ 63)
    (fits : ∀ rows ∈ e.plainRows config now dir w, rows.length < 2 ^ 63) :
    e.PagesList config now dir w size ↔ (e.Lists dir w → e.PlainAgree config now dir w size) := by
  by_cases lists : e.Lists dir w
  case neg => exact ⟨fun _ there => absurd there lists,fun _ => pagesHold_unlisted lists⟩
  rw [imp_iff_right lists]
  cases resolved : e.resolveProtectedPlan with
  | error err =>
    constructor
    · intro held
      exact absurd held (not_pagesHold lists ⟨err,w,settles_failed resolved⟩)
    · intro agree
      have never := agree.resolved
      rw [resolved] at never
      cases never
  | ok plan =>
    have known : e.resolveProtectedPlan.toOption.isSome = true := by
      rw [resolved]
      rfl
    cases covered : e.covers dir with
    | true =>
      have cut : e.plainRows config now dir w = some (e.rowsIn dir w) := by
        rw [plainRows,covered,if_pos rfl]
      have alone : e.covers dir = false → e.pendingInfos dir w = [] := by
        rw [covered]
        exact fun never => absurd never Bool.true_eq_false.mp
      rw [plainAgree_some known cut alone]
      apply pagesList_rows positive lists word (fits _ cut) (listFiles_paths unique e.userId)
        (rowsShown_covered covered)
      intro other _ k
      exact ⟨w,settles_paginated_covered covered⟩
    | false =>
      cases merging : e.merges dir w with
      | true =>
        have cut : e.plainRows config now dir w = none := by
          rw [plainRows,covered,if_neg Bool.false_ne_true,merging,if_pos rfl]
        rw [plainAgree_none known cut covered]
        exact pagesList_merging lists positive resolved covered merging
      | false =>
        have nothing : e.pendingInfos dir w = [] := List.isEmpty_iff.mp (clean_parts merging).1
        have cut : e.plainRows config now dir w =
            (some (e.rowsIn dir (e.refresh config now dir w))).filter fun rows => !rows.isEmpty := by
          rw [plainRows,covered,if_neg Bool.false_ne_true,merging,if_neg Bool.false_ne_true]
        cases indexed : e.rowsIn dir (e.refresh config now dir w) with
        | nil =>
          rw [indexed] at cut
          rw [plainAgree_none known cut covered]
          constructor
          · intro _ some_
            exact absurd nothing some_
          · intro _
            exact pagesList_empty unique lists positive resolved covered merging indexed
        | cons row rest =>
          rw [indexed] at cut
          rw [plainAgree_some known cut fun _ => nothing]
          exact pagesList_indexed unique lists positive resolved covered merging word indexed (List.cons_ne_nil _ _)
            (fits _ cut)

/-! ### Pages by a key -/

section sorted
variable {sortBy order : Option Text}

theorem sortedPages_rows (lists : e.Lists dir w) (positive : 0 < size) (word : size < 2 ^ 63) {rows : List IndexRow}
    (fits : rows.length < 2 ^ 63) (paths : (rows.map IndexRow.path).Nodup)
    (shown : e.RowsShown dir w rows ↔ (rows.map infoOfRow).Perm (e.listing config now dir w))
    (settles : ∀ other, config.Like other → ∀ k : Nat, ∃ w', Settles now
      (e.listFilesPaginatedWithSortImpl other dir ⟨k + 1,size,sortBy,order,none⟩) w
        (.ok ((pageRows other (sortKey other ⟨k + 1,size,sortBy,order,none⟩) (k + 1) size rows).map infoOfRow,
          rows.length)) w') :
    e.SortedPagesList config now dir w size sortBy order ↔ e.RowsShown dir w rows ∧
      Separated (rowOrder (sortKey config (sortParams sortBy order))) rows size := by
  have all : (∀ row ∈ rows, (fun _ : IndexRow => true) row = true) ↔ True := by simp
  have cut : (∀ configs : Nat → ListConfig, (∀ k, config.Like (configs k)) → PagesOf (e.listing config now dir w) size
      fun k => (((pageRows (configs k) (sortKey config (sortParams sortBy order)) (k + 1) size rows).filter
        fun _ => true).map infoOfRow,(rows.length : Int))) ↔ _ :=
    rowPages_iff config positive word fits paths (fun _ => true) (e.listing config now dir w)
  rw [all,true_and,← shown] at cut
  simp only [List.filter_true] at cut
  rw [← cut]
  apply pagesHold_iff (fun other k =>
    ((pageRows other (sortKey config (sortParams sortBy order)) (k + 1) size rows).map infoOfRow,(rows.length : Int))) lists
  intro other like k
  have same : sortKey other ⟨k + 1,size,sortBy,order,none⟩ = sortKey config (sortParams sortBy order) :=
    sortKey_like like _
  obtain ⟨w',settled⟩ := settles other like k
  rw [same] at settled
  exact ⟨w',settled⟩

theorem infoOrder_page {other : ListConfig} (like : config.Like other) :
    infoOrder other (sortParams sortBy order) = infoOrder config (sortParams sortBy order) :=
  infoOrder_like like _

/-- Pages of a list that does not move. -/
theorem sortedPages_fixed (lists : e.Lists dir w) (positive : 0 < size) {arranged : List VfsFileInfo}
    (settles : ∀ other, config.Like other → ∀ k : Nat, ∃ w', Settles now
      (e.listFilesPaginatedWithSortImpl other dir ⟨k + 1,size,sortBy,order,none⟩) w
        (.ok (paginateWithSortInMemory other ⟨k + 1,size,sortBy,order,none⟩ arranged)) w') :
    e.SortedPagesList config now dir w size sortBy order ↔ arranged.Perm (e.listing config now dir w) := by
  have sorted : (arranged.mergeSort fun a b => (infoOrder config (sortParams sortBy order) a b).isLE).Perm arranged :=
    List.mergeSort_perm _ _
  have settled : ∀ other, config.Like other → ∀ k : Nat, ∃ w', Settles now
      (e.listFilesPaginatedWithSortImpl other dir ⟨k + 1,size,sortBy,order,none⟩) w (.ok (cell size k
        (arranged.mergeSort fun a b => (infoOrder config (sortParams sortBy order) a b).isLE),
          ((arranged.mergeSort fun a b => (infoOrder config (sortParams sortBy order) a b).isLE).length : Int))) w' := by
    intro other like k
    obtain ⟨w',given⟩ := settles other like k
    rw [paginate_eq,infoOrder_page like] at given
    exact ⟨w',given⟩
  rw [SortedPagesList,pagesHold_iff _ lists settled]
  constructor
  · intro held
    have pages := held (fun _ => config) fun _ => .refl config
    exact sorted.symm.trans ((pagesOf_fixed_iff positive).mp pages)
  · intro perm _ _
    exact fixedPages positive (sorted.trans perm)

theorem sortedPages_merged (lists : e.Lists dir w) (positive : 0 < size) (resolved : e.resolveProtectedPlan = .ok plan)
    (free : e.covers dir = false) (pending : e.pendingInfos dir w ≠ []) :
    e.SortedPagesList config now dir w size sortBy order ↔
      Separated (compareLex (infoOrder config (sortParams sortBy order)) nameOrder) (e.merged config now dir w) size := by
  have perm : (e.merged config now dir w).Perm (e.listing config now dir w) := merged_perm free pending
  rw [← sortedPages_iff config positive merged_nodup perm]
  apply pagesHold_iff (fun other k => (cell size k (((other.shuffle (e.merged config now dir w)).mergeSort
    nameLe).mergeSort fun a b => (infoOrder config (sortParams sortBy order) a b).isLE),
      ((e.merged config now dir w).length : Int))) lists
  intro other like k
  obtain ⟨w',given⟩ := settles_listing other now lists
  have paged : Settles now (e.listFilesPaginatedWithSortImpl other dir ⟨k + 1,size,sortBy,order,none⟩) w
      (.ok (paginateWithSortInMemory other ⟨k + 1,size,sortBy,order,none⟩ (e.listing other now dir w))) w' :=
    settles_sorted_merged resolved free (merges_iff.mpr (.inl pending)) given
  have count : (other.shuffle (e.merged config now dir w)).length = (e.merged config now dir w).length :=
    (other.shuffled _).length_eq
  rw [paginate_eq,infoOrder_page like,listing_pending free pending,merged_like like,List.length_mergeSort,
    List.length_mergeSort,count] at paged
  exact ⟨w',paged⟩

theorem sortedAgree_some (known : e.resolveProtectedPlan.toOption.isSome = true) {rows : List IndexRow}
    (cut : e.sortedRows config dir w = some rows) (alone : e.covers dir = false → e.pendingInfos dir w = [])
    (still : e.covers dir = false → e.merges dir w = false → config.mode ≠ 2) :
    e.SortedAgree config now dir w size sortBy order ↔ e.RowsShown dir w rows ∧
      Separated (rowOrder (sortKey config (sortParams sortBy order))) rows size := by
  constructor
  · intro agree
    exact ⟨agree.shown rows cut,agree.separated rows cut⟩
  · rintro ⟨shown,separated⟩
    have only : ∀ other ∈ e.sortedRows config dir w, other = rows := by
      intro other here
      rw [cut] at here
      exact (Option.some.inj here).symm
    refine ⟨known,?_,?_,fun free pending => absurd (alone free) pending,?_⟩
    · intro other here
      rw [only other here]
      exact shown
    · intro other here
      rw [only other here]
      exact separated
    · intro free clean refreshing
      exact absurd refreshing (still free clean)

theorem sortedAgree_none (known : e.resolveProtectedPlan.toOption.isSome = true)
    (cut : e.sortedRows config dir w = none) (free : e.covers dir = false) :
    e.SortedAgree config now dir w size sortBy order ↔
      (e.pendingInfos dir w ≠ [] →
        Separated (compareLex (infoOrder config (sortParams sortBy order)) nameOrder) (e.merged config now dir w) size) ∧
      (e.merges dir w = false → config.mode = 2 → e.FreshShown config now dir w) := by
  have no_rows : ∀ rows, rows ∉ e.sortedRows config dir w := by
    intro rows here
    rw [cut] at here
    cases here
  constructor
  · intro agree
    exact ⟨agree.pending free,agree.fresh free⟩
  · rintro ⟨separated,fresh⟩
    refine ⟨known,?_,?_,fun _ => separated,fun _ => fresh⟩
    · intro rows here
      exact absurd here (no_rows rows)
    · intro rows here
      exact absurd here (no_rows rows)

theorem freshShown_iff (free : e.covers dir = false) (clean : e.merges dir w = false) :
    e.FreshShown config now dir w ↔ (e.storedInfos dir w).Perm (e.listing config now dir w) := by
  unfold FreshShown listing
  cases temp : isTempPath dir with
  | true => rfl
  | false =>
    rw [if_neg Bool.false_ne_true,if_neg Bool.false_ne_true,free,if_neg Bool.false_ne_true,listed_clean clean]
    by_cases nothing : e.rowsIn dir (e.refresh config now dir w) = []
    · have empty : (e.rowsIn dir (e.refresh config now dir w)).isEmpty = true := List.isEmpty_iff.mpr nothing
      rw [empty,if_pos rfl]
      exact ⟨fun _ => List.Perm.refl _,fun _ some_ => absurd nothing some_⟩
    · have more : (e.rowsIn dir (e.refresh config now dir w)).isEmpty = false := List.isEmpty_eq_false_iff.mpr nothing
      rw [more,if_neg Bool.false_ne_true]
      exact ⟨fun fresh => fresh nothing,fun perm _ => perm⟩

/-! The branches of a page by a key, one after the other. -/

section branches
variable (lists : e.Lists dir w) (positive : 0 < size)
include lists positive

theorem sortedPages_merging (resolved : e.resolveProtectedPlan = .ok plan) (free : e.covers dir = false)
    (merging : e.merges dir w = true) : e.SortedPagesList config now dir w size sortBy order ↔
      (e.pendingInfos dir w ≠ [] →
        Separated (compareLex (infoOrder config (sortParams sortBy order)) nameOrder) (e.merged config now dir w) size) := by
  by_cases pending : e.pendingInfos dir w = []
  · constructor
    · intro _ some_
      exact absurd pending some_
    · intro _
      apply (sortedPages_fixed lists positive ?_).mpr (List.Perm.refl _)
      intro other like k
      obtain ⟨w',given⟩ := settles_listing other now lists
      rw [listing_like like pending] at given
      exact ⟨w',settles_sorted_merged resolved free merging given⟩
  · rw [sortedPages_merged lists positive resolved free pending]
    constructor
    · intro separated _
      exact separated
    · intro separated
      exact separated pending

theorem sortedPages_fresh (resolved : e.resolveProtectedPlan = .ok plan) (free : e.covers dir = false)
    (clean : e.merges dir w = false) (refreshing : config.mode = 2) :
    e.SortedPagesList config now dir w size sortBy order ↔ e.FreshShown config now dir w := by
  have named : ((e.storedInfos dir w).mergeSort nameLe).Perm (e.storedInfos dir w) := List.mergeSort_perm _ _
  have fixed : e.SortedPagesList config now dir w size sortBy order ↔
      ((e.storedInfos dir w).mergeSort nameLe).Perm (e.listing config now dir w) := by
    apply sortedPages_fixed lists positive
    intro other like k
    exact ⟨_,settles_sorted_fresh resolved free clean (like.mode.trans refreshing)⟩
  rw [fixed,freshShown_iff free clean]
  exact ⟨named.symm.trans,named.trans⟩

theorem sortedPages_empty (resolved : e.resolveProtectedPlan = .ok plan) (free : e.covers dir = false)
    (clean : e.merges dir w = false) (still : config.mode ≠ 2) (nothing : e.rowsIn dir w = []) :
    e.SortedPagesList config now dir w size sortBy order := by
  apply (sortedPages_fixed lists positive ?_).mpr (List.Perm.refl _)
  intro other like k
  obtain ⟨w',given⟩ := settles_listing other now lists
  rw [listing_like like (List.isEmpty_iff.mp (clean_parts clean).1)] at given
  refine ⟨w',settles_sorted_empty rfl resolved free clean ?_ nothing given⟩
  rw [like.mode]
  exact still

theorem sortedPages_indexed (unique : Index.UniquePaths w.index) (resolved : e.resolveProtectedPlan = .ok plan)
    (free : e.covers dir = false) (clean : e.merges dir w = false) (still : config.mode ≠ 2) (word : size < 2 ^ 63)
    {rows : List IndexRow} (indexed : e.rowsIn dir w = rows) (some_ : rows ≠ []) (fits : rows.length < 2 ^ 63) :
    e.SortedPagesList config now dir w size sortBy order ↔ e.RowsShown dir w rows ∧
      Separated (rowOrder (sortKey config (sortParams sortBy order))) rows size := by
  subst indexed
  have same : e.refresh config now dir w = w := if_neg still
  have shown : e.RowsShown dir w (e.rowsIn dir w) ↔
      ((e.rowsIn dir w).map infoOfRow).Perm (e.listing config now dir w) := by
    have given : e.rowsIn dir (e.refresh config now dir w) ≠ [] → (e.RowsShown dir w
        (e.rowsIn dir (e.refresh config now dir w)) ↔ ((e.rowsIn dir (e.refresh config now dir w)).map infoOfRow).Perm
          (e.listing config now dir w)) := rowsShown_clean free clean
    rw [same] at given
    exact given some_
  apply sortedPages_rows lists positive word fits (listFiles_paths unique e.userId) shown
  intro other like k
  refine ⟨w,settles_sorted_rows rfl resolved free clean ?_ some_⟩
  rw [like.mode]
  exact still

end branches

/-- The pages by a sort key are those of the listing exactly when the rows they are cut
from are all in it, no page begins among equal keys, and after a refresh the
storage's own listing is that of the index. -/
theorem sortedPages_agree_iff (unique : Index.UniquePaths w.index) (positive : 0 < size) (word : size < 2 ^ 63)
    (fits : ∀ rows ∈ e.sortedRows config dir w, rows.length < 2 ^ 63) :
    e.SortedPagesList config now dir w size sortBy order ↔
      (e.Lists dir w → e.SortedAgree config now dir w size sortBy order) := by
  by_cases lists : e.Lists dir w
  case neg => exact ⟨fun _ there => absurd there lists,fun _ => pagesHold_unlisted lists⟩
  rw [imp_iff_right lists]
  cases resolved : e.resolveProtectedPlan with
  | error err =>
    constructor
    · intro held
      exact absurd held (not_pagesHold lists ⟨err,w,settles_failed resolved⟩)
    · intro agree
      have never := agree.resolved
      rw [resolved] at never
      cases never
  | ok plan =>
    have known : e.resolveProtectedPlan.toOption.isSome = true := by
      rw [resolved]
      rfl
    cases covered : e.covers dir with
    | true =>
      have cut : e.sortedRows config dir w = some (e.rowsIn dir w) := by
        rw [sortedRows,covered,if_pos rfl]
      have uncovered {P : Prop} (free : e.covers dir = false) : P := by
        rw [covered] at free
        cases free
      rw [sortedAgree_some known cut uncovered uncovered]
      apply sortedPages_rows lists positive word (fits _ cut) (listFiles_paths unique e.userId)
        (rowsShown_covered covered)
      intro other _ k
      exact ⟨w,settles_sorted_covered rfl covered⟩
    | false =>
      cases merging : e.merges dir w with
      | true =>
        have cut : e.sortedRows config dir w = none := by
          rw [sortedRows,covered,if_neg Bool.false_ne_true,merging,Bool.true_or,if_pos rfl]
        have busy : (e.merges dir w = false → config.mode = 2 → e.FreshShown config now dir w) ↔ True := by
          rw [merging]
          simp
        rw [sortedAgree_none known cut covered,busy,and_true]
        exact sortedPages_merging lists positive resolved covered merging
      | false =>
        have nothing : e.pendingInfos dir w = [] := List.isEmpty_iff.mp (clean_parts merging).1
        have quiet {P : Prop} : (e.pendingInfos dir w ≠ [] → P) ↔ True := by
          rw [nothing]
          simp
        by_cases refreshing : config.mode = 2
        · have cut : e.sortedRows config dir w = none := by
            rw [sortedRows,covered,if_neg Bool.false_ne_true,merging,Bool.false_or,if_pos (beq_iff_eq.mpr refreshing)]
          have asked {P : Prop} : (e.merges dir w = false → config.mode = 2 → P) ↔ P :=
            ⟨fun given => given merging refreshing,fun held _ _ => held⟩
          rw [sortedAgree_none known cut covered,quiet,true_and,asked]
          exact sortedPages_fresh lists positive resolved covered merging refreshing
        · have cut : e.sortedRows config dir w = (some (e.rowsIn dir w)).filter fun rows => !rows.isEmpty := by
            have other : (config.mode == 2) = false := beq_eq_false_iff_ne.mpr refreshing
            rw [sortedRows,covered,if_neg Bool.false_ne_true,merging,other,Bool.false_or,if_neg Bool.false_ne_true]
          cases indexed : e.rowsIn dir w with
          | nil =>
            have still {P : Prop} : (e.merges dir w = false → config.mode = 2 → P) ↔ True := by
              rw [iff_true]
              exact fun _ here => absurd here refreshing
            rw [indexed] at cut
            rw [sortedAgree_none known cut covered,quiet,still,and_true,iff_true]
            exact sortedPages_empty lists positive resolved covered merging refreshing indexed
          | cons row rest =>
            rw [indexed] at cut
            rw [sortedAgree_some known cut (fun _ => nothing) fun _ _ => refreshing]
            exact sortedPages_indexed lists positive unique resolved covered merging refreshing word indexed
              (List.cons_ne_nil _ _) (fits _ cut)

end sorted

/-- Pages by a key are cut from no other rows than pages by name. -/
theorem sortedRows_plain {rows : List IndexRow} (here : rows ∈ e.sortedRows config dir w) :
    rows ∈ e.plainRows config now dir w := by
  unfold sortedRows at here
  unfold plainRows
  split at here
  next covered =>
    rw [if_pos covered]
    exact here
  next free =>
    rw [if_neg free]
    split at here
    next => cases here
    next neither =>
      rw [Bool.or_eq_true,not_or,beq_iff_eq] at neither
      have same : e.refresh config now dir w = w := if_neg neither.2
      rw [if_neg neither.1,same]
      exact here

theorem directory_pages_iff (e : Engine) (config : ListConfig) (now : Int) (dir : Text) (w : World) (size : Nat)
    (unique : Index.UniquePaths w.index) (positive : 0 < size) (word : size < 2 ^ 63)
    (fits : ∀ rows ∈ e.plainRows config now dir w, rows.length < 2 ^ 63) :
    (e.PagesList config now dir w size ↔ (e.Lists dir w → e.PlainAgree config now dir w size)) ∧
    ∀ sortBy order, e.SortedPagesList config now dir w size sortBy order ↔
      (e.Lists dir w → e.SortedAgree config now dir w size sortBy order) := by
  refine ⟨pagesList_iff unique positive word fits,?_⟩
  intro sortBy order
  exact sortedPages_agree_iff unique positive word fun rows here => fits rows (sortedRows_plain here)

/-! ### A hidden entry -/

def twoRows : World := worldOf [] [] [Index.liveRow 1 "/.thumbs" true,Index.liveRow 2 "/a" false]

theorem directory_pages_two : (plainEngine.PagesList plainConfig 0 ['/'] twoRows 10 ↔
      (plainEngine.Lists ['/'] twoRows → plainEngine.PlainAgree plainConfig 0 ['/'] twoRows 10)) ∧
    ∀ sortBy order, plainEngine.SortedPagesList plainConfig 0 ['/'] twoRows 10 sortBy order ↔
      (plainEngine.Lists ['/'] twoRows → plainEngine.SortedAgree plainConfig 0 ['/'] twoRows 10 sortBy order) := by
  have unique : Index.UniquePaths twoRows.index := by
    unfold Index.UniquePaths
    decide +kernel
  have cut : plainEngine.plainRows plainConfig 0 ['/'] twoRows = some twoRows.index := by decide +kernel
  apply directory_pages_iff plainEngine plainConfig 0 ['/'] twoRows 10 unique (by decide) (by decide)
  intro rows here
  rw [cut] at here
  rw [← Option.some.inj here]
  decide

/-- The listing of the root leaves the thumbnails out, its pages count them. -/
theorem hidden_row_counted : ¬plainEngine.PagesList plainConfig 0 ['/'] twoRows 10 := by
  have resolved : plainEngine.resolveProtectedPlan = .ok none := rfl
  have free : plainEngine.covers ['/'] = false := by decide +kernel
  have clean : plainEngine.merges ['/'] twoRows = false := by decide +kernel
  have some_ : plainEngine.rowsIn ['/'] (plainEngine.refresh plainConfig 0 ['/'] twoRows) ≠ [] := by decide +kernel
  have count : (plainEngine.rowsIn ['/'] (plainEngine.refresh plainConfig 0 ['/'] twoRows)).length = 2 := by
    decide +kernel
  have shown : (plainEngine.listing plainConfig 0 ['/'] twoRows).length = 1 := by decide +kernel
  have lists : plainEngine.Lists ['/'] twoRows := by
    unfold Lists
    decide +kernel
  intro held
  obtain ⟨w',given⟩ := settles_listing plainConfig 0 lists
  obtain ⟨page,settled,pages⟩ := held _ w' given (fun _ => plainConfig) fun _ => .refl plainConfig
  obtain ⟨w'',first⟩ := settled 0
  obtain ⟨same,-⟩ := first.unique (settles_paginated_rows resolved free clean some_)
  have total := pages.total 0 (.inl rfl)
  rw [Except.ok.inj same,count,shown] at total
  cases total

end Engine
end StorageHub.Scoped
