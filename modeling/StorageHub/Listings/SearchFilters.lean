import StorageHub.Library.StdPath
import StorageHub.Listings.Streams

/-! The search of the index, once as an SQL condition and once as a filter of a
listing, and the rows on which the two differ. -/
namespace StorageHub.Listings
open Library Scoped

inductive IndexedSearchMediaKind
  | image
  | video
  | media
  deriving DecidableEq,Repr

/-- What a search asks for, without its order and page. -/
structure IndexedSearchQuery where
  rootPath : Text
  keyword : Option Text
  includePathKeyword : Bool
  includeOriginalPathKeyword : Bool
  favoritesOnly : Bool
  trashedOnly : Bool
  favoriteColor : Option Int
  nextcloudFileNumericId : Option Nat
  mediaKind : Option IndexedSearchMediaKind
  modifiedBetween : Option (Int × Int)
  deriving DecidableEq,Repr

/-- The database, `str::to_lowercase`, the seconds that make a timestamp, and the id a
path has for a client. -/
structure SearchEnv where
  sql : Sql
  toLowercase : Text → Text
  fromTimestamp : Int → Bool
  deriveNextcloudFileNumericId : Text → Text → Nat

def imageExtensions : List Text :=
  ["jpg","jpeg","png","gif","webp","bmp","svg","psd","ai","heic","heif","avif"].map String.toList

def videoExtensions : List Text :=
  ["mp4","mov","mkv","avi","webm","m4v","3gp","mpg","mpeg"].map String.toList

def extensionsOf : IndexedSearchMediaKind → List Text
  | .image => imageExtensions
  | .video => videoExtensions
  | .media => imageExtensions ++ videoExtensions

/-- A time in seconds. Times of rows are in nanoseconds. -/
def timestamp (t : Int) : Int := t / 1000000000

def TableRow.modified (row : TableRow) : Int := row.fileUpdatedAt.getD row.rowUpdatedAt

namespace SearchEnv
variable (env : SearchEnv) (userId : Text) (q : IndexedSearchQuery)

/-! ### The condition -/

def lowerLike (value pattern : Text) : Bool := Text.like env.sql.sensitive pattern (Text.toAsciiLowercase value)

def belowRoot (rootPath path : Text) : Bool :=
  rootPath == ['/'] || path == rootPath || Text.like env.sql.sensitive (Text.trimEnd '/' rootPath ++ ['/','%']) path

def keywordCondition (keyword : Text) (row : TableRow) : Bool :=
  let pattern := '%'::Text.toAsciiLowercase keyword ++ ['%']
  env.lowerLike row.name pattern || (q.includePathKeyword && env.lowerLike row.path pattern) ||
    (q.includeOriginalPathKeyword && row.originalPath.any fun path => env.lowerLike path pattern)

def mediaKindCondition (kind : IndexedSearchMediaKind) (row : TableRow) : Bool :=
  (extensionsOf kind).any fun extension => env.lowerLike row.path ('%'::('.'::extension))

def modifiedCondition (between : Int × Int) (row : TableRow) : Bool :=
  let start := between.1 * 1000000000
  let stop := between.2 * 1000000000
  !(env.fromTimestamp between.1 && env.fromTimestamp between.2) ||
    row.fileUpdatedAt.any (fun t => decide (start < t) && decide (t < stop)) ||
    (row.fileUpdatedAt.isNone && decide (start < row.rowUpdatedAt) && decide (row.rowUpdatedAt < stop))

/-- `build_index_search_condition`, as the rows that satisfy it. -/
def buildIndexSearchCondition (row : TableRow) : Bool :=
  row.userId == userId && row.rowDeletedAt.isNone &&
  (if q.trashedOnly then row.fileTrashedAt.isSome && row.parentPath == recycleBin else row.fileTrashedAt.isNone) &&
  (!q.favoritesOnly || (decide (0 < row.favoriteColor) && colorFilter q.favoriteColor row)) &&
  env.belowRoot q.rootPath row.path && q.keyword.all (fun keyword => env.keywordCondition q keyword row) &&
  q.mediaKind.all (fun kind => env.mediaKindCondition kind row) &&
  q.modifiedBetween.all fun between => env.modifiedCondition between row

/-! ### The filter -/

def pathMatchesRoot (path rootPath : Text) : Bool :=
  rootPath == ['/'] || path == rootPath ||
    (Text.stripPrefix rootPath path).any fun rest => Text.startsWith ['/'] rest

def matchesKeyword (keyword : Text) (row : TableRow) : Bool :=
  let needle := env.toLowercase keyword
  Text.contains needle (env.toLowercase row.name) ||
    (q.includePathKeyword && Text.contains needle (env.toLowercase row.path)) ||
    (q.includeOriginalPathKeyword && row.originalPath.any fun path => Text.contains needle (env.toLowercase path))

def matchesMediaKind (path : Text) (kind : IndexedSearchMediaKind) : Bool :=
  (Text.extension path).any fun extension => (extensionsOf kind).contains (Text.toAsciiLowercase extension)

def indexedItemMatches (row : TableRow) : Bool :=
  pathMatchesRoot row.path q.rootPath && !(q.trashedOnly && row.fileTrashedAt.isNone) &&
  (!q.favoritesOnly || (!decide (row.favoriteColor ≤ 0) && colorFilter q.favoriteColor row)) &&
  q.keyword.all (fun keyword => env.matchesKeyword q keyword row) &&
  q.nextcloudFileNumericId.all (fun target => env.deriveNextcloudFileNumericId userId row.path == target) &&
  q.mediaKind.all (fun kind => matchesMediaKind row.path kind) &&
  q.modifiedBetween.all fun between =>
    !(decide (timestamp row.modified ≤ between.1) || decide (between.2 ≤ timestamp row.modified))

def recursiveFilter (rootPath : Text) (row : TableRow) : Bool :=
  row.userId == userId && row.rowDeletedAt.isNone && row.fileTrashedAt.isNone && env.belowRoot rootPath row.path

/-- A search by name alone has a listing of its own. -/
def plainSearch : Bool :=
  q.keyword.isSome && !q.includePathKeyword && !q.includeOriginalPathKeyword && q.rootPath == ['/'] &&
    q.nextcloudFileNumericId.isNone && q.mediaKind.isNone && q.modifiedBetween.isNone

/-- The rows of the listing that `load_index_matches` filters. -/
def listed (row : TableRow) : Bool :=
  if q.trashedOnly then trashFilter userId row
  else if q.favoritesOnly then favoritesFilter userId row && streamColorFilter q.favoriteColor row
  else if plainSearch q then searchFilter env.sql userId (q.keyword.getD []) row
  else env.recursiveFilter userId q.rootPath row

def loadIndexMatches (rows : List TableRow) : List TableRow :=
  (rows.filter (env.listed userId q)).filter (env.indexedItemMatches userId q)

/-! ### Where the two differ -/

/-- A selected row that the filter keeps: it lies below the root as the root is spelled,
its keyword and extension are found as the filter looks for them, a color that is asked
for is one, and it was not changed in the second that the window starts after. -/
structure KeptByFilter (row : TableRow) : Prop where
  root : pathMatchesRoot row.path q.rootPath = true
  color : q.favoritesOnly = true → q.trashedOnly = false → ∀ color ∈ q.favoriteColor, 0 < color
  keyword : ∀ keyword ∈ q.keyword, env.matchesKeyword q keyword row = true
  named : q.trashedOnly = false → q.favoritesOnly = false → plainSearch q = true →
    ∀ keyword ∈ q.keyword, env.sql.contains keyword row.name = true
  media : ∀ kind ∈ q.mediaKind, matchesMediaKind row.path kind = true
  modified : ∀ between ∈ q.modifiedBetween,
    if env.fromTimestamp between.1 && env.fromTimestamp between.2 then timestamp row.modified ≠ between.1
    else between.1 < timestamp row.modified ∧ timestamp row.modified < between.2

/-- A row of the filter that the condition selects: its keyword and extension are found
as the database looks for them. -/
structure KeptByCondition (row : TableRow) : Prop where
  keyword : ∀ keyword ∈ q.keyword, env.keywordCondition q keyword row = true
  media : ∀ kind ∈ q.mediaKind, env.mediaKindCondition kind row = true

variable {env userId q} {row : TableRow}

/-- What lies below the root as it is spelled is selected by its pattern. -/
theorem belowRoot_of_matches {rootPath path : Text} (below : pathMatchesRoot path rootPath = true) :
    env.belowRoot rootPath path = true := by
  rw [pathMatchesRoot,Bool.or_eq_true] at below
  rw [belowRoot,Bool.or_eq_true]
  rcases below with same | inside
  · exact .inl same
  · right
    rw [Option.any_eq_true] at inside
    obtain ⟨rest,stripped,slash⟩ := inside
    obtain ⟨more,begins⟩ := Text.startsWith_iff.mp slash
    obtain ⟨slashes,split,all⟩ := Paths.trimEnd_split rootPath
    have whole : path = rootPath ++ rest := Text.stripPrefix_some stripped
    -- The root's own trailing slashes belong to what the pattern's percent sign stands for.
    have led : ∃ tail, slashes ++ rest = '/'::tail := by
      cases slashes with
      | nil => exact ⟨more,begins.symm⟩
      | cons c others =>
        have first : c = '/' := all c List.mem_cons_self
        exact ⟨others ++ rest,by rw [first]; rfl⟩
    obtain ⟨tail,start⟩ := led
    have place : path = (Text.trimEnd '/' rootPath ++ ['/']) ++ tail := by
      rw [whole,split,List.append_assoc,start,← split,List.append_assoc]
      rfl
    have pattern : Text.trimEnd '/' rootPath ++ ['/','%'] = (Text.trimEnd '/' rootPath ++ ['/']) ++ ['%'] := by
      rw [List.append_assoc]
      rfl
    rw [place,pattern]
    exact Text.like_prefix _ _ tail

theorem modifiedCondition_iff {between : Int × Int} : env.modifiedCondition between row = true ↔
    ((env.fromTimestamp between.1 && env.fromTimestamp between.2) = true →
      between.1 * 1000000000 < row.modified ∧ row.modified < between.2 * 1000000000) := by
  rw [modifiedCondition,TableRow.modified]
  cases env.fromTimestamp between.1 && env.fromTimestamp between.2 with
  | false => simp
  | true =>
    cases row.fileUpdatedAt with
    | none => simp
    | some t => simp

/-- The parts of the condition. -/
theorem buildIndexSearchCondition_iff : env.buildIndexSearchCondition userId q row = true ↔
    row.userId = userId ∧ row.rowDeletedAt.isNone = true ∧
      (if q.trashedOnly then row.fileTrashedAt.isSome && row.parentPath == recycleBin
        else row.fileTrashedAt.isNone) = true ∧
      (q.favoritesOnly = true → 0 < row.favoriteColor ∧ colorFilter q.favoriteColor row = true) ∧
      env.belowRoot q.rootPath row.path = true ∧ (∀ keyword ∈ q.keyword, env.keywordCondition q keyword row = true) ∧
      (∀ kind ∈ q.mediaKind, env.mediaKindCondition kind row = true) ∧
      ∀ between ∈ q.modifiedBetween, env.modifiedCondition between row = true := by
  unfold buildIndexSearchCondition
  simp only [Bool.and_eq_true,Option.all_eq_true,beq_iff_eq,and_assoc,Bool.or_eq_true,Bool.not_eq_true',
    decide_eq_true_eq]
  cases q.favoritesOnly <;> simp

/-- The parts of the filter. -/
theorem indexedItemMatches_iff : env.indexedItemMatches userId q row = true ↔
    pathMatchesRoot row.path q.rootPath = true ∧ (q.trashedOnly = true → row.fileTrashedAt.isSome = true) ∧
      (q.favoritesOnly = true → 0 < row.favoriteColor ∧ colorFilter q.favoriteColor row = true) ∧
      (∀ keyword ∈ q.keyword, env.matchesKeyword q keyword row = true) ∧
      (∀ target ∈ q.nextcloudFileNumericId, env.deriveNextcloudFileNumericId userId row.path = target) ∧
      (∀ kind ∈ q.mediaKind, matchesMediaKind row.path kind = true) ∧
      ∀ between ∈ q.modifiedBetween,
        between.1 < timestamp row.modified ∧ timestamp row.modified < between.2 := by
  unfold indexedItemMatches
  simp only [Bool.and_eq_true,Option.all_eq_true,beq_iff_eq,and_assoc,Bool.or_eq_true,Bool.not_eq_true',
    decide_eq_false_iff_not,Bool.or_eq_false_iff,Bool.and_eq_false_iff,not_le]
  cases q.favoritesOnly <;> cases q.trashedOnly <;> cases row.fileTrashedAt <;> simp

/-- Every listing is one of the user's rows that are not deleted, and is of the trash
only for a search of the trash. -/
theorem listed_live (given : env.listed userId q row = true) : row.userId = userId ∧
    row.rowDeletedAt.isNone = true ∧ (if q.trashedOnly then row.fileTrashedAt.isSome && row.parentPath == recycleBin
      else row.fileTrashedAt.isNone) = true := by
  unfold listed trashFilter favoritesFilter searchFilter recursiveFilter at given
  cases trashed : q.trashedOnly with
  | true =>
    rw [trashed,if_pos rfl] at given
    simp only [Bool.and_eq_true,beq_iff_eq] at given
    rw [if_pos rfl,Bool.and_eq_true,beq_iff_eq]
    exact ⟨given.1.1.1,given.2,given.1.1.2,given.1.2⟩
  | false =>
    rw [trashed,if_neg Bool.false_ne_true] at given
    rw [if_neg Bool.false_ne_true]
    split at given
    next =>
      simp only [Bool.and_eq_true,beq_iff_eq] at given
      exact ⟨given.1.1.1.1,given.1.2,given.1.1.2⟩
    next =>
      split at given
      next =>
        simp only [Bool.and_eq_true,beq_iff_eq] at given
        exact ⟨given.1.1.1,given.1.2,given.2⟩
      next =>
        simp only [Bool.and_eq_true,beq_iff_eq] at given
        exact ⟨given.1.1.1,given.1.1.2,given.1.2⟩

theorem matches_of_condition (numberless : q.nextcloudFileNumericId = none)
    (selected : env.buildIndexSearchCondition userId q row = true) (kept : env.KeptByFilter q row) :
    (env.listed userId q row && env.indexedItemMatches userId q row) = true := by
  obtain ⟨owner,alive,bin,favorite,below,-,-,window⟩ := buildIndexSearchCondition_iff.mp selected
  rw [Bool.and_eq_true]
  constructor
  · unfold listed trashFilter favoritesFilter searchFilter recursiveFilter
    cases trashed : q.trashedOnly with
    | true =>
      rw [trashed,if_pos rfl,Bool.and_eq_true,beq_iff_eq] at bin
      rw [if_pos rfl]
      simp only [Bool.and_eq_true,beq_iff_eq]
      exact ⟨⟨⟨owner,bin.1⟩,bin.2⟩,alive⟩
    | false =>
      rw [trashed,if_neg Bool.false_ne_true] at bin
      rw [if_neg Bool.false_ne_true]
      split
      next favorites =>
        obtain ⟨positive,colored⟩ := favorite favorites
        simp only [Bool.and_eq_true,beq_iff_eq,decide_eq_true_eq]
        refine ⟨⟨⟨⟨owner,positive⟩,bin⟩,alive⟩,?_⟩
        rw [streamColorFilter,Option.all_eq_true]
        rw [colorFilter,Option.all_eq_true] at colored
        intro color asked
        have is_color := kept.color favorites trashed color asked
        have same := colored color asked
        simpa [is_color] using same
      next others =>
        split
        next plain =>
          have given : q.keyword.isSome = true := by
            rw [plainSearch] at plain
            simp only [Bool.and_eq_true] at plain
            exact plain.1.1.1.1.1.1
          obtain ⟨keyword,asked⟩ := Option.isSome_iff_exists.mp given
          have found := kept.named trashed (by simpa using others) plain keyword asked
          rw [asked]
          simp only [Bool.and_eq_true,beq_iff_eq,Option.getD_some]
          exact ⟨⟨⟨owner,found⟩,alive⟩,bin⟩
        next =>
          simp only [Bool.and_eq_true,beq_iff_eq]
          exact ⟨⟨⟨owner,alive⟩,bin⟩,below⟩
  · rw [indexedItemMatches_iff]
    refine ⟨kept.root,?_,favorite,kept.keyword,?_,kept.media,?_⟩
    · intro trashed
      rw [trashed,if_pos rfl,Bool.and_eq_true] at bin
      exact bin.1
    · intro target asked
      rw [numberless] at asked
      cases asked
    · intro between asked
      have inside := modifiedCondition_iff.mp (window between asked)
      have second := kept.modified between asked
      split at second
      next known =>
        obtain ⟨after,before⟩ := inside known
        unfold timestamp at second ⊢
        omega
      next => exact second

theorem kept_of_matches (given : env.listed userId q row = true) (matched : env.indexedItemMatches userId q row = true) :
    env.KeptByFilter q row := by
  obtain ⟨root,-,favorite,keyword,-,media,window⟩ := indexedItemMatches_iff.mp matched
  refine ⟨root,?_,keyword,?_,media,?_⟩
  · intro favorites trashed color asked
    obtain ⟨positive,-⟩ := favorite favorites
    rw [listed,trashed,if_neg Bool.false_ne_true,if_pos favorites,Bool.and_eq_true,streamColorFilter,
      Option.all_eq_true] at given
    have same : row.favoriteColor = color := beq_iff_eq.mp (given.2 color asked)
    omega
  · intro trashed favorites plain keyword asked
    rw [listed,trashed,if_neg Bool.false_ne_true,favorites,if_neg Bool.false_ne_true,if_pos plain,searchFilter,
      asked] at given
    simp only [Bool.and_eq_true,Option.getD_some] at given
    exact given.1.1.2
  · intro between asked
    obtain ⟨after,before⟩ := window between asked
    split
    next => omega
    next => exact ⟨after,before⟩

theorem condition_of_matches (given : env.listed userId q row = true)
    (matched : env.indexedItemMatches userId q row = true) (kept : env.KeptByCondition q row) :
    env.buildIndexSearchCondition userId q row = true := by
  obtain ⟨owner,alive,bin⟩ := listed_live given
  obtain ⟨root,-,favorite,-,-,-,window⟩ := indexedItemMatches_iff.mp matched
  rw [buildIndexSearchCondition_iff]
  refine ⟨owner,alive,bin,favorite,belowRoot_of_matches root,kept.keyword,kept.media,?_⟩
  intro between asked
  rw [modifiedCondition_iff]
  intro _
  obtain ⟨after,before⟩ := window between asked
  unfold timestamp at after before
  omega

def plainSearchEnv : SearchEnv := ⟨plainSql,Text.toAsciiLowercase,fun _ => true,fun _ _ => 0⟩

def nameQuery (keyword : Text) : IndexedSearchQuery where
  rootPath := ['/']
  keyword := some keyword
  includePathKeyword := true
  includeOriginalPathKeyword := false
  favoritesOnly := false
  trashedOnly := false
  favoriteColor := none
  nextcloudFileNumericId := none
  mediaKind := none
  modifiedBetween := none

def noteRow : TableRow := { trashedRow 1 "note".toList with
  parentPath := ['/'], path := "/note".toList, fileTrashedAt := none, originalPath := none }

end SearchEnv
end StorageHub.Listings
