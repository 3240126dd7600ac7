import StorageHub.Library.Subtree
import StorageHub.WriteCache.Record

/-! A storage operator over a file system: files and directories by physical
path, and the operations the pool uses. An operation that is refused changes
nothing. -/
namespace StorageHub.Scoped
open Library WriteCache

structure Disk where
  files : Store Text Bytes
  dirs : Store Text Unit

structure Metadata where
  isDir : Bool
  size : Nat
  deriving DecidableEq,Repr

/-- `normalize_entry_path`: without a trailing slash. -/
def normalizeEntryPath (path : Text) : Text :=
  if path = ['/'] then path
  else if path.getLast? = some '/' then path.dropLast
  else path

def hasTrailingSlash (path : Text) : Bool := path.getLast? == some '/'

/-- The directories above a path. -/
def ancestors (path : Text) : List Text :=
  path.inits.filter fun dir => !dir.isEmpty && Text.below dir path

namespace Disk
variable (d : Disk)

def empty : Disk := ⟨∅,∅⟩

/-- The metadata at a path; a directory has no size of its own. -/
def stat (path : Text) : Option Metadata :=
  let p := normalizeEntryPath path
  match d.files.lookup p with
  | some data => if hasTrailingSlash path then none else some ⟨false,data.length⟩
  | none => (d.dirs.lookup p).map fun _ => ⟨true,0⟩

def exists_ (path : Text) : Bool := (d.stat path).isSome

/-- A path spelled as a directory is none that can be read. -/
def read (path : Text) : Option Bytes :=
  if hasTrailingSlash path then none else d.files.lookup path

def makeAncestors (path : Text) : Store Text Unit :=
  (ancestors path).foldl (fun dirs dir => dirs.insert dir ()) d.dirs

/-- Whether a file can be put at a path: it is not spelled as a directory, none
is there and no file above it. -/
def accepts (path : Text) : Bool :=
  !hasTrailingSlash path && (d.dirs.lookup path).isNone &&
    (ancestors path).all fun dir => (d.files.lookup dir).isNone

def write (path : Text) (data : Bytes) : Option Disk :=
  if d.accepts path then some ⟨d.files.insert path data,d.makeAncestors path⟩ else none

/-- Removing what is not there succeeds; a directory must be empty. -/
def delete (path : Text) : Option Disk :=
  let p := normalizeEntryPath path
  match d.files.lookup p with
  | some _ => if hasTrailingSlash path then none else some { d with files := d.files.erase p }
  | none =>
    if (d.dirs.lookup p).isNone then some d
    else if d.files.keys.any (Text.below p) || d.dirs.keys.any (Text.below p) then none
    else some { d with dirs := d.dirs.erase p }

def createDir (path : Text) : Option Disk :=
  let p := normalizeEntryPath path
  if (d.files.lookup p).isNone && (ancestors p).all fun dir => (d.files.lookup dir).isNone then
    some { d with dirs := (d.makeAncestors p).insert p () }
  else none

def rename (src dst : Text) : Option Disk :=
  match d.files.lookup src with
  | some data =>
    if src ≠ dst && d.accepts dst then
      some ⟨(d.files.erase src).insert dst data,d.makeAncestors dst⟩
    else none
  | none =>
    if (d.dirs.lookup src).isNone then none
    else if hasTrailingSlash dst || Text.within src dst || (d.files.lookup dst).isSome ||
        d.files.keys.any (Text.below dst) || d.dirs.keys.any (Text.below dst) ||
        (ancestors dst).any fun dir => (d.files.lookup dir).isSome then none
    else
      let dirs := Store.moveTree src dst (d.dirs.erase dst)
      some ⟨Store.moveTree src dst d.files,(ancestors dst).foldl (fun dirs dir => dirs.insert dir ()) dirs⟩

def copy (src dst : Text) : Option Disk :=
  match d.files.lookup src with
  | some data =>
    if src ≠ dst && d.accepts dst then
      some ⟨d.files.insert dst data,d.makeAncestors dst⟩
    else none
  | none => none

/-- The entries whose path passes a test, files before directories. -/
def entriesWhere (test : Text → Bool) : List (Text × Metadata) :=
  (d.files.entries.filterMap fun cell =>
      if test cell.1 then some (cell.1,(⟨false,cell.2.length⟩ : Metadata)) else none) ++
    d.dirs.entries.filterMap fun cell =>
      if test cell.1 then some (cell.1,(⟨true,0⟩ : Metadata)) else none

/-- A recursive listing of `dir/`. -/
def listRecursive (dir : Text) : List (Text × Metadata) := d.entriesWhere (Text.below dir)

/-- A recursive listing by a path without a trailing slash goes by the mere
prefix of the path. -/
def listPrefix (path : Text) : List (Text × Metadata) := d.entriesWhere (Text.startsWith path)

def isChild (dir path : Text) : Bool :=
  match Text.stripPrefix (dir ++ ['/']) path with
  | some name => !name.isEmpty && name.all (· != '/')
  | none => false

def listChildren (dir : Text) : List (Text × Metadata) := d.entriesWhere (isChild dir)

end Disk
end StorageHub.Scoped
