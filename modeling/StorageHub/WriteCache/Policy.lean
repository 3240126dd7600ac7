import StorageHub.Library.Text

/-! The path policy shared by the read and the write cache. -/
namespace StorageHub.WriteCache
open Library

/-- The characters `str::trim` removes. -/
def isWhitespace (c : Char) : Bool :=
  let n := c.toNat
  (9 ≤ n && n ≤ 13) || n == 0x20 || n == 0x85 || n == 0xA0 || n == 0x1680 ||
    (0x2000 ≤ n && n ≤ 0x200A) || n == 0x2028 || n == 0x2029 || n == 0x202F || n == 0x205F ||
    n == 0x3000

def trim (s : Text) : Text := (s.dropWhile isWhitespace).rdropWhile isWhitespace

def normalizeExtension (ext : Text) : Text :=
  (Text.trimStart '.' (trim ext)).map Char.toLower

def normalizedFileExtension (path : Text) : Option Text :=
  match Text.rsplitOnce '.' (Text.afterLast '/' path) with
  | none => none
  | some (_,ext) =>
    let normalized := trim ext
    if normalized.isEmpty then none else some (normalizeExtension normalized)

def isThumbnailPath (path : Text) : Bool :=
  let normalized := Text.trimEnd '/' path
  normalized == "/.thumbs".toList || normalized == "/.thumbs_cache".toList ||
    Text.endsWith "/.thumbs".toList normalized || Text.contains "/.thumbs/".toList normalized ||
    Text.startsWith "/.thumbs_cache/".toList normalized ||
    Text.endsWith "/.thumbs_cache".toList normalized ||
    Text.contains "/.thumbs_cache/".toList normalized

def isTempNamespacePath (path : Text) : Bool :=
  Text.startsWith "/.virtual/tmp".toList path || Text.contains "/.virtual/tmp/".toList path

def isRecycleBinPath (path : Text) : Bool :=
  path == "/.recycle_bin".toList || Text.startsWith "/.recycle_bin/".toList path ||
    Text.endsWith "/.recycle_bin".toList path || Text.contains "/.recycle_bin/".toList path

structure CachePathPolicy where
  allowThumbnailPaths : Bool
  skipExtensions : List Text
  deriving DecidableEq,Repr

def CachePathPolicy.new (allowThumbnailPaths : Bool) (skipExtensions : List Text) :
    CachePathPolicy :=
  ⟨allowThumbnailPaths,skipExtensions.map normalizeExtension⟩

def CachePathPolicy.allows (policy : CachePathPolicy) (path : Text) : Bool :=
  if isTempNamespacePath path || isRecycleBinPath path then false
  else if !policy.allowThumbnailPaths && isThumbnailPath path then false
  else
    match normalizedFileExtension path with
    | some ext => !policy.skipExtensions.contains ext
    | none => true

end StorageHub.WriteCache
