import Mathlib.Data.List.DropRight
import StorageHub.Library.TextLines
import StorageHub.WriteCache.Policy

/-! What the archive browser reads from the technical listing of the external
program: lines of keys and values, one block for each member. -/
namespace StorageHub.Compression
open Library WriteCache

structure ArchiveEntry where
  path : Text
  isDir : Bool
  size : Nat
  modified : Option Text
  deriving DecidableEq,Repr

namespace ArchiveEntry

/-- `ArchiveEntry::default`. -/
def blank : ArchiveEntry := ⟨[],false,0,none⟩

end ArchiveEntry

/-! ### The loop -/

def cleanPath (value : Text) : Text := (trim value).map fun c => if c = '\\' then '/' else c

/-- A size that is no number counts as none. -/
def parseSize (value : Text) : Nat := (Text.parseNat (2 ^ 64) (trim value)).getD 0

def takeField (key value : Text) (entry : ArchiveEntry) : ArchiveEntry :=
  if key = "Path".toList then { entry with path := cleanPath value }
  else if key = "Size".toList then { entry with size := parseSize value }
  else if key = "Attributes".toList then { entry with isDir := value.any (· == 'D') }
  else if key = "Modified".toList then { entry with modified := some (trim value) }
  else entry

structure ListingState where
  entries : List ArchiveEntry
  currentEntry : ArchiveEntry
  hasData : Bool
  deriving DecidableEq

def ListingState.start : ListingState := ⟨[],.blank,false⟩

def separator : Text := " = ".toList

/-- An empty line ends a block, a line without the separator says nothing. -/
def readLine (s : ListingState) (line : Text) : ListingState :=
  if line = [] then
    if s.hasData && !s.currentEntry.path.isEmpty then ⟨s.entries ++ [s.currentEntry],.blank,false⟩
    else { s with hasData := false }
  else
    (Text.splitOnce separator line).elim s fun field =>
      { s with currentEntry := takeField (trim field.1) field.2 s.currentEntry, hasData := true }

def parseListing (stdout : Text) : List ArchiveEntry :=
  ((Text.lines stdout).foldl readLine .start).entries

/-! ### The layout -/

/-- A line of a key and a value. -/
structure Field where
  key : Text
  value : Text
  plainKey : '=' ∉ key
  trimmed : trim key = key
  oneLine : '\n' ∉ key ∧ '\n' ∉ value
  ended : value.getLast? ≠ some '\r'

def Field.line (f : Field) : Text := f.key ++ (separator ++ f.value)

def valueOf (key : Text) (fields : List Field) : Option Text :=
  (fields.find? fun f => f.key == key).map (·.value)

/-- The lines of a member and what they tell. -/
structure Block where
  fields : List Field
  distinct : (fields.map (·.key)).Nodup
  member : ArchiveEntry
  path : valueOf "Path".toList fields = some member.path
  size : (valueOf "Size".toList fields).elim (member.size = 0) fun value =>
    value = (toString member.size).toList ∨ value = [] ∧ member.size = 0
  fits : member.size < 2 ^ 64
  isDir : member.isDir = (valueOf "Attributes".toList fields).any fun value => value.any (· == 'D')
  modified : member.modified = valueOf "Modified".toList fields
  plainTime : ∀ time ∈ member.modified, trim time = time

/-- What is printed before the header says nothing. The header has the path of
the archive, an empty line may stand before the dashes and after the last block. -/
structure Listing where
  banner : List Text
  silent : ∀ line ∈ banner, Text.splitOnce separator line = none ∧ '\n' ∉ line ∧ line.getLast? ≠ some '\r'
  header : List Field
  distinct : (header.map (·.key)).Nodup
  archive : Text
  path : valueOf "Path".toList header = some archive
  named : trim archive ≠ []
  gap : Bool
  dashes : Nat
  blocks : List Block
  closed : Bool
  ending : Text
  ends : ending = ['\n'] ∨ ending = ['\r','\n']

namespace Listing

def bodyLines (closed : Bool) : List Block → List Text
  | [] => []
  | [b] => b.fields.map Field.line ++ if closed then [[]] else []
  | b::rest => b.fields.map Field.line ++ []::bodyLines closed rest

variable (l : Listing)

def lines : List Text :=
  l.banner ++ (l.header.map Field.line ++ ((if l.gap then [[]] else []) ++
    List.replicate (l.dashes + 1) '-'::bodyLines l.closed l.blocks))

def text : Text := Text.printed l.ending l.lines

def members : List ArchiveEntry := l.blocks.map Block.member

end Listing

/-! ### Reading a block -/

def readFields (entry : ArchiveEntry) (fields : List Field) : ArchiveEntry :=
  fields.foldl (fun entry f => takeField f.key f.value entry) entry

theorem splitOnce_line (f : Field) : Text.splitOnce separator f.line = some (f.key,f.value) :=
  Text.splitOnce_append (by decide) f.plainKey f.value

theorem line_ne_nil (f : Field) : f.line ≠ [] := by
  intro empty
  have mark : '=' ∈ f.line := by
    rw [Field.line]
    exact List.mem_append_right _ (List.mem_append_left _ (by decide))
  rw [empty] at mark
  exact List.not_mem_nil mark

theorem line_plain (f : Field) : '\n' ∉ f.line ∧ f.line.getLast? ≠ some '\r' := by
  constructor
  · intro member
    rw [Field.line,List.mem_append,List.mem_append] at member
    rcases member with inKey | inSeparator | inValue
    · exact f.oneLine.1 inKey
    · exact absurd inSeparator (by decide)
    · exact f.oneLine.2 inValue
  · have space : separator.getLast? = some ' ' := rfl
    rw [Field.line,List.getLast?_append,List.getLast?_append,space]
    cases value : f.value.getLast? with
    | none => exact fun last => absurd (Option.some.inj last) (by decide)
    | some c =>
      have ended := f.ended
      rw [value] at ended
      exact ended

theorem readLine_field (s : ListingState) (f : Field) :
    readLine s f.line = { s with currentEntry := takeField f.key f.value s.currentEntry, hasData := true } := by
  rw [readLine,if_neg (line_ne_nil f),splitOnce_line]
  simp only [Option.elim_some,f.trimmed]

/-- The lines of a block leave its fields in the entry at hand. -/
theorem foldl_fields (fields : List Field) (s : ListingState) :
    (fields.map Field.line).foldl readLine s =
      { s with currentEntry := readFields s.currentEntry fields, hasData := s.hasData || !fields.isEmpty } := by
  induction fields generalizing s with
  | nil => simp [readFields]
  | cons f rest ih =>
    rw [List.map_cons,List.foldl_cons,readLine_field,ih]
    simp [readFields]

theorem valueOf_cons (key : Text) (f : Field) (rest : List Field) :
    valueOf key (f::rest) = if f.key = key then some f.value else valueOf key rest := by
  by_cases same : f.key = key
  · simp [valueOf,same]
  · simp [valueOf,same]

theorem valueOf_absent {key : Text} {fields : List Field} (absent : key ∉ fields.map (·.key)) :
    valueOf key fields = none := by
  rw [valueOf,List.find?_eq_none.mpr]
  · rfl
  · intro f member same
    apply absent
    rw [← eq_of_beq same]
    exact List.mem_map_of_mem member

/-- What the fields of a block say, over an entry that is not yet finished. -/
def overlay (entry : ArchiveEntry) (fields : List Field) : ArchiveEntry where
  path := (valueOf "Path".toList fields).elim entry.path cleanPath
  isDir := (valueOf "Attributes".toList fields).elim entry.isDir fun value => value.any (· == 'D')
  size := (valueOf "Size".toList fields).elim entry.size parseSize
  modified := (valueOf "Modified".toList fields).elim entry.modified fun value => some (trim value)

theorem readFields_eq (entry : ArchiveEntry) {fields : List Field} (distinct : (fields.map (·.key)).Nodup) :
    readFields entry fields = overlay entry fields := by
  induction fields generalizing entry with
  | nil => rfl
  | cons f rest ih =>
    obtain ⟨fresh,distinct⟩ := List.nodup_cons.mp distinct
    have gone : valueOf f.key rest = none := valueOf_absent fresh
    have onward : readFields entry (f::rest) = readFields (takeField f.key f.value entry) rest := rfl
    rw [onward,ih _ distinct,overlay,overlay]
    simp only [valueOf_cons]
    by_cases path : f.key = "Path".toList
    · have size : f.key ≠ "Size".toList := by rw [path]; decide
      have attributes : f.key ≠ "Attributes".toList := by rw [path]; decide
      have modified : f.key ≠ "Modified".toList := by rw [path]; decide
      rw [path] at gone
      simp only [takeField,if_pos path,if_neg size,if_neg attributes,if_neg modified,gone,Option.elim_none,
        Option.elim_some]
    by_cases size : f.key = "Size".toList
    · have attributes : f.key ≠ "Attributes".toList := by rw [size]; decide
      have modified : f.key ≠ "Modified".toList := by rw [size]; decide
      rw [size] at gone
      simp only [takeField,if_neg path,if_pos size,if_neg attributes,if_neg modified,gone,Option.elim_none,
        Option.elim_some]
    by_cases attributes : f.key = "Attributes".toList
    · have modified : f.key ≠ "Modified".toList := by rw [attributes]; decide
      rw [attributes] at gone
      simp only [takeField,if_neg path,if_neg size,if_pos attributes,if_neg modified,gone,Option.elim_none,
        Option.elim_some]
    by_cases modified : f.key = "Modified".toList
    · rw [modified] at gone
      simp only [takeField,if_neg path,if_neg size,if_neg attributes,if_pos modified,gone,Option.elim_none,
        Option.elim_some]
    · simp only [takeField,if_neg path,if_neg size,if_neg attributes,if_neg modified]

/-! ### Trimming -/

theorem dropWhile_map_stable {f : Char → Char} (stable : ∀ c, isWhitespace (f c) = isWhitespace c) (s : Text) :
    (s.map f).dropWhile isWhitespace = (s.dropWhile isWhitespace).map f := by
  induction s with
  | nil => rfl
  | cons c cs ih =>
    rw [List.map_cons,List.dropWhile_cons,List.dropWhile_cons,stable]
    split
    next => exact ih
    next => rfl

theorem trim_map {f : Char → Char} (stable : ∀ c, isWhitespace (f c) = isWhitespace c) (s : Text) :
    trim (s.map f) = (trim s).map f := by
  rw [trim,trim,dropWhile_map_stable stable,List.rdropWhile,List.rdropWhile,← List.map_reverse,
    dropWhile_map_stable stable,List.map_reverse]

theorem trim_trim (s : Text) : trim (trim s) = trim s := by
  have whole : (trim s).dropWhile isWhitespace = trim s := by
    rw [List.dropWhile_eq_self_iff]
    intro nonempty
    have prefix_ : trim s <+: s.dropWhile isWhitespace := List.rdropWhile_prefix isWhitespace _
    have first := List.dropWhile_get_zero_not isWhitespace s (Nat.lt_of_lt_of_le nonempty prefix_.length_le)
    rw [List.IsPrefix.getElem prefix_ nonempty]
    simpa using first
  have ended : (trim s).rdropWhile isWhitespace = trim s := List.rdropWhile_idempotent isWhitespace _
  rw [trim,whole,ended]

theorem cleanPath_cleanPath (value : Text) : cleanPath (cleanPath value) = cleanPath value := by
  have stable (c : Char) : isWhitespace (if c = '\\' then '/' else c) = isWhitespace c := by
    split
    next same => rw [same]; decide
    next => rfl
  have once : (fun c => if c = '\\' then '/' else c) ∘ (fun c => if c = '\\' then '/' else c) =
      fun c : Char => if c = '\\' then '/' else c := by
    funext c
    by_cases same : c = '\\'
    · simp [same]
    · simp [same]
  rw [cleanPath,cleanPath,trim_map stable,trim_trim,List.map_map,once]

/-- What the paths of finished entries are like. -/
def Clean (path : Text) : Prop := path ≠ [] ∧ cleanPath path = path

theorem takeField_clean (key value : Text) {entry : ArchiveEntry}
    (clean : cleanPath entry.path = entry.path) :
    cleanPath (takeField key value entry).path = (takeField key value entry).path := by
  unfold takeField
  split
  next => exact cleanPath_cleanPath value
  next =>
    split
    next => exact clean
    next =>
      split
      next => exact clean
      next =>
        split
        next => exact clean
        next => exact clean

/-- Whatever is printed, only clean paths are reported. -/
theorem readLine_clean (line : Text) {s : ListingState}
    (clean : cleanPath s.currentEntry.path = s.currentEntry.path) (finished : ∀ e ∈ s.entries, Clean e.path) :
    cleanPath (readLine s line).currentEntry.path = (readLine s line).currentEntry.path ∧
      ∀ e ∈ (readLine s line).entries, Clean e.path := by
  unfold readLine
  split
  next =>
    split
    next ready =>
      refine ⟨rfl,fun e member => ?_⟩
      have named : s.currentEntry.path ≠ [] := by
        intro empty
        simp [empty] at ready
      rw [List.mem_append,List.mem_singleton] at member
      rcases member with before | rfl
      · exact finished e before
      · exact ⟨named,clean⟩
    next => exact ⟨clean,finished⟩
  next =>
    cases Text.splitOnce separator line with
    | none => exact ⟨clean,finished⟩
    | some field => exact ⟨takeField_clean _ _ clean,finished⟩

theorem parseListing_clean (stdout : Text) : ∀ e ∈ parseListing stdout, Clean e.path := by
  have all (lines : List Text) (s : ListingState)
      (clean : cleanPath s.currentEntry.path = s.currentEntry.path) (finished : ∀ e ∈ s.entries, Clean e.path) :
      ∀ e ∈ (lines.foldl readLine s).entries, Clean e.path := by
    induction lines generalizing s with
    | nil => exact finished
    | cons line rest ih =>
      obtain ⟨clean,finished⟩ := readLine_clean line clean finished
      exact ih _ clean finished
  exact all _ _ rfl fun e member => absurd member List.not_mem_nil

/-! ### Reading a listing -/

theorem parseSize_shown {n : Nat} (fits : n < 2 ^ 64) : parseSize (toString n).toList = n := by
  have plain : trim (toString n).toList = (toString n).toList := by
    have digits : ∀ c ∈ (toString n).toList, isWhitespace c = false := by
      intro c member
      rw [Nat.toString_eq_repr,Nat.toList_repr] at member
      have digit := Nat.isDigit_of_mem_toDigits (by decide) (by decide) member
      simp only [Char.isDigit,Bool.and_eq_true,decide_eq_true_eq,ge_iff_le,UInt32.le_iff_toNat_le] at digit
      obtain ⟨low,high⟩ := digit
      have low : 48 ≤ c.toNat := low
      have high : c.toNat ≤ 57 := high
      simp only [isWhitespace,Bool.or_eq_false_iff,Bool.and_eq_false_iff,decide_eq_false_iff_not,beq_eq_false_iff_ne]
      omega
    have start : (toString n).toList.dropWhile isWhitespace = (toString n).toList := by
      rw [List.dropWhile_eq_self_iff]
      intro nonempty
      rw [digits _ (List.getElem_mem nonempty)]
      exact Bool.false_ne_true
    rw [trim,start,List.rdropWhile_eq_self_iff]
    intro nonempty
    rw [digits _ (List.getLast_mem nonempty)]
    exact Bool.false_ne_true
  rw [parseSize,plain,Text.parseNat_shown fits,Option.getD_some]

namespace Block
variable (b : Block)

def Readable : Prop := Clean b.member.path

/-- A block has what an entry carried over would otherwise bring in. -/
def Covers (carried : ArchiveEntry) : Prop :=
  (valueOf "Size".toList b.fields = none → carried.size = 0) ∧
    (valueOf "Attributes".toList b.fields = none → carried.isDir = false) ∧
    (valueOf "Modified".toList b.fields = none → carried.modified = none)

variable {b}

theorem size_read : (valueOf "Size".toList b.fields).elim 0 parseSize = b.member.size := by
  have size := b.size
  cases value : valueOf "Size".toList b.fields with
  | none =>
    rw [value] at size
    exact size.symm
  | some v =>
    rw [value] at size
    rcases size with shown | ⟨empty,none_⟩
    · rw [shown]
      exact parseSize_shown b.fits
    · rw [empty,none_]
      rfl

theorem modified_read (time : Text) (said : valueOf "Modified".toList b.fields = some time) :
    some (trim time) = b.member.modified := by
  have here : b.member.modified = some time := b.modified.trans said
  rw [here,b.plainTime time here]

/-- A block that is read over an entry gives its member exactly when it covers
what the entry brings in. -/
theorem read_iff (readable : b.Readable) (carried : ArchiveEntry) :
    readFields carried b.fields = b.member ↔ b.Covers carried := by
  have path : (valueOf "Path".toList b.fields).elim carried.path cleanPath = b.member.path := by
    rw [b.path]
    exact readable.2
  have size : (valueOf "Size".toList b.fields).elim carried.size parseSize = b.member.size ↔
      (valueOf "Size".toList b.fields = none → carried.size = 0) := by
    have own := size_read (b := b)
    cases value : valueOf "Size".toList b.fields with
    | none =>
      rw [value,Option.elim_none] at own
      simp [← own]
    | some v =>
      rw [value,Option.elim_some] at own
      simp [own]
  have isDir : (valueOf "Attributes".toList b.fields).elim carried.isDir (fun v => v.any (· == 'D')) =
      b.member.isDir ↔ (valueOf "Attributes".toList b.fields = none → carried.isDir = false) := by
    rw [b.isDir]
    cases valueOf "Attributes".toList b.fields <;> simp
  have modified : (valueOf "Modified".toList b.fields).elim carried.modified (fun v => some (trim v)) =
      b.member.modified ↔ (valueOf "Modified".toList b.fields = none → carried.modified = none) := by
    have own := b.modified
    cases value : valueOf "Modified".toList b.fields with
    | none =>
      rw [value] at own
      simp [own]
    | some v => simp [modified_read v value]
  rw [readFields_eq carried b.distinct,Covers,← size,← isDir,← modified,overlay]
  constructor
  · intro same
    rw [← same]
    exact ⟨rfl,rfl,rfl⟩
  · intro parts
    rw [path,parts.1,parts.2.1,parts.2.2]

theorem read_blank (readable : b.Readable) : readFields .blank b.fields = b.member :=
  (read_iff readable .blank).mpr ⟨fun _ => rfl,fun _ => rfl,fun _ => rfl⟩

theorem fields_nonempty : b.fields.isEmpty = false := by
  have path := b.path
  cases fields : b.fields with
  | nil =>
    rw [fields] at path
    cases path
  | cons f rest => rfl

/-- The path of a block is what is left of it in the entry at hand. -/
theorem read_path (carried : ArchiveEntry) : (readFields carried b.fields).path = cleanPath b.member.path := by
  rw [readFields_eq carried b.distinct,overlay]
  dsimp only
  rw [b.path,Option.elim_some]

end Block

namespace Listing
variable (l : Listing)

/-- What the header leaves in the entry at hand. -/
def headerEntry : ArchiveEntry := readFields .blank l.header

/-- What the blocks add to the entries, when the first is read over an entry. -/
def emitted (closed : Bool) (carried : ArchiveEntry) : List Block → List ArchiveEntry
  | [] => []
  | b::rest =>
    if closed then readFields carried b.fields::rest.map Block.member
    else (readFields carried b.fields::rest.map Block.member).dropLast

theorem readLine_end (entries : List ArchiveEntry) {entry : ArchiveEntry} (named : entry.path ≠ []) :
    readLine ⟨entries,entry,true⟩ [] = ⟨entries ++ [entry],.blank,false⟩ := by
  have full : entry.path.isEmpty = false := by
    rw [List.isEmpty_eq_false_iff]
    exact named
  rw [readLine,if_pos rfl,full]
  rfl

theorem foldl_body (closed : Bool) {blocks : List Block} (readable : ∀ b ∈ blocks, b.Readable)
    (s : ListingState) : ((bodyLines closed blocks).foldl readLine s).entries =
      s.entries ++ emitted closed s.currentEntry blocks := by
  induction blocks generalizing s with
  | nil => simp [bodyLines,emitted]
  | cons b rest ih =>
    obtain ⟨here,later⟩ := List.forall_mem_cons.mp readable
    have named : (readFields s.currentEntry b.fields).path ≠ [] := by
      rw [Block.read_path,here.2]
      exact here.1
    have block : (b.fields.map Field.line).foldl readLine s =
        ⟨s.entries,readFields s.currentEntry b.fields,true⟩ := by
      rw [foldl_fields,Block.fields_nonempty]
      simp
    cases rest with
    | nil =>
      rw [bodyLines,List.foldl_append,block]
      cases closed with
      | true =>
        rw [if_pos rfl,List.foldl_cons,readLine_end s.entries named]
        rfl
      | false => simp [emitted]
    | cons b' rest =>
      have onward := ih later ⟨s.entries ++ [readFields s.currentEntry b.fields],.blank,false⟩
      have cut : bodyLines closed (b::b'::rest) =
          b.fields.map Field.line ++ []::bodyLines closed (b'::rest) := rfl
      rw [cut,List.foldl_append,block,List.foldl_cons,readLine_end s.entries named,onward,
        List.append_assoc]
      have first := Block.read_blank (later b' List.mem_cons_self)
      cases closed with
      | true => simp [emitted,first]
      | false => simp [emitted,first]

theorem foldl_silent {lines : List Text} (silent : ∀ line ∈ lines, Text.splitOnce separator line = none)
    (s : ListingState) (idle : s.hasData = false) : lines.foldl readLine s = s := by
  induction lines with
  | nil => rfl
  | cons line rest ih =>
    obtain ⟨here,later⟩ := List.forall_mem_cons.mp silent
    have same : readLine s line = s := by
      obtain ⟨entries,entry,hasData⟩ := s
      dsimp only at idle
      rw [readLine,here,idle]
      split <;> rfl
    rw [List.foldl_cons,same,ih later]

theorem headerEntry_named : l.headerEntry.path ≠ [] := by
  intro empty
  rw [headerEntry,readFields_eq .blank l.distinct,overlay] at empty
  dsimp only at empty
  rw [l.path,Option.elim_some,cleanPath,List.map_eq_nil_iff] at empty
  exact l.named empty

theorem header_nonempty : l.header.isEmpty = false := by
  have path := l.path
  cases header : l.header with
  | nil =>
    rw [header] at path
    cases path
  | cons f rest => rfl

theorem lines_plain (line : Text) (member : line ∈ l.lines) : '\n' ∉ line ∧ line.getLast? ≠ some '\r' := by
  have empty : '\n' ∉ ([] : Text) ∧ ([] : Text).getLast? ≠ some '\r' := by decide
  have fields (fs : List Field) (line : Text) (member : line ∈ fs.map Field.line) :
      '\n' ∉ line ∧ line.getLast? ≠ some '\r' := by
    obtain ⟨f,-,rfl⟩ := List.mem_map.mp member
    exact line_plain f
  have dashes : '\n' ∉ List.replicate (l.dashes + 1) '-' ∧
      (List.replicate (l.dashes + 1) '-').getLast? ≠ some '\r' := by
    constructor
    · intro other
      exact absurd (List.eq_of_mem_replicate other) (by decide)
    · rw [List.getLast?_replicate,if_neg (Nat.succ_ne_zero _)]
      exact fun last => absurd (Option.some.inj last) (by decide)
  have body (blocks : List Block) (line : Text) (member : line ∈ bodyLines l.closed blocks) :
      '\n' ∉ line ∧ line.getLast? ≠ some '\r' := by
    induction blocks with
    | nil => exact absurd member List.not_mem_nil
    | cons b rest ih =>
      cases rest with
      | nil =>
        rw [bodyLines,List.mem_append] at member
        rcases member with inside | after
        · exact fields _ _ inside
        · split at after
          next =>
            rw [List.mem_singleton.mp after]
            exact empty
          next => exact absurd after List.not_mem_nil
      | cons b' rest =>
        have cut : bodyLines l.closed (b::b'::rest) =
            b.fields.map Field.line ++ []::bodyLines l.closed (b'::rest) := rfl
        rw [cut,List.mem_append,List.mem_cons] at member
        rcases member with inside | rfl | after
        · exact fields _ _ inside
        · exact empty
        · exact ih after
  rw [lines,List.mem_append,List.mem_append,List.mem_append,List.mem_cons] at member
  rcases member with before | inHeader | between | rfl | after
  · exact (l.silent line before).2
  · exact fields _ _ inHeader
  · split at between
    next =>
      rw [List.mem_singleton.mp between]
      exact empty
    next => exact absurd between List.not_mem_nil
  · exact dashes
  · exact body _ _ after

/-- The header goes out as a member where an empty line ends it, and into the
first member where none does. -/
theorem parsed (readable : ∀ b ∈ l.blocks, b.Readable) : parseListing l.text =
    if l.gap then l.headerEntry::emitted l.closed .blank l.blocks
    else emitted l.closed l.headerEntry l.blocks := by
  have banner := foldl_silent (fun line member => (l.silent line member).1) .start rfl
  have dashes (s : ListingState) : readLine s (List.replicate (l.dashes + 1) '-') = s := by
    have plain : Text.splitOnce separator (List.replicate (l.dashes + 1) '-') = none := by
      induction l.dashes with
      | zero => rfl
      | succ n ih =>
        rw [List.replicate_succ,Text.splitOnce,ih]
        rfl
    have nonempty : List.replicate (l.dashes + 1) '-' ≠ [] := List.cons_ne_nil _ _
    rw [readLine,if_neg nonempty,plain,Option.elim_none]
  have header : (l.header.map Field.line).foldl readLine .start = ⟨[],l.headerEntry,true⟩ := by
    rw [foldl_fields,l.header_nonempty]
    rfl
  rw [parseListing,text,Text.lines_printed l.ends l.lines_plain,lines,List.foldl_append,banner,
    List.foldl_append,header,List.foldl_append,List.foldl_cons,dashes,foldl_body l.closed readable]
  cases l.gap with
  | true =>
    rw [if_pos rfl,if_pos rfl,List.foldl_cons,readLine_end [] l.headerEntry_named]
    rfl
  | false => rfl

/-- What lets the loop report exactly the members: their paths are clean, and
either no empty line ends the header, one ends the last block and the first
block covers what the header leaves, or every member reads as the header does
and takes the place of the one before it. -/
def Readable : Prop :=
  (∀ b ∈ l.blocks, b.Readable) ∧
    if l.gap then l.blocks ≠ [] ∧ l.closed = false ∧ ∀ b ∈ l.blocks, b.member = l.headerEntry
    else ∀ first ∈ l.blocks.head?, l.closed = true ∧ first.Covers l.headerEntry

/-- A list is moved on by one place exactly where all its elements are one. -/
theorem cons_dropLast_iff {α : Type} (a : α) (xs : List α) :
    a::xs.dropLast = xs ↔ xs ≠ [] ∧ ∀ x ∈ xs, x = a := by
  induction xs generalizing a with
  | nil => simp
  | cons x rest ih =>
    cases rest with
    | nil => simp [eq_comm]
    | cons y rest =>
      rw [List.dropLast_cons_of_ne_nil (List.cons_ne_nil y rest),List.cons.injEq,ih x]
      constructor
      · intro shifted
        obtain ⟨first,-,later⟩ := shifted
        rw [first]
        exact ⟨List.cons_ne_nil _ _,List.forall_mem_cons.mpr ⟨rfl,later⟩⟩
      · intro all
        obtain ⟨first,later⟩ := List.forall_mem_cons.mp all.2
        rw [first]
        exact ⟨rfl,List.cons_ne_nil _ _,later⟩

variable {l}

theorem gap_iff (readable : ∀ b ∈ l.blocks, b.Readable) (h : ArchiveEntry) (closed : Bool) :
    h::emitted closed .blank l.blocks = l.members ↔
      l.blocks ≠ [] ∧ closed = false ∧ ∀ b ∈ l.blocks, b.member = h := by
  have read : emitted closed .blank l.blocks = if closed then l.members else l.members.dropLast := by
    rw [members]
    cases blocks : l.blocks with
    | nil => simp [emitted]
    | cons b rest =>
      have here := Block.read_blank (readable b (by rw [blocks]; exact List.mem_cons_self))
      rw [emitted,here]
      rfl
  rw [read]
  cases closed with
  | true =>
    have longer : h::l.members ≠ l.members := List.cons_ne_self h l.members
    simp [longer]
  | false =>
    have shift := cons_dropLast_iff h l.members
    simp only [members,ne_eq,List.map_eq_nil_iff,List.forall_mem_map] at shift
    simpa [members] using shift

theorem joined_iff (readable : ∀ b ∈ l.blocks, b.Readable) (h : ArchiveEntry) (closed : Bool) :
    emitted closed h l.blocks = l.members ↔
      ∀ first ∈ l.blocks.head?, closed = true ∧ first.Covers h := by
  rw [members]
  cases blocks : l.blocks with
  | nil => simp [emitted]
  | cons b rest =>
    have here := Block.read_iff (readable b (by rw [blocks]; exact List.mem_cons_self)) h
    cases closed with
    | true => simp [emitted,here]
    | false =>
      have shorter : (readFields h b.fields::rest.map Block.member).dropLast ≠ (b::rest).map Block.member := by
        intro same
        have lengths := congrArg List.length same
        simp at lengths
      simpa [emitted] using shorter

/-- The loop reports exactly the members of the readable listings. -/
theorem listing_parsed_iff (l : Listing) : parseListing l.text = l.members ↔ l.Readable := by
  constructor
  · intro same
    have readable : ∀ b ∈ l.blocks, b.Readable := by
      intro b member
      apply parseListing_clean l.text
      rw [same]
      exact List.mem_map_of_mem member
    refine ⟨readable,?_⟩
    rw [l.parsed readable] at same
    cases gap : l.gap with
    | true =>
      rw [gap,if_pos rfl] at same
      exact (gap_iff readable _ _).mp same
    | false =>
      rw [gap,if_neg Bool.false_ne_true] at same
      exact (joined_iff readable _ _).mp same
  · intro fit
    obtain ⟨readable,shape⟩ := fit
    rw [l.parsed readable]
    cases gap : l.gap with
    | true =>
      rw [gap,if_pos rfl] at shape
      exact (gap_iff readable _ _).mpr shape
    | false =>
      rw [gap,if_neg Bool.false_ne_true] at shape
      exact (joined_iff readable _ _).mpr shape

end Listing

/-! ### A listing as it is printed -/

def plainField (key value : Text) (plain : '=' ∉ key ∧ trim key = key ∧ '\n' ∉ key ∧ '\n' ∉ value ∧
    value.getLast? ≠ some '\r') : Field :=
  ⟨key,value,plain.1,plain.2.1,⟨plain.2.2.1,plain.2.2.2.1⟩,plain.2.2.2.2⟩

/-- The listing of an archive with one file, an empty line before the dashes. -/
def oneFile : Listing where
  banner := ["Listing archive: /tmp/list".toList,[],"--".toList]
  silent := by decide
  header := [plainField "Path".toList "/tmp/list".toList (by decide),plainField "Type".toList "7z".toList (by decide)]
  distinct := by decide
  archive := "/tmp/list".toList
  path := rfl
  named := by decide
  gap := true
  dashes := 9
  blocks := [{
    fields := [plainField "Path".toList "a = b".toList (by decide),plainField "Size".toList "3".toList (by decide)]
    distinct := by decide
    member := ⟨"a = b".toList,false,3,none⟩
    path := rfl
    size := .inl rfl
    fits := by decide
    isDir := rfl
    modified := rfl
    plainTime := by decide }]
  closed := true
  ending := ['\n']
  ends := .inl rfl

/-- The archive is reported as a member of itself. -/
theorem header_reported : ¬∀ l : Listing, parseListing l.text = l.members := by
  intro law
  have same := law oneFile
  exact absurd same (by decide +kernel)

end StorageHub.Compression
