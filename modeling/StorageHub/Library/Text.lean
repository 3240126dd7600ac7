import Mathlib.Algebra.Ring.Nat
import Mathlib.Data.List.DropRight

/-! Text as a list of characters, with the string operations programs write
path code in: searching, trimming and splitting at a character. -/
namespace StorageHub.Library

abbrev Text := List Char

namespace Text

def startsWith (pre s : Text) : Bool := pre.isPrefixOf s

def endsWith (post s : Text) : Bool := post.isSuffixOf s

def contains (pattern : Text) : Text → Bool
  | [] => pattern.isEmpty
  | c::cs => pattern.isPrefixOf (c::cs) || contains pattern cs

def stripPrefix (pre s : Text) : Option Text :=
  if pre.isPrefixOf s then some (s.drop pre.length) else none

/-- The rest after the first occurrence of a pattern. -/
def afterFirst (pattern : Text) : Text → Option Text
  | [] => stripPrefix pattern []
  | c::cs =>
    match stripPrefix pattern (c::cs) with
    | some rest => some rest
    | none => afterFirst pattern cs

def trimStart (c : Char) (s : Text) : Text := s.dropWhile (· == c)

def trimEnd (c : Char) (s : Text) : Text := s.rdropWhile (· == c)

/-- The part after the last occurrence of a character, or the whole text. -/
def afterLast (c : Char) (s : Text) : Text := s.rtakeWhile (· != c)

/-- Splits at the last occurrence of a character. -/
def rsplitOnce (c : Char) (s : Text) : Option (Text × Text) :=
  if c ∈ s then some ((s.rdropWhile (· != c)).dropLast,afterLast c s) else none

/-- What remains after a number of bytes of the UTF-8 form, or nothing when
that is not the boundary of a character. -/
def dropBytes : Nat → Text → Option Text
  | 0, s => some s
  | _ + 1, [] => none
  | n + 1, c::cs => if c.utf8Size ≤ n + 1 then dropBytes (n + 1 - c.utf8Size) cs else none

def byteLength (s : Text) : Nat := (s.map Char.utf8Size).sum

/-- Every occurrence of a pattern replaced, from the left. -/
def replaceAll (pattern replacement : Text) : Nat → Text → Text
  | 0, s => s
  | _ + 1, [] => []
  | fuel + 1, c::cs =>
    if pattern ≠ [] ∧ pattern.isPrefixOf (c::cs) = true then
      replacement ++ replaceAll pattern replacement fuel ((c::cs).drop pattern.length)
    else c::replaceAll pattern replacement fuel cs

def replace (pattern replacement s : Text) : Text := replaceAll pattern replacement s.length s

/-- `to_ascii_lowercase`. -/
def toAsciiLowercase (s : Text) : Text := s.map Char.toLower

/-- A slice after the bytes of a prefix. -/
theorem dropBytes_append (pre rest : Text) : dropBytes (byteLength pre) (pre ++ rest) = some rest := by
  induction pre with
  | nil => simp [byteLength,dropBytes]
  | cons c tail ih =>
    have counted : byteLength (c::tail) = c.utf8Size + byteLength tail := by simp [byteLength]
    have positive : 0 < c.utf8Size := c.utf8Size_pos
    obtain ⟨n,size⟩ : ∃ n, c.utf8Size + byteLength tail = n + 1 :=
      ⟨c.utf8Size + byteLength tail - 1,by omega⟩
    have left : n + 1 - c.utf8Size = byteLength tail := by omega
    rw [counted,size,List.cons_append,dropBytes,if_pos (by omega),left,ih]

theorem startsWith_iff {pre s : Text} : startsWith pre s = true ↔ pre <+: s := by
  simp [startsWith]

theorem stripPrefix_append (pre s : Text) : stripPrefix pre (pre ++ s) = some s := by
  simp [stripPrefix]

theorem stripPrefix_some {pre s rest : Text} (found : stripPrefix pre s = some rest) :
    s = pre ++ rest := by
  unfold stripPrefix at found
  split at found
  next isPrefix =>
    cases Option.some.inj found
    exact (List.prefix_iff_eq_append.mp (List.isPrefixOf_iff_prefix.mp isPrefix)).symm
  next => contradiction

/-- What stands before the last separator has no say in what comes after it. -/
theorem afterLast_append {c : Char} (pre : Text) {s : Text} (present : c ∈ s) :
    afterLast c (pre ++ s) = afterLast c s := by
  have stops : (s.reverse.takeWhile (· != c)).length ≠ s.reverse.length := by
    intro same
    have all := List.all_takeWhile (l := s.reverse) (p := (· != c))
    have whole : s.reverse.takeWhile (· != c) = s.reverse :=
      (List.takeWhile_prefix _).eq_of_length same
    rw [whole,List.all_eq_true] at all
    have differs := all c (List.mem_reverse.mpr present)
    simp at differs
  rw [afterLast,afterLast,List.rtakeWhile,List.rtakeWhile,List.reverse_append,
    List.takeWhile_append,if_neg stops]

theorem rdropWhile_append {c : Char} (pre : Text) {s : Text} (present : c ∈ s) :
    (pre ++ s).rdropWhile (· != c) = pre ++ s.rdropWhile (· != c) := by
  have stops : (s.reverse.dropWhile (· != c)).isEmpty = false := by
    rw [Bool.eq_false_iff]
    intro empty
    have gone := List.isEmpty_iff.mp empty
    have all := List.dropWhile_eq_nil_iff.mp gone c (List.mem_reverse.mpr present)
    simp at all
  rw [List.rdropWhile,List.rdropWhile,List.reverse_append,List.dropWhile_append,
    if_neg (by rw [stops]; exact Bool.false_ne_true),List.reverse_append,List.reverse_reverse]

theorem rsplitOnce_append {c : Char} (pre : Text) {s : Text} (present : c ∈ s) :
    rsplitOnce c (pre ++ s) =
      some (pre ++ (s.rdropWhile (· != c)).dropLast,afterLast c s) := by
  have remains : s.rdropWhile (· != c) ≠ [] := by
    intro gone
    have all := List.rdropWhile_eq_nil_iff.mp gone c present
    simp at all
  rw [rsplitOnce,if_pos (List.mem_append_right pre present),afterLast_append pre present,
    rdropWhile_append pre present,List.dropLast_append_of_ne_nil remains]

theorem rsplitOnce_some {c : Char} {s parent name : Text} (cut : rsplitOnce c s = some (parent,name)) :
    s = parent ++ c::name ∧ c ∉ name := by
  unfold rsplitOnce at cut
  split at cut
  next present =>
    cases cut
    have remains : s.rdropWhile (· != c) ≠ [] := by
      intro gone
      have all := List.rdropWhile_eq_nil_iff.mp gone c present
      simp at all
    have last : (s.rdropWhile (· != c)).getLast remains = c := by
      have stops := List.rdropWhile_last_not (· != c) s remains
      simpa using stops
    have front := List.dropLast_append_getLast remains
    rw [last] at front
    constructor
    · rw [afterLast,← List.singleton_append,← List.append_assoc,front]
      exact List.rdropWhile_append_rtakeWhile.symm
    · intro inside
      have other := List.mem_rtakeWhile_imp inside
      simp at other
  next => cases cut

/-- The part before a separator that it does not contain is determined. -/
theorem before_separator {c : Char} {a b rest other : Text} (absent : c ∉ a) (absent' : c ∉ b)
    (same : a ++ c::rest = b ++ c::other) : a = b := by
  induction a generalizing b with
  | nil =>
    cases b with
    | nil => rfl
    | cons d tail =>
      simp only [List.nil_append,List.cons_append,List.cons.injEq] at same
      exact absurd (by simp [same.1]) absent'
  | cons d tail ih =>
    cases b with
    | nil =>
      simp only [List.nil_append,List.cons_append,List.cons.injEq] at same
      exact absurd (by simp [same.1]) absent
    | cons e tail' =>
      simp only [List.cons_append,List.cons.injEq] at same
      simp only [List.mem_cons,not_or] at absent absent'
      rw [same.1,ih absent.2 absent'.2 same.2]

end Text
end StorageHub.Library
