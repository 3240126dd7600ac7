import Mathlib.Data.List.Infix
import StorageHub.Library.Text

/-! The LIKE operator of SQL without an escape character: `%` stands for any
text, `_` for any one character. Letters may be compared up to ASCII case. -/
namespace StorageHub.Library.Text

def sameChar (sensitive : Bool) (c d : Char) : Bool :=
  if sensitive then c == d else c.toLower == d.toLower

def like (sensitive : Bool) : Text → Text → Bool
  | [], s => s.isEmpty
  | c::pattern, s =>
    if c = '%' then s.tails.any (like sensitive pattern)
    else
      match s with
      | [] => false
      | d::rest => (c == '_' || sameChar sensitive c d) && like sensitive pattern rest

theorem sameChar_self (sensitive : Bool) (c : Char) : sameChar sensitive c c = true := by
  cases sensitive <;> simp [sameChar]

/-- A text matches itself read as a pattern, whatever it contains. -/
theorem like_append (sensitive : Bool) (literal : Text) {pattern s : Text}
    (matched : like sensitive pattern s = true) :
    like sensitive (literal ++ pattern) (literal ++ s) = true := by
  induction literal with
  | nil => exact matched
  | cons c rest ih =>
    rw [List.cons_append,List.cons_append,like]
    split
    next =>
      apply List.any_eq_true.mpr
      exact ⟨rest ++ s,(List.mem_tails _ _).mpr (List.suffix_cons c (rest ++ s)),ih⟩
    next => simp [ih,sameChar_self]

theorem like_any (sensitive : Bool) (s : Text) : like sensitive ['%'] s = true := by
  have here : s.tails.any (like sensitive []) = true :=
    List.any_eq_true.mpr ⟨[],(List.mem_tails _ _).mpr List.nil_suffix,rfl⟩
  unfold like
  exact here

/-- Every text with a prefix matches the pattern made of it; others may too. -/
theorem like_prefix (sensitive : Bool) (pre rest : Text) :
    like sensitive (pre ++ ['%']) (pre ++ rest) = true :=
  like_append sensitive pre (like_any sensitive rest)

private theorem toLower_slash {c : Char} (lowered : c.toLower = '/') : c = '/' := by
  unfold Char.toLower at lowered
  split at lowered
  next upper =>
    obtain ⟨low,high⟩ := upper
    have shifted : c.val + ('a'.val - 'A'.val) = '/'.val := congrArg Char.val lowered
    have bound : c.val.toNat ≤ 90 := high
    have sum : (c.val + 32).toNat = 47 := congrArg UInt32.toNat shifted
    rw [UInt32.toNat_add] at sum
    have floor : 65 ≤ c.val.toNat := low
    have value : (32 : UInt32).toNat = 32 := rfl
    rw [value] at sum
    omega
  next => exact lowered

theorem sameChar_slash {sensitive : Bool} {d : Char} : sameChar sensitive '/' d = true ↔ d = '/' := by
  constructor
  · intro same
    rw [sameChar] at same
    cases sensitive with
    | true => exact (beq_iff_eq.mp same).symm
    | false => exact toLower_slash (beq_iff_eq.mp same).symm
  · intro here
    rw [here]
    exact sameChar_self sensitive '/'

/-- A slash of a pattern stands for a slash. -/
theorem like_slash {sensitive : Bool} {pattern s : Text} :
    like sensitive ('/'::pattern) s = true ↔ ∃ rest, s = '/'::rest ∧ like sensitive pattern rest = true := by
  have literal : ('/' == '_') = false := by decide
  cases s with
  | nil =>
    rw [like,if_neg (by decide)]
    simp
  | cons d rest =>
    rw [like,if_neg (by decide),literal,Bool.false_or,Bool.and_eq_true,sameChar_slash]
    constructor
    · intro ⟨same,matched⟩
      exact ⟨rest,by rw [same],matched⟩
    · intro ⟨tail,split,matched⟩
      obtain ⟨first,same⟩ := List.cons.inj split
      exact ⟨first,by rw [same]; exact matched⟩

/-- A text has at least the slashes of a pattern it matches. -/
theorem like_slashes {sensitive : Bool} {pattern s : Text} (matched : like sensitive pattern s = true) :
    pattern.count '/' ≤ s.count '/' := by
  induction pattern generalizing s with
  | nil => simp
  | cons c rest ih =>
    unfold like at matched
    split at matched
    next any =>
      obtain ⟨suffix,inside,matched⟩ := List.any_eq_true.mp matched
      have shorter : suffix.count '/' ≤ s.count '/' :=
        ((List.mem_tails _ _).mp inside).sublist.count_le '/'
      have counted : (c::rest).count '/' = rest.count '/' := by simp [any]
      have fewer := ih matched
      omega
    next =>
      cases s with
      | nil => cases matched
      | cons d tail =>
        rw [Bool.and_eq_true] at matched
        obtain ⟨head,matched⟩ := matched
        have fewer := ih matched
        by_cases slash : c = '/'
        · have same : d = '/' := by
            subst slash
            have literal : ('/' == '_') = false := by decide
            rw [literal,Bool.false_or,sameChar] at head
            cases sensitive with
            | true => exact (beq_iff_eq.mp head).symm
            | false => exact toLower_slash (beq_iff_eq.mp head).symm
          simp only [slash,same,List.count_cons_self]
          omega
        · have counted : (c::rest).count '/' = rest.count '/' := 
            List.count_cons_of_ne slash
          have counted' : tail.count '/' ≤ (d::tail).count '/' := List.count_le_count_cons
          omega

/-- A path never matches the pattern of what lies below it. -/
theorem not_like_self (sensitive : Bool) (path : Text) :
    like sensitive (path ++ ['/','%']) path = false := by
  rw [Bool.eq_false_iff]
  intro matched
  have slashes := like_slashes matched
  rw [List.count_append] at slashes
  have positive : List.count '/' ['/','%'] = 1 := rfl
  omega

example : like true "/a_b/%".toList "/axb/c".toList = true := by decide

end StorageHub.Library.Text
