import StorageHub.Library.Text

/-! The lines of a text, fields cut at a separator, and decimal numbers. -/
namespace StorageHub.Library.Text

/-- A line without the carriage return before its end. -/
def dropReturn (line : Text) : Text := if line.getLast? = some '\r' then line.dropLast else line

def linesFrom (line : Text) : Text → List Text
  | [] => if line = [] then [] else [line]
  | c::cs => if c = '\n' then dropReturn line::linesFrom [] cs else linesFrom (line ++ [c]) cs

/-- A last line need not be ended. -/
def lines (s : Text) : List Text := linesFrom [] s

/-- Cut at the first occurrence of a separator. -/
def splitOnce (separator : Text) : Text → Option (Text × Text)
  | [] => (stripPrefix separator []).map fun rest => ([],rest)
  | c::cs => ((stripPrefix separator (c::cs)).map fun rest => ([],rest)).or
      ((splitOnce separator cs).map fun cut => (c::cut.1,cut.2))

/-- A decimal number below a bound, with an optional plus sign. -/
def parseNat (bound : Nat) (s : Text) : Option Nat :=
  let digits := (stripPrefix ['+'] s).getD s
  if digits ≠ [] ∧ digits.all Char.isDigit ∧ Nat.ofDigitChars 10 digits 0 < bound then
    some (Nat.ofDigitChars 10 digits 0)
  else none

/-! ### Lines -/

/-- Lines as a program prints them, each with its end. -/
def printed (ending : Text) (all : List Text) : Text := all.flatMap fun line => line ++ ending

section
variable {line : Text}

theorem linesFrom_append (start : Text) (plain : '\n' ∉ line) (rest : Text) :
    linesFrom start (line ++ rest) = linesFrom (start ++ line) rest := by
  induction line generalizing start with
  | nil => rw [List.nil_append,List.append_nil]
  | cons c cs ih =>
    simp only [List.mem_cons,not_or] at plain
    have other : c ≠ '\n' := fun same => plain.1 same.symm
    rw [List.cons_append,linesFrom,if_neg other,ih (start ++ [c]) plain.2,List.append_assoc,
      List.singleton_append]

theorem dropReturn_plain (plain : line.getLast? ≠ some '\r') : dropReturn line = line := by
  rw [dropReturn,if_neg plain]

theorem dropReturn_return : dropReturn (line ++ ['\r']) = line := by
  rw [dropReturn,List.getLast?_concat,if_pos rfl,List.dropLast_concat]

/-- With either line end the printed lines are read back. -/
theorem lines_printed {ending : Text} (known : ending = ['\n'] ∨ ending = ['\r','\n']) {all : List Text}
    (plain : ∀ line ∈ all, '\n' ∉ line ∧ line.getLast? ≠ some '\r') :
    lines (printed ending all) = all := by
  rw [lines]
  induction all with
  | nil => rfl
  | cons line rest ih =>
    obtain ⟨here,later⟩ := List.forall_mem_cons.mp plain
    have onward := ih later
    rw [printed] at onward
    rw [printed,List.flatMap_cons,List.append_assoc,linesFrom_append [] here.1,List.nil_append]
    rcases known with rfl | rfl
    · rw [List.singleton_append,linesFrom,if_pos rfl,dropReturn_plain here.2,onward]
    · have other : '\r' ≠ '\n' := by decide
      rw [List.cons_append,linesFrom,if_neg other,List.singleton_append,linesFrom,if_pos rfl,
        dropReturn_return,onward]

end

/-! ### Fields -/

theorem stripPrefix_none {pre s : Text} (apart : ¬pre <+: s) : stripPrefix pre s = none := by
  rw [stripPrefix,if_neg]
  rw [List.isPrefixOf_iff_prefix]
  exact apart

/-- A separator with a mark that the part before it lacks is not found earlier. -/
theorem splitOnce_append {first mark : Char} {rest key : Text} (other : first ≠ mark) (absent : mark ∉ key)
    (value : Text) :
    splitOnce (first::mark::rest) (key ++ (first::mark::rest ++ value)) = some (key,value) := by
  induction key with
  | nil =>
    have cut := stripPrefix_append (first::mark::rest) value
    rw [List.cons_append] at cut
    rw [List.nil_append,List.cons_append,splitOnce,cut]
    rfl
  | cons c cs ih =>
    simp only [List.mem_cons,not_or] at absent
    have apart : ¬first::mark::rest <+: c::(cs ++ (first::mark::rest ++ value)) := by
      intro starts
      obtain ⟨-,later⟩ := List.cons_prefix_cons.mp starts
      cases cs with
      | nil =>
        rw [List.nil_append,List.cons_append,List.cons_append] at later
        exact other (List.cons_prefix_cons.mp later).1.symm
      | cons d tail =>
        rw [List.cons_append] at later
        exact absent.2 (by rw [(List.cons_prefix_cons.mp later).1]; exact List.mem_cons_self)
    rw [List.cons_append,splitOnce,stripPrefix_none apart,ih absent.2]
    rfl

/-! ### Numbers -/

theorem parseNat_shown {bound n : Nat} (small : n < bound) : parseNat bound (toString n).toList = some n := by
  have shown : (toString n).toList = Nat.toDigits 10 n := by
    rw [Nat.toString_eq_repr,Nat.toList_repr]
  have digits : ∀ c ∈ Nat.toDigits 10 n, c.isDigit = true := fun c member =>
    Nat.isDigit_of_mem_toDigits (by decide) (by decide) member
  have unsigned : stripPrefix ['+'] (Nat.toDigits 10 n) = none := by
    apply stripPrefix_none
    intro starts
    have sign := digits '+' (starts.subset List.mem_cons_self)
    exact absurd sign (by decide)
  have read : Nat.ofDigitChars 10 (Nat.toDigits 10 n) 0 = n := Nat.ofDigitChars_toDigits (by decide) (by decide)
  rw [shown,parseNat,unsigned,Option.getD_none]
  rw [if_pos ⟨Nat.toDigits_ne_nil,List.all_eq_true.mpr digits,by rw [read]; exact small⟩,read]

end StorageHub.Library.Text
