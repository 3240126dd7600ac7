import Mathlib.Data.List.Perm.Basic
import Mathlib.Data.List.Nodup
import Mathlib.Data.List.Sort
import Mathlib.Data.Nat.Init
import StorageHub.Library.Windows

/-! Sorted queries for one page at a time. Each query puts rows that are equal
under its sort key in an order of its own, so that the pages need not fit
together. -/
namespace StorageHub.Library

namespace Paging
variable {α : Type} {cmp : α → α → Ordering} {rows : List α} {size : Nat}

/-- A list of the rows that a sorted query may give. -/
structure Arranges (cmp : α → α → Ordering) (rows arranged : List α) : Prop where
  perm : arranged.Perm rows
  sorted : arranged.Pairwise fun a b => (cmp a b).isLE = true

/-- How many rows stand before those equal to `r`. -/
def before (cmp : α → α → Ordering) (rows : List α) (r : α) : Nat := rows.countP fun a => cmp a r == .lt

/-- How many rows there are up to the last one equal to `r`. -/
def upTo (cmp : α → α → Ordering) (rows : List α) (r : α) : Nat := rows.countP fun a => (cmp a r).isLE

/-- No page begins among rows that are equal under the sort key. -/
def Separated (cmp : α → α → Ordering) (rows : List α) (size : Nat) : Prop :=
  ∀ r ∈ rows, ∀ k, ¬(before cmp rows r < k * size ∧ k * size < upTo cmp rows r)

/-- The pages up to a number, each cut from the list its own query saw. -/
def pages (size n : Nat) (arranged : Nat → List α) : List α :=
  (List.range n).flatMap fun k => cell size k (arranged k)

section sorted
variable [Std.TransCmp cmp]

theorem arranges_mergeSort {arranged : List α} (perm : arranged.Perm rows) :
    Arranges cmp rows (arranged.mergeSort fun a b => (cmp a b).isLE) where
  perm := (List.mergeSort_perm _ _).trans perm
  sorted := by
    apply List.pairwise_mergeSort
    · intro a b c first second
      exact Std.TransCmp.isLE_trans first second
    · intro a b
      cases compared : cmp a b with
      | lt => rfl
      | eq => rfl
      | gt =>
        rw [Std.OrientedCmp.lt_of_gt compared]
        rfl

omit [Std.TransCmp cmp] in
theorem Arranges.mergeSort_eq {arranged : List α} (arr : Arranges cmp rows arranged) :
    arranged.mergeSort (fun a b => (cmp a b).isLE) = arranged :=
  List.mergeSort_of_pairwise arr.sorted

/-- A row stands behind those before it and within its equals. -/
theorem Arranges.bounds {front back : List α} {r : α} (arr : Arranges cmp rows (front ++ r::back)) :
    before cmp rows r ≤ front.length ∧ front.length < upTo cmp rows r := by
  have self : cmp r r = .eq := Std.ReflCmp.compare_self
  have sorted := arr.sorted
  rw [List.pairwise_append,List.pairwise_cons] at sorted
  obtain ⟨-,⟨later,-⟩,earlier⟩ := sorted
  have counted : before cmp rows r = (front ++ r::back).countP fun a => cmp a r == .lt :=
    (arr.perm.countP_eq _).symm
  have counted' : upTo cmp rows r = (front ++ r::back).countP fun a => (cmp a r).isLE :=
    (arr.perm.countP_eq _).symm
  refine ⟨?_,?_⟩
  · have none_ : (r::back).countP (fun a => cmp a r == .lt) = 0 := by
      rw [List.countP_eq_zero]
      intro a member
      rw [beq_iff_eq]
      rcases List.mem_cons.mp member with here | behind
      · rw [here,self]
        exact Ordering.noConfusion
      · exact Std.OrientedCmp.not_lt_of_isLE (later a behind)
    rw [counted,List.countP_append,none_,Nat.add_zero]
    exact List.countP_le_length
  · have all : front.countP (fun a => (cmp a r).isLE) = front.length := by
      rw [List.countP_eq_length]
      intro a member
      exact earlier a member r List.mem_cons_self
    have own : 0 < (r::back).countP fun a => (cmp a r).isLE := by
      rw [List.countP_pos_iff]
      refine ⟨r,List.mem_cons_self,?_⟩
      rw [self]
      rfl
    rw [counted',List.countP_append,all]
    omega

/-- A row placed among the equals of `r` is one of them. -/
theorem Arranges.equal {front back : List α} {s r : α} (arr : Arranges cmp rows (front ++ s::back))
    (lower : before cmp rows r ≤ front.length) (upper : front.length < upTo cmp rows r) : cmp s r = .eq := by
  have sorted := arr.sorted
  rw [List.pairwise_append,List.pairwise_cons] at sorted
  obtain ⟨-,⟨later,-⟩,earlier⟩ := sorted
  cases compared : cmp s r with
  | eq => rfl
  | lt =>
    have all : (front ++ [s]).countP (fun a => cmp a r == .lt) = (front ++ [s]).length := by
      rw [List.countP_eq_length]
      intro a member
      rw [beq_iff_eq]
      rcases List.mem_append.mp member with ahead | here
      · exact Std.TransCmp.lt_of_isLE_of_lt (earlier a ahead s List.mem_cons_self) compared
      · rw [List.mem_singleton.mp here]
        exact compared
    have counted : before cmp rows r = (front ++ s::back).countP fun a => cmp a r == .lt :=
      (arr.perm.countP_eq _).symm
    rw [← List.singleton_append,← List.append_assoc,List.countP_append,all,List.length_append,
      List.length_singleton] at counted
    omega
  | gt =>
    have none_ : (s::back).countP (fun a => (cmp a r).isLE) = 0 := by
      rw [List.countP_eq_zero]
      intro a member
      have above : cmp r s = .lt := Std.OrientedCmp.lt_of_gt compared
      rcases List.mem_cons.mp member with here | behind
      · rw [here]
        exact Std.OrientedCmp.not_isLE_of_lt above
      · exact Std.OrientedCmp.not_isLE_of_lt (Std.TransCmp.lt_of_lt_of_isLE above (later a behind))
    have counted : upTo cmp rows r = (front ++ s::back).countP fun a => (cmp a r).isLE :=
      (arr.perm.countP_eq _).symm
    have bound : front.countP (fun a => (cmp a r).isLE) ≤ front.length := List.countP_le_length
    rw [List.countP_append,none_] at counted
    omega

/-- A cut that goes through no equals leaves the same rows on each side. -/
theorem Arranges.take_eq {arranged : List α} (arr : Arranges cmp rows arranged) {m : Nat}
    (apart : ∀ r ∈ rows, ¬(before cmp rows r < m ∧ m < upTo cmp rows r)) :
    arranged.take m = arranged.filter fun r => decide (upTo cmp rows r ≤ m) := by
  have ahead : (arranged.take m).filter (fun r => decide (upTo cmp rows r ≤ m)) = arranged.take m := by
    rw [List.filter_eq_self]
    intro r member
    obtain ⟨front,back,split⟩ := List.append_of_mem member
    have whole : arranged = front ++ r::(back ++ arranged.drop m) := by
      rw [← List.cons_append,← List.append_assoc,← split,List.take_append_drop]
    have room := List.length_take_le m arranged
    rw [split,List.length_append,List.length_cons] at room
    have placed := arr
    rw [whole] at placed
    obtain ⟨lower,-⟩ := placed.bounds
    have inside : r ∈ rows := arr.perm.mem_iff.mp (List.mem_of_mem_take member)
    have through := apart r inside
    rw [decide_eq_true_eq]
    omega
  have behind : (arranged.drop m).filter (fun r => decide (upTo cmp rows r ≤ m)) = [] := by
    rw [List.filter_eq_nil_iff]
    intro r member
    obtain ⟨front,back,split⟩ := List.append_of_mem member
    have whole : arranged = (arranged.take m ++ front) ++ r::back := by
      rw [List.append_assoc,← split,List.take_append_drop]
    have long : m ≤ arranged.length := by
      by_contra short
      rw [List.drop_eq_nil_of_le (by omega)] at member
      exact List.not_mem_nil member
    have placed := arr
    rw [whole] at placed
    obtain ⟨-,upper⟩ := placed.bounds
    rw [List.length_append,List.length_take,Nat.min_eq_left long] at upper
    rw [decide_eq_true_eq]
    omega
  have parts := List.filter_append (p := fun r => decide (upTo cmp rows r ≤ m)) (arranged.take m) (arranged.drop m)
  rw [List.take_append_drop,ahead,behind,List.append_nil] at parts
  exact parts.symm

theorem Arranges.take_perm {arranged arranged' : List α} (arr : Arranges cmp rows arranged)
    (arr' : Arranges cmp rows arranged') {m : Nat}
    (apart : ∀ r ∈ rows, ¬(before cmp rows r < m ∧ m < upTo cmp rows r)) :
    (arranged.take m).Perm (arranged'.take m) := by
  rw [arr.take_eq apart,arr'.take_eq apart]
  exact (arr.perm.trans arr'.perm.symm).filter _

end sorted

theorem length_cell (size k : Nat) (all : List α) : (cell size k all).length = min size (all.length - k * size) := by
  rw [cell,List.length_take,List.length_drop]

theorem pages_succ (size n : Nat) (arranged : Nat → List α) :
    pages size (n + 1) arranged = pages size n arranged ++ cell size n (arranged n) := by
  rw [pages,List.range_succ,List.flatMap_append,List.flatMap_singleton,pages]

/-- Pages of one list, from any of them on, are what is left of the list. -/
theorem cells_drop (size start n : Nat) (arranged : List α) :
    (List.range n).flatMap (fun k => cell size (start + k) arranged) =
      (arranged.drop (start * size)).take (n * size) := by
  induction n with
  | zero => simp
  | succ n ih =>
    have place : (start + n) * size = n * size + start * size := by
      rw [Nat.add_mul,Nat.add_comm]
    rw [List.range_succ,List.flatMap_append,List.flatMap_singleton,ih,cell,Nat.succ_mul,List.take_add,
      List.drop_drop,place,Nat.add_comm (n * size)]

variable [Std.TransCmp cmp]

/-- Without a cut among equals the pages of any queries hold each row once. -/
theorem pages_perm (separated : Separated cmp rows size) {arranged : Nat → List α}
    (arr : ∀ k, Arranges cmp rows (arranged k)) (n : Nat) :
    (pages size n arranged).Perm ((arranged n).take (n * size)) := by
  induction n with
  | zero =>
    rw [Nat.zero_mul,List.take_zero]
    exact List.Perm.refl _
  | succ n ih =>
    have whole : pages size (n + 1) arranged = pages size n arranged ++ cell size n (arranged n) :=
      pages_succ size n arranged
    have joined : (arranged n).take (n * size) ++ cell size n (arranged n) = (arranged n).take ((n + 1) * size) := by
      rw [Nat.succ_mul,List.take_add,cell]
    have next := (arr n).take_perm (arr (n + 1)) fun r member => separated r member (n + 1)
    rw [whole]
    apply (ih.append_right _).trans
    rw [joined]
    exact next

theorem pages_complete (separated : Separated cmp rows size) {arranged : Nat → List α}
    (arr : ∀ k, Arranges cmp rows (arranged k)) {n : Nat} (enough : rows.length ≤ n * size) :
    (pages size n arranged).Perm rows := by
  have all := pages_perm separated arr n
  rw [List.take_of_length_le (by rw [(arr n).perm.length_eq]; exact enough)] at all
  exact all.trans (arr n).perm

omit [Std.TransCmp cmp] in
/-- Two equals that stand side by side may change places. -/
theorem Arranges.swap {front back : List α} {x y : α} (arr : Arranges cmp rows (front ++ x::y::back))
    (equal : cmp y x = .eq) : Arranges cmp rows (front ++ y::x::back) where
  perm := ((List.Perm.swap x y back).append_left front).trans arr.perm
  sorted := by
    have sorted := arr.sorted
    rw [List.pairwise_append,List.pairwise_cons,List.pairwise_cons] at sorted
    obtain ⟨first,⟨behindX,behindY,rest⟩,earlier⟩ := sorted
    have ordered : (cmp y x).isLE = true := by
      rw [equal]
      rfl
    rw [List.pairwise_append,List.pairwise_cons,List.pairwise_cons]
    refine ⟨first,⟨?_,?_,rest⟩,?_⟩
    · intro a member
      rcases List.mem_cons.mp member with here | later
      · rw [here]
        exact ordered
      · exact behindY a later
    · intro a member
      exact behindX a (List.mem_cons_of_mem _ member)
    · intro a ahead b member
      apply earlier a ahead b
      rcases List.mem_cons.mp member with here | later
      · rw [here]
        exact List.mem_cons_of_mem _ List.mem_cons_self
      · rcases List.mem_cons.mp later with here | beyond
        · rw [here]
          exact List.mem_cons_self
        · exact List.mem_cons_of_mem _ (List.mem_cons_of_mem _ beyond)

omit [Std.TransCmp cmp] in
theorem upTo_le_length (r : α) : upTo cmp rows r ≤ rows.length := List.countP_le_length

/-- A cut among equals loses a row when the queries on its two sides order them
differently. -/
theorem row_lost (distinct : rows.Nodup) {r : α} {k : Nat}
    (lower : before cmp rows r < k * size) (upper : k * size < upTo cmp rows r) {n : Nat}
    (enough : rows.length ≤ n * size) :
    ∃ arranged : Nat → List α, (∀ k, Arranges cmp rows (arranged k)) ∧ ¬(pages size n arranged).Perm rows := by
  have bound : k * size < rows.length := Nat.lt_of_lt_of_le upper (upTo_le_length r)
  obtain ⟨sorted,arr⟩ : ∃ sorted, Arranges cmp rows sorted := ⟨_,arranges_mergeSort (List.Perm.refl rows)⟩
  have long : k * size < sorted.length := by
    rw [arr.perm.length_eq]
    exact bound
  -- The last row of one page and the first of the next.
  obtain ⟨front,x,y,back,split,place⟩ : ∃ front x y back, sorted = front ++ x::y::back ∧
      front.length + 1 = k * size := by
    have split := List.take_append_drop (k * size - 1) sorted
    have left : (sorted.drop (k * size - 1)).length = sorted.length - (k * size - 1) := List.length_drop
    cases cut : sorted.drop (k * size - 1) with
    | nil =>
      rw [cut,List.length_nil] at left
      omega
    | cons x rest =>
      cases rest with
      | nil =>
        rw [cut,List.length_singleton] at left
        omega
      | cons y back =>
        rw [cut] at split
        refine ⟨_,x,y,back,split.symm,?_⟩
        rw [List.length_take]
        omega
  rw [split] at arr
  have first : cmp x r = .eq := arr.equal (by omega) (by omega)
  have second : cmp y r = .eq := by
    have shifted := arr
    rw [← List.singleton_append,← List.append_assoc] at shifted
    apply shifted.equal
    · rw [List.length_append,List.length_singleton]
      omega
    · rw [List.length_append,List.length_singleton]
      omega
  have arr' := arr.swap (Std.TransCmp.eq_trans second (Std.OrientedCmp.eq_symm first))
  refine ⟨fun j => if j < k then front ++ x::y::back else front ++ y::x::back,?_,?_⟩
  · intro j
    dsimp only
    split
    · exact arr
    · exact arr'
  · intro perm
    have within : k < n := Nat.lt_of_mul_lt_mul_right (Nat.lt_of_lt_of_le bound enough)
    have count : n = k + (n - k) := by omega
    have early : (List.range k).flatMap (fun j => cell size j (if j < k then front ++ x::y::back
        else front ++ y::x::back)) = front ++ [x] := by
      have same : ∀ j ∈ List.range k, cell size j (if j < k then front ++ x::y::back else front ++ y::x::back) =
          cell size (0 + j) (front ++ x::y::back) := by
        intro j member
        rw [if_pos (List.mem_range.mp member),Nat.zero_add]
      rw [List.flatMap_congr same,cells_drop,Nat.zero_mul,List.drop_zero,← List.singleton_append,
        ← List.append_assoc]
      apply List.take_left'
      rw [List.length_append,List.length_singleton,place]
    have late : ((List.range (n - k)).map (k + ·)).flatMap (fun j => cell size j (if j < k then front ++ x::y::back
        else front ++ y::x::back)) = x::back := by
      rw [List.flatMap_map]
      have same : ∀ j ∈ List.range (n - k), cell size (k + j) (if k + j < k then front ++ x::y::back
          else front ++ y::x::back) = cell size (k + j) (front ++ y::x::back) := by
        intro j _
        rw [if_neg (by omega)]
      have size' : (n - k) * size = n * size - k * size := Nat.sub_mul n k size
      rw [List.flatMap_congr same,cells_drop,← List.singleton_append,← List.append_assoc]
      have dropped : ((front ++ [y]) ++ x::back).drop (k * size) = x::back := by
        apply List.drop_left'
        rw [List.length_append,List.length_singleton,place]
      have total := arr'.perm.length_eq
      rw [List.length_append,List.length_cons,List.length_cons] at total
      rw [dropped]
      apply List.take_of_length_le
      rw [List.length_cons,size']
      omega
    rw [pages,count,List.range_add,List.flatMap_append,early,late] at perm
    have twice := perm.nodup_iff.mpr distinct
    rw [List.nodup_append] at twice
    exact twice.2.2 x (List.mem_append_right _ List.mem_cons_self) x List.mem_cons_self rfl

/-- The pages of every order of equals hold each row once exactly when no page begins
among equals. -/
theorem pages_complete_iff (distinct : rows.Nodup) {n : Nat} (enough : rows.length ≤ n * size) :
    (∀ arranged : Nat → List α, (∀ k, Arranges cmp rows (arranged k)) → (pages size n arranged).Perm rows) ↔
      Separated cmp rows size := by
  constructor
  · intro complete r _ k straddles
    obtain ⟨arranged,arr,lost⟩ := row_lost distinct straddles.1 straddles.2 enough
    exact lost (complete arranged arr)
  · intro separated arranged arr
    exact pages_complete separated arr enough

/-! ### Sorting twice -/

section twice
variable {tie : α → α → Ordering}

theorem sublist_pair_or {l : List α} {a b : α} (first : a ∈ l) (second : b ∈ l) (differ : a ≠ b) :
    [a,b].Sublist l ∨ [b,a].Sublist l := by
  induction l with
  | nil => exact absurd first List.not_mem_nil
  | cons x rest ih =>
    rcases List.mem_cons.mp first with here | later
    · rcases List.mem_cons.mp second with there | later'
      · exact absurd (here.trans there.symm) differ
      · left
        rw [here]
        exact (List.singleton_sublist.mpr later').cons_cons x
    · rcases List.mem_cons.mp second with there | later'
      · right
        rw [there]
        exact (List.singleton_sublist.mpr later).cons_cons x
      · exact (ih later later').imp (·.cons x) (·.cons x)

theorem sublist_pair_one {l : List α} {a b : α} (distinct : l.Nodup) (ab : [a,b].Sublist l) : ¬[b,a].Sublist l := by
  intro ba
  have differ : a ≠ b := List.Pairwise.forall_sublist distinct ab
  induction l with
  | nil => cases ab
  | cons x rest ih =>
    rw [List.nodup_cons] at distinct
    rcases List.sublist_cons_iff.mp ab with inner | ⟨tail,same,inner⟩
    · rcases List.sublist_cons_iff.mp ba with inner' | ⟨tail',same',inner'⟩
      · exact ih distinct.2 inner inner'
      · obtain ⟨rfl,rfl⟩ := List.cons.inj same'
        exact distinct.1 (inner.subset (List.mem_cons_of_mem _ List.mem_cons_self))
    · obtain ⟨rfl,rfl⟩ := List.cons.inj same
      rcases List.sublist_cons_iff.mp ba with inner' | ⟨tail',same',inner'⟩
      · exact distinct.1 (inner'.subset (List.mem_cons_of_mem _ List.mem_cons_self))
      · obtain ⟨rfl,rfl⟩ := List.cons.inj same'
        exact differ rfl

theorem pair_mergeSort {l : List α} {a b : α} (ordered : (cmp a b).isLE = true) (pair : [a,b].Sublist l) :
    [a,b].Sublist (l.mergeSort fun a b => (cmp a b).isLE) := by
  apply List.pair_sublist_mergeSort _ _ ordered pair
  · intro a b c first second
    exact Std.TransCmp.isLE_trans first second
  · intro a b
    cases compared : cmp a b with
    | lt => rfl
    | eq => rfl
    | gt =>
      rw [Std.OrientedCmp.lt_of_gt compared]
      rfl

/-- A list sorted by a tie breaker and then by a key is sorted by both. -/
theorem arranges_resort {l : List α} (distinct : rows.Nodup) (arr : Arranges tie rows l) :
    Arranges (compareLex cmp tie) rows (l.mergeSort fun a b => (cmp a b).isLE) := by
  have sorted : Arranges cmp rows (l.mergeSort fun a b => (cmp a b).isLE) := arranges_mergeSort arr.perm
  refine ⟨sorted.perm,?_⟩
  apply List.pairwise_of_forall_sublist
  intro a b pair
  have lower := sorted.sorted.forall_sublist pair
  rw [compareLex]
  cases compared : cmp a b with
  | lt => rfl
  | gt =>
    rw [compared] at lower
    cases lower
  | eq =>
    have nodup : (l.mergeSort fun a b => (cmp a b).isLE).Nodup := sorted.perm.nodup_iff.mpr distinct
    have differ : a ≠ b := List.Pairwise.forall_sublist nodup pair
    have inside : a ∈ l := List.mem_mergeSort.mp (pair.subset List.mem_cons_self)
    have inside' : b ∈ l := List.mem_mergeSort.mp (pair.subset (List.mem_cons_of_mem _ List.mem_cons_self))
    rcases sublist_pair_or inside inside' differ with same | other
    · exact arr.sorted.forall_sublist same
    · have turned : (cmp b a).isLE = true := by
        rw [Std.OrientedCmp.eq_symm compared]
        rfl
      exact absurd (pair_mergeSort turned other) (sublist_pair_one nodup pair)

/-- Sorting by the tie breaker and again by the key gives back what both had sorted. -/
theorem resort_eq [Std.TransCmp tie] {l : List α} (distinct : rows.Nodup)
    (arr : Arranges (compareLex cmp tie) rows l) :
    (l.mergeSort fun a b => (tie a b).isLE).mergeSort (fun a b => (cmp a b).isLE) = l := by
  have nodup : l.Nodup := arr.perm.nodup_iff.mpr distinct
  have perm : ((l.mergeSort fun a b => (tie a b).isLE).mergeSort fun a b => (cmp a b).isLE).Perm l :=
    (List.mergeSort_perm _ _).trans (List.mergeSort_perm _ _)
  have nodup' := perm.nodup_iff.mpr nodup
  have sorted : Arranges cmp l ((l.mergeSort fun a b => (tie a b).isLE).mergeSort fun a b => (cmp a b).isLE) :=
    arranges_mergeSort (List.mergeSort_perm _ _)
  -- Both lists are ordered by which of two elements comes first in the sorted one.
  have first : ((l.mergeSort fun a b => (tie a b).isLE).mergeSort fun a b => (cmp a b).isLE).Pairwise
      fun a b => [a,b].Sublist l := by
    apply List.pairwise_of_forall_sublist
    intro a b pair
    have differ : a ≠ b := List.Pairwise.forall_sublist nodup' pair
    have inside : a ∈ l := perm.mem_iff.mp (pair.subset List.mem_cons_self)
    have inside' : b ∈ l := perm.mem_iff.mp (pair.subset (List.mem_cons_of_mem _ List.mem_cons_self))
    rcases sublist_pair_or inside inside' differ with same | other
    · exact same
    · have both := arr.sorted.forall_sublist other
      have lower := sorted.sorted.forall_sublist pair
      rw [compareLex] at both
      cases compared : cmp b a with
      | lt => exact absurd lower (Std.OrientedCmp.not_isLE_of_lt compared)
      | gt =>
        rw [compared] at both
        cases both
      | eq =>
        rw [compared] at both
        have equal : (cmp b a).isLE = true := by
          rw [compared]
          rfl
        have kept := pair_mergeSort equal (pair_mergeSort both other)
        exact absurd kept (sublist_pair_one nodup' pair)
  have second : l.Pairwise fun a b => [a,b].Sublist l := List.pairwise_of_forall_sublist fun pair => pair
  apply List.Perm.eq_of_pairwise _ first second perm
  intro a b _ _ ab ba
  exact absurd ba (sublist_pair_one nodup ab)

end twice

/-! ### Pages with totals -/

section totals
variable {β : Type}

def pageCount (total size : Nat) : Nat := (total + size - 1) / size

/-- Pages, each with the total it was given, are the pages of a list. -/
structure PagesOf (all : List β) (size : Nat) (page : Nat → List β × Int) : Prop where
  total : ∀ k, k = 0 ∨ k < pageCount all.length size → (page k).2 = all.length
  whole : ((List.range (pageCount all.length size)).flatMap fun k => (page k).1).Perm all
  full : ∀ k, k + 1 < pageCount all.length size → (page k).1.length = size

theorem pageCount_enough (positive : 0 < size) (total : Nat) : total ≤ pageCount total size * size := by
  have low : total + size - 1 < (total + size - 1) / size * size + size := Nat.lt_div_mul_add positive
  rw [pageCount]
  omega

theorem page_inside (positive : 0 < size) {total k : Nat} (within : k < pageCount total size) : k * size < total := by
  have least : (k + 1) * size ≤ total + size - 1 := (Nat.le_div_iff_mul_le positive).mp within
  rw [Nat.succ_mul] at least
  omega

theorem PagesOf.congr {all : List β} {page page' : Nat → List β × Int} (held : PagesOf all size page)
    (same : ∀ k, k = 0 ∨ k < pageCount all.length size → page' k = page k) : PagesOf all size page' where
  total k asked := by
    rw [same k asked]
    exact held.total k asked
  whole := by
    have pages : (List.range (pageCount all.length size)).flatMap (fun k => (page' k).1) =
        (List.range (pageCount all.length size)).flatMap fun k => (page k).1 := by
      apply List.flatMap_congr
      intro k member
      rw [same k (.inr (List.mem_range.mp member))]
    rw [pages]
    exact held.whole
  full k asked := by
    rw [same k (.inr (by omega))]
    exact held.full k asked

/-- Pages cut from one list are those of any list with the same elements. -/
theorem pagesOf_fixed_iff (positive : 0 < size) {all arranged : List β} :
    PagesOf all size (fun k => (cell size k arranged,(arranged.length : Int))) ↔ arranged.Perm all := by
  have joined : (List.range (pageCount arranged.length size)).flatMap (fun k => cell size k arranged) = arranged := by
    have cells := cells_drop size 0 (pageCount arranged.length size) arranged
    simp only [Nat.zero_add,Nat.zero_mul,List.drop_zero] at cells
    rw [cells]
    exact List.take_of_length_le (pageCount_enough positive arranged.length)
  constructor
  · intro held
    have even : arranged.length = all.length := by
      have total : (arranged.length : Int) = all.length := held.total 0 (.inl rfl)
      exact_mod_cast total
    have whole := held.whole
    rw [← even] at whole
    dsimp only at whole
    rw [joined] at whole
    exact whole
  · intro perm
    have even := perm.length_eq
    refine ⟨?_,?_,?_⟩
    · intro k _
      exact congrArg Int.ofNat even
    · rw [← even]
      dsimp only
      rw [joined]
      exact perm
    · intro k within
      rw [← even] at within
      have inside := page_inside positive within
      rw [Nat.succ_mul] at inside
      dsimp only
      rw [length_cell]
      omega

/-- Elements of a list whose images are all its images are all its elements. -/
theorem perm_of_map_perm {f : α → β} {some_ : List α} (distinct : (rows.map f).Nodup)
    (inside : ∀ x ∈ some_, x ∈ rows) (perm : (some_.map f).Perm (rows.map f)) : some_.Perm rows := by
  have distinct' : some_.Nodup := List.Nodup.of_map f (perm.nodup_iff.mpr distinct)
  apply (List.perm_ext_iff_of_nodup distinct' (List.Nodup.of_map f distinct)).mpr
  intro x
  constructor
  · exact inside x
  · intro member
    obtain ⟨y,found,same⟩ := List.mem_map.mp (perm.mem_iff.mpr (List.mem_map_of_mem (f := f) member))
    rw [← List.inj_on_of_nodup_map distinct (inside y found) member same]
    exact found

theorem mem_of_mem_pages {n : Nat} {arranged : Nat → List α} (arr : ∀ k, (arranged k).Perm rows) {x : α}
    (member : x ∈ pages size n arranged) : x ∈ rows := by
  obtain ⟨k,-,inside⟩ := List.mem_flatMap.mp member
  exact (arr k).mem_iff.mp (List.mem_of_mem_drop (List.mem_of_mem_take inside))

theorem flatMap_pages (p : α → Bool) (f : α → β) (n : Nat) (arranged : Nat → List α) :
    (List.range n).flatMap (fun k => ((cell size k (arranged k)).filter p).map f) =
      ((pages size n arranged).filter p).map f := by
  rw [pages,List.filter_flatMap,List.map_flatMap]

/-- Pages of sorted queries that show some of their rows are those of a list exactly when
all rows are shown, the list shows them, and no page begins among equals. -/
theorem pagesOf_iff (positive : 0 < size) {f : α → β} (distinct : (rows.map f).Nodup)
    (p : α → Bool) (all : List β) :
    (∀ arranged : Nat → List α, (∀ k, Arranges cmp rows (arranged k)) →
      PagesOf all size fun k => (((cell size k (arranged k)).filter p).map f,(rows.length : Int))) ↔
    (∀ x ∈ rows, p x = true) ∧ (rows.map f).Perm all ∧ Separated cmp rows size := by
  have enough : rows.length ≤ pageCount rows.length size * size := pageCount_enough positive rows.length
  constructor
  · intro held
    obtain ⟨sorted,arr⟩ : ∃ sorted, Arranges cmp rows sorted := ⟨_,arranges_mergeSort (List.Perm.refl rows)⟩
    have once := held (fun _ => sorted) fun _ => arr
    have even : rows.length = all.length := by
      have total : (rows.length : Int) = all.length := once.total 0 (.inl rfl)
      exact_mod_cast total
    have joined : pages size (pageCount rows.length size) (fun _ => sorted) = sorted := by
      have cells := cells_drop size 0 (pageCount rows.length size) sorted
      simp only [Nat.zero_add,Nat.zero_mul,List.drop_zero] at cells
      rw [pages,cells]
      exact List.take_of_length_le (by rw [arr.perm.length_eq]; exact enough)
    have whole := once.whole
    rw [← even,flatMap_pages,joined] at whole
    have shown : ∀ x ∈ rows, p x = true := by
      have count := whole.length_eq
      rw [List.length_map,← even,← arr.perm.length_eq,List.length_filter_eq_length_iff] at count
      intro x member
      exact count x (arr.perm.mem_iff.mpr member)
    have kept : ∀ some_ : List α, (∀ x ∈ some_, x ∈ rows) → some_.filter p = some_ := by
      intro some_ inside
      rw [List.filter_eq_self]
      intro x member
      exact shown x (inside x member)
    have mapped : (rows.map f).Perm all := by
      rw [kept sorted fun x => arr.perm.mem_iff.mp] at whole
      exact (arr.perm.map f).symm.trans whole
    refine ⟨shown,mapped,?_⟩
    apply (pages_complete_iff (List.Nodup.of_map f distinct) enough).mp
    intro arranged arr'
    have inside : ∀ x ∈ pages size (pageCount rows.length size) arranged, x ∈ rows :=
      fun x => mem_of_mem_pages fun k => (arr' k).perm
    have whole' := (held arranged arr').whole
    rw [← even,flatMap_pages,kept _ inside] at whole'
    exact perm_of_map_perm distinct inside (whole'.trans mapped.symm)
  · rintro ⟨shown,mapped,separated⟩ arranged arr
    have even : all.length = rows.length := by
      rw [← mapped.length_eq,List.length_map]
    have cells (k : Nat) : (cell size k (arranged k)).filter p = cell size k (arranged k) := by
      rw [List.filter_eq_self]
      intro x member
      exact shown x ((arr k).perm.mem_iff.mp (List.mem_of_mem_drop (List.mem_of_mem_take member)))
    refine ⟨?_,?_,?_⟩
    · intro k _
      exact congrArg Int.ofNat even.symm
    · have complete : (pages size (pageCount rows.length size) arranged).Perm rows := pages_complete separated arr enough
      have kept : (pages size (pageCount rows.length size) arranged).filter p =
          pages size (pageCount rows.length size) arranged := by
        rw [List.filter_eq_self]
        intro x member
        exact shown x (complete.mem_iff.mp member)
      rw [even,flatMap_pages,kept]
      exact (complete.map f).trans mapped
    · intro k within
      rw [even] at within
      have inside := page_inside positive within
      rw [Nat.succ_mul] at inside
      dsimp only
      rw [cells,List.length_map,length_cell,(arr k).perm.length_eq]
      omega

/-- Pages that show all their rows. -/
theorem wholePages_iff {all : List α} (positive : 0 < size) (distinct : rows.Nodup) (perm : rows.Perm all) :
    (∀ arranged : Nat → List α, (∀ k, Arranges cmp rows (arranged k)) →
      PagesOf all size fun k => (cell size k (arranged k),(rows.length : Int))) ↔ Separated cmp rows size := by
  have distinct' : (rows.map id).Nodup := by
    rw [List.map_id]
    exact distinct
  have given : (∀ arranged : Nat → List α, (∀ k, Arranges cmp rows (arranged k)) →
      PagesOf all size fun k => (((cell size k (arranged k)).filter fun _ => true).map id,(rows.length : Int))) ↔
      (∀ x ∈ rows, true = true) ∧ (rows.map id).Perm all ∧ Separated cmp rows size :=
    pagesOf_iff positive distinct' (fun _ => true) all
  simp only [List.filter_true,List.map_id] at given
  rw [given]
  constructor
  · intro held
    exact held.2.2
  · intro separated
    exact ⟨fun _ _ => trivial,perm,separated⟩

end totals

/-! ### Streams of pages -/

section stream
variable {ε : Type}

/-- Pages from one on until one is not full, or a query fails. -/
def drain (fetch : Nat → Except ε (List α)) (size : Nat) : Nat → Nat → Bool → Option (List (Except ε α))
  | 0, _, _ => none
  | _ + 1, _, false => some []
  | fuel + 1, page, true =>
    match fetch page with
    | .ok items => (drain fetch size fuel (page + 1) (items.length == size)).map (items.map .ok ++ ·)
    | .error e => some [.error e]

theorem drain_from {fetch : Nat → Except ε (List α)} {arranged : Nat → List α} {total : Nat} (positive : 0 < size)
    (even : ∀ k, (arranged k).length = total)
    (fetched : ∀ k, fetch (k + 1) = .ok (cell size k (arranged k))) {n p fuel : Nat} (left : p + n = total / size)
    (enough : n + 2 ≤ fuel) : drain fetch size fuel (p + 1) true =
      some (((List.range (n + 1)).flatMap fun k => cell size (p + k) (arranged (p + k))).map .ok) := by
  obtain ⟨less,rfl⟩ : ∃ less, fuel = less + 1 := ⟨fuel - 1,by omega⟩
  have whole : total / size * size ≤ total := Nat.div_mul_le_self total size
  have rest : total < total / size * size + size := Nat.lt_div_mul_add positive
  induction n generalizing p less with
  | zero =>
    obtain ⟨last,rfl⟩ : ∃ last, less = last + 1 := ⟨less - 1,by omega⟩
    have place : p = total / size := by omega
    have short : ((cell size p (arranged p)).length == size) = false := by
      rw [length_cell,even,beq_eq_false_iff_ne,place]
      omega
    rw [drain,fetched]
    dsimp only
    rw [short]
    simp [drain]
  | succ n ih =>
    obtain ⟨less,rfl⟩ : ∃ last, less = last + 1 := ⟨less - 1,by omega⟩
    have room : (p + 1) * size ≤ total / size * size := Nat.mul_le_mul_right size (by omega)
    rw [Nat.succ_mul] at room
    have full : ((cell size p (arranged p)).length == size) = true := by
      rw [length_cell,even,beq_iff_eq]
      omega
    have later : drain fetch size (less + 1) (p + 1 + 1) true =
        some (((List.range (n + 1)).flatMap fun k => cell size (p + 1 + k) (arranged (p + 1 + k))).map .ok) :=
      ih (by omega) less (by omega)
    have shifted (k : Nat) : p + 1 + k = p + (k + 1) := by omega
    rw [drain,fetched]
    dsimp only
    have parts : List.range (n + 1 + 1) = 0::(List.range (n + 1)).map Nat.succ := List.range_succ_eq_map
    rw [full,later,Option.map_some,← List.map_append,parts,List.flatMap_cons,List.flatMap_map]
    simp only [shifted,Nat.add_zero,Nat.succ_eq_add_one]

/-- A stream ends after the page that is not full and has given the pages up to it. -/
theorem drain_pages {fetch : Nat → Except ε (List α)} {arranged : Nat → List α} {total : Nat} (positive : 0 < size)
    (even : ∀ k, (arranged k).length = total)
    (fetched : ∀ k, fetch (k + 1) = .ok (cell size k (arranged k))) {fuel : Nat}
    (enough : total / size + 2 ≤ fuel) :
    drain fetch size fuel 1 true = some ((pages size (total / size + 1) arranged).map .ok) := by
  have drained := drain_from positive even fetched (Nat.zero_add (total / size)) enough
  simp only [Nat.zero_add] at drained
  exact drained

end stream
end Paging
end StorageHub.Library
