import Mathlib.Data.List.Basic
import Mathlib.Data.List.TakeDrop

/-! Lists seen through windows: position by position masks, which a window of
the masked list undoes from the window's place on, and tables of cells of one
width, whose windows hold whole cells. -/
namespace StorageHub.Library
variable {α : Type}

/-- The elements from `start` up to `stop`, as far as there are any. -/
def window (start stop : Nat) (xs : List α) : List α := (xs.take stop).drop start

/-- The `i`th part of a list cut into parts of one width. -/
def cell (width i : Nat) (xs : List α) : List α := (xs.drop (i * width)).take width

/-- Every element changed by its position, counted from `offset`. -/
def masked (mask : Nat → α → α) (offset : Nat) (xs : List α) : List α :=
  xs.mapIdx fun i x => mask (offset + i) x

theorem length_window (start stop : Nat) (xs : List α) :
    (window start stop xs).length = min stop xs.length - start := by simp [window]

theorem window_empty {start stop : Nat} (empty : stop ≤ start) (xs : List α) :
    window start stop xs = [] := by
  apply List.eq_nil_of_length_eq_zero
  rw [length_window]
  omega

theorem getElem?_window (start stop i : Nat) (xs : List α) :
    (window start stop xs)[i]? = if start + i < stop then xs[start + i]? else none := by
  rw [window,List.getElem?_drop,List.getElem?_take]

theorem window_window {a b c d : Nat} (inside : a + d ≤ b) (xs : List α) :
    window c d (window a b xs) = window (a + c) (a + d) xs := by
  apply List.ext_getElem?
  intro i
  simp only [getElem?_window]
  by_cases before : c + i < d
  · have before' : a + (c + i) < b := by omega
    have before'' : a + c + i < a + d := by omega
    rw [if_pos before,if_pos before',if_pos before'',Nat.add_assoc]
  · have after : ¬a + c + i < a + d := by omega
    rw [if_neg before,if_neg after]

theorem window_drop (n start stop : Nat) (xs : List α) :
    window (n + start) (n + stop) xs = window start stop (xs.drop n) := by
  apply List.ext_getElem?
  intro i
  simp only [getElem?_window,List.getElem?_drop]
  by_cases before : start + i < stop
  · have before' : n + start + i < n + stop := by omega
    rw [if_pos before,if_pos before',Nat.add_assoc]
  · have after : ¬n + start + i < n + stop := by omega
    rw [if_neg before,if_neg after]

/-- A window of what follows a prefix. -/
theorem window_append_right (xs ys : List α) (start stop : Nat) :
    window (xs.length + start) (xs.length + stop) (xs ++ ys) = window start stop ys := by
  rw [window_drop,List.drop_left]

/-- A window of a prefix. -/
theorem window_append_left {xs : List α} {stop : Nat} (within : stop ≤ xs.length) (ys : List α)
    (start : Nat) : window start stop (xs ++ ys) = window start stop xs := by
  rw [window,window,List.take_append_of_le_length within]

/-! ### Masks -/

@[simp] theorem length_masked (mask : Nat → α → α) (offset : Nat) (xs : List α) :
    (masked mask offset xs).length = xs.length := by simp [masked]

theorem getElem?_masked (mask : Nat → α → α) (offset i : Nat) (xs : List α) :
    (masked mask offset xs)[i]? = xs[i]?.map (mask (offset + i)) := by
  rw [masked,List.getElem?_mapIdx]

theorem window_masked (mask : Nat → α → α) (offset start stop : Nat) (xs : List α) :
    window start stop (masked mask offset xs) = masked mask (offset + start) (window start stop xs) := by
  apply List.ext_getElem?
  intro i
  simp only [getElem?_window,getElem?_masked]
  by_cases before : start + i < stop
  · rw [if_pos before,if_pos before,Nat.add_assoc]
  · rw [if_neg before,if_neg before]
    rfl

/-- Masking twice from one place on gives back what a mask undoes. -/
theorem masked_masked {mask : Nat → α → α} (undoes : ∀ i x, mask i (mask i x) = x) (offset : Nat)
    (xs : List α) : masked mask offset (masked mask offset xs) = xs := by
  apply List.ext_getElem?
  intro i
  simp only [getElem?_masked,Option.map_map]
  cases xs[i]? with
  | none => rfl
  | some x => simp [undoes]

/-- A window of a masked list, masked again from its place on, is one of the list. -/
theorem masked_window {mask : Nat → α → α} (undoes : ∀ i x, mask i (mask i x) = x)
    (start stop : Nat) (xs : List α) :
    masked mask start (window start stop (masked mask 0 xs)) = window start stop xs := by
  rw [window_masked,Nat.zero_add,masked_masked undoes]

/-! ### Cells -/

theorem cell_window (width i : Nat) (xs : List α) :
    cell width i xs = window (i * width) (i * width + width) xs := by
  rw [cell,window,List.drop_take,Nat.add_sub_cancel_left]

/-- The cells of a window that starts at one are the cells of the list, up to
the end of the window. -/
theorem cell_of_window {width first i stop : Nat} {xs : List α}
    (whole : (first + i + 1) * width ≤ stop ∨ xs.length ≤ stop) :
    cell width i (window (first * width) stop xs) = cell width (first + i) xs := by
  have place : first * width + i * width = (first + i) * width := (Nat.add_mul first i width).symm
  have next : (first + i + 1) * width = (first + i) * width + width := Nat.succ_mul (first + i) width
  rw [cell_window,cell_window]
  apply List.ext_getElem?
  intro j
  simp only [getElem?_window]
  by_cases before : i * width + j < i * width + width
  · have before' : (first + i) * width + j < (first + i) * width + width := by omega
    have index : first * width + (i * width + j) = (first + i) * width + j := by omega
    rw [if_pos before,if_pos before',index]
    rcases whole with inside | short
    · have early : (first + i) * width + j < stop := by omega
      rw [if_pos early]
    · split
      · rfl
      · have beyond : xs.length ≤ (first + i) * width + j := by omega
        exact (List.getElem?_eq_none beyond).symm
  · have after : ¬(first + i) * width + j < (first + i) * width + width := by omega
    rw [if_neg before,if_neg after]

/-- Windows from a cell on are the same when their cells are. -/
theorem window_eq_of_cells {width first stop : Nat} (positive : 0 < width) {xs ys : List α}
    (same : ∀ i, first ≤ i → i * width < stop → cell width i xs = cell width i ys) :
    window (first * width) stop xs = window (first * width) stop ys := by
  apply List.ext_getElem?
  intro j
  simp only [getElem?_window]
  split
  next before =>
    let place := first * width + j
    have remainder : place % width < width := Nat.mod_lt place positive
    have division : place / width * width + place % width = place := Nat.div_add_mod' place width
    have late : first ≤ place / width := (Nat.le_div_iff_mul_le positive).mpr (Nat.le_add_right _ _)
    have early : place / width * width < stop := Nat.lt_of_le_of_lt (Nat.div_mul_le_self place width) before
    have inCell (zs : List α) : (cell width (place / width) zs)[place % width]? = zs[place]? := by
      rw [cell,List.getElem?_take,if_pos remainder,List.getElem?_drop,division]
    change xs[place]? = ys[place]?
    rw [← inCell xs,← inCell ys,same _ late early]
  next => rfl

theorem length_table {width : Nat} {f : Nat → List α} (even : ∀ i, (f i).length = width) (n : Nat) :
    ((List.range n).flatMap f).length = n * width := by
  induction n with
  | zero => simp
  | succ n ih =>
    have last := even n
    rw [List.range_succ,List.flatMap_append,List.length_append,ih,Nat.succ_mul]
    simp [last]

/-- A table has in each cell the entry it was made with. -/
theorem cell_table {width : Nat} {f : Nat → List α} (even : ∀ i, (f i).length = width) {n i : Nat}
    (inside : i < n) : cell width i ((List.range n).flatMap f) = f i := by
  induction n with
  | zero => omega
  | succ n ih =>
    have size := length_table even n
    have entry := even i
    rw [List.range_succ,List.flatMap_append,cell]
    by_cases last : i = n
    · subst last
      have start : ((List.range i).flatMap f).length = i * width := size
      rw [← start,List.drop_left]
      simp [entry]
    · have before : i < n := by omega
      have room : i * width + width ≤ n * width := by
        rw [← Nat.succ_mul]
        exact Nat.mul_le_mul_right width before
      have early : i * width ≤ ((List.range n).flatMap f).length := by omega
      have rest : width ≤ (((List.range n).flatMap f).drop (i * width)).length := by
        rw [List.length_drop]
        omega
      rw [List.drop_append_of_le_length early,List.take_append_of_le_length rest]
      exact ih before

end StorageHub.Library
