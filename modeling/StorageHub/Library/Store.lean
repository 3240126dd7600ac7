import Mathlib

/-! Finite maps with unique keys and integer totals over their cells. Lookup,
insertion and deletion are those of association lists; a total is the sum of a
measure of each cell, and every update says by how much it changes one. -/
namespace StorageHub.Library

abbrev Store (κ ν : Type) := AList (fun _ : κ => ν)

namespace Store
variable {κ ν : Type}

def total (measure : κ → ν → Int) (s : Store κ ν) : Int :=
  (s.entries.map fun cell => measure cell.1 cell.2).sum

@[simp] theorem total_empty (measure : κ → ν → Int) : total measure (∅ : Store κ ν) = 0 := rfl

variable [DecidableEq κ]

/-- What one key adds to a total. -/
def share (measure : κ → ν → Int) (s : Store κ ν) (k : κ) : Int :=
  ((s.lookup k).map (measure k)).getD 0

variable (measure : κ → ν → Int)

theorem share_some {s : Store κ ν} {k : κ} {v : ν} (found : s.lookup k = some v) :
    share measure s k = measure k v := by simp [share,found]

theorem share_none {s : Store κ ν} {k : κ} (absent : s.lookup k = none) :
    share measure s k = 0 := by simp [share,absent]

private theorem kerase_sum (cells : List (Sigma fun _ : κ => ν)) (k : κ) :
    ((cells.kerase k).map fun cell => measure cell.1 cell.2).sum =
      (cells.map fun cell => measure cell.1 cell.2).sum -
        ((cells.dlookup k).map (measure k)).getD 0 := by
  induction cells with
  | nil => simp
  | cons cell rest ih =>
    obtain ⟨key,v⟩ := cell
    by_cases same : k = key
    · subst same
      simp
    · rw [List.kerase_cons_ne same,List.dlookup_cons_ne _ _ same]
      simp only [List.map_cons,List.sum_cons,ih]
      omega

theorem total_erase (s : Store κ ν) (k : κ) :
    total measure (s.erase k) = total measure s - share measure s k :=
  kerase_sum measure s.entries k

theorem total_insert (s : Store κ ν) (k : κ) (v : ν) :
    total measure (s.insert k v) = total measure s - share measure s k + measure k v := by
  have cells : (s.insert k v).entries = ⟨k,v⟩::s.entries.kerase k := rfl
  simp only [total,cells,List.map_cons,List.sum_cons,kerase_sum]
  simp only [share,AList.lookup]
  omega

theorem total_insert_found {s : Store κ ν} {k : κ} {old : ν} (v : ν)
    (found : s.lookup k = some old) :
    total measure (s.insert k v) = total measure s - measure k old + measure k v := by
  rw [total_insert,share_some measure found]

section nonneg
variable (nonneg : ∀ k v, 0 ≤ measure k v)
include nonneg

omit [DecidableEq κ] in
theorem total_nonneg (s : Store κ ν) : 0 ≤ total measure s := by
  apply List.sum_nonneg
  intro x member
  obtain ⟨cell,_,rfl⟩ := List.mem_map.mp member
  exact nonneg cell.1 cell.2

/-- No cell measures more than the whole. -/
theorem measure_le_total {s : Store κ ν} {k : κ} {v : ν} (found : s.lookup k = some v) :
    measure k v ≤ total measure s := by
  have rest := total_nonneg measure nonneg (s.erase k)
  rw [total_erase,share_some measure found] at rest
  omega

end nonneg

theorem total_zero {s : Store κ ν} (all : ∀ k v, s.lookup k = some v → measure k v = 0) :
    total measure s = 0 := by
  apply List.sum_eq_zero
  intro x member
  obtain ⟨cell,present,rfl⟩ := List.mem_map.mp member
  exact all cell.1 cell.2 (AList.mem_lookup_iff.mpr present)

theorem lookup_insert_eq (s : Store κ ν) (k j : κ) (v : ν) :
    (s.insert k v).lookup j = if j = k then some v else s.lookup j := by
  by_cases same : j = k
  · subst same
    simp
  · rw [AList.lookup_insert_ne same,if_neg same]

theorem lookup_erase_eq (s : Store κ ν) (k j : κ) :
    (s.erase k).lookup j = if j = k then none else s.lookup j := by
  by_cases same : j = k
  · subst same
    simp
  · rw [AList.lookup_erase_ne same,if_neg same]

/-! ### Values that a function keeps -/

section kept
variable {ν' : Type} {f : ν → Option ν'}

omit [DecidableEq κ] in
theorem mem_kept {cells : List (Sigma fun _ : κ => ν)} {k : κ} {v' : ν'} :
    ⟨k,v'⟩ ∈ (cells.filterMap fun cell => (f cell.2).map fun v => (⟨cell.1,v⟩ : Sigma fun _ : κ => ν')) ↔
      ∃ v, ⟨k,v⟩ ∈ cells ∧ f v = some v' := by
  rw [List.mem_filterMap]
  constructor
  · rintro ⟨⟨j,v⟩,member,made⟩
    obtain ⟨v'',kept,same⟩ := Option.map_eq_some_iff.mp made
    obtain ⟨rfl,rfl⟩ := Sigma.mk.inj_iff.mp same
    exact ⟨v,member,kept⟩
  · rintro ⟨v,member,kept⟩
    exact ⟨⟨k,v⟩,member,by rw [kept]; rfl⟩

/-- The cells whose values the function keeps, as it changes them. -/
def filterMap (f : ν → Option ν') (s : Store κ ν) : Store κ ν' where
  entries := s.entries.filterMap fun cell => (f cell.2).map fun v => ⟨cell.1,v⟩
  nodupKeys := by
    have nodup := s.nodupKeys
    generalize s.entries = cells at nodup
    induction cells with
    | nil => exact List.nodupKeys_nil
    | cons cell rest ih =>
      obtain ⟨fresh,nodup⟩ := List.nodupKeys_cons.mp nodup
      rw [List.filterMap_cons]
      cases f cell.2 with
      | none => exact ih nodup
      | some v =>
        refine List.nodupKeys_cons.mpr ⟨?_,ih nodup⟩
        intro member
        obtain ⟨v',inside⟩ := List.exists_of_mem_keys member
        obtain ⟨v'',there,-⟩ := mem_kept.mp inside
        have again := List.mem_keys_of_mem there
        exact fresh again

theorem lookup_filterMap (s : Store κ ν) (k : κ) : (s.filterMap f).lookup k = (s.lookup k).bind f := by
  ext v
  rw [Option.bind_eq_some_iff]
  constructor
  · intro found
    obtain ⟨v',there,kept⟩ := mem_kept.mp (AList.mem_lookup_iff.mp found)
    exact ⟨v',AList.mem_lookup_iff.mpr there,kept⟩
  · rintro ⟨v',found,kept⟩
    exact AList.mem_lookup_iff.mpr (mem_kept.mpr ⟨v',AList.mem_lookup_iff.mp found,kept⟩)

end kept

/-! ### Values under their keys -/

/-- Inserting values one after the other leaves under a key the last one that
has it. -/
theorem lookup_foldl_insert [BEq κ] [LawfulBEq κ] (key : ν → κ) (values : List ν) (s : Store κ ν) (k : κ) :
    (values.foldl (fun s v => s.insert (key v) v) s).lookup k =
      (values.reverse.find? fun v => key v == k).or (s.lookup k) := by
  induction values generalizing s with
  | nil => rfl
  | cons v rest ih =>
    rw [List.foldl_cons,ih,lookup_insert_eq,List.reverse_cons,List.find?_append]
    by_cases here : key v = k
    · simp [here]
    · have apart : k ≠ key v := fun same => here same.symm
      simp [here,apart]

/-- Among values filed under their keys one has a given key at most. -/
theorem filter_values [BEq κ] [LawfulBEq κ] {key : ν → κ} {s : Store κ ν}
    (filed : ∀ k v, s.lookup k = some v → key v = k) (k : κ) :
    (s.entries.map (·.2)).filter (fun v => key v == k) = (s.lookup k).toList := by
  have nodup := s.nodupKeys
  have filed (cell) (member : cell ∈ s.entries) : key cell.2 = cell.1 :=
    filed cell.1 cell.2 (AList.mem_lookup_iff.mpr member)
  change _ = (s.entries.dlookup k).toList
  generalize s.entries = cells at nodup filed ⊢
  induction cells with
  | nil => rfl
  | cons cell rest ih =>
    obtain ⟨j,v⟩ := cell
    obtain ⟨fresh,nodup⟩ := List.nodupKeys_cons.mp nodup
    have others := ih nodup fun cell member => filed cell (List.mem_cons_of_mem _ member)
    have here : key v = j := filed ⟨j,v⟩ List.mem_cons_self
    rw [List.map_cons,List.filter_cons,here]
    by_cases same : j = k
    · subst same
      have gone : rest.dlookup j = none := List.dlookup_eq_none.mpr fresh
      rw [others,gone,List.dlookup_cons_eq]
      simp
    · rw [List.dlookup_cons_ne _ _ (fun equal => same equal.symm)]
      simpa [same] using others

end Store
end StorageHub.Library
