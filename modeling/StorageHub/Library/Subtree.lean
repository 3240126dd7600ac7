import StorageHub.Library.Store
import StorageHub.Library.Text

/-! Stores whose keys are slash-separated paths: what lies at or below a path,
and moving it elsewhere. -/
namespace StorageHub.Library

namespace Store
variable {κ ν : Type} [DecidableEq κ]

/-- The store with every key renamed; of keys that become equal one remains. -/
def rekey (f : κ → κ) (s : Store κ ν) : Store κ ν :=
  (s.entries.map fun cell => (⟨f cell.1,cell.2⟩ : Sigma fun _ : κ => ν)).toAList

theorem lookup_rekey {f : κ → κ} {s : Store κ ν}
    (injective : ∀ p q, p ∈ s → q ∈ s → f p = f q → p = q) (k : κ) (v : ν) :
    (rekey f s).lookup k = some v ↔ ∃ p, s.lookup p = some v ∧ f p = k := by
  let renamed := s.entries.map fun cell => (⟨f cell.1,cell.2⟩ : Sigma fun _ : κ => ν)
  have unique : renamed.NodupKeys := by
    have keys : renamed.keys = s.keys.map f := by
      simp [renamed,List.keys,AList.keys,List.map_map,Function.comp_def]
    rw [List.NodupKeys,keys]
    apply s.keys_nodup.map_on
    intro p present q present' same
    exact injective p q (AList.mem_keys.mp present) (AList.mem_keys.mp present') same
  have found : (rekey f s).lookup k = renamed.dlookup k := AList.lookup_to_alist renamed
  rw [found]
  constructor
  · intro here
    have member : (⟨k,v⟩ : Sigma fun _ : κ => ν) ∈ renamed := (List.mem_dlookup_iff unique).mp here
    obtain ⟨cell,inside,same⟩ := List.mem_map.mp member
    cases same
    exact ⟨cell.1,AList.mem_lookup_iff.mpr inside,rfl⟩
  · rintro ⟨p,present,rfl⟩
    apply (List.mem_dlookup_iff unique).mpr
    exact List.mem_map.mpr ⟨⟨p,v⟩,AList.mem_lookup_iff.mp present,rfl⟩

/-- A total depends on what the lookups give alone. -/
theorem total_congr {s t : Store κ ν} (measure : κ → ν → Int)
    (same : ∀ k, s.lookup k = t.lookup k) : total measure s = total measure t := by
  have cells : s.entries.Perm t.entries := by
    apply (List.perm_ext_iff_of_nodup s.nodupKeys.nodup t.nodupKeys.nodup).mpr
    rintro ⟨k,v⟩
    rw [← AList.mem_lookup_iff,← AList.mem_lookup_iff,same k]
  exact (cells.map _).sum_eq

end Store

namespace Text

def below (root p : Text) : Bool := startsWith (root ++ ['/']) p

def within (root p : Text) : Bool := p == root || below root p

/-- Where a path goes when `src` is renamed to `dst`. -/
def relocate (src dst p : Text) : Text := if within src p then dst ++ p.drop src.length else p

theorem below_iff {root p : Text} : below root p = true ↔ ∃ rest, p = root ++ '/'::rest := by
  rw [below,startsWith_iff]
  constructor
  · rintro ⟨rest,same⟩
    exact ⟨rest,by rw [← same]; simp⟩
  · rintro ⟨rest,rfl⟩
    exact ⟨rest,by simp⟩

theorem within_iff {root p : Text} :
    within root p = true ↔ p = root ∨ ∃ rest, p = root ++ '/'::rest := by
  rw [within,Bool.or_eq_true,beq_iff_eq,below_iff]

@[simp] theorem within_self (root : Text) : within root root = true := by simp [within]

theorem within_append {root rest : Text} : within root (root ++ '/'::rest) = true :=
  within_iff.mpr (.inr ⟨rest,rfl⟩)

/-- Of two paths with something at or below both one is at or below the other. -/
theorem within_comparable {a b p : Text} (inside : within a p = true) (inside' : within b p = true) :
    within a b = true ∨ within b a = true := by
  have initial {root : Text} (under : within root p = true) : ∃ rest, p = root ++ rest ∧
      (rest = [] ∨ ∃ tail, rest = '/'::tail) := by
    rcases within_iff.mp under with here | ⟨tail,split⟩
    · exact ⟨[],by rw [here,List.append_nil],.inl rfl⟩
    · exact ⟨'/'::tail,split,.inr ⟨tail,rfl⟩⟩
  have ordered {x y rest rest' more : Text} (split : x ++ rest = y ++ rest') (longer : x = y ++ more)
      (slash : rest' = [] ∨ ∃ tail, rest' = '/'::tail) : within y x = true := by
    rw [longer,List.append_assoc] at split
    have same := List.append_cancel_left split
    rw [longer]
    cases more with
    | nil => simp
    | cons c more =>
      rcases slash with empty | ⟨tail,here⟩
      · rw [empty] at same
        cases same
      · rw [here,List.cons_append] at same
        rw [(List.cons.inj same).1]
        exact within_append
  obtain ⟨rest,split,slash⟩ := initial inside
  obtain ⟨rest',split',slash'⟩ := initial inside'
  have both : a ++ rest = b ++ rest' := split.symm.trans split'
  rcases List.append_eq_append_iff.mp both with ⟨more,longer,-⟩ | ⟨more,longer,-⟩
  · exact .inl (ordered both.symm longer slash)
  · exact .inr (ordered both longer slash')

theorem relocate_within {src p : Text} (dst : Text) (inside : within src p = true) :
    ∃ rest, p = src ++ rest ∧ relocate src dst p = dst ++ rest ∧
      within dst (relocate src dst p) = true := by
  rcases within_iff.mp inside with rfl | ⟨rest,rfl⟩
  · refine ⟨[],by simp,?_,?_⟩ <;> simp [relocate]
  · refine ⟨'/'::rest,rfl,?_,?_⟩ <;> simp [relocate,within_append]

theorem relocate_outside {src p : Text} (dst : Text) (outside : within src p = false) :
    relocate src dst p = p := by simp [relocate,outside]

/-- Renaming onto a place nothing is at keeps paths apart. -/
theorem relocate_injective {src dst p q : Text} (free : within dst p = false)
    (free' : within dst q = false) (same : relocate src dst p = relocate src dst q) : p = q := by
  cases inside : within src p with
  | true =>
    obtain ⟨rest,split,moved,there⟩ := relocate_within dst inside
    cases inside' : within src q with
    | true =>
      obtain ⟨rest',split',moved',-⟩ := relocate_within dst inside'
      rw [moved,moved'] at same
      rw [split,split',List.append_cancel_left same]
    | false =>
      rw [same,relocate_outside dst inside',free'] at there
      contradiction
  | false =>
    have stays := relocate_outside dst inside
    cases inside' : within src q with
    | true =>
      obtain ⟨rest',-,-,there⟩ := relocate_within dst inside'
      rw [← same,stays,free] at there
      contradiction
    | false =>
      rw [stays,relocate_outside dst inside'] at same
      exact same

end Text

namespace Store
variable {ν : Type}

/-- What is at or below `src`, moved to `dst`. -/
def moveTree (src dst : Text) (s : Store Text ν) : Store Text ν := rekey (Text.relocate src dst) s

def anyWithin (root : Text) (s : Store Text ν) : Bool := s.keys.any (Text.within root)

theorem anyWithin_false {root : Text} {s : Store Text ν} :
    anyWithin root s = false ↔ ∀ p, Text.within root p = true → s.lookup p = none := by
  rw [anyWithin,List.any_eq_false]
  constructor
  · intro none_ p inside
    apply AList.lookup_eq_none.mpr
    intro present
    exact none_ p (AList.mem_keys.mpr present) inside
  · intro all p present inside
    have absent := AList.lookup_eq_none.mp (all p inside)
    exact absent (AList.mem_keys.mp present)

theorem lookup_moveTree {src dst : Text} {s : Store Text ν} (free : anyWithin dst s = false)
    (k : Text) (v : ν) :
    (moveTree src dst s).lookup k = some v ↔
      ∃ p, s.lookup p = some v ∧ Text.relocate src dst p = k := by
  apply lookup_rekey
  intro p q present present' same
  have outside {p : Text} (present : p ∈ s) : Text.within dst p = false := by
    by_contra inside
    have absent := anyWithin_false.mp free p (by simpa using inside)
    exact AList.lookup_eq_none.mp absent present
  exact Text.relocate_injective (outside present) (outside present') same

end Store
end StorageHub.Library
