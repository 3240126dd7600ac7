import StorageHub.Compression.Tasks
import Mathlib.Data.Finset.Card

/-! The names under which the sources of a batch are staged for one archive. -/
namespace StorageHub.Compression.Native
open Library LinkTree WriteCache Scoped Mounts

/-! ### Names -/

/-- A name cut before its last dot, unless that stands at the front. -/
def stemAndExtension (baseName : Text) : Text × Text :=
  match Text.rsplitOnce '.' baseName with
  | some cut => if 0 < cut.1.length then (cut.1,'.' :: cut.2) else (baseName,[])
  | none => (baseName,[])

def numberedName (stem extension : Text) (suffix : Nat) : Text :=
  if extension.isEmpty then stem ++ " (".toList ++ (toString suffix).toList ++ ")".toList
  else stem ++ " (".toList ++ (toString suffix).toList ++ ")".toList ++ extension

/-- The loop over the suffixes. -/
def firstUnseen (candidate : Nat → Text) (seen : Finset Text) : Nat → Nat → Option (Text × Finset Text)
  | 0, _ => none
  | fuel + 1, suffix =>
    if candidate suffix ∈ seen then firstUnseen candidate seen fuel (suffix + 1)
    else some (candidate suffix,insert (candidate suffix) seen)

/-- The name that is given, and the names seen after it. -/
def uniqueArchiveEntryName (fuel : Nat) (baseName : Text) (seen : Finset Text) : Option (Text × Finset Text) :=
  if baseName ∈ seen then
    let parts := stemAndExtension baseName
    firstUnseen (numberedName parts.1 parts.2) seen fuel 2
  else some (baseName,insert baseName seen)

/-! ### Staging -/

/-- What staging a path came to; the local name is told also where the copy to it
failed. -/
structure Staging where
  localName : Option Text
  error : Option VfsError
  deriving DecidableEq

section staging
variable {σ ω : Type} (codecs : Codecs) (engine : VfsStorage σ ω) (nameFuel fuel : Nat) (localDir : HostPath)

def stageVfsPathForBatchCompress (logicalPath : Text) (seen : Finset Text) :
    Effect (Local σ) ω VfsError (Staging × Finset Text) :=
  match Text.fileName logicalPath with
  | none => pure (⟨none,some (.internal "Path is missing a file name".toList)⟩,seen)
  | some name =>
    match uniqueArchiveEntryName nameFuel name seen with
    | none => Effect.fail outOfFuel
    | some unique => do
      let copied ← (copyToLocalTemp codecs engine fuel logicalPath (localDir ++ [unique.1])).attempt
      match copied with
      | .ok _ => pure (⟨some unique.1,none⟩,unique.2)
      | .error err => pure (⟨some unique.1,some err⟩,unique.2)

/-- A batch goes on where a path cannot be staged. -/
def stagePaths : List Text → Finset Text → Effect (Local σ) ω VfsError (List Staging × Finset Text)
  | [], seen => pure ([],seen)
  | path::rest, seen => do
    let staged ← stageVfsPathForBatchCompress codecs engine nameFuel fuel localDir path seen
    let later ← stagePaths rest staged.2
    pure (staged.1::later.1,later.2)

end staging

def localNames (stagings : List Staging) : List Text := stagings.filterMap (·.localName)

/-! ### Fresh names -/

theorem numberedName_injective (stem extension : Text) : Function.Injective (numberedName stem extension) := by
  intro first second same
  have digits : (toString first).toList = (toString second).toList := by
    unfold numberedName at same
    split at same
    next =>
      have cut := List.append_cancel_right same
      exact List.append_cancel_left cut
    next =>
      have cut := List.append_cancel_right (List.append_cancel_right same)
      exact List.append_cancel_left cut
  rw [Nat.toString_eq_repr,Nat.toString_eq_repr,Nat.toList_repr,Nat.toList_repr] at digits
  have value (n : Nat) : Nat.ofDigitChars 10 (Nat.toDigits 10 n) 0 = n :=
    Nat.ofDigitChars_toDigits (by decide) (by decide)
  rw [← value first,digits,value]

/-- The loop stops at a suffix before which all candidates are seen. -/
theorem firstUnseen_stops {candidate : Nat → Text} {seen : Finset Text} {suffix stop : Nat}
    (before : ∀ n, suffix ≤ n → n < stop → candidate n ∈ seen) (unseen : candidate stop ∉ seen)
    (reached : suffix ≤ stop) {fuel : Nat} (enough : stop - suffix < fuel) :
    firstUnseen candidate seen fuel suffix = some (candidate stop,insert (candidate stop) seen) := by
  induction fuel generalizing suffix with
  | zero => omega
  | succ fuel ih =>
    rw [firstUnseen]
    by_cases here : suffix = stop
    · rw [here,if_neg unseen]
    · have present := before suffix (Nat.le_refl suffix) (by omega)
      rw [if_pos present]
      apply ih
      · intro n later earlier
        exact before n (by omega) earlier
      · omega
      · omega

/-- Of as many candidates as there are seen names and one more, one is not seen. -/
theorem exists_unseen {candidate : Nat → Text} (distinct : Function.Injective candidate) (seen : Finset Text)
    (suffix : Nat) : ∃ stop, suffix ≤ stop ∧ stop - suffix ≤ seen.card ∧ candidate stop ∉ seen ∧
      ∀ n, suffix ≤ n → n < stop → candidate n ∈ seen := by
  have free : ∃ step, step ≤ seen.card ∧ candidate (suffix + step) ∉ seen := by
    have shifted : Function.Injective fun step => candidate (suffix + step) := by
      intro first second same
      have sums := distinct same
      omega
    have size : seen.card < ((Finset.range (seen.card + 1)).image fun step => candidate (suffix + step)).card := by
      rw [Finset.card_image_of_injective _ shifted,Finset.card_range]
      omega
    obtain ⟨name,made,unseen⟩ := Finset.exists_mem_notMem_of_card_lt_card size
    obtain ⟨step,small,rfl⟩ := Finset.mem_image.mp made
    exact ⟨step,Nat.lt_succ_iff.mp (Finset.mem_range.mp small),unseen⟩
  have least := Nat.find_spec free
  refine ⟨suffix + Nat.find free,by omega,by omega,least.2,?_⟩
  intro n later earlier
  by_contra unseen
  have smaller : n - suffix < Nat.find free := by omega
  apply Nat.find_min free smaller
  have same : suffix + (n - suffix) = n := by omega
  rw [same]
  exact ⟨by omega,unseen⟩

theorem uniqueName_fresh (baseName : Text) (seen : Finset Text) : ∃ name, name ∉ seen ∧
    ∀ fuel, seen.card < fuel → uniqueArchiveEntryName fuel baseName seen = some (name,insert name seen) := by
  by_cases present : baseName ∈ seen
  · obtain ⟨stop,reached,near,unseen,before⟩ := exists_unseen
      (numberedName_injective (stemAndExtension baseName).1 (stemAndExtension baseName).2) seen 2
    refine ⟨_,unseen,?_⟩
    intro fuel enough
    rw [uniqueArchiveEntryName,if_pos present]
    exact firstUnseen_stops before unseen reached (by omega)
  · refine ⟨baseName,present,?_⟩
    intro fuel enough
    rw [uniqueArchiveEntryName,if_neg present]

/-! ### A batch -/

section batch
variable {σ ω : Type} {codecs : Codecs} {engine : VfsStorage σ ω} {nameFuel fuel : Nat} {localDir : HostPath}

/-- Names are new where they are given: none was seen, none is given twice, and
those seen afterwards are the ones seen before and the ones given. -/
structure NamesFresh (seen : Finset Text) (names : List Text) (seen' : Finset Text) : Prop where
  distinct : names.Nodup
  unseen : ∀ name ∈ names, name ∉ seen
  added : seen' = seen ∪ names.toFinset

theorem NamesFresh.nil (seen : Finset Text) : NamesFresh seen [] seen :=
  ⟨List.nodup_nil,fun _ member => absurd member List.not_mem_nil,(Finset.union_empty seen).symm⟩

/-- A new name, and names that are new after it. -/
theorem NamesFresh.cons {seen seen' : Finset Text} {name : Text} {names : List Text} (unseen : name ∉ seen)
    (later : NamesFresh (insert name seen) names seen') : NamesFresh seen (name::names) seen' where
  distinct := by
    rw [List.nodup_cons]
    refine ⟨?_,later.distinct⟩
    intro again
    exact later.unseen name again (Finset.mem_insert_self name seen)
  unseen other member := by
    rcases List.mem_cons.mp member with rfl | further
    · exact unseen
    · intro present
      exact later.unseen other further (Finset.mem_insert_of_mem present)
  added := by
    rw [later.added,List.toFinset_cons,Finset.insert_union,Finset.union_insert]

/-- Staging one path ends, with a new name or with none. -/
theorem stagePath_ends (path : Text) {seen : Finset Text} (enough : seen.card < nameFuel) (s : Local σ)
    (cs : List (Choice ω)) :
    (stageVfsPathForBatchCompress codecs engine nameFuel fuel localDir path seen s cs).hasCrashed = true ∨
    ∃ staging seen' after rest,
      stageVfsPathForBatchCompress codecs engine nameFuel fuel localDir path seen s cs =
        .done (staging,seen') after rest ∧
      staging.localName.isSome = (Text.fileName path).isSome ∧
      (staging.localName = none ∧ seen' = seen ∨
        ∃ name, staging.localName = some name ∧ name ∉ seen ∧ seen' = insert name seen) := by
  unfold stageVfsPathForBatchCompress
  cases Text.fileName path with
  | none => exact .inr ⟨_,_,_,_,rfl,rfl,.inl ⟨rfl,rfl⟩⟩
  | some base =>
    obtain ⟨name,unseen,given⟩ := uniqueName_fresh base seen
    dsimp only
    rw [given nameFuel enough]
    dsimp only
    rw [Effect.bind_apply,Effect.attempt]
    cases copyToLocalTemp codecs engine fuel path (localDir ++ [name]) s cs with
    | done value after rest => exact .inr ⟨_,_,_,_,rfl,rfl,.inr ⟨name,rfl,unseen,rfl⟩⟩
    | failed err after rest => exact .inr ⟨_,_,_,_,rfl,rfl,.inr ⟨name,rfl,unseen,rfl⟩⟩
    | crashed after => exact .inl rfl

theorem stagePaths_fresh (paths : List Text) {seen : Finset Text} (enough : seen.card + paths.length < nameFuel)
    (s : Local σ) (cs : List (Choice ω)) :
    (stagePaths codecs engine nameFuel fuel localDir paths seen s cs).hasCrashed = true ∨
    ∃ stagings seen' after rest,
      stagePaths codecs engine nameFuel fuel localDir paths seen s cs = .done (stagings,seen') after rest ∧
      stagings.map (·.localName.isSome) = paths.map (fun path => (Text.fileName path).isSome) ∧
        NamesFresh seen (localNames stagings) seen' := by
  induction paths generalizing seen s cs with
  | nil => exact .inr ⟨[],seen,s,cs,rfl,rfl,.nil seen⟩
  | cons path paths ih =>
    rw [List.length_cons] at enough
    rw [stagePaths,Effect.bind_apply]
    have ends := @stagePath_ends σ ω codecs engine nameFuel fuel localDir path seen (by omega) s cs
    rcases ends with stopped | ⟨staging,seen₁,after,rest,ran,told,named⟩
    · left
      cases outcome : stageVfsPathForBatchCompress codecs engine nameFuel fuel localDir path seen s cs with
      | done value after rest => rw [outcome] at stopped; cases stopped
      | failed err after rest => rw [outcome] at stopped; cases stopped
      | crashed after => rfl
    · have room : seen₁.card + paths.length < nameFuel := by
        rcases named with ⟨-,rfl⟩ | ⟨name,-,-,rfl⟩
        · omega
        · have grown := Finset.card_insert_le name seen
          omega
      rw [ran]
      dsimp only
      rw [Effect.bind_apply]
      rcases ih room after rest with stopped | ⟨stagings,seen₂,after₂,rest₂,ran₂,each,fresh⟩
      · left
        cases outcome : stagePaths codecs engine nameFuel fuel localDir paths seen₁ after rest with
        | done value after rest => rw [outcome] at stopped; cases stopped
        | failed err after rest => rw [outcome] at stopped; cases stopped
        | crashed after => rfl
      · right
        rw [ran₂]
        refine ⟨_,_,_,_,rfl,?_,?_⟩
        · rw [List.map_cons,List.map_cons,told,each]
        · rcases named with ⟨none,rfl⟩ | ⟨name,given,unseen,rfl⟩
          · rw [localNames,List.filterMap_cons_none none]
            exact fresh
          · rw [localNames,List.filterMap_cons_some given]
            exact .cons unseen fresh

end batch

/-- Naming an entry ends with a new name, which alone is added; a batch gives each of
its paths a local name of its own. -/
theorem entry_names_distinct :
    (∀ (baseName : Text) (seen : Finset Text), ∃ name, name ∉ seen ∧ ∀ fuel, seen.card < fuel →
      uniqueArchiveEntryName fuel baseName seen = some (name,insert name seen)) ∧
    ∀ {σ ω : Type} (codecs : Codecs) (engine : VfsStorage σ ω) (nameFuel fuel : Nat) (localDir : HostPath)
      (paths : List Text) (seen : Finset Text) (s : Local σ) (cs : List (Choice ω)),
      seen.card + paths.length < nameFuel →
      (stagePaths codecs engine nameFuel fuel localDir paths seen s cs).hasCrashed = true ∨
      ∃ stagings seen' after rest,
        stagePaths codecs engine nameFuel fuel localDir paths seen s cs = .done (stagings,seen') after rest ∧
        stagings.map (·.localName.isSome) = paths.map (fun path => (Text.fileName path).isSome) ∧
        NamesFresh seen (localNames stagings) seen' := by
  constructor
  · exact uniqueName_fresh
  · intro σ ω codecs engine nameFuel fuel localDir paths seen s cs enough
    exact stagePaths_fresh paths enough s cs

example : uniqueArchiveEntryName 4 "a.txt".toList {"a.txt".toList,"a (2).txt".toList} =
    some ("a (3).txt".toList,{"a (3).txt".toList,"a.txt".toList,"a (2).txt".toList}) := by decide

end StorageHub.Compression.Native
