import Mathlib.Data.List.Nodup
import StorageHub.Library.StdPath

/-! The destinations a batch of copies or moves is planned with: first a name that the
storage does not have, then one that the batch has not used. -/
namespace StorageHub.Batch
open Library

def shown (n : Nat) : Text := (toString n).toList

/-! ### Unique paths -/

section
variable (exists_ : Text → Bool)

/-- The numbered name of `get_unique_path`. -/
def numberedName (path : Text) (counter : Nat) : Text :=
  Text.trimEnd '/' ((Text.parent path).getD ['/']) ++ '/'::(Text.fileStem path).getD "file".toList ++
    '_'::shown counter ++ (Text.extension path).elim [] ('.'::·)

/-- The probing loop, with the fuel its bound on the counter leaves. -/
def probeNames (path : Text) : Nat → Nat → Text → Text
  | 0, _, current => current
  | fuel + 1, counter, current =>
    if exists_ current then
      if 100 < counter + 1 then numberedName path counter
      else probeNames path fuel (counter + 1) (numberedName path counter)
    else current

def getUniquePath (path : Text) : Text := if exists_ path then probeNames exists_ path 101 1 path else path

end

/-! ### Reservation -/

def fileNameFromPath (path : Text) : Text := Text.afterLast '/' path

def splitStemAndExt (fileName : Text) : Text × Text :=
  (Text.rsplitOnce '.' fileName).elim (fileName,[]) fun cut => if cut.1.isEmpty then (fileName,[]) else cut

def numberedCopy (candidate : Text) (idx : Nat) : Text :=
  let place := (Text.rsplitOnce '/' candidate).getD ([],candidate)
  let name := splitStemAndExt place.2
  let nextFileName := name.1 ++ " (".toList ++ shown idx ++ [')'] ++ (if name.2.isEmpty then [] else '.'::name.2)
  if place.1.isEmpty then nextFileName else place.1 ++ '/'::nextFileName

/-- The first number from `idx` on, up to a bound, whose name is not reserved. -/
def firstUnreserved (candidate : Text) (reserved : List Text) : Nat → Nat → Option Text
  | 0, _ => none
  | fuel + 1, idx =>
    if reserved.contains (numberedCopy candidate idx) then firstUnreserved candidate reserved fuel (idx + 1)
    else some (numberedCopy candidate idx)

def reserveBatchDestination (candidate : Text) (reserved : List Text) : Text × List Text :=
  if !reserved.contains candidate then (candidate,candidate::reserved)
  else (firstUnreserved candidate reserved 10000 1).elim (candidate,reserved) fun next => (next,next::reserved)

section
variable (exists_ : Text → Bool) (dstDir : Text)

def baseDst (src : Text) : Text := Text.trimEnd '/' dstDir ++ '/'::fileNameFromPath src

def prepareFrom (reserved : List Text) : List Text → List (Text × Text)
  | [] => []
  | src::rest =>
    let planned := reserveBatchDestination (getUniquePath exists_ (baseDst dstDir src)) reserved
    (src,planned.1)::prepareFrom planned.2 rest

def prepareCopyLikeTargets (srcPaths : List Text) : List (Text × Text) := prepareFrom exists_ dstDir [] srcPaths

end

/-! ### Where a plan collides -/

section
variable {exists_ : Text → Bool} {path : Text}

theorem probeNames_free_iff {fuel counter : Nat} (bound : counter ≤ 100) (enough : 100 < counter + fuel)
    (current : Text) : exists_ (probeNames exists_ path fuel counter current) = false ↔
      exists_ current = false ∨ ∃ i, counter ≤ i ∧ i ≤ 100 ∧ exists_ (numberedName path i) = false := by
  induction fuel generalizing counter current with
  | zero => omega
  | succ fuel ih =>
    rw [probeNames]
    cases taken : exists_ current with
    | false =>
      rw [if_neg Bool.false_ne_true,taken]
      simp only [true_or]
    | true =>
      rw [if_pos rfl]
      by_cases last : 100 < counter + 1
      · rw [if_pos last]
        have only : counter = 100 := by omega
        constructor
        · intro free
          exact .inr ⟨counter,Nat.le_refl _,bound,free⟩
        · rintro (impossible | ⟨i,lower,upper,free⟩)
          · cases impossible
          · have same : i = counter := by omega
            rw [← same]
            exact free
      · rw [if_neg last,ih (by omega) (by omega)]
        constructor
        · rintro (free | ⟨i,lower,upper,free⟩)
          · exact .inr ⟨counter,Nat.le_refl _,bound,free⟩
          · exact .inr ⟨i,by omega,upper,free⟩
        · rintro (impossible | ⟨i,lower,upper,free⟩)
          · cases impossible
          · by_cases here : i = counter
            · rw [← here]
              exact .inl free
            · exact .inr ⟨i,by omega,upper,free⟩

/-- The probing gives up on the hundredth name without a look at it. -/
theorem getUniquePath_free_iff : exists_ (getUniquePath exists_ path) = false ↔
    exists_ path = false ∨ ∃ i, 1 ≤ i ∧ i ≤ 100 ∧ exists_ (numberedName path i) = false := by
  rw [getUniquePath]
  split
  next => exact probeNames_free_iff (by decide) (by decide) path
  next absent =>
    rw [Bool.not_eq_true] at absent
    simp only [absent,true_or]

end

/-- The names before `idx` are reserved, and the one with that number is not. -/
def FirstFree (candidate : Text) (reserved : List Text) (idx : Nat) : Prop :=
  1 ≤ idx ∧ idx ≤ 10000 ∧ (∀ j, 1 ≤ j → j < idx → numberedCopy candidate j ∈ reserved) ∧
    numberedCopy candidate idx ∉ reserved

theorem FirstFree.unique {candidate : Text} {reserved : List Text} {i j : Nat}
    (first : FirstFree candidate reserved i) (second : FirstFree candidate reserved j) : i = j := by
  obtain ⟨lower,-,before,free⟩ := first
  obtain ⟨lower',-,before',free'⟩ := second
  by_contra other
  rcases Nat.lt_or_gt_of_ne other with less | more
  · exact free (before' i lower less)
  · exact free' (before j lower' more)

theorem firstUnreserved_cases (candidate : Text) (reserved : List Text) (fuel idx : Nat) :
    (firstUnreserved candidate reserved fuel idx = none ∧
        ∀ j, idx ≤ j → j < idx + fuel → numberedCopy candidate j ∈ reserved) ∨
      ∃ k, firstUnreserved candidate reserved fuel idx = some (numberedCopy candidate k) ∧ idx ≤ k ∧
        k < idx + fuel ∧ (∀ j, idx ≤ j → j < k → numberedCopy candidate j ∈ reserved) ∧
        numberedCopy candidate k ∉ reserved := by
  induction fuel generalizing idx with
  | zero => exact .inl ⟨rfl,fun j lower upper => by omega⟩
  | succ fuel ih =>
    rw [firstUnreserved]
    split
    next taken =>
      have here : numberedCopy candidate idx ∈ reserved := by simpa using taken
      rcases ih (idx + 1) with ⟨none_,all⟩ | ⟨k,found,lower,upper,before,free⟩
      · refine .inl ⟨none_,?_⟩
        intro j lower upper
        by_cases same : j = idx
        · rw [same]
          exact here
        · exact all j (by omega) (by omega)
      · refine .inr ⟨k,found,by omega,by omega,?_,free⟩
        intro j lower' upper'
        by_cases same : j = idx
        · rw [same]
          exact here
        · exact before j (by omega) upper'
    next free =>
      refine .inr ⟨idx,rfl,Nat.le_refl _,by omega,fun j lower upper => by omega,?_⟩
      simpa using free

/-- What a reservation can be. -/
theorem reserve_cases (candidate : Text) (reserved : List Text) :
    (candidate ∉ reserved ∧ reserveBatchDestination candidate reserved = (candidate,candidate::reserved)) ∨
    (candidate ∈ reserved ∧ (∃ k, FirstFree candidate reserved k ∧
      reserveBatchDestination candidate reserved =
        (numberedCopy candidate k,numberedCopy candidate k::reserved))) ∨
    (candidate ∈ reserved ∧ (∀ k, ¬FirstFree candidate reserved k) ∧
      reserveBatchDestination candidate reserved = (candidate,reserved)) := by
  unfold reserveBatchDestination
  by_cases taken : candidate ∈ reserved
  · have given : reserved.contains candidate = true := by simpa using taken
    rw [given,Bool.not_true,if_neg Bool.false_ne_true]
    rcases firstUnreserved_cases candidate reserved 10000 1 with ⟨none_,all⟩ | ⟨k,found,lower,upper,before,free⟩
    · refine .inr (.inr ⟨taken,?_,by rw [none_]; rfl⟩)
      rintro k ⟨lower,upper,-,free⟩
      exact free (all k lower (by omega))
    · exact .inr (.inl ⟨taken,k,⟨lower,by omega,before,free⟩,by rw [found]; rfl⟩)
  · have absent : reserved.contains candidate = false := by simpa using taken
    rw [absent,Bool.not_false,if_pos rfl]
    exact .inl ⟨taken,rfl⟩

section
variable (exists_ : Text → Bool) (dstDir : Text)

/-- A source finds a place: one of the names that are probed for it does not exist, and
if that name is taken by an earlier source, the first number that is not leads to a name
that does not exist. -/
structure Fits (reserved : List Text) (src : Text) : Prop where
  probed : exists_ (baseDst dstDir src) = false ∨
    ∃ i, 1 ≤ i ∧ i ≤ 100 ∧ exists_ (numberedName (baseDst dstDir src) i) = false
  renamed : getUniquePath exists_ (baseDst dstDir src) ∈ reserved →
    ∃ k, FirstFree (getUniquePath exists_ (baseDst dstDir src)) reserved k ∧
      exists_ (numberedCopy (getUniquePath exists_ (baseDst dstDir src)) k) = false

/-- Every source finds a place beside those of the sources before it. -/
def PlanFits (reserved : List Text) : List Text → Prop
  | [] => True
  | src::rest => Fits exists_ dstDir reserved src ∧
    PlanFits (reserveBatchDestination (getUniquePath exists_ (baseDst dstDir src)) reserved).2 rest

/-- Destinations that are apart and not there yet. -/
structure CollisionFree (dsts : List Text) : Prop where
  apart : dsts.Nodup
  absent : ∀ dst ∈ dsts, exists_ dst = false

variable {exists_ dstDir}

theorem collisionFree_cons {reserved tail : List Text} {dst : Text} (fresh : dst ∉ reserved) :
    (CollisionFree exists_ (dst::tail) ∧ ∀ other ∈ dst::tail, other ∉ reserved) ↔
      exists_ dst = false ∧ CollisionFree exists_ tail ∧ ∀ other ∈ tail, other ∉ dst::reserved := by
  constructor
  · rintro ⟨⟨apart,absent⟩,outside⟩
    rw [List.nodup_cons] at apart
    refine ⟨absent dst List.mem_cons_self,⟨apart.2,fun other member => absent other (List.mem_cons_of_mem _ member)⟩,?_⟩
    intro other member
    rw [List.mem_cons,not_or]
    refine ⟨?_,outside other (List.mem_cons_of_mem _ member)⟩
    intro same
    rw [same] at member
    exact apart.1 member
  · rintro ⟨free,⟨apart,absent⟩,outside⟩
    refine ⟨⟨?_,?_⟩,?_⟩
    · rw [List.nodup_cons]
      exact ⟨fun member => outside dst member List.mem_cons_self,apart⟩
    · intro other member
      rcases List.mem_cons.mp member with here | later
      · rw [here]
        exact free
      · exact absent other later
    · intro other member
      rcases List.mem_cons.mp member with here | later
      · rw [here]
        exact fresh
      · exact fun known => outside other later (List.mem_cons_of_mem _ known)

theorem prepareFrom_iff {reserved : List Text} (absent : ∀ dst ∈ reserved, exists_ dst = false) (srcs : List Text) :
    (CollisionFree exists_ ((prepareFrom exists_ dstDir reserved srcs).map (·.2)) ∧
      ∀ dst ∈ (prepareFrom exists_ dstDir reserved srcs).map (·.2), dst ∉ reserved) ↔
        PlanFits exists_ dstDir reserved srcs := by
  induction srcs generalizing reserved with
  | nil => exact ⟨fun _ => trivial,fun _ => ⟨⟨List.nodup_nil,fun _ member => (List.not_mem_nil member).elim⟩,
      fun _ member => (List.not_mem_nil member).elim⟩⟩
  | cons src rest ih =>
    have cons_ : (prepareFrom exists_ dstDir reserved (src::rest)).map (·.2) =
        (reserveBatchDestination (getUniquePath exists_ (baseDst dstDir src)) reserved).1::
          (prepareFrom exists_ dstDir
            (reserveBatchDestination (getUniquePath exists_ (baseDst dstDir src)) reserved).2 rest).map (·.2) := rfl
    -- The later sources see one name more.
    have next {dst : Text} : exists_ dst = false ∧
        CollisionFree exists_ ((prepareFrom exists_ dstDir (dst::reserved) rest).map (·.2)) ∧
          (∀ other ∈ (prepareFrom exists_ dstDir (dst::reserved) rest).map (·.2), other ∉ dst::reserved) ↔
        exists_ dst = false ∧ PlanFits exists_ dstDir (dst::reserved) rest := by
      apply and_congr_right
      intro free
      apply ih
      intro other member
      rcases List.mem_cons.mp member with here | earlier
      · rw [here]
        exact free
      · exact absent other earlier
    have probed := @getUniquePath_free_iff exists_ (baseDst dstDir src)
    rw [cons_,PlanFits]
    rcases reserve_cases (getUniquePath exists_ (baseDst dstDir src)) reserved with
      ⟨fresh,planned⟩ | ⟨taken,k,first,planned⟩ | ⟨taken,none_,planned⟩
    · rw [planned,collisionFree_cons fresh,next]
      apply and_congr_left
      intro _
      constructor
      · intro free
        exact ⟨probed.mp free,fun taken => absurd taken fresh⟩
      · intro fits
        exact probed.mpr fits.probed
    · rw [planned,collisionFree_cons first.2.2.2,next]
      apply and_congr_left
      intro _
      constructor
      · intro free
        exact ⟨probed.mp (absent _ taken),fun _ => ⟨k,first,free⟩⟩
      · intro fits
        obtain ⟨j,first',free⟩ := fits.renamed taken
        rw [first.unique first']
        exact free
    · rw [planned]
      constructor
      · rintro ⟨-,outside⟩
        exact absurd taken (outside _ List.mem_cons_self)
      · rintro ⟨fits,-⟩
        obtain ⟨j,first,-⟩ := fits.renamed taken
        exact absurd first (none_ j)

/-- The planned destinations are apart and none of them exists exactly when each source
finds a place. -/
theorem prepareCopyLikeTargets_iff (exists_ : Text → Bool) (dstDir : Text) (srcPaths : List Text) :
    CollisionFree exists_ ((prepareCopyLikeTargets exists_ dstDir srcPaths).map (·.2)) ↔
      PlanFits exists_ dstDir [] srcPaths := by
  rw [← prepareFrom_iff (fun _ member => (List.not_mem_nil member).elim),prepareCopyLikeTargets]
  constructor
  · intro free
    exact ⟨free,fun _ _ => List.not_mem_nil⟩
  · intro free
    exact free.1

end

/-- A name that the batch makes up can be one that the storage has. -/
theorem renamed_target_exists :
    (prepareCopyLikeTargets (fun path => path == "/d/x (1).txt".toList) "/d".toList
        ["/a/x.txt".toList,"/b/x.txt".toList]).map (·.2) = ["/d/x.txt".toList,"/d/x (1).txt".toList] ∧
      ¬CollisionFree (fun path => path == "/d/x (1).txt".toList)
        ((prepareCopyLikeTargets (fun path => path == "/d/x (1).txt".toList) "/d".toList
          ["/a/x.txt".toList,"/b/x.txt".toList]).map (·.2)) := by
  have planned : (prepareCopyLikeTargets (fun path => path == "/d/x (1).txt".toList) "/d".toList
      ["/a/x.txt".toList,"/b/x.txt".toList]).map (·.2) = ["/d/x.txt".toList,"/d/x (1).txt".toList] := by
    decide +kernel
  refine ⟨planned,?_⟩
  rw [planned]
  intro free
  have absent := free.absent "/d/x (1).txt".toList (List.mem_cons_of_mem _ List.mem_cons_self)
  revert absent
  decide +kernel

end StorageHub.Batch
