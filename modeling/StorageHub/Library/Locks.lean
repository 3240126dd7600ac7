import Mathlib.Data.Set.Finite.Lemmas
import Mathlib.Logic.Function.Basic
import Mathlib.Logic.Relation
import Mathlib.Order.WellFoundedSet
import StorageHub.Library.Transition

/-! Threads that take exclusive locks one after the other, each in the order of
its own plan, and give all of them back when they leave. -/
namespace StorageHub.Library.Locks
open Transition

variable {ι κ : Type}

inductive Phase (κ : Type)
  | outside
  | acquiring (remaining : List κ)
  | left
  deriving DecidableEq,Repr

structure State (ι κ : Type) where
  phase : ι → Phase κ
  holder : κ → Option ι

/-- A thread may leave in any phase: done, failed or given up. -/
inductive Action (ι : Type)
  | enter (i : ι)
  | acquire (i : ι)
  | leave (i : ι)

def start : State ι κ where
  phase := fun _ => .outside
  holder := fun _ => none

section
variable [DecidableEq ι] [DecidableEq κ] (plan : ι → List κ)

def step (s : State ι κ) : Action ι → Option (State ι κ)
  | .enter i =>
    match s.phase i with
    | .outside => some { s with phase := Function.update s.phase i (.acquiring (plan i)) }
    | _ => none
  | .acquire i =>
    match s.phase i with
    | .acquiring (k::rest) =>
      if s.holder k = none then
        some
          { phase := Function.update s.phase i (.acquiring rest)
            holder := Function.update s.holder k (some i) }
      else none
    | _ => none
  | .leave i =>
    some
      { phase := Function.update s.phase i .left
        holder := fun k => if s.holder k = some i then none else s.holder k }

def system : System (State ι κ) (Action ι) where
  step := step plan

def Reachable (s : State ι κ) : Prop := ∃ actions, (system plan).exec start actions = some s
end

/-- A thread waits for the holder of the lock it wants next. -/
def WaitsFor (s : State ι κ) (i j : ι) : Prop :=
  ∃ k rest, s.phase i = .acquiring (k::rest) ∧ s.holder k = some j

/-- Some threads wait for each other in a cycle. -/
def Deadlocked (s : State ι κ) : Prop := ∃ i, Relation.TransGen (WaitsFor s) i i

/-- Some plan asks for one lock while it holds the other. -/
def Before (plan : ι → List κ) (a b : κ) : Prop := ∃ i, [a,b].Sublist (plan i)

/-- What a thread holds is the part of its plan it is through with. -/
structure Tracked (plan : ι → List κ) (s : State ι κ) : Prop where
  planned : ∀ i remaining, s.phase i = .acquiring remaining → ∃ held, plan i = held ++ remaining
  held : ∀ k i, s.holder k = some i → ∃ held remaining, s.phase i = .acquiring remaining ∧
    plan i = held ++ remaining ∧ k ∈ held

variable {plan : ι → List κ}

theorem tracked_start : Tracked plan start := by
  constructor
  · simp [start]
  · simp [start]

theorem tracked_enter [DecidableEq ι] {s : State ι κ} (tracked : Tracked plan s) {i : ι}
    (outside : s.phase i = .outside) :
    Tracked plan { s with phase := Function.update s.phase i (.acquiring (plan i)) } := by
  constructor
  · intro j remaining phase
    by_cases same : j = i
    · subst same
      have whole : plan j = remaining := by simpa using phase
      exact ⟨[],whole⟩
    · exact tracked.planned j remaining (by simpa [same] using phase)
  · intro k j holds
    obtain ⟨held,remaining,phase,split,member⟩ := tracked.held k j holds
    have other : j ≠ i := by
      rintro rfl
      simp [outside] at phase
    exact ⟨held,remaining,by simpa [other] using phase,split,member⟩

theorem tracked_acquire [DecidableEq ι] [DecidableEq κ] {s : State ι κ} (tracked : Tracked plan s) {i : ι} {k : κ} {rest : List κ}
    (wants : s.phase i = .acquiring (k::rest)) :
    Tracked plan
      { phase := Function.update s.phase i (.acquiring rest)
        holder := Function.update s.holder k (some i) } := by
  obtain ⟨before,split⟩ := tracked.planned i _ wants
  have through : plan i = (before ++ [k]) ++ rest := by simpa using split
  constructor
  · intro j remaining phase
    by_cases same : j = i
    · subst same
      have now : rest = remaining := by simpa using phase
      exact ⟨before ++ [k],now ▸ through⟩
    · exact tracked.planned j remaining (by simpa [same] using phase)
  · intro l j holds
    by_cases taken : l = k
    · subst taken
      obtain rfl : i = j := by simpa using holds
      exact ⟨before ++ [l],rest,by simp,through,by simp⟩
    · obtain ⟨held,remaining,phase,splits,member⟩ :=
        tracked.held l j (by simpa [taken] using holds)
      by_cases same : j = i
      · subst same
        obtain rfl : k::rest = remaining := by simpa [wants] using phase
        have prior : held = before := List.append_cancel_right (splits.symm.trans split)
        exact ⟨before ++ [k],rest,by simp,through,by simp [← prior,member]⟩
      · exact ⟨held,remaining,by simpa [same] using phase,splits,member⟩

theorem tracked_leave [DecidableEq ι] {s : State ι κ} (tracked : Tracked plan s) (i : ι) :
    Tracked plan
      { phase := Function.update s.phase i .left
        holder := fun k => if s.holder k = some i then none else s.holder k } := by
  constructor
  · intro j remaining phase
    by_cases same : j = i
    · subst same
      simp at phase
    · exact tracked.planned j remaining (by simpa [same] using phase)
  · intro k j holds
    by_cases gone : s.holder k = some i
    · simp [gone] at holds
    · have held : s.holder k = some j := by simpa [gone] using holds
      have other : j ≠ i := by
        rintro rfl
        exact gone held
      simpa [other] using tracked.held k j held

section
variable [DecidableEq ι] [DecidableEq κ]

theorem tracked_step {s next : State ι κ} {action : Action ι} (tracked : Tracked plan s)
    (stepped : step plan s action = some next) : Tracked plan next := by
  cases action with
  | enter i =>
    simp only [step] at stepped
    split at stepped
    next outside =>
      cases stepped
      exact tracked_enter tracked outside
    next => contradiction
  | acquire i =>
    simp only [step] at stepped
    split at stepped
    next k rest wants =>
      split at stepped
      next =>
        cases stepped
        exact tracked_acquire tracked wants
      next => contradiction
    next => contradiction
  | leave i =>
    cases stepped
    exact tracked_leave tracked i

theorem Reachable.tracked {s : State ι κ} (reachable : Reachable plan s) : Tracked plan s := by
  obtain ⟨actions,computed⟩ := reachable
  apply System.Run.invariant ?_ (System.exec_run computed) tracked_start
  intro s action next kept _ stepped
  exact tracked_step kept stepped

end

/-- A thread that is waited for and waits itself has both locks in its plan. -/
theorem before_of_waits {s : State ι κ} (tracked : Tracked plan s) {j : ι} {k l : κ}
    {rest : List κ} (holds : s.holder k = some j) (wants : s.phase j = .acquiring (l::rest)) :
    Before plan k l := by
  obtain ⟨held,remaining,phase,split,member⟩ := tracked.held k j holds
  obtain rfl : l::rest = remaining := by simpa [wants] using phase
  have first : [k].Sublist held := List.singleton_sublist.mpr member
  have second : [l].Sublist (l::rest) := by simp
  exact ⟨j,split ▸ first.append second⟩

theorem before_of_chain {s : State ι κ} (tracked : Tracked plan s) {i j : ι}
    (chain : Relation.TransGen (WaitsFor s) i j) {k l : κ} {rest rest' : List κ}
    (first : s.phase i = .acquiring (k::rest)) (last : s.phase j = .acquiring (l::rest')) :
    Relation.TransGen (Before plan) k l := by
  induction chain generalizing l rest' with
  | single waits =>
    obtain ⟨k',more,phase,holds⟩ := waits
    obtain ⟨rfl,_⟩ : k = k' ∧ rest = more := by simpa [first] using phase
    exact .single (before_of_waits tracked holds last)
  | tail _ waits ih =>
    obtain ⟨k',more,phase,holds⟩ := waits
    exact .tail (ih phase) (before_of_waits tracked holds last)

/-- Where every member of a finite set has a successor in it, there is a cycle. -/
theorem exists_cycle {α : Type} {R : α → α → Prop} {xs : List α} {x : α} (member : x ∈ xs)
    (onward : ∀ a ∈ xs, ∃ b ∈ xs, R a b) : ∃ a, Relation.TransGen R a a := by
  by_contra acyclic
  have finite : Finite {a // a ∈ xs} := (List.finite_toSet xs).to_subtype
  have transitive : IsTrans {a // a ∈ xs} (fun b a => Relation.TransGen R a.1 b.1) :=
    ⟨fun _ _ _ first second => second.trans first⟩
  have irreflexive : Std.Irrefl (fun b a : {a // a ∈ xs} => Relation.TransGen R a.1 b.1) :=
    ⟨fun a cycle => acyclic ⟨a.1,cycle⟩⟩
  have wellFounded : WellFounded (fun b a : {a // a ∈ xs} => Relation.TransGen R a.1 b.1) :=
    Finite.wellFounded_of_trans_of_irrefl _
  obtain ⟨last,_,final⟩ := wellFounded.has_min Set.univ ⟨⟨x,member⟩,trivial⟩
  obtain ⟨b,inside,related⟩ := onward last.1 last.2
  exact final ⟨b,inside⟩ trivial (.single related)

/-- The vertices of a chain, each with a successor among them or at its end. -/
theorem chain_vertices {α : Type} {R : α → α → Prop} {a b : α} (chain : Relation.TransGen R a b) :
    ∃ xs : List α, a ∈ xs ∧ ∀ x ∈ xs, ∃ y, (y ∈ xs ∨ y = b) ∧ R x y := by
  induction chain with
  | single related => exact ⟨[a],by simp,fun x member => ⟨_,.inr rfl,List.mem_singleton.mp member ▸ related⟩⟩
  | @tail b c _ related ih =>
    obtain ⟨xs,first,onward⟩ := ih
    refine ⟨b::xs,List.mem_cons_of_mem _ first,?_⟩
    intro x member
    rcases List.mem_cons.mp member with rfl | inside
    · exact ⟨c,.inr rfl,related⟩
    · obtain ⟨y,target,step⟩ := onward x inside
      refine ⟨y,.inl ?_,step⟩
      rcases target with inside | rfl
      · exact List.mem_cons_of_mem _ inside
      · exact List.mem_cons_self

/-- Plans that agree on an order of the locks cannot deadlock. -/
theorem not_deadlocked [DecidableEq ι] [DecidableEq κ]
    (acyclic : ∀ k, ¬ Relation.TransGen (Before plan) k k) {s : State ι κ}
    (reachable : Reachable plan s) : ¬ Deadlocked s := by
  rintro ⟨i,cycle⟩
  have waits : ∃ j, WaitsFor s i j := by
    obtain ⟨j,waits,_⟩ := Relation.TransGen.head'_iff.mp cycle
    exact ⟨j,waits⟩
  obtain ⟨j,k,rest,phase,_⟩ := waits
  exact acyclic k (before_of_chain reachable.tracked cycle phase phase)

theorem before_pair (short : ∀ i, (plan i).length ≤ 2) {a b : κ} (before : Before plan a b) :
    ∃ i, plan i = [a,b] := by
  obtain ⟨i,part⟩ := before
  exact ⟨i,(part.eq_of_length_le (short i)).symm⟩

section
variable [DecidableEq ι] [DecidableEq κ]

theorem Reachable.step {s next : State ι κ} {action : Action ι} (reachable : Reachable plan s)
    (stepped : step plan s action = some next) : Reachable plan next := by
  obtain ⟨actions,computed⟩ := reachable
  have run := (System.exec_run computed).append (.cons trivial stepped (.nil next))
  exact ⟨actions ++ [action],run.exec⟩

/-- Threads that each want a first lock of their own can all get it. -/
theorem all_first (ks : List κ) (distinct : ks.Nodup) (next : κ → κ → Prop)
    (planned : ∀ k ∈ ks, ∃ i l, plan i = [k,l] ∧ next k l) :
    ∃ s, Reachable plan s ∧
      (∀ k ∈ ks, ∃ i l, s.phase i = .acquiring [l] ∧ s.holder k = some i ∧ next k l) ∧
      (∀ k, k ∉ ks → s.holder k = none) ∧
      ∀ i, s.phase i ≠ .outside → ∃ k ∈ ks, ∃ l, plan i = [k,l] := by
  induction ks with
  | nil => exact ⟨start,⟨[],rfl⟩,by simp,by simp [start],by simp [start]⟩
  | cons k ks ih =>
    obtain ⟨fresh,distinct⟩ := List.nodup_cons.mp distinct
    obtain ⟨s,reachable,waiting,free,idle⟩ :=
      ih distinct (fun k member => planned k (List.mem_cons_of_mem _ member))
    obtain ⟨i,l,plans,follows⟩ := planned k List.mem_cons_self
    have outside : s.phase i = .outside := by
      by_contra entered
      obtain ⟨other,member,_,same⟩ := idle i entered
      have equal : k = other := by simpa [plans] using congrArg List.head? same
      exact fresh (equal ▸ member)
    have entered : Locks.step plan s (.enter i) =
        some { s with phase := Function.update s.phase i (.acquiring [k,l]) } := by
      simp [Locks.step,outside,plans]
    have acquired : Locks.step plan
        { s with phase := Function.update s.phase i (.acquiring [k,l]) } (.acquire i) =
        some
          { phase := Function.update s.phase i (.acquiring [l])
            holder := Function.update s.holder k (some i) } := by
      simp [Locks.step,free k fresh]
    refine ⟨_,(reachable.step entered).step acquired,?_,?_,?_⟩
    · intro k' member
      by_cases same : k' = k
      · subst same
        exact ⟨i,l,by simp,by simp,follows⟩
      · obtain ⟨j,l',phase,holds,follows'⟩ :=
          waiting k' (List.mem_of_ne_of_mem same member)
        have other : j ≠ i := by
          rintro rfl
          simp [outside] at phase
        exact ⟨j,l',by simpa [other] using phase,by simpa [same] using holds,follows'⟩
    · intro k' absent
      have other : k' ≠ k := fun same => absent (same ▸ List.mem_cons_self)
      have elsewhere : k' ∉ ks := fun member => absent (List.mem_cons_of_mem _ member)
      simpa [other] using free k' elsewhere
    · intro j active
      by_cases same : j = i
      · subst same
        exact ⟨k,List.mem_cons_self,l,plans⟩
      · obtain ⟨k',member,l',plans'⟩ := idle j (by simpa [same] using active)
        exact ⟨k',List.mem_cons_of_mem _ member,l',plans'⟩

/-- Threads with at most two locks each deadlock on any cycle of their plans. -/
theorem deadlock_reachable (short : ∀ i, (plan i).length ≤ 2) {a : κ}
    (cycle : Relation.TransGen (Before plan) a a) : ∃ s, Reachable plan s ∧ Deadlocked s := by
  obtain ⟨vertices,first,onward⟩ := chain_vertices cycle
  have planned : ∀ k ∈ vertices.dedup, ∃ i l, plan i = [k,l] ∧ l ∈ vertices := by
    intro k member
    obtain ⟨l,target,before⟩ := onward k (List.mem_dedup.mp member)
    obtain ⟨i,plans⟩ := before_pair short before
    rcases target with inside | rfl
    · exact ⟨i,l,plans,inside⟩
    · exact ⟨i,l,plans,first⟩
  obtain ⟨s,reachable,waiting,_,_⟩ :=
    all_first vertices.dedup vertices.nodup_dedup (fun _ l => l ∈ vertices) planned
  refine ⟨s,reachable,?_⟩
  obtain ⟨i,_,_,holds,_⟩ := waiting a (List.mem_dedup.mpr first)
  have member : i ∈ vertices.filterMap s.holder := List.mem_filterMap.mpr ⟨a,first,holds⟩
  apply exists_cycle member
  intro j holding
  obtain ⟨k,vertex,held⟩ := List.mem_filterMap.mp holding
  obtain ⟨j',l,phase,held',target⟩ := waiting k (List.mem_dedup.mpr vertex)
  obtain rfl : j = j' := Option.some.inj (held.symm.trans held')
  obtain ⟨next,_,_,holds',_⟩ := waiting l (List.mem_dedup.mpr target)
  exact ⟨next,List.mem_filterMap.mpr ⟨l,target,holds'⟩,l,[],phase,holds'⟩

/-- For threads with at most two locks each, freedom from deadlock is exactly
an order of the locks that every plan keeps to. -/
theorem deadlock_free_iff (short : ∀ i, (plan i).length ≤ 2) :
    (∀ s, Reachable plan s → ¬ Deadlocked s) ↔ ∀ k, ¬ Relation.TransGen (Before plan) k k := by
  constructor
  · intro free k cycle
    obtain ⟨s,reachable,deadlocked⟩ := deadlock_reachable short cycle
    exact free s reachable deadlocked
  · intro acyclic s reachable
    exact not_deadlocked acyclic reachable
end

end StorageHub.Library.Locks
