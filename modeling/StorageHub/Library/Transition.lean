import Mathlib.Data.List.Basic

/-! Deterministic labelled transition systems whose labels carry the choices of
the environment. A run may be restricted by a condition on each step, read in
the state before it; the rules here carry an invariant along such runs. -/
namespace StorageHub.Library.Transition

structure System (σ α : Type) where
  step : σ → α → Option σ

namespace System
variable {σ α : Type} (m : System σ α) (allowed : σ → α → Prop)

inductive Run : σ → List α → σ → Prop
  | nil (s) : Run s [] s
  | cons {s middle final : σ} {action : α} {rest : List α}
      (permitted : allowed s action) (stepped : m.step s action = some middle)
      (tail : Run middle rest final) : Run s (action::rest) final

def exec : σ → List α → Option σ
  | s, [] => some s
  | s, action::rest => (m.step s action).bind fun middle => exec middle rest

/-- An execution together with the check of the condition before every step. -/
def execAllowed [DecidableRel allowed] : σ → List α → Option σ
  | s, [] => some s
  | s, action::rest =>
    if allowed s action then (m.step s action).bind fun middle => execAllowed middle rest else none

variable {m allowed}

theorem Run.invariant {I : σ → Prop}
    (preserved : ∀ s action next, I s → allowed s action → m.step s action = some next → I next)
    {s final : σ} {actions : List α} (run : m.Run allowed s actions final) (initial : I s) :
    I final := by
  induction run with
  | nil => exact initial
  | cons permitted stepped _ ih => exact ih (preserved _ _ _ initial permitted stepped)

theorem Run.append {s middle final : σ} {first second : List α}
    (before : m.Run allowed s first middle) (after : m.Run allowed middle second final) :
    m.Run allowed s (first ++ second) final := by
  induction before with
  | nil => exact after
  | cons permitted stepped _ ih => exact .cons permitted stepped (ih after)

theorem exec_run {s final : σ} {actions : List α} (computed : m.exec s actions = some final) :
    m.Run (fun _ _ => True) s actions final := by
  induction actions generalizing s with
  | nil => cases computed; exact .nil _
  | cons action rest ih =>
    obtain ⟨middle,stepped,tail⟩ := Option.bind_eq_some_iff.mp computed
    exact .cons trivial stepped (ih tail)

theorem execAllowed_run [DecidableRel allowed] {s final : σ} {actions : List α}
    (computed : m.execAllowed allowed s actions = some final) : m.Run allowed s actions final := by
  induction actions generalizing s with
  | nil => cases computed; exact .nil _
  | cons action rest ih =>
    simp only [execAllowed] at computed
    split at computed
    next permitted =>
      obtain ⟨middle,stepped,tail⟩ := Option.bind_eq_some_iff.mp computed
      exact .cons permitted stepped (ih tail)
    next => contradiction

theorem Run.mono {other : σ → α → Prop} (weaker : ∀ s action, allowed s action → other s action)
    {s final : σ} {actions : List α} (run : m.Run allowed s actions final) :
    m.Run other s actions final := by
  induction run with
  | nil => exact .nil _
  | cons permitted stepped _ ih => exact .cons (weaker _ _ permitted) stepped ih

theorem Run.exec {s final : σ} {actions : List α} (run : m.Run allowed s actions final) :
    m.exec s actions = some final := by
  induction run with
  | nil => rfl
  | cons _ stepped _ ih => simp [System.exec,stepped,ih]

/-- Where an invariant leaves it to the condition of a step whether the step
keeps a law, the law holds all along an execution exactly when the condition does. -/
theorem exec_always_iff {I P : σ → Prop}
    (kept : ∀ s action next, I s → m.step s action = some next → I next)
    (decides : ∀ s action next, I s → P s → m.step s action = some next →
      (P next ↔ allowed s action))
    {s final : σ} {actions : List α} (invariant : I s) (initial : P s)
    (computed : m.exec s actions = some final) :
    (∀ done, done <+: actions → ∀ reached, m.exec s done = some reached → P reached) ↔
      m.Run allowed s actions final := by
  induction actions generalizing s with
  | nil =>
    cases computed
    refine ⟨fun _ => .nil _,fun _ done short reached found => ?_⟩
    rw [List.prefix_nil.mp short] at found
    cases found
    exact initial
  | cons action rest ih =>
    obtain ⟨middle,stepped,tail⟩ := Option.bind_eq_some_iff.mp computed
    have next := kept s action middle invariant stepped
    have decided := decides s action middle invariant initial stepped
    have onward (done : List α) : m.exec s (action::done) = m.exec middle done := by
      simp [System.exec,stepped]
    constructor
    · intro always
      have law : P middle := by
        apply always [action] (by simp) middle
        rw [onward]
        rfl
      refine .cons (decided.mp law) stepped ((ih next law tail).mp ?_)
      intro done short reached found
      exact always (action::done) (by simpa using short) reached (by rw [onward,found])
    · intro run done short reached found
      cases run with
      | cons permitted stepped' tail' =>
        obtain rfl : middle = _ := Option.some.inj (stepped.symm.trans stepped')
        have law := decided.mpr permitted
        cases done with
        | nil =>
          cases found
          exact initial
        | cons first done =>
          obtain ⟨rfl,shorter⟩ := List.cons_prefix_cons.mp short
          rw [onward] at found
          exact (ih next law tail).mpr tail' done shorter reached found

/-- Where a law is lost for good at the first step that breaks the condition, it
holds at the end of an execution exactly when every step met the condition. -/
theorem exec_final_iff {I P : σ → Prop}
    (kept : ∀ s action next, I s → m.step s action = some next → I next)
    (decides : ∀ s action next, I s → m.step s action = some next → (P next ↔ P s ∧ allowed s action))
    {s final : σ} {actions : List α} (invariant : I s) (computed : m.exec s actions = some final) :
    P final ↔ P s ∧ m.Run allowed s actions final := by
  induction actions generalizing s with
  | nil =>
    cases computed
    exact ⟨fun law => ⟨law,.nil _⟩,fun both => both.1⟩
  | cons action rest ih =>
    obtain ⟨middle,stepped,tail⟩ := Option.bind_eq_some_iff.mp computed
    rw [ih (kept s action middle invariant stepped) tail,decides s action middle invariant stepped]
    constructor
    · intro both
      exact ⟨both.1.1,.cons both.1.2 stepped both.2⟩
    · intro both
      cases both.2 with
      | cons permitted stepped' tail' =>
        obtain rfl : middle = _ := Option.some.inj (stepped.symm.trans stepped')
        exact ⟨⟨both.1,permitted⟩,tail'⟩

/-- One computed execution that ends wrongly refutes a law of all executions. -/
theorem exec_refutes {P : σ → Prop} [DecidablePred P] {s : σ} (actions : List α)
    (found : (m.exec s actions).any (fun final => !decide (P final)) = true) :
    ¬ ∀ actions final, m.exec s actions = some final → P final := by
  intro law
  cases computed : m.exec s actions with
  | none => simp [computed] at found
  | some final =>
    have wrong : ¬ P final := by simpa [computed] using found
    exact wrong (law actions final computed)

end System
end StorageHub.Library.Transition
