import Mathlib.Data.List.Basic

/-! Programs whose effects on a shared state meet an environment. Before each
effect the environment decides how it goes, or stops the program there; an
effect that fails is an error the program may handle, a stop is not. -/
namespace StorageHub.Library

inductive Choice (ω : Type) where
  | proceed (env : ω)
  | crash
  deriving DecidableEq,Repr

inductive Outcome (σ ω ε α : Type) where
  | done (value : α) (state : σ) (rest : List (Choice ω))
  | failed (error : ε) (state : σ) (rest : List (Choice ω))
  | crashed (state : σ)

namespace Outcome
variable {σ ω ε α : Type}

def state : Outcome σ ω ε α → σ
  | done _ s _ => s
  | failed _ s _ => s
  | crashed s => s

def value? : Outcome σ ω ε α → Option α
  | done a _ _ => some a
  | failed _ _ _ => none
  | crashed _ => none

theorem done_of_value {outcome : Outcome σ ω ε α} (value : outcome.value?.isSome = true) :
    ∃ a s rest, outcome = .done a s rest := by
  cases outcome with
  | done a s rest => exact ⟨a,s,rest,rfl⟩
  | failed e s rest => cases value
  | crashed s => cases value

def rest : Outcome σ ω ε α → List (Choice ω)
  | done _ _ rest => rest
  | failed _ _ rest => rest
  | crashed _ => []

def hasCrashed : Outcome σ ω ε α → Bool
  | crashed _ => true
  | _ => false

end Outcome

def Effect (σ ω ε α : Type) : Type := σ → List (Choice ω) → Outcome σ ω ε α

namespace Effect
variable {σ ω ε α β : Type}

protected def pure (a : α) : Effect σ ω ε α := fun s cs => .done a s cs

protected def bind (m : Effect σ ω ε α) (k : α → Effect σ ω ε β) : Effect σ ω ε β := fun s cs =>
  match m s cs with
  | .done a s' rest => k a s' rest
  | .failed e s' rest => .failed e s' rest
  | .crashed s' => .crashed s'

instance : Monad (Effect σ ω ε) where
  pure := Effect.pure
  bind := Effect.bind

def fail (e : ε) : Effect σ ω ε α := fun s cs => .failed e s cs

/-- The program with its error, if any, as a value. -/
def attempt (m : Effect σ ω ε α) : Effect σ ω ε (Except ε α) := fun s cs =>
  match m s cs with
  | .done a s' rest => .done (.ok a) s' rest
  | .failed e s' rest => .done (.error e) s' rest
  | .crashed s' => .crashed s'

/-- What the process has in its own memory; reading it meets no environment. -/
def get : Effect σ ω ε σ := fun s cs => .done s s cs

/-- A change of what the process has in its own memory. -/
def modify (f : σ → σ) : Effect σ ω ε Unit := fun s cs => .done () (f s) cs

def perform [Inhabited ω] (f : ω → σ → Except ε α × σ) : Effect σ ω ε α := fun s cs =>
  match cs with
  | .crash::_ => .crashed s
  | [] =>
    match f default s with
    | (.ok a,s') => .done a s' []
    | (.error e,s') => .failed e s' []
  | .proceed env::rest =>
    match f env s with
    | (.ok a,s') => .done a s' rest
    | (.error e,s') => .failed e s' rest

def ofExcept : Except ε α → Effect σ ω ε α
  | .ok a => Effect.pure a
  | .error e => fail e

/-- The program with its errors told in other words. -/
def mapError {ε' : Type} (f : ε → ε') (m : Effect σ ω ε α) : Effect σ ω ε' α := fun s cs =>
  match m s cs with
  | .done a s' rest => .done a s' rest
  | .failed e s' rest => .failed (f e) s' rest
  | .crashed s' => .crashed s'

/-- The run in which the environment never interferes. -/
def run (m : Effect σ ω ε α) (s : σ) : Outcome σ ω ε α := m s []

/-- The state in which a stop after `n` undisturbed effects leaves the program. -/
def stopAfter [Inhabited ω] (n : Nat) (m : Effect σ ω ε α) (s : σ) : Outcome σ ω ε α :=
  m s (List.replicate n (.proceed default) ++ [.crash])

/-! ### Equations -/

section equations
variable (s : σ) (cs : List (Choice ω))

@[simp] theorem pure_apply (a : α) : (pure a : Effect σ ω ε α) s cs = .done a s cs := rfl

@[simp] theorem fail_apply (e : ε) : (fail e : Effect σ ω ε α) s cs = .failed e s cs := rfl

@[simp] theorem get_apply : (get : Effect σ ω ε σ) s cs = .done s s cs := rfl

@[simp] theorem modify_apply (f : σ → σ) : (modify f : Effect σ ω ε Unit) s cs = .done () (f s) cs :=
  rfl

@[simp] theorem ofExcept_ok (a : α) : (ofExcept (.ok a) : Effect σ ω ε α) = pure a := rfl

@[simp] theorem mapError_state {ε' : Type} (f : ε → ε') (m : Effect σ ω ε α) :
    (m.mapError f s cs).state = (m s cs).state := by
  rw [mapError]
  cases m s cs with
  | done a s' rest => rfl
  | failed e s' rest => rfl
  | crashed s' => rfl

theorem bind_apply (m : Effect σ ω ε α) (k : α → Effect σ ω ε β) :
    (m >>= k) s cs = match m s cs with
      | .done a s' rest => k a s' rest
      | .failed e s' rest => .failed e s' rest
      | .crashed s' => .crashed s' := rfl

theorem map_apply (f : α → β) (m : Effect σ ω ε α) :
    (f <$> m) s cs = (m >>= fun a => pure (f a)) s cs := rfl

theorem bind_assoc_apply {γ : Type} (m : Effect σ ω ε α) (k : α → Effect σ ω ε β)
    (l : β → Effect σ ω ε γ) : ((m >>= k) >>= l) s cs = (m >>= fun a => k a >>= l) s cs := by
  simp only [bind_apply]
  cases m s cs with
  | done a s' rest => rfl
  | failed e s' rest => rfl
  | crashed s' => rfl

theorem bind_done {m : Effect σ ω ε α} {k : α → Effect σ ω ε β} {b : β} {s' : σ}
    {rest : List (Choice ω)} (done : (m >>= k) s cs = .done b s' rest) :
    ∃ a middle later, m s cs = .done a middle later ∧ k a middle later = .done b s' rest := by
  rw [bind_apply] at done
  cases first : m s cs with
  | done a middle later => exact ⟨a,middle,later,rfl,by rw [first] at done; exact done⟩
  | failed e middle later => rw [first] at done; cases done
  | crashed middle => rw [first] at done; cases done

theorem bind_failed {m : Effect σ ω ε α} {k : α → Effect σ ω ε β} {e : ε} {s' : σ}
    {rest : List (Choice ω)} (failed : (m >>= k) s cs = .failed e s' rest) :
    m s cs = .failed e s' rest ∨
      ∃ a middle later, m s cs = .done a middle later ∧ k a middle later = .failed e s' rest := by
  rw [bind_apply] at failed
  cases first : m s cs with
  | done a middle later => exact .inr ⟨a,middle,later,rfl,by rw [first] at failed; exact failed⟩
  | failed e' middle later => rw [first] at failed; cases failed; exact .inl rfl
  | crashed middle => rw [first] at failed; cases failed

theorem attempt_cases {m : Effect σ ω ε α} {result : Except ε α} {s' : σ} {rest : List (Choice ω)}
    (done : m.attempt s cs = .done result s' rest) :
    (∃ a, result = .ok a ∧ m s cs = .done a s' rest) ∨
      ∃ e, result = .error e ∧ m s cs = .failed e s' rest := by
  unfold attempt at done
  cases outcome : m s cs with
  | done a middle later => rw [outcome] at done; cases done; exact .inl ⟨a,rfl,rfl⟩
  | failed e middle later => rw [outcome] at done; cases done; exact .inr ⟨e,rfl,rfl⟩
  | crashed middle => rw [outcome] at done; cases done

theorem attempt_never_fails {m : Effect σ ω ε α} {e : ε} {s' : σ} {rest : List (Choice ω)} :
    m.attempt s cs ≠ .failed e s' rest := by
  unfold attempt
  cases m s cs <;> simp

end equations

theorem map_id (m : Effect σ ω ε α) : id <$> m = m := by
  funext s cs
  rw [map_apply,bind_apply]
  cases m s cs with
  | done a s' rest => rfl
  | failed e s' rest => rfl
  | crashed s' => rfl

instance : LawfulMonad (Effect σ ω ε) :=
  LawfulMonad.mk' _ map_id (fun _ _ => rfl) fun m k l =>
    funext fun s => funext fun cs => bind_assoc_apply s cs m k l

theorem fail_bind (e : ε) (k : α → Effect σ ω ε β) : (fail e >>= k) = fail e := rfl

theorem pure_done {a b : α} {s s' : σ} {cs rest : List (Choice ω)}
    (done : (pure a : Effect σ ω ε α) s cs = .done b s' rest) : b = a ∧ s' = s ∧ rest = cs := by
  cases done
  exact ⟨rfl,rfl,rfl⟩

/-! ### Rules -/

/-- From states satisfying `P` the program ends only as the three
postconditions say. -/
def Meets (P : σ → Prop) (m : Effect σ ω ε α) (onDone : α → σ → Prop) (onFail : ε → σ → Prop)
    (onCrash : σ → Prop) : Prop :=
  ∀ s cs, P s →
    match m s cs with
    | .done a s' _ => onDone a s'
    | .failed e s' _ => onFail e s'
    | .crashed s' => onCrash s'

/-- Nothing the program does, even when it fails or stops, leaves `I`. -/
def Keeps (I : σ → Prop) (m : Effect σ ω ε α) : Prop :=
  Meets I m (fun _ => I) (fun _ => I) I

/-- What holds after every run that ends with a value. -/
def Ensures (P : σ → Prop) (m : Effect σ ω ε α) (Q : α → σ → Prop) : Prop :=
  Meets P m Q (fun _ _ => True) fun _ => True

section rules
variable {P P' : σ → Prop} {Q Q' : α → σ → Prop} {R : β → σ → Prop} {E E' : ε → σ → Prop}
  {C C' : σ → Prop} {m : Effect σ ω ε α} {k : α → Effect σ ω ε β}

theorem Meets.consequence (met : Meets P m Q E C) (pre : ∀ s, P' s → P s)
    (onDone : ∀ a s, Q a s → Q' a s) (onFail : ∀ e s, E e s → E' e s)
    (onCrash : ∀ s, C s → C' s) : Meets P' m Q' E' C' := by
  intro s cs holds
  have result := met s cs (pre s holds)
  cases outcome : m s cs with
  | done a s' rest => rw [outcome] at result; exact onDone a s' result
  | failed e s' rest => rw [outcome] at result; exact onFail e s' result
  | crashed s' => rw [outcome] at result; exact onCrash s' result

theorem Meets.weaken (met : Meets P m Q E C) (onFail : ∀ e s, E e s → E' e s)
    (onCrash : ∀ s, C s → C' s) : Meets P m Q E' C' :=
  met.consequence (fun _ holds => holds) (fun _ _ holds => holds) onFail onCrash

theorem Meets.and {E₁ : ε → σ → Prop} {C₁ : σ → Prop} {Q₁ : α → σ → Prop} (met : Meets P m Q E C)
    (met' : Meets P m Q₁ E₁ C₁) :
    Meets P m (fun a s => Q a s ∧ Q₁ a s) (fun e s => E e s ∧ E₁ e s) fun s => C s ∧ C₁ s := by
  intro s cs holds
  have result := met s cs holds
  have result' := met' s cs holds
  cases outcome : m s cs with
  | done a s' rest => rw [outcome] at result result'; exact ⟨result,result'⟩
  | failed e s' rest => rw [outcome] at result result'; exact ⟨result,result'⟩
  | crashed s' => rw [outcome] at result result'; exact ⟨result,result'⟩

theorem Meets.bind (first : Meets P m Q E C) (then_ : ∀ a, Meets (Q a) (k a) R E C) :
    Meets P (m >>= k) R E C := by
  intro s cs holds
  have result := first s cs holds
  rw [bind_apply]
  cases outcome : m s cs with
  | done a s' rest => rw [outcome] at result; exact then_ a s' rest result
  | failed e s' rest => rw [outcome] at result; exact result
  | crashed s' => rw [outcome] at result; exact result

theorem Meets.pure {a : α} (holds : ∀ s, P s → Q a s) :
    Meets P (pure a : Effect σ ω ε α) Q E C := fun s _ pre => holds s pre

theorem Meets.fail {e : ε} (holds : ∀ s, P s → E e s) :
    Meets P (fail e : Effect σ ω ε α) Q E C := fun s _ pre => holds s pre

theorem Meets.get {Q : σ → σ → Prop} (holds : ∀ s, P s → Q s s) :
    Meets P (get : Effect σ ω ε σ) Q E C := fun s _ pre => holds s pre

theorem Meets.modify {f : σ → σ} {Q : Unit → σ → Prop} (holds : ∀ s, P s → Q () (f s)) :
    Meets P (modify f : Effect σ ω ε Unit) Q E C := fun s _ pre => holds s pre

theorem Meets.attempt {Q : Except ε α → σ → Prop}
    (met : Meets P m (fun a => Q (.ok a)) (fun e => Q (.error e)) C) :
    Meets P m.attempt Q E C := by
  intro s cs holds
  have result := met s cs holds
  unfold Effect.attempt
  cases outcome : m s cs with
  | done a s' rest => rw [outcome] at result; exact result
  | failed e s' rest => rw [outcome] at result; exact result
  | crashed s' => rw [outcome] at result; exact result

theorem Meets.perform [Inhabited ω] {f : ω → σ → Except ε α × σ}
    (onDone : ∀ env s a s', P s → f env s = (.ok a,s') → Q a s')
    (onFail : ∀ env s e s', P s → f env s = (.error e,s') → E e s')
    (onCrash : ∀ s, P s → C s) : Meets P (perform f) Q E C := by
  intro s cs holds
  have performed (env : ω) (rest : List (Choice ω)) :
      match (match f env s with
        | (.ok a,s') => Outcome.done a s' rest
        | (.error e,s') => Outcome.failed e s' rest) with
      | .done a s' _ => Q a s'
      | .failed e s' _ => E e s'
      | .crashed s' => C s' := by
    cases result : f env s with
    | mk value s' =>
      cases value with
      | ok a => exact onDone env s a s' holds result
      | error e => exact onFail env s e s' holds result
  cases cs with
  | nil => exact performed default []
  | cons choice rest =>
    cases choice with
    | proceed env => exact performed env rest
    | crash => exact onCrash s holds

theorem Meets.ofExcept {r : Except ε α} (onDone : ∀ a s, r = .ok a → P s → Q a s)
    (onFail : ∀ e s, r = .error e → P s → E e s) :
    Meets P (ofExcept r : Effect σ ω ε α) Q E C := by
  intro s cs holds
  cases result : r with
  | ok a => exact onDone a s result holds
  | error e => exact onFail e s result holds

theorem Keeps.state {I : σ → Prop} (kept : Keeps I m) {s : σ} (cs : List (Choice ω)) (holds : I s) :
    I (m s cs).state := by
  have result := kept s cs holds
  cases outcome : m s cs with
  | done a s' rest => rw [outcome] at result; exact result
  | failed e s' rest => rw [outcome] at result; exact result
  | crashed s' => rw [outcome] at result; exact result

/-- What a first part has reached stays when the rest keeps it. -/
theorem Keeps.bind_state {I : σ → Prop} (then_ : ∀ a, Keeps I (k a)) {s : σ} {cs : List (Choice ω)}
    (reached : I (m s cs).state) : I ((m >>= k) s cs).state := by
  rw [bind_apply]
  cases outcome : m s cs with
  | done a s' rest =>
    rw [outcome] at reached
    exact (then_ a).state rest reached
  | failed e s' rest => rw [outcome] at reached; exact reached
  | crashed s' => rw [outcome] at reached; exact reached

theorem Meets.of_done (met : Meets P m Q E C) {s s' : σ} {cs rest : List (Choice ω)} {a : α}
    (holds : P s) (done : m s cs = .done a s' rest) : Q a s' := by
  have result := met s cs holds
  rw [done] at result
  exact result

/-- A postcondition that rests on the precondition alone. -/
theorem Ensures.of_pre (holds : ∀ s, P s → ∀ a s', Q a s') : Ensures P m Q := by
  intro s cs pre
  cases m s cs with
  | done a s' rest => exact holds s pre a s'
  | failed e s' rest => trivial
  | crashed s' => trivial

theorem Ensures.of_done (ensured : Ensures P m Q) {s s' : σ} {cs rest : List (Choice ω)} {a : α}
    (holds : P s) (done : m s cs = .done a s' rest) : Q a s' := by
  have result := ensured s cs holds
  rw [done] at result
  exact result

end rules

section keeping
variable {I : σ → Prop} {m : Effect σ ω ε α} {k : α → Effect σ ω ε β}

theorem Keeps.bind (first : Keeps I m) (then_ : ∀ a, Keeps I (k a)) : Keeps I (m >>= k) :=
  Meets.bind first then_

theorem Keeps.pure (a : α) : Keeps I (pure a : Effect σ ω ε α) := Meets.pure fun _ holds => holds

theorem Keeps.fail (e : ε) : Keeps I (fail e : Effect σ ω ε α) := Meets.fail fun _ holds => holds

theorem Keeps.get : Keeps I (get : Effect σ ω ε σ) := Meets.get fun _ holds => holds

theorem Keeps.modify {f : σ → σ} (kept : ∀ s, I s → I (f s)) :
    Keeps I (modify f : Effect σ ω ε Unit) := Meets.modify kept

theorem Keeps.attempt (kept : Keeps I m) : Keeps I m.attempt := Meets.attempt kept

theorem Keeps.mapError {ε' : Type} (f : ε → ε') (kept : Keeps I m) : Keeps I (m.mapError f) := by
  intro s cs holds
  have after := kept s cs holds
  rw [Effect.mapError]
  cases run : m s cs with
  | done a s' rest =>
    rw [run] at after
    exact after
  | failed e s' rest =>
    rw [run] at after
    exact after
  | crashed s' =>
    rw [run] at after
    exact after

theorem Keeps.perform [Inhabited ω] {f : ω → σ → Except ε α × σ}
    (kept : ∀ env s, I s → I (f env s).2) : Keeps I (perform f) := by
  apply Meets.perform
  · intro env s a s' holds result
    have next := kept env s holds
    rw [result] at next
    exact next
  · intro env s e s' holds result
    have next := kept env s holds
    rw [result] at next
    exact next
  · exact fun _ holds => holds

theorem Keeps.ofExcept (r : Except ε α) : Keeps I (ofExcept r : Effect σ ω ε α) :=
  Meets.ofExcept (fun _ _ _ holds => holds) fun _ _ _ holds => holds

theorem Keeps.map (f : α → β) (kept : Keeps I m) : Keeps I (f <$> m) :=
  Keeps.bind kept fun a => Keeps.pure (f a)

end keeping

/-! ### Two programs side by side -/

/-- Two runs that end alike, with the same choices left and in related states. -/
inductive Outcome.Alike {σ' : Type} (R : σ → σ' → Prop) : Outcome σ ω ε α → Outcome σ' ω ε α → Prop
  | done (a : α) {s s'} (related : R s s') (rest : List (Choice ω)) : Alike R (.done a s rest) (.done a s' rest)
  | failed (e : ε) {s s'} (related : R s s') (rest : List (Choice ω)) :
    Alike R (.failed e s rest) (.failed e s' rest)
  | crashed {s s'} (related : R s s') : Alike R (.crashed s) (.crashed s')

/-- From related states the two programs end alike whatever the environment
does. -/
def Simulates {σ' : Type} (R : σ → σ' → Prop) (m : Effect σ ω ε α) (m' : Effect σ' ω ε α) : Prop :=
  ∀ s s' cs, R s s' → Outcome.Alike R (m s cs) (m' s' cs)

section simulation
variable {σ' : Type} {R : σ → σ' → Prop} {m : Effect σ ω ε α} {m' : Effect σ' ω ε α}
  {k : α → Effect σ ω ε β} {k' : α → Effect σ' ω ε β}

theorem Outcome.Alike.state {o : Outcome σ ω ε α} {o' : Outcome σ' ω ε α} (alike : Outcome.Alike R o o') :
    R o.state o'.state := by
  cases alike with
  | done a related rest => exact related
  | failed e related rest => exact related
  | crashed related => exact related

theorem Simulates.pure (a : α) :
    Simulates R (pure a : Effect σ ω ε α) (pure a : Effect σ' ω ε α) := fun _ _ cs related =>
  .done a related cs

theorem Simulates.fail (e : ε) : Simulates R (fail e : Effect σ ω ε α) (fail e : Effect σ' ω ε α) :=
  fun _ _ cs related => .failed e related cs

theorem Simulates.bind (first : Simulates R m m') (then_ : ∀ a, Simulates R (k a) (k' a)) :
    Simulates R (m >>= k) (m' >>= k') := by
  intro s s' cs related
  have alike := first s s' cs related
  rw [bind_apply,bind_apply]
  cases outcome : m s cs with
  | done a t rest =>
    rw [outcome] at alike
    cases outcome' : m' s' cs <;> rw [outcome'] at alike <;> cases alike
    next related' => exact then_ a _ _ rest related'
  | failed e t rest =>
    rw [outcome] at alike
    cases outcome' : m' s' cs <;> rw [outcome'] at alike <;> cases alike
    next related' => exact .failed e related' rest
  | crashed t =>
    rw [outcome] at alike
    cases outcome' : m' s' cs <;> rw [outcome'] at alike <;> cases alike
    next related' => exact .crashed related'

theorem Simulates.attempt (alike : Simulates R m m') : Simulates R m.attempt m'.attempt := by
  intro s s' cs related
  have ended := alike s s' cs related
  unfold Effect.attempt
  cases outcome : m s cs with
  | done a t rest =>
    rw [outcome] at ended
    cases outcome' : m' s' cs <;> rw [outcome'] at ended <;> cases ended
    next related' => exact .done _ related' rest
  | failed e t rest =>
    rw [outcome] at ended
    cases outcome' : m' s' cs <;> rw [outcome'] at ended <;> cases ended
    next related' => exact .done _ related' rest
  | crashed t =>
    rw [outcome] at ended
    cases outcome' : m' s' cs <;> rw [outcome'] at ended <;> cases ended
    next related' => exact .crashed related'

theorem Simulates.modify {f : σ → σ} {f' : σ' → σ'} (kept : ∀ s s', R s s' → R (f s) (f' s')) :
    Simulates R (modify f : Effect σ ω ε Unit) (modify f' : Effect σ' ω ε Unit) :=
  fun s s' cs related => .done () (kept s s' related) cs

theorem Simulates.perform [Inhabited ω] {f : ω → σ → Except ε α × σ} {f' : ω → σ' → Except ε α × σ'}
    (alike : ∀ env s s', R s s' → (f env s).1 = (f' env s').1 ∧ R (f env s).2 (f' env s').2) :
    Simulates R (perform f) (perform f') := by
  have performed (env : ω) {s : σ} {s' : σ'} (related : R s s') :
      (∃ a t t', f env s = (.ok a,t) ∧ f' env s' = (.ok a,t') ∧ R t t') ∨
        ∃ e t t', f env s = (.error e,t) ∧ f' env s' = (.error e,t') ∧ R t t' := by
    obtain ⟨same,after⟩ := alike env s s' related
    cases result : f env s with
    | mk value t =>
      cases result' : f' env s' with
      | mk value' t' =>
        rw [result,result'] at same after
        dsimp only at same after
        subst same
        cases value with
        | ok a => exact .inl ⟨a,t,t',rfl,rfl,after⟩
        | error e => exact .inr ⟨e,t,t',rfl,rfl,after⟩
  intro s s' cs related
  unfold Effect.perform
  cases cs with
  | nil =>
    dsimp only
    rcases performed default related with ⟨a,t,t',made,made',after⟩ | ⟨e,t,t',made,made',after⟩
    · rw [made,made']
      exact .done a after []
    · rw [made,made']
      exact .failed e after []
  | cons choice rest =>
    cases choice with
    | proceed env =>
      dsimp only
      rcases performed env related with ⟨a,t,t',made,made',after⟩ | ⟨e,t,t',made,made',after⟩
      · rw [made,made']
        exact .done a after rest
      · rw [made,made']
        exact .failed e after rest
    | crash => exact .crashed related

end simulation

/-! ### Programs that change nothing -/

/-- However the program ends, the state is the one it started in. -/
def ReadOnly (m : Effect σ ω ε α) : Prop := ∀ s, Keeps (· = s) m

section reading
variable {m : Effect σ ω ε α} {k : α → Effect σ ω ε β}

theorem ReadOnly.keeps (reads : ReadOnly m) (I : σ → Prop) : Keeps I m := by
  intro s cs holds
  have result := reads s s cs rfl
  cases outcome : m s cs with
  | done a s' rest => rw [outcome] at result; exact result ▸ holds
  | failed e s' rest => rw [outcome] at result; exact result ▸ holds
  | crashed s' => rw [outcome] at result; exact result ▸ holds

theorem ReadOnly.bind (first : ReadOnly m) (then_ : ∀ a, ReadOnly (k a)) : ReadOnly (m >>= k) :=
  fun s => Keeps.bind (first s) fun a => then_ a s

theorem ReadOnly.pure (a : α) : ReadOnly (pure a : Effect σ ω ε α) := fun _ => Keeps.pure a

theorem ReadOnly.fail (e : ε) : ReadOnly (fail e : Effect σ ω ε α) := fun _ => Keeps.fail e

theorem ReadOnly.get : ReadOnly (get : Effect σ ω ε σ) := fun _ => Keeps.get

theorem ReadOnly.attempt (reads : ReadOnly m) : ReadOnly m.attempt := fun s => (reads s).attempt

theorem ReadOnly.ofExcept (r : Except ε α) : ReadOnly (ofExcept r : Effect σ ω ε α) :=
  fun _ => Keeps.ofExcept r

theorem ReadOnly.map (f : α → β) (reads : ReadOnly m) : ReadOnly (f <$> m) :=
  reads.bind fun a => ReadOnly.pure (f a)

theorem ReadOnly.perform [Inhabited ω] {f : ω → σ → Except ε α × σ}
    (reads : ∀ env s, (f env s).2 = s) : ReadOnly (perform f) := by
  intro s
  apply Keeps.perform
  intro env s' same
  rw [reads,same]

end reading

end Effect
end StorageHub.Library
