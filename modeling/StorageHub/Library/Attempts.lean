import StorageHub.Library.Effect

/-! A program that is run again and again, each run ending with a value, with an
error or by a stop. -/
namespace StorageHub.Library.Effect
variable {σ ω ε α : Type}

/-- The states in which a further run begins. `between` is what happens before the first run
and after each. -/
inductive Attempts (between : σ → σ → Prop) (m : Effect σ ω ε α) : σ → σ → Prop
  | first {s s' : σ} : between s s' → Attempts between m s s'
  | again {s s' s'' : σ} (cs : List (Choice ω)) : Attempts between m s s' → between (m s' cs).state s'' →
    Attempts between m s s''

variable {between : σ → σ → Prop} {m : Effect σ ω ε α} {I J : σ → Prop} {s s' : σ}

theorem Meets.of_exists {ι : Type} {P : ι → σ → Prop} {Q : α → σ → Prop} {E : ε → σ → Prop} {C : σ → Prop}
    (met : ∀ i, Meets (P i) m Q E C) : Meets (fun s => ∃ i, P i s) m Q E C := by
  rintro s cs ⟨i,holds⟩
  exact met i s cs holds

theorem Meets.of_fact {fact : Prop} {P : σ → Prop} {Q : α → σ → Prop} {E : ε → σ → Prop} {C : σ → Prop}
    (met : fact → Meets P m Q E C) : Meets (fun s => P s ∧ fact) m Q E C :=
  fun s cs holds => met holds.2 s cs holds.1

theorem Meets.state {Q : α → σ → Prop} {E : ε → σ → Prop} {C : σ → Prop} (met : Meets I m Q E C)
    (onDone : ∀ a s, Q a s → J s) (onFail : ∀ err s, E err s → J s) (onCrash : ∀ s, C s → J s)
    (cs : List (Choice ω)) (holds : I s) : J (m s cs).state := by
  have result := met s cs holds
  cases outcome : m s cs with
  | done a s' rest => rw [outcome] at result; exact onDone a s' result
  | failed err s' rest => rw [outcome] at result; exact onFail err s' result
  | crashed s' => rw [outcome] at result; exact onCrash s' result

/-- What every run leaves, from what it begins with, and what is in between makes that again. -/
theorem Attempts.invariant (runs : Meets I m (fun _ => J) (fun _ => J) J)
    (resumes : ∀ s s', J s → between s s' → I s') (tried : Attempts between m s s') (holds : J s) : I s' := by
  induction tried with
  | first resumed => exact resumes _ _ holds resumed
  | again cs _ resumed ih =>
    have left := runs.state (fun _ _ kept => kept) (fun _ _ kept => kept) (fun _ kept => kept) cs ih
    exact resumes _ _ left resumed

end StorageHub.Library.Effect
