import StorageHub.Library.Effect

/-! Programs that end well, or fail, whatever a calm environment does, and programs
that work on one of two states. -/
namespace StorageHub.Library.Effect
variable {σ τ ω ε ε' α β : Type}

def onFirst (m : Effect σ ω ε α) : Effect (σ × τ) ω ε α := fun s cs =>
  match m s.1 cs with
  | .done a s' rest => .done a (s',s.2) rest
  | .failed e s' rest => .failed e (s',s.2) rest
  | .crashed s' => .crashed (s',s.2)

/-- In a calm environment every run ends with a value as `Q` says. -/
def Ends (calm : Choice ω → Prop) (m : Effect σ ω ε α) (s : σ) (Q : α → σ → Prop) : Prop :=
  ∀ cs, (∀ c ∈ cs, calm c) → ∃ a s' rest, m s cs = .done a s' rest ∧ (∀ c ∈ rest, calm c) ∧ Q a s'

/-- In a calm environment every run ends with an error. -/
def Fails (calm : Choice ω → Prop) (m : Effect σ ω ε α) (s : σ) : Prop :=
  ∀ cs, (∀ c ∈ cs, calm c) → ∃ e s' rest, m s cs = .failed e s' rest

variable {calm : Choice ω → Prop} {m : Effect σ ω ε α} {k : α → Effect σ ω ε β} {s : σ}
  {Q Q' : α → σ → Prop} {R : β → σ → Prop}

namespace Ends

protected theorem pure {a : α} (holds : Q a s) : Ends calm (pure a : Effect σ ω ε α) s Q :=
  fun cs quiet => ⟨a,s,cs,rfl,quiet,holds⟩

protected theorem get {Q : σ → σ → Prop} (holds : Q s s) : Ends calm (get : Effect σ ω ε σ) s Q :=
  fun cs quiet => ⟨s,s,cs,rfl,quiet,holds⟩

protected theorem modify {f : σ → σ} {Q : Unit → σ → Prop} (holds : Q () (f s)) :
    Ends calm (modify f : Effect σ ω ε Unit) s Q :=
  fun cs quiet => ⟨(),f s,cs,rfl,quiet,holds⟩

protected theorem ofExcept {r : Except ε α} {a : α} (made : r = .ok a) (holds : Q a s) :
    Ends calm (ofExcept r : Effect σ ω ε α) s Q := by
  rw [made]
  exact Ends.pure holds

theorem weaken (ends : Ends calm m s Q) (onDone : ∀ a s', Q a s' → Q' a s') : Ends calm m s Q' := by
  intro cs quiet
  obtain ⟨a,s',rest,ran,left,holds⟩ := ends cs quiet
  exact ⟨a,s',rest,ran,left,onDone a s' holds⟩

theorem bind (first : Ends calm m s Q) (later : ∀ a s', Q a s' → Ends calm (k a) s' R) :
    Ends calm (m >>= k) s R := by
  intro cs quiet
  obtain ⟨a,middle,left,ran,still,holds⟩ := first cs quiet
  obtain ⟨b,s',rest,ran',left',holds'⟩ := later a middle holds left still
  refine ⟨b,s',rest,?_,left',holds'⟩
  rw [bind_apply,ran]
  exact ran'

theorem mapError (f : ε → ε') (ends : Ends calm m s Q) : Ends calm (m.mapError f) s Q := by
  intro cs quiet
  obtain ⟨a,s',rest,ran,left⟩ := ends cs quiet
  refine ⟨a,s',rest,?_,left⟩
  rw [Effect.mapError,ran]

theorem attempt {Q : Except ε α → σ → Prop} (ends : Ends calm m s fun a => Q (.ok a)) :
    Ends calm m.attempt s Q := by
  intro cs quiet
  obtain ⟨a,s',rest,ran,left⟩ := ends cs quiet
  refine ⟨.ok a,s',rest,?_,left⟩
  rw [Effect.attempt,ran]

theorem onFirst (ends : Ends calm m s Q) (t : τ) :
    Ends calm (m.onFirst : Effect (σ × τ) ω ε α) (s,t) fun a after => Q a after.1 ∧ after.2 = t := by
  intro cs quiet
  obtain ⟨a,s',rest,ran,left,holds⟩ := ends cs quiet
  refine ⟨a,(s',t),rest,?_,left,holds,rfl⟩
  rw [Effect.onFirst,ran]

theorem bind_fails (first : Ends calm m s Q) (later : ∀ a s', Q a s' → Fails calm (k a) s') :
    Fails calm (m >>= k) s := by
  intro cs quiet
  obtain ⟨a,middle,left,ran,still,holds⟩ := first cs quiet
  obtain ⟨e,s',rest,ran'⟩ := later a middle holds left still
  refine ⟨e,s',rest,?_⟩
  rw [bind_apply,ran]
  exact ran'

/-- What holds of some run. -/
theorem exists_done (ends : Ends calm m s Q) : ∃ a s', Q a s' := by
  obtain ⟨a,s',-,-,-,holds⟩ := ends [] fun _ member => by cases member
  exact ⟨a,s',holds⟩

theorem not_fails (ends : Ends calm m s Q) : ¬Fails calm m s := by
  intro failing
  obtain ⟨a,s',rest,ran,-⟩ := ends [] fun _ member => by cases member
  obtain ⟨e,after,rest',ran'⟩ := failing [] fun _ member => by cases member
  rw [ran] at ran'
  cases ran'

/-- What two descriptions say of one run holds together. -/
theorem and (first : Ends calm m s Q) (second : Ends calm m s Q') : Ends calm m s fun a s' => Q a s' ∧ Q' a s' := by
  intro cs quiet
  obtain ⟨a,s',rest,ran,left,holds⟩ := first cs quiet
  obtain ⟨a',s'',rest',ran',-,holds'⟩ := second cs quiet
  rw [ran] at ran'
  cases ran'
  exact ⟨a,s',rest,ran,left,holds,holds'⟩

end Ends

namespace Fails

protected theorem fail (e : ε) (s : σ) : Fails calm (fail e : Effect σ ω ε α) s := fun cs _ => ⟨e,s,cs,rfl⟩

protected theorem ofExcept {e : ε} {r : Except ε α} (made : r = .error e) (s : σ) :
    Fails calm (ofExcept r : Effect σ ω ε α) s := by
  rw [made]
  exact Fails.fail e s

theorem bind (first : Fails calm m s) : Fails calm (m >>= k) s := by
  intro cs quiet
  obtain ⟨e,after,rest,ran⟩ := first cs quiet
  exact ⟨e,after,rest,by rw [bind_apply,ran]⟩

theorem mapError (f : ε → ε') (first : Fails calm m s) : Fails calm (m.mapError f) s := by
  intro cs quiet
  obtain ⟨e,after,rest,ran⟩ := first cs quiet
  exact ⟨f e,after,rest,by rw [Effect.mapError,ran]⟩

theorem onFirst {t : τ} (first : Fails calm m s) : Fails calm (m.onFirst : Effect (σ × τ) ω ε α) (s,t) := by
  intro cs quiet
  obtain ⟨e,after,rest,ran⟩ := first cs quiet
  exact ⟨e,(after,t),rest,by rw [Effect.onFirst,ran]⟩

end Fails

/-! ### Errors told otherwise, and parts of a state -/

section meets
variable {P : σ → Prop} {C : σ → Prop}

theorem Meets.mapError {E : ε' → σ → Prop} (f : ε → ε') (met : Meets P m Q (fun e => E (f e)) C) :
    Meets P (m.mapError f) Q E C := by
  intro s cs holds
  have result := met s cs holds
  unfold Effect.mapError
  cases outcome : m s cs with
  | done a s' rest => rw [outcome] at result; exact result
  | failed e s' rest => rw [outcome] at result; exact result
  | crashed s' => rw [outcome] at result; exact result

/-- The second state stays. -/
theorem Meets.onFirst {E : ε → σ → Prop} (met : Meets P m Q E C) (t : τ) :
    Meets (fun at_ : σ × τ => P at_.1 ∧ at_.2 = t) m.onFirst (fun a after => Q a after.1 ∧ after.2 = t)
      (fun e after => E e after.1) fun after => C after.1 := by
  intro at_ cs holds
  have result := met at_.1 cs holds.1
  unfold Effect.onFirst
  cases outcome : m at_.1 cs with
  | done a s' rest => rw [outcome] at result; exact ⟨result,holds.2⟩
  | failed e s' rest => rw [outcome] at result; exact result
  | crashed s' => rw [outcome] at result; exact result

end meets
end StorageHub.Library.Effect
