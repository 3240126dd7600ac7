import StorageHub.Library.Effect

/-! Programs on a part of a state. What holds of the part alone holds of the whole, and
with it whatever a change of the part leaves as it is. -/
namespace StorageHub.Library.Effect
variable {σ τ ω ε α : Type}

structure Part (τ σ : Type) where
  get : τ → σ
  put : σ → τ → τ
  get_put (s : σ) (t : τ) : get (put s t) = s

def Part.first : Part (σ × τ) σ := ⟨Prod.fst,fun s t => (s,t.2),fun _ _ => rfl⟩

def Part.second : Part (τ × σ) σ := ⟨Prod.snd,fun s t => (t.1,s),fun _ _ => rfl⟩

/-- The program where the state is a part of another one. -/
def on (m : Effect σ ω ε α) (part : Part τ σ) : Effect τ ω ε α := fun t cs =>
  match m (part.get t) cs with
  | .done a s rest => .done a (part.put s t) rest
  | .failed e s rest => .failed e (part.put s t) rest
  | .crashed s => .crashed (part.put s t)

variable {m : Effect σ ω ε α} {P : σ → Prop} {Q : α → σ → Prop} {E : ε → σ → Prop} {C : σ → Prop} {frame : τ → Prop}

/-- The frame stays. -/
theorem Meets.on (met : Meets P m Q E C) (part : Part τ σ) (stays : ∀ s t, frame t → frame (part.put s t)) :
    Meets (fun t => P (part.get t) ∧ frame t) (m.on part) (fun a t => Q a (part.get t) ∧ frame t)
      (fun e t => E e (part.get t) ∧ frame t) fun t => C (part.get t) ∧ frame t := by
  intro t cs holds
  have result := met (part.get t) cs holds.1
  unfold Effect.on
  cases outcome : m (part.get t) cs with
  | done a s rest =>
    rw [outcome] at result
    exact ⟨by rw [part.get_put]; exact result,stays s t holds.2⟩
  | failed e s rest =>
    rw [outcome] at result
    exact ⟨by rw [part.get_put]; exact result,stays s t holds.2⟩
  | crashed s =>
    rw [outcome] at result
    exact ⟨by rw [part.get_put]; exact result,stays s t holds.2⟩

end StorageHub.Library.Effect
