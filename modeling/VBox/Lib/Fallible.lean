/-!
Computations on a state that may fail, which leaves the state where it is then.
-/

namespace VBox.Lib

def Fallible (σ ε α : Type) : Type := σ → σ × Except ε α

namespace Fallible

variable {σ ε α β : Type}

instance : Monad (Fallible σ ε) where
  pure a := fun s => (s, .ok a)
  bind m f := fun s =>
    match m s with
    | (s, .ok a) => f a s
    | (s, .error e) => (s, .error e)

def get : Fallible σ ε σ := fun s => (s, .ok s)

def modify (f : σ → σ) : Fallible σ ε Unit := fun s => (f s, .ok ())

def fail (e : ε) : Fallible σ ε α := fun s => (s, .error e)

/-- Note the failure in the state. -/
def noting (note : ε → σ → σ) (m : Fallible σ ε α) : Fallible σ ε α := fun s =>
  match m s with
  | (s, .error e) => (note e s, .error e)
  | ended => ended

/-- A computation has ended with `Q`, or failed with `E`. -/
def Ends (Q : α → σ → Prop) (E : ε → σ → Prop) : σ × Except ε α → Prop
  | (s, .ok a) => Q a s
  | (s, .error e) => E e s

structure Meets (P : σ → Prop) (m : Fallible σ ε α) (Q : α → σ → Prop) (E : ε → σ → Prop) :
    Prop where
  ends : ∀ s, P s → Ends Q E (m s)

namespace Meets

variable {P : σ → Prop} {m : Fallible σ ε α} {f : α → Fallible σ ε β} {Q : α → σ → Prop}
  {R : β → σ → Prop} {E E' : ε → σ → Prop}

theorem pure {a : α} (so : ∀ s, P s → Q a s) : Meets P (Pure.pure a : Fallible σ ε α) Q E := ⟨so⟩

theorem modify {g : σ → σ} {Q : Unit → σ → Prop} (so : ∀ s, P s → Q () (g s)) :
    Meets P (Fallible.modify g) Q E := ⟨so⟩

theorem fail {e : ε} (so : ∀ s, P s → E e s) : Meets P (Fallible.fail e : Fallible σ ε α) Q E := ⟨so⟩

theorem bind (first : Meets P m Q E) (rest : ∀ a, Meets (Q a) (f a) R E) :
    Meets P (m >>= f) R E := by
  constructor
  intro s before
  have ended := first.ends s before
  simp only [Bind.bind]
  generalize m s = r at ended ⊢
  obtain ⟨s', e | a⟩ := r
  · exact ended
  · exact (rest a).ends s' ended

/-- Look at the state. -/
theorem get_bind {f : σ → Fallible σ ε β} (rest : ∀ s, P s → Meets (· = s) (f s) R E) :
    Meets P (get >>= f) R E :=
  ⟨fun s before => (rest s before).ends s rfl⟩

theorem noting {note : ε → σ → σ} (meets : Meets P m Q E) (so : ∀ e s, E e s → E' e (note e s)) :
    Meets P (m.noting note) Q E' := by
  constructor
  intro s before
  have ended := meets.ends s before
  unfold Fallible.noting
  generalize m s = r at ended ⊢
  obtain ⟨s', e | a⟩ := r
  · exact so _ _ ended
  · exact ended

theorem ite {c : Prop} [Decidable c] {m' : Fallible σ ε α} (yes : c → Meets P m Q E)
    (no : ¬ c → Meets P m' Q E) : Meets P (if c then m else m') Q E := by
  split
  · exact yes ‹_›
  · exact no ‹_›

/-- What does not depend on the state. -/
theorem given {φ : Prop} (so : φ → Meets P m Q E) : Meets (fun s => φ ∧ P s) m Q E :=
  ⟨fun s before => (so before.1).ends s before.2⟩

theorem forSome {ι : Type} {P : ι → σ → Prop} (so : ∀ i, Meets (P i) m Q E) :
    Meets (fun s => ∃ i, P i s) m Q E :=
  ⟨fun s ⟨i, before⟩ => (so i).ends s before⟩

theorem weaken {P' : σ → Prop} {Q' : α → σ → Prop} (meets : Meets P m Q E)
    (before : ∀ s, P' s → P s) (after : ∀ a s, Q a s → Q' a s) : Meets P' m Q' E := by
  constructor
  intro s holds
  have ended := meets.ends s (before s holds)
  generalize m s = r at ended ⊢
  obtain ⟨s', e | a⟩ := r
  · exact ended
  · exact after _ _ ended

end Meets

end Fallible

end VBox.Lib
