/-!
Runs of a labelled step relation.

`Run step s as t` says that the labels `as` take `s` to `t`. A guard restricts
the steps a run may take; `Run.invariant` is the induction every statement
about all runs goes through, and `Run.exists_of_follow` replays a run of a computable
system.
-/

namespace VBox.Lib

variable {σ α : Type}

/-- The labels `as` take the state `s` to the state `t`. -/
inductive Run (step : σ → α → σ → Prop) : σ → List α → σ → Prop where
  | done (s : σ) : Run step s [] s
  | next {s t u : σ} {a : α} {as : List α} :
      step s a t → Run step t as u → Run step s (a :: as) u

/-- Steps that meet a condition on the state before them. -/
def Guarded (guard : σ → α → Prop) (step : σ → α → σ → Prop) : σ → α → σ → Prop :=
  fun s a t => guard s a ∧ step s a t

namespace Run

variable {step : σ → α → σ → Prop} {s t u : σ} {as bs : List α}

/-- What every step keeps, a run keeps. -/
theorem invariant (run : Run step s as t) (inv : σ → Prop)
    (keeps : ∀ {s a t}, inv s → step s a t → inv t) (start : inv s) : inv t := by
  induction run with
  | done => exact start
  | next taken _ ih => exact ih (keeps start taken)

/-- An invariant that speaks about the labels taken so far. -/
theorem history (run : Run step s as t) (inv : List α → σ → Prop)
    (keeps : ∀ {past s a t}, inv past s → step s a t → inv (past ++ [a]) t) {past : List α}
    (start : inv past s) : inv (past ++ as) t := by
  induction run generalizing past with
  | done => rwa [List.append_nil]
  | @next _ _ _ a _ taken _ ih =>
    have more := ih (keeps start taken)
    rwa [List.append_assoc] at more

theorem append (first : Run step s as t) (second : Run step t bs u) : Run step s (as ++ bs) u := by
  induction first with
  | done => exact second
  | next taken _ ih => exact .next taken (ih second)

theorem single {a : α} (taken : step s a t) : Run step s [a] t := .next taken (.done t)

/-- A run with one more step at its end. -/
theorem snoc {a : α} (run : Run step s as t) (taken : step t a u) : Run step s (as ++ [a]) u :=
  run.append (single taken)

/-- Weakening the step relation keeps its runs. -/
theorem mono {step' : σ → α → σ → Prop} (weaker : ∀ {s a t}, step s a t → step' s a t)
    (run : Run step s as t) : Run step' s as t := by
  induction run with
  | done => exact .done _
  | next taken _ ih => exact .next (weaker taken) ih

/-- Take the labels one after the other, where the guard lets them. -/
def follow (guard : σ → α → Prop) [∀ s a, Decidable (guard s a)] (next : σ → α → Option σ) :
    σ → List α → Option σ
  | s, [] => some s
  | s, a :: as => if guard s a then (next s a).bind fun t => follow guard next t as else none

theorem exists_of_follow (guard : σ → α → Prop) [∀ s a, Decidable (guard s a)]
    (next : σ → α → Option σ) (s : σ) (as : List α) (p : σ → Prop) [DecidablePred p]
    (reached : (follow guard next s as).any (fun t => decide (p t)) = true) :
    ∃ t, Run (Guarded guard fun s a t => next s a = some t) s as t ∧ p t := by
  induction as generalizing s with
  | nil => exact ⟨s, .done s, of_decide_eq_true reached⟩
  | cons a as ih =>
    rw [follow] at reached
    split at reached
    case isFalse => cases reached
    case isTrue allowed =>
      cases taken : next s a with
      | none =>
        rw [taken] at reached
        cases reached
      | some t =>
        rw [taken] at reached
        obtain ⟨u, run, final⟩ := ih t reached
        exact ⟨u, .next ⟨allowed, taken⟩ run, final⟩

end Run

end VBox.Lib
