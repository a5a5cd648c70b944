import Mathlib.Data.Nat.Notation
import Mathlib.Tactic.TypeStar

/-!
Runs of a system whose steps are allowed or not, with the cost of a run.
-/

namespace ProxyAuth.Runs

variable {σ α : Type*}

/-- From `s` to `s'` in allowed steps, which cost `n` together. -/
inductive Run (step : σ → α → Option σ) (cost : α → ℕ) (Ok : σ → α → Prop) : ℕ → σ → σ → Prop
  | refl (s : σ) : Run step cost Ok 0 s s
  | tail {n : ℕ} {s s' s'' : σ} {a : α} : Run step cost Ok n s s' → Ok s' a →
      step s' a = some s'' → Run step cost Ok (n + cost a) s s''

variable {step : σ → α → Option σ} {cost : α → ℕ} {Ok : σ → α → Prop}

/-- What every allowed step keeps, every run keeps. -/
theorem Run.invariant {I : σ → Prop}
    (hstep : ∀ s a s', I s → Ok s a → step s a = some s' → I s') {n : ℕ} {s s' : σ}
    (hrun : Run step cost Ok n s s') (h : I s) : I s' := by
  induction hrun with
  | refl s => exact h
  | tail _ hok hs ih => exact hstep _ _ _ (ih h) hok hs

/-- Where every step pays its cost from a rank, a run costs no more than the rank. -/
theorem Run.cost_le {I : σ → Prop} {r : σ → ℕ}
    (hstep : ∀ s a s', I s → Ok s a → step s a = some s' → I s' ∧ r s' + cost a ≤ r s)
    {n : ℕ} {s s' : σ} (hrun : Run step cost Ok n s s') (h : I s) : n + r s' ≤ r s := by
  induction hrun with
  | refl s => omega
  | @tail n s s' s'' a hrun hok hs ih =>
    have hinv : I s' := hrun.invariant (fun s a s' hi ho hs => (hstep s a s' hi ho hs).1) h
    have := ih h
    have := (hstep _ _ _ hinv hok hs).2
    omega

/-- The run with the given steps. -/
def replay (step : σ → α → Option σ) (cost : α → ℕ) (Ok : σ → α → Prop)
    [∀ s a, Decidable (Ok s a)] : ℕ → σ → List α → Option (ℕ × σ)
  | n, s, [] => some (n, s)
  | n, s, a :: as =>
    if Ok s a then
      match step s a with
      | none => none
      | some s' => replay step cost Ok (n + cost a) s' as
    else none

lemma Run.replay [∀ s a, Decidable (Ok s a)] {m n : ℕ} {s s' s'' : σ} (as : List α)
    (hrun : Run step cost Ok m s s') (h : replay step cost Ok m s' as = some (n, s'')) :
    Run step cost Ok n s s'' := by
  induction as generalizing m s' with
  | nil =>
    cases h
    exact hrun
  | cons a as ih =>
    rw [Runs.replay] at h
    by_cases hok : Ok s' a
    · rw [if_pos hok] at h
      rcases hstep : step s' a with _ | t
      · simp [hstep] at h
      · rw [hstep] at h
        exact ih (hrun.tail hok hstep) h
    · simp [hok] at h

end ProxyAuth.Runs
