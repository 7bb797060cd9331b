import Mathlib.Tactic

/-!
Loops that end because a measure decreases.

The body of a loop is a function `step` that returns the next state, or nothing when the loop is
left. If every round makes the state smaller, the bound on the rounds is never reached.
-/

namespace Foretoken.Loop

variable {σ : Type*}

/-- At most `rounds` rounds of a loop. -/
def within (step : σ → Option σ) : ℕ → σ → σ
  | 0, s => s
  | rounds + 1, s =>
    match step s with
    | none => s
    | some next => within step rounds next

/-- The loop, in as many rounds as the size of its first state. -/
def run (step : σ → Option σ) (size : σ → ℕ) (s : σ) : σ := within step (size s + 1) s

section Ends

variable {step : σ → Option σ} {size : σ → ℕ}
  (hsize : ∀ s next, step s = some next → size next < size s)
include hsize

lemma within_eq (s : σ) {ns ns' : ℕ} (h : size s < ns) (h' : size s < ns') :
    within step ns s = within step ns' s := by
  induction ns generalizing s ns' with
  | zero => exact absurd h (Nat.not_lt_zero _)
  | succ ns ih =>
    obtain ⟨ns', rfl⟩ := Nat.exists_eq_succ_of_ne_zero (Nat.ne_zero_of_lt h')
    rw [within, within]
    cases hstep : step s with
    | none => rfl
    | some next =>
      have hless := hsize s next hstep
      exact ih next (by omega) (by omega)

/-- **The equation of the loop.** -/
theorem run_eq (s : σ) : run step size s = (step s).elim s (run step size) := by
  rw [run, within]
  cases hstep : step s with
  | none => rfl
  | some next => exact within_eq hsize next (hsize s next hstep) (Nat.lt_succ_self _)

/-- **The loop ends by itself.** -/
theorem run_ends (s : σ) : step (run step size s) = none := by
  induction h : size s using Nat.strong_induction_on generalizing s with
  | _ n ih =>
    rw [run_eq hsize]
    cases hstep : step s with
    | none => exact hstep
    | some next => exact ih _ (by rw [← h]; exact hsize s next hstep) next rfl

end Ends

/-- **The rule of loop invariants.** -/
theorem run_preserves {step : σ → Option σ} {I : σ → Prop}
    (hstep : ∀ s next, step s = some next → I s → I next) (size : σ → ℕ) {s : σ} (h : I s) :
    I (run step size s) := by
  rw [run]
  generalize size s + 1 = ns
  induction ns generalizing s with
  | zero => exact h
  | succ ns ih =>
    rw [within]
    cases hnext : step s with
    | none => exact h
    | some next => exact ih (hstep s next hnext h)

end Foretoken.Loop
