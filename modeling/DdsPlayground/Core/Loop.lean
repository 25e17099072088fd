import Mathlib.Logic.Basic

/-!
# Bounded loops over a fallible body

A C loop is a body run again and again until it leaves. The body is fallible:
`none` is a step the source must never take. The fuel makes the recursion
structural, and running out of it is a failure too, so a theorem that a loop
returns `some` says at once that no pass fails and that the loop ends.
-/

namespace BoundedLoop

variable {σ : Type*}

/-- One pass either goes back to the loop test or leaves the loop. -/
inductive Pass (σ : Type*) where
  /-- The state with which the loop test is made again. -/
  | again (s : σ)
  /-- The state behind the loop, by a failed test or by a `break`. -/
  | leave (s : σ)

/-- Run the body until it leaves, with at most `fuel` passes. -/
def run (body : σ → Option (Pass σ)) : Nat → σ → Option σ
  | 0, _ => none
  | fuel + 1, s =>
    match body s with
    | none => none
    | some (.leave r) => some r
    | some (.again s') => run body fuel s'

/-- The states whose pass went back to the loop test, in order. -/
def visited (body : σ → Option (Pass σ)) : Nat → σ → List σ
  | 0, _ => []
  | fuel + 1, s =>
    match body s with
    | some (.again s') => s :: visited body fuel s'
    | _ => []

theorem run_leave {body : σ → Option (Pass σ)} {s r : σ} (h : body s = some (.leave r))
    (fuel : Nat) : run body (fuel + 1) s = some r := by
  simp only [run, h]

theorem run_again {body : σ → Option (Pass σ)} {s s' : σ} (h : body s = some (.again s'))
    (fuel : Nat) : run body (fuel + 1) s = run body fuel s' := by
  simp only [run, h]

theorem visited_leave {body : σ → Option (Pass σ)} {s r : σ} (h : body s = some (.leave r))
    (fuel : Nat) : visited body (fuel + 1) s = [] := by
  simp only [visited, h]

theorem visited_again {body : σ → Option (Pass σ)} {s s' : σ} (h : body s = some (.again s'))
    (fuel : Nat) : visited body (fuel + 1) s = s :: visited body fuel s' := by
  simp only [visited, h]

/-- A loop whose passes shrink `size` returns, and an observation of the state it
returns is every function `f` that solves the loop's equation on the states of
the invariant. -/
theorem exists_run_eq {ρ : Type*} {body : σ → Option (Pass σ)} (Inv : σ → Prop) (size : σ → Nat)
    (obs f : σ → ρ)
    (hbody : ∀ s, Inv s → (∃ r, body s = some (.leave r) ∧ obs r = f s) ∨
      ∃ s', body s = some (.again s') ∧ Inv s' ∧ size s' < size s ∧ f s' = f s)
    (fuel : Nat) (s : σ) (hs : Inv s) (hfuel : size s < fuel) :
    ∃ r, run body fuel s = some r ∧ obs r = f s := by
  induction fuel generalizing s with
  | zero => omega
  | succ fuel ih =>
    rcases hbody s hs with ⟨r, hleave, hr⟩ | ⟨s', hagain, hs', hsize, hf⟩
    · exact ⟨r, run_leave hleave fuel, hr⟩
    · rw [run_again hagain, ← hf]
      exact ih s' hs' (by omega)

/-- A loop that has returned returns the same with any more fuel. -/
theorem run_mono {body : σ → Option (Pass σ)} {fuel more : Nat} {s r : σ}
    (h : run body fuel s = some r) (hle : fuel ≤ more) : run body more s = some r := by
  induction fuel generalizing s more with
  | zero => simp [run] at h
  | succ fuel ih =>
    obtain ⟨k, rfl⟩ : ∃ k, more = k + 1 := ⟨more - 1, by omega⟩
    cases hb : body s with
    | none => simp [run, hb] at h
    | some p =>
      cases p with
      | leave r' =>
        rw [run_leave hb] at h ⊢
        exact h
      | again s' =>
        rw [run_again hb] at h ⊢
        exact ih h (by omega)

end BoundedLoop
