import Mathlib.Data.List.Induction

/-!
# Histories

A run of a partial step function over a list of actions, looked at from its end, and the
places of a list that has grown at its end.
-/

namespace History

variable {σ α : Type*}

/-- Induction over the runs from one state, by their last action. -/
theorem run_induction {step : σ → α → Option σ} {s : σ} {P : List α → σ → Prop} (hinit : P [] s)
    (hstep : ∀ actions a m m', actions.foldlM step s = some m → P actions m →
      step m a = some m' → P (actions ++ [a]) m')
    {actions : List α} {m : σ} (h : actions.foldlM step s = some m) : P actions m := by
  induction actions using List.reverseRecOn generalizing m with
  | nil =>
    obtain rfl := Option.some.inj h
    exact hinit
  | append_singleton actions a ih =>
    rw [List.foldlM_append] at h
    obtain ⟨m', hrun, hlast⟩ := Option.bind_eq_some_iff.mp h
    rw [List.foldlM_cons] at hlast
    obtain ⟨m'', ha, heq⟩ := Option.bind_eq_some_iff.mp hlast
    obtain rfl := Option.some.inj heq
    exact hstep actions a m' m'' hrun (ih hrun) ha

/-- What every step with an admissible action keeps, a run with such actions keeps. -/
theorem run_invariant {step : σ → α → Option σ} {P : σ → Prop} {A : α → Prop}
    (hstep : ∀ m a m', P m → A a → step m a = some m' → P m') {actions : List α} {s m : σ}
    (hs : P s) (hA : ∀ a ∈ actions, A a) (h : actions.foldlM step s = some m) : P m := by
  induction actions generalizing s with
  | nil =>
    obtain rfl := Option.some.inj h
    exact hs
  | cons a actions ih =>
    obtain ⟨ha, hactions⟩ := List.forall_mem_cons.mp hA
    obtain ⟨s', hs', hrun⟩ := Option.bind_eq_some_iff.mp h
    exact ih (hstep s a s' hs ha hs') hactions hrun

/-- Where every step with an admissible action is possible, a run with such actions is. -/
theorem exists_run {step : σ → α → Option σ} {P : σ → Prop} {A : α → Prop}
    (hstep : ∀ m a, P m → A a → ∃ m', step m a = some m' ∧ P m') {actions : List α} {s : σ}
    (hs : P s) (hA : ∀ a ∈ actions, A a) : ∃ m, actions.foldlM step s = some m ∧ P m := by
  induction actions generalizing s with
  | nil => exact ⟨s, rfl, hs⟩
  | cons a actions ih =>
    obtain ⟨ha, hactions⟩ := List.forall_mem_cons.mp hA
    obtain ⟨s', heq, hs'⟩ := hstep s a hs ha
    rw [List.foldlM_cons, heq]
    exact ih hs' hactions

/-- An element of a grown list is in the old one, or behind it. -/
theorem split_append {xs ys before after : List α} {x : α} (h : xs ++ ys = before ++ x :: after) :
    (∃ mid, xs = before ++ x :: mid) ∨ ∃ mid, before = xs ++ mid ∧ ys = mid ++ x :: after := by
  rcases List.append_eq_append_iff.mp h with ⟨mid, hbefore, hys⟩ | ⟨mid, hxs, hrest⟩
  · exact .inr ⟨mid, hbefore, hys⟩
  · cases mid with
    | nil => exact .inr ⟨[], by rw [hxs, List.append_nil, List.append_nil], hrest.symm⟩
    | cons y mid =>
      obtain ⟨rfl, -⟩ := List.cons.inj hrest
      exact .inl ⟨mid, hxs⟩

end History
