import Mathlib.Data.Option.Basic

/-!
# Runs under a condition

A run each of whose actions meets a condition on the state in which it is taken. What the
actions under the condition preserve holds along the run, and a rank that each of them
lowers bounds its length.
-/

namespace History

variable {σ α : Type*} {step : σ → α → Option σ} {G : σ → α → Prop}

/-- Each action of a run meets the condition in the state in which it is taken. -/
def Guarded (step : σ → α → Option σ) (G : σ → α → Prop) : σ → List α → Prop
  | _, [] => True
  | s, a :: as => G s a ∧ ∀ s' ∈ step s a, Guarded step G s' as

instance decidableGuarded [∀ s a, Decidable (G s a)] :
    (s : σ) → (as : List α) → Decidable (Guarded step G s as)
  | _, [] => inferInstanceAs (Decidable True)
  | s, a :: as =>
    have : DecidablePred fun s' => Guarded step G s' as := fun s' => decidableGuarded s' as
    inferInstanceAs (Decidable (G s a ∧ ∀ s' ∈ step s a, Guarded step G s' as))

theorem guarded_append {s s' : σ} {as bs : List α} (h : as.foldlM step s = some s') :
    Guarded step G s (as ++ bs) ↔ Guarded step G s as ∧ Guarded step G s' bs := by
  induction as generalizing s with
  | nil =>
    obtain rfl := Option.some.inj h
    simp only [List.nil_append, Guarded, true_and]
  | cons a as ih =>
    rw [List.foldlM_cons] at h
    obtain ⟨t, ha, hrest⟩ := Option.bind_eq_some_iff.mp h
    simp only [List.cons_append, Guarded, ha, Option.mem_def, Option.some.injEq, forall_eq',
      ih hrest, and_assoc]

/-- A condition on the actions alone joins the one on the states. -/
theorem Guarded.and_forall {Q : α → Prop} {s : σ} {as : List α} (hg : Guarded step G s as)
    (hQ : ∀ a ∈ as, Q a) : Guarded step (fun s a => G s a ∧ Q a) s as := by
  induction as generalizing s with
  | nil => trivial
  | cons a as ih =>
    obtain ⟨ha, hrest⟩ := List.forall_mem_cons.mp hQ
    exact ⟨⟨hg.1, ha⟩, fun s' hs' => ih (hg.2 s' hs') hrest⟩

/-- What the actions under the condition preserve holds at the end of a run of them. -/
theorem Guarded.invariant {I : σ → Prop}
    (hstep : ∀ s a s', I s → G s a → step s a = some s' → I s') {s s' : σ} {as : List α}
    (hg : Guarded step G s as) (h : as.foldlM step s = some s') (hs : I s) : I s' := by
  induction as generalizing s with
  | nil =>
    obtain rfl := Option.some.inj h
    exact hs
  | cons a as ih =>
    rw [List.foldlM_cons] at h
    obtain ⟨t, ha, hrest⟩ := Option.bind_eq_some_iff.mp h
    exact ih (hg.2 t ha) hrest (hstep s a t hs hg.1 ha)

/-- A rank that the actions under the condition lower bounds the length of a run of them. -/
theorem Guarded.length_add_le {I : σ → Prop} {μ : σ → Nat}
    (hstep : ∀ s a s', I s → G s a → step s a = some s' → I s')
    (hμ : ∀ s a s', I s → G s a → step s a = some s' → μ s' < μ s) {s s' : σ} {as : List α}
    (hg : Guarded step G s as) (h : as.foldlM step s = some s') (hs : I s) :
    as.length + μ s' ≤ μ s := by
  induction as generalizing s with
  | nil =>
    obtain rfl := Option.some.inj h
    simp only [List.length_nil, Nat.zero_add, Nat.le_refl]
  | cons a as ih =>
    rw [List.foldlM_cons] at h
    obtain ⟨t, ha, hrest⟩ := Option.bind_eq_some_iff.mp h
    have hlower := hμ s a t hs hg.1 ha
    have htail := ih (hg.2 t ha) hrest (hstep s a t hs hg.1 ha)
    rw [List.length_cons]
    omega

end History
