import Mathlib.Data.List.Infix
import Mathlib.Order.Defs.Unbundled

/-!
# Replaying an output

A program that puts out a list, piece by piece, and a program that works along a list. The
second one replays the first when it succeeds on every list that begins with what the first
has put out, or ends in an error that is excused. The first may depend on an environment. The
second may then leave something behind that fits to other environments too, and there the
first does the same again.
-/

namespace Replay

variable {ε ε' σ τ α β γ δ ι E : Type}

/-- Every run of a program takes its state along a relation. -/
def Steps (R : σ → σ → Prop) (x : StateT σ (Except ε) α) : Prop :=
  ∀ ⦃s a s'⦄, x s = .ok (a, s') → R s s'

/-- Every result of a program is of a kind. -/
def Returns (P : α → Prop) (x : StateT σ (Except ε) α) : Prop :=
  ∀ ⦃s a s'⦄, x s = .ok (a, s') → P a

/-- What a program has put out, it leaves as it is. -/
def Grows (out : σ → List ι) (x : StateT σ (Except ε) α) : Prop :=
  Steps (fun s s' => out s <+: out s') x

/-- What belongs to an output and to the program that works along it. -/
structure Setting (σ τ ι E ε : Type) where
  out : σ → List ι
  final : List ι
  /-- The states of the two programs at the same piece of the output. -/
  meet : E → σ → τ → Prop
  /-- The environments that what the second program has come to fits to. -/
  fit : τ → E → Prop
  /-- The state of the first program when it runs in one of these. -/
  again : σ → τ → σ
  /-- The errors that the second program may end in all the same. -/
  excuse : ε → Prop

/-- On a list that begins with the output of `x`, the program `y` succeeds with a related
result, and in every environment that fits then, `x` comes to the same result again. -/
def Replays (S : Setting σ τ ι E ε') (V : α → γ → Prop) (x : E → StateT σ (Except ε) α)
    (y : StateT τ (Except ε') γ) : Prop :=
  ∀ ⦃e s t a s'⦄, x e s = .ok (a, s') → S.out s' <+: S.final → S.meet e s t →
    (∃ c t', y t = .ok (c, t') ∧ V a c ∧ S.meet e s' t' ∧
      ∀ e', S.fit t' e' → S.fit t e' ∧ x e' (S.again s t) = .ok (a, S.again s' t')) ∨
    ∃ err, y t = .error err ∧ S.excuse err

/-- A body run for `n` numbers from `i` on. -/
def rounds {m : Type → Type} [Monad m] (f : Nat → m Unit) : Nat → Nat → m Unit
  | _, 0 => pure ()
  | i, n + 1 => do
    f i
    rounds f (i + 1) n

/-! ## Sequences -/

/-- A sequence succeeds exactly where its parts do. -/
theorem bind_eq_ok {x : StateT σ (Except ε) α} {f : α → StateT σ (Except ε) β} {s s' : σ}
    {b : β} : (x >>= f) s = .ok (b, s') ↔ ∃ a s₁, x s = .ok (a, s₁) ∧ f a s₁ = .ok (b, s') := by
  change (x s >>= fun p => f p.1 p.2) = .ok (b, s') ↔ _
  cases hx : x s with
  | error e => exact iff_of_false (fun h => nomatch h) (fun ⟨_, _, h, _⟩ => nomatch h)
  | ok p =>
    constructor
    · exact fun h => ⟨p.1, p.2, rfl, h⟩
    · rintro ⟨a, s₁, h, hf⟩
      obtain rfl := Except.ok.inj h
      exact hf

/-- A sequence fails where its first part does, or the second one behind it. -/
theorem bind_eq_error {x : StateT σ (Except ε) α} {f : α → StateT σ (Except ε) β} {s : σ}
    {err : ε} : (x >>= f) s = .error err ↔
      x s = .error err ∨ ∃ a s₁, x s = .ok (a, s₁) ∧ f a s₁ = .error err := by
  change (x s >>= fun p => f p.1 p.2) = .error err ↔ _
  cases hx : x s with
  | error e =>
    constructor
    · exact fun h => .inl (congrArg Except.error (Except.error.inj h))
    · rintro (h | ⟨_, _, h, _⟩)
      · exact congrArg Except.error (Except.error.inj h)
      · cases h
  | ok p =>
    constructor
    · exact fun h => .inr ⟨p.1, p.2, rfl, h⟩
    · rintro (h | ⟨a, s₁, h, hf⟩)
      · cases h
      · obtain rfl := Except.ok.inj h
        exact hf

theorem pure_eq_ok {a b : α} {s s' : σ} :
    (pure a : StateT σ (Except ε) α) s = .ok (b, s') ↔ a = b ∧ s = s' := by
  constructor
  · intro h
    exact Prod.mk.inj (Except.ok.inj h)
  · rintro ⟨rfl, rfl⟩
    rfl

theorem lift_eq_ok {x : Except ε α} {s s' : σ} {a : α} :
    (StateT.lift x : StateT σ (Except ε) α) s = .ok (a, s') ↔ x = .ok a ∧ s = s' := by
  cases x with
  | error e => exact iff_of_false nofun fun h => nomatch h.1
  | ok b =>
    constructor
    · intro h
      obtain ⟨rfl, rfl⟩ := Prod.mk.inj (Except.ok.inj h)
      exact ⟨rfl, rfl⟩
    · rintro ⟨h, rfl⟩
      obtain rfl := Except.ok.inj h
      rfl

theorem lift_eq_error {x : Except ε α} {s : σ} {err : ε} :
    (StateT.lift x : StateT σ (Except ε) α) s = .error err ↔ x = .error err := by
  cases x with
  | error e =>
    constructor
    · exact fun h => congrArg Except.error (Except.error.inj h)
    · exact fun h => congrArg Except.error (Except.error.inj h)
  | ok a => exact iff_of_false nofun nofun

/-- The state that a run ends in. -/
theorem map_snd_eq_ok {x : Except ε (α × σ)} {s : σ} :
    x.map (·.2) = .ok s ↔ ∃ a, x = .ok (a, s) := by
  cases x with
  | error e => exact iff_of_false nofun fun ⟨_, h⟩ => nomatch h
  | ok p =>
    constructor
    · intro h
      exact ⟨p.1, congrArg _ (Prod.ext rfl (Except.ok.inj h))⟩
    · rintro ⟨a, h⟩
      obtain rfl := Except.ok.inj h
      rfl

theorem map_snd_eq_error {x : Except ε (α × σ)} {err : ε} :
    x.map (·.2) = .error err ↔ x = .error err := by
  cases x with
  | error e =>
    constructor
    · exact fun h => congrArg Except.error (Except.error.inj h)
    · exact fun h => congrArg Except.error (Except.error.inj h)
  | ok p => exact iff_of_false nofun nofun

section Steps

variable {R : σ → σ → Prop} [IsPreorder σ R]

theorem Steps.pure (a : α) : Steps R (pure a : StateT σ (Except ε) α) := by
  intro s b s' h
  obtain ⟨-, rfl⟩ := pure_eq_ok.mp h
  exact refl_of R s

theorem Steps.bind {x : StateT σ (Except ε) α} {f : α → StateT σ (Except ε) β}
    (hx : Steps R x) (hf : ∀ a, Steps R (f a)) : Steps R (x >>= f) := by
  intro s b s' h
  obtain ⟨a, s₁, hs₁, hs'⟩ := bind_eq_ok.mp h
  exact trans_of R (hx hs₁) (hf a hs')

omit [IsPreorder σ R] in
theorem Steps.ite {p : Prop} [Decidable p] {x y : StateT σ (Except ε) α} (hx : Steps R x)
    (hy : Steps R y) : Steps R (if p then x else y) := by
  split
  · exact hx
  · exact hy

theorem Steps.rounds {f : Nat → StateT σ (Except ε) Unit} (hf : ∀ i, Steps R (f i))
    (i n : Nat) : Steps R (rounds f i n) := by
  induction n generalizing i with
  | zero => exact Steps.pure ()
  | succ n ih => exact (hf i).bind fun _ => ih (i + 1)

end Steps

instance isPreorder_growth {out : σ → List ι} : IsPreorder σ (fun s s' => out s <+: out s') where
  refl _ := List.prefix_rfl
  trans _ _ _ := List.IsPrefix.trans

section Returns

variable {P : α → Prop}

theorem Returns.pure {a : α} (h : P a) : Returns P (pure a : StateT σ (Except ε) α) := by
  intro s b s' hb
  obtain ⟨rfl, -⟩ := pure_eq_ok.mp hb
  exact h

theorem Returns.bind {x : StateT σ (Except ε) β} {f : β → StateT σ (Except ε) α}
    (hf : ∀ b, Returns P (f b)) : Returns P (x >>= f) := by
  intro s a s' h
  obtain ⟨b, s₁, -, hs'⟩ := bind_eq_ok.mp h
  exact hf b hs'

theorem Returns.ite {p : Prop} [Decidable p] {x y : StateT σ (Except ε) α}
    (hx : Returns P x) (hy : Returns P y) : Returns P (if p then x else y) := by
  split
  · exact hx
  · exact hy

theorem Returns.mono {Q : α → Prop} {x : StateT σ (Except ε) α} (hx : Returns P x)
    (h : ∀ a, P a → Q a) : Returns Q x :=
  fun _ a _ hs => h a (hx hs)

end Returns

section Replays

variable {S : Setting σ τ ι E ε'} {V : α → γ → Prop} {W : β → δ → Prop}

theorem Replays.pure {a : α} {c : γ} (h : V a c) :
    Replays S V (fun _ => (pure a : StateT σ (Except ε) α)) (pure c : StateT τ (Except ε') γ) := by
  intro e s t b s' hb _ hmeet
  obtain ⟨rfl, rfl⟩ := pure_eq_ok.mp hb
  exact .inl ⟨c, t, rfl, h, hmeet, fun _ hfit => ⟨hfit, rfl⟩⟩

/-- A program that fails is replayed by every program. -/
theorem Replays.fail {x : E → StateT σ (Except ε) α} {y : StateT τ (Except ε') γ}
    (h : ∀ e s p, x e s ≠ .ok p) : Replays S V x y :=
  fun e s _ _ _ hx => absurd hx (h e s _)

theorem Replays.bind {x : E → StateT σ (Except ε) α} {f : E → α → StateT σ (Except ε) β}
    {y : StateT τ (Except ε') γ} {g : γ → StateT τ (Except ε') δ}
    (hx : Replays S V x y) (hgrow : ∀ e a, Grows S.out (f e a))
    (hf : ∀ a c, V a c → Replays S W (fun e => f e a) (g c)) :
    Replays S W (fun e => x e >>= f e) (y >>= g) := by
  intro e s t b s' h hfinal hmeet
  obtain ⟨a, s₁, hs₁, hs'⟩ := bind_eq_ok.mp h
  obtain ⟨c, t₁, ht₁, hV, hmeet₁, hagain₁⟩ | ⟨err, herr, hexcuse⟩ :=
    hx hs₁ ((hgrow e a hs').trans hfinal) hmeet
  · obtain ⟨d, t', ht', hW, hmeet', hagain'⟩ | ⟨err, herr, hexcuse⟩ := hf a c hV hs' hfinal hmeet₁
    · refine .inl ⟨d, t', bind_eq_ok.mpr ⟨c, t₁, ht₁, ht'⟩, hW, hmeet', fun e' hfit => ?_⟩
      obtain ⟨hfit₁, hs'⟩ := hagain' e' hfit
      obtain ⟨hfit₀, hs₁⟩ := hagain₁ e' hfit₁
      exact ⟨hfit₀, bind_eq_ok.mpr ⟨a, _, hs₁, hs'⟩⟩
    · exact .inr ⟨err, bind_eq_error.mpr (.inr ⟨c, t₁, ht₁, herr⟩), hexcuse⟩
  · exact .inr ⟨err, bind_eq_error.mpr (.inl herr), hexcuse⟩

/-- What the first program takes from somewhere else. -/
theorem Replays.lookup {x : Except ε β} {f : E → β → StateT σ (Except ε) α}
    {y : StateT τ (Except ε') γ} (h : ∀ b, x = .ok b → Replays S V (fun e => f e b) y) :
    Replays S V (fun e => StateT.lift x >>= f e) y := by
  intro e s t a s' hs hfinal hmeet
  obtain ⟨b, s₁, hb, hf⟩ := bind_eq_ok.mp hs
  obtain ⟨hx, rfl⟩ := lift_eq_ok.mp hb
  refine (h b hx hf hfinal hmeet).imp_left ?_
  rintro ⟨c, t', ht', hV, hmeet', hagain⟩
  refine ⟨c, t', ht', hV, hmeet', fun e' hfit => ⟨(hagain e' hfit).1, ?_⟩⟩
  exact bind_eq_ok.mpr ⟨b, _, lift_eq_ok.mpr ⟨hx, rfl⟩, (hagain e' hfit).2⟩

/-- What both programs take from somewhere else. -/
theorem Replays.lift (x : Except ε' α) :
    Replays S Eq (fun _ => (StateT.lift x : StateT σ (Except ε') α)) (StateT.lift x) := by
  intro e s t a s' hs _ hmeet
  obtain ⟨hx, rfl⟩ := lift_eq_ok.mp hs
  exact .inl ⟨a, t, lift_eq_ok.mpr ⟨hx, rfl⟩, rfl, hmeet,
    fun _ hfit => ⟨hfit, lift_eq_ok.mpr ⟨hx, rfl⟩⟩⟩

/-- What is known of the results of the first program. -/
theorem Replays.results {P : α → Prop} {x : E → StateT σ (Except ε) α}
    {y : StateT τ (Except ε') γ} (h : Replays S V x y) (hx : ∀ e, Returns P (x e)) :
    Replays S (fun a c => V a c ∧ P a) x y := by
  intro e s t a s' hs hfinal hmeet
  obtain ⟨c, t', ht', hV, hrest⟩ | hexcuse := h hs hfinal hmeet
  · exact .inl ⟨c, t', ht', ⟨hV, hx e hs⟩, hrest⟩
  · exact .inr hexcuse

/-- A step of the second program that changes nothing and fails only with an excuse. -/
theorem Replays.excused {x : E → StateT σ (Except ε) α} {z : StateT τ (Except ε') δ}
    {y : δ → StateT τ (Except ε') γ}
    (hz : ∀ t, (∃ d, z t = .ok (d, t)) ∨ ∃ err, z t = .error err ∧ S.excuse err)
    (h : ∀ d, Replays S V x (y d)) : Replays S V x (z >>= y) := by
  intro e s t a s' hs hfinal hmeet
  obtain ⟨d, hd⟩ | ⟨err, herr, hexcuse⟩ := hz t
  · obtain ⟨c, t', ht', hrest⟩ | ⟨err, herr, hexcuse⟩ := h d hs hfinal hmeet
    · exact .inl ⟨c, t', bind_eq_ok.mpr ⟨d, t, hd, ht'⟩, hrest⟩
    · exact .inr ⟨err, bind_eq_error.mpr (.inr ⟨d, t, hd, herr⟩), hexcuse⟩
  · exact .inr ⟨err, bind_eq_error.mpr (.inl herr), hexcuse⟩

theorem Replays.rounds {f : E → Nat → StateT σ (Except ε) Unit}
    {g : Nat → StateT τ (Except ε') Unit} (hgrow : ∀ e i, Grows S.out (f e i))
    (hf : ∀ i, Replays S Eq (fun e => f e i) (g i)) (i n : Nat) :
    Replays S Eq (fun e => rounds (f e) i n) (rounds g i n) := by
  induction n generalizing i with
  | zero => exact .pure rfl
  | succ n ih =>
    exact (hf i).bind (fun e _ => Steps.rounds (hgrow e) (i + 1) n) fun _ _ _ => ih (i + 1)

end Replays

end Replay
