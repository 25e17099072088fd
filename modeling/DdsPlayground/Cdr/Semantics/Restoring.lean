import DdsPlayground.Cdr.Semantics.Conveying

/-!
# Reading what has been written

The reader goes along a stream in the order of its host and puts into a new sample what
writing has taken from the old one. What it has put there is enough to write the same again.
Only where there are too many bytes to count, it does not come so far.
-/

namespace DdsPlayground.Cdr

open ByteWire HostOrder Replay

variable {α β γ δ : Type} {final : Bytes} {hostLe : Bool}

/-! ## Samples -/

/-- A null string is written as an empty one. -/
def restoredString : Option CString → CString
  | some s => s
  | none => ⟨[], fun _ h => absurd h List.not_mem_nil⟩

/-- What comes back of a cell. Only in an optional member a null string stays one. -/
def Cell.restored : Cell → Cell
  | .str false s => .str false (some (restoredString s))
  | c => c

/-- A sample holds nothing but what a second one has at the same places. -/
def Sample.Copies (m' m : Sample) : Prop :=
  ∀ p c', m' p = some c' → ∃ c, m p = some c ∧ c' = c.restored

/-- A sample has all that another one has. -/
def Sample.Within (m m' : Sample) : Prop := ∀ p c, m p = some c → m' p = some c

theorem Sample.Within.refl (m : Sample) : m.Within m := fun _ _ h => h

theorem Sample.Copies.set {m' m : Sample} (h : m'.Copies m) {p : Place} {c : Cell}
    (hp : m p = some c) : (m'.set p c.restored).Copies m := by
  intro q d hq
  unfold Sample.set at hq
  split_ifs at hq with hqp
  · exact ⟨c, hqp ▸ hp, (Option.some.inj hq).symm⟩
  · exact h q d hq

/-- Storing the copy of a cell takes nothing away. -/
theorem Sample.Within.of_set {m' m m'' : Sample} (h : m'.Copies m) {p : Place} {c : Cell}
    (hp : m p = some c) (hset : (m'.set p c.restored).Within m'') :
    m'.Within m'' ∧ m'' p = some c.restored := by
  have hcell : m'' p = some c.restored := hset p _ (if_pos rfl)
  refine ⟨fun q d hq => ?_, hcell⟩
  by_cases hqp : q = p
  · subst hqp
    obtain ⟨c₁, hc₁, rfl⟩ := h q d hq
    obtain rfl := Option.some.inj (hp.symm.trans hc₁)
    exact hcell
  · exact hset q d (by rw [Sample.set, if_neg hqp, hq])

/-! ## Rules -/

/-- The reader is as far as writing, and has copied what it has put into its sample. The
sample that is written has no string that is too long. -/
def restoring (final : Bytes) : Setting Bytes Reader UInt8 Sample Stop where
  out := id
  final := final
  meet m s r := m.Short ∧ r.index = s.length ∧ r.sample.Copies m
  fit r m' := r.sample.Within m'
  again s _ := s
  excuse := Stop.Excess

/-- On a stream that begins with what `x` puts out, `y` succeeds, or there are too many bytes
to count. Its sample is a copy, from which `x` puts out the same. -/
def Restores (final : Bytes) (V : α → γ → Prop) (x : Sample → Write α) (y : Read γ) : Prop :=
  Replays (restoring final) V x y

section

variable {V : α → γ → Prop} {W : β → δ → Prop} {x : Sample → Write α} {y : Read γ}

theorem Restores.pure {a : α} {b : γ} (h : V a b) :
    Restores final V (fun _ => (pure a : Write α)) (pure b : Read γ) :=
  Replays.pure h

theorem Restores.reject : Restores final V (fun _ => reject) y :=
  Replays.fail fun _ _ _ => reject_ne_ok

theorem Restores.fault : Restores final V (fun _ => fault) y :=
  Replays.fail fun _ _ _ => fault_ne_ok

theorem Restores.bind {f : Sample → α → Write β} {g : γ → Read δ}
    (hx : Restores final V x y) (hgrow : ∀ m a, Grows id (f m a))
    (hf : ∀ a c, V a c → Restores final W (fun m => f m a) (g c)) :
    Restores final W (fun m => x m >>= f m) (y >>= g) :=
  Replays.bind hx hgrow hf

theorem Restores.rounds {f : Sample → Nat → Write Unit} {g : Nat → Read Unit}
    (hgrow : ∀ m i, Grows id (f m i)) (hf : ∀ i, Restores final Eq (fun m => f m i) (g i))
    (i n : Nat) : Restores final Eq (fun m => Replay.rounds (f m) i n) (Replay.rounds g i n) :=
  Replays.rounds hgrow hf i n

theorem Restores.lift (e : Except Stop α) :
    Restores final Eq (fun _ => StateT.lift e) (StateT.lift e) :=
  Replays.lift e

/-- What writing takes from somewhere else than the sample. -/
theorem Restores.lookup {e : Except Stop β} {f : Sample → β → Write α}
    (h : ∀ d, e = .ok d → Restores final V (fun m => f m d) y) :
    Restores final V (fun m => StateT.lift e >>= f m) y :=
  Replays.lookup h

theorem Restores.ite {p : Prop} [Decidable p] {x' : Sample → Write α} {y' : Read γ}
    (h : p → Restores final V x y) (h' : ¬ p → Restores final V x' y') :
    Restores final V (fun m => if p then x m else x' m) (if p then y else y') := by
  split_ifs with hp
  · exact h hp
  · exact h' hp

theorem Restores.next {x : Sample → Write Unit} {y : Read Unit}
    (h : Restores final Eq x y) (next : Nat) :
    Restores final Eq (fun m => do x m; return next) (do y; return next) :=
  h.bind (fun _ _ => .pure _) fun _ _ _ => .pure rfl

theorem Restores.allocated (num elemSize : Nat) (h : Restores final V x y) :
    Restores final V x (do reallocSequenceBuffer num elemSize; y) :=
  Replays.excused (reallocSequenceBuffer_cases num elemSize) fun _ => h

/-- A read that counts no bytes. -/
def Uncounting (y : Read γ) : Prop := ∀ r e, y r = .error e → ¬ e.Excess

end

theorem Uncounting.bind {y : Read γ} {g : γ → Read δ} (hy : Uncounting y)
    (hg : ∀ b, Uncounting (g b)) : Uncounting (y >>= g) := by
  intro r e h
  obtain hr | ⟨b, r', -, hr⟩ := bind_eq_error.mp h
  · exact hy r e hr
  · exact hg b r' e hr

/-- Where `w` has put out a value, `y` reads it, and leaves the sample alone. -/
def Yields (final : Bytes) (w : Write Unit) (y : Read γ) (v : γ) : Prop :=
  ∀ ⦃s s' r⦄, w s = .ok ((), s') → s' <+: final → r.index = s.length →
    y r = .ok (v, ⟨s'.length, r.sample⟩)

theorem Yields.map {w : Write Unit} {y : Read γ} {v : γ} (h : Yields final w y v) (g : γ → δ) :
    Yields final w (do return g (← y)) (g v) :=
  fun _ _ _ hw hfinal hr => bind_eq_ok.mpr ⟨v, _, h hw hfinal hr, rfl⟩

theorem Yields.bind {w z : Write Unit} {y : Read γ} {g : γ → Read δ} {v : γ} {u : δ}
    (h : Yields final w y v) (hz : Grows id z) (hg : Yields final z (g v) u) :
    Yields final (do w; z) (y >>= g) u := by
  intro s s' r hw hfinal hr
  obtain ⟨⟨⟩, s₁, hs₁, hs'⟩ := bind_eq_ok.mp hw
  exact bind_eq_ok.mpr ⟨v, _, h hs₁ ((hz hs').trans hfinal) hr, hg hs' hfinal rfl⟩

theorem Yields.guarded {p : Prop} [Decidable p] {w : Write Unit} {y : Read γ} {v : γ}
    (h : ¬ p → Yields final w y v) : Yields final (if p then Cdr.reject else w) y v := by
  intro s s' r hw hfinal hr
  split_ifs at hw with hp
  · exact absurd hw reject_ne_ok
  · exact h hp hw hfinal hr

/-- What writing puts out for a cell, the reader puts back into it. -/
theorem Restores.cellWith {look : Sample → Except Stop β} {w : β → Write Unit} {f : β → α}
    {y : Read γ} {toCell : γ → Cell} {g : γ → δ} {V : α → δ → Prop} {p : Place}
    (h : ∀ m v, m.Short → look m = .ok v → ∃ c b, m p = some c ∧ Yields final (w v) y b ∧
      toCell b = c.restored ∧ V (f v) (g b) ∧
      ∀ m', m' p = some c.restored → ∃ v', look m' = .ok v' ∧ w v' = w v ∧ f v' = f v) :
    Restores final V
      (fun m => do
        let v ← (StateT.lift (look m) : Write β)
        w v
        return f v)
      (do let b ← y
          store p (toCell b)
          return g b) := by
  rintro m s r a s' hx hfinal ⟨hm, hr, hcopies⟩
  obtain ⟨v, s₁, hlook, hx⟩ := bind_eq_ok.mp hx
  obtain ⟨hv, rfl⟩ := lift_eq_ok.mp hlook
  obtain ⟨⟨⟩, s₂, hw, hpure⟩ := bind_eq_ok.mp hx
  obtain ⟨rfl, rfl⟩ := pure_eq_ok.mp hpure
  obtain ⟨c, b, hc, hyields, hcell, hV, hagain⟩ := h m v hm hv
  refine .inl ⟨g b, ⟨s₂.length, r.sample.set p (toCell b)⟩, ?_, hV, ⟨hm, rfl, ?_⟩,
    fun m' hfit => ?_⟩
  · exact bind_eq_ok.mpr ⟨b, _, hyields hw hfinal hr, bind_eq_ok.mpr ⟨(), _, rfl, rfl⟩⟩
  · rw [hcell]
    exact hcopies.set hc
  · have hfit' : (r.sample.set p (toCell b)).Within m' := hfit
    rw [hcell] at hfit'
    obtain ⟨hwithin, hm'⟩ := Sample.Within.of_set hcopies hc hfit'
    obtain ⟨v', hv', hw', hf'⟩ := hagain m' hm'
    refine ⟨hwithin, bind_eq_ok.mpr ⟨v', _, lift_eq_ok.mpr ⟨hv', rfl⟩, ?_⟩⟩
    rw [hw', hf']
    exact hx

theorem Restores.cell {look : Sample → Except Stop β} {w : β → Write Unit} {y : Read γ}
    {toCell : γ → Cell} {p : Place}
    (h : ∀ m v, m.Short → look m = .ok v → ∃ c b, m p = some c ∧ Yields final (w v) y b ∧
      toCell b = c.restored ∧
      ∀ m', m' p = some c.restored → ∃ v', look m' = .ok v' ∧ w v' = w v) :
    Restores final Eq (fun m => StateT.lift (look m) >>= w)
      (y >>= fun b => store p (toCell b)) := by
  have hcell : Restores final Eq
      (fun m => do
        let v ← (StateT.lift (look m) : Write β)
        w v
        return ())
      (do let b ← y
          store p (toCell b)
          return ()) := by
    refine Restores.cellWith fun m v hm hv => ?_
    obtain ⟨c, b, hc, hyields, hcell, hagain⟩ := h m v hm hv
    refine ⟨c, b, hc, hyields, hcell, rfl, fun m' hm' => ?_⟩
    obtain ⟨v', hv', hw'⟩ := hagain m' hm'
    exact ⟨v', hv', hw', rfl⟩
  simpa only [bind_pure_unit] using hcell

theorem prim_of_cell {m : Sample} {p : Place} {width : Nat} {bytes : Bytes}
    (h : m p = some (.prim bytes)) (hlen : bytes.length = width) : m.prim p width = .ok bytes := by
  rw [Sample.prim, h]
  exact if_pos hlen

/-- A scalar that the reader stores as it is. -/
theorem Restores.prim {lg2 : Nat} {w : Bytes → Write Unit} {p : Place}
    (hw : ∀ bytes, bytes.length = 1 <<< lg2 →
      Yields final (w bytes) (ddsIsGet final (1 <<< lg2)) bytes) :
    Restores final Eq (fun m => StateT.lift (m.prim p (1 <<< lg2)) >>= w)
      (readPrim final (1 <<< lg2) p) := by
  refine Restores.cell fun m bytes _ h => ?_
  obtain ⟨hcell, hlen⟩ := prim_eq_ok h
  exact ⟨.prim bytes, bytes, hcell, hw bytes hlen, rfl, fun m' hm' =>
    ⟨bytes, prim_of_cell hm' hlen, rfl⟩⟩

end DdsPlayground.Cdr
