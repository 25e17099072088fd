import DdsPlayground.Cdr.Semantics.Writing

/-!
# Normalizing what has been written

Normalizing goes along a stream of either byte order. What it leaves behind is what writing
in the order of the host puts out.
-/

namespace DdsPlayground.Cdr

open ByteWire HostOrder Replay

variable {α β γ δ : Type} {data : Bytes} {hostLe swap : Bool}

/-- Normalizing is as far as writing, on data that begins with what has been written in the
order `swap`. It has the stream of the host's order behind it. -/
def carrying (data : Bytes) (swap : Bool) : Setting Bytes Cursor UInt8 Bool Stop where
  out := id
  final := data
  meet b s c := b = swap ∧ c.done.length = s.length ∧ s ++ c.rest = data
  fit _ b := b = false
  again _ c := c.done
  excuse _ := False

/-- On data that begins with what `x` puts out in the order `swap`, `y` succeeds, and leaves
behind what `x` puts out in the order of the host. -/
def Carries (data : Bytes) (swap : Bool) (V : α → γ → Prop) (x : Bool → Write α)
    (y : Normalize γ) : Prop :=
  Replays (carrying data swap) V x y

section

variable {V : α → γ → Prop} {W : β → δ → Prop} {x : Bool → Write α} {y : Normalize γ}

theorem Carries.mk (h : ∀ s a s' done, x swap s = .ok (a, s') → done.length = s.length →
    s'.length ≤ data.length → ∃ old new b, s' = s ++ old ∧ new.length = old.length ∧ V a b ∧
      x false done = .ok (a, done ++ new) ∧
      ∀ rest, y ⟨done, old ++ rest⟩ = .ok (b, ⟨done ++ new, rest⟩)) :
    Carries data swap V x y := by
  rintro _ s ⟨done, rest⟩ a s' hx hdata ⟨rfl, hlen, hrest⟩
  obtain ⟨old, new, b, rfl, hnew, hV, hagain, hy⟩ := h s a s' done hx hlen hdata.length_le
  obtain ⟨rest', hrest'⟩ := hdata
  have hsplit : rest = old ++ rest' := by
    apply (List.append_right_inj s).mp
    rw [← List.append_assoc]
    exact hrest.trans hrest'.symm
  refine .inl ⟨b, ⟨done ++ new, rest'⟩, hsplit ▸ hy rest', hV, ⟨rfl, ?_, hrest'⟩, ?_⟩
  · simp only [List.length_append, hlen, hnew]
  · rintro _ rfl
    exact ⟨rfl, hagain⟩

theorem Carries.run (h : Carries data swap V x y) {s s' : Bytes} {c : Cursor} {a : α}
    (hx : x swap s = .ok (a, s')) (hdata : s' <+: data) (hlen : c.done.length = s.length)
    (hrest : s ++ c.rest = data) : ∃ v c', y c = .ok (v, c') ∧ V a v ∧
      c'.done.length = s'.length ∧ s' ++ c'.rest = data ∧
      x false c.done = .ok (a, c'.done) := by
  obtain ⟨v, c', hy, hV, ⟨-, hlen', hrest'⟩, hagain⟩ | ⟨e, -, hfalse⟩ :=
    h hx hdata ⟨rfl, hlen, hrest⟩
  · exact ⟨v, c', hy, hV, hlen', hrest', (hagain false rfl).2⟩
  · exact hfalse.elim

theorem Carries.pure {a : α} {b : γ} (h : V a b) :
    Carries data swap V (fun _ => (pure a : Write α)) (pure b : Normalize γ) :=
  Replays.pure h

theorem Carries.reject : Carries data swap V (fun _ => reject) y :=
  Replays.fail fun _ _ _ => reject_ne_ok

theorem Carries.fault : Carries data swap V (fun _ => fault) y :=
  Replays.fail fun _ _ _ => fault_ne_ok

theorem Carries.bind {f : Bool → α → Write β} {g : γ → Normalize δ}
    (hx : Carries data swap V x y) (hgrow : ∀ b a, Grows id (f b a))
    (hf : ∀ a c, V a c → Carries data swap W (fun b => f b a) (g c)) :
    Carries data swap W (fun b => x b >>= f b) (y >>= g) :=
  Replays.bind hx hgrow hf

theorem Carries.rounds {f : Bool → Nat → Write Unit} {g : Nat → Normalize Unit}
    (hgrow : ∀ b i, Grows id (f b i)) (hf : ∀ i, Carries data swap Eq (fun b => f b i) (g i))
    (i n : Nat) : Carries data swap Eq (fun b => rounds (f b) i n) (rounds g i n) :=
  Replays.rounds hgrow hf i n

/-- What writing looks up in the sample. -/
theorem Carries.lookup {e : Except Stop β} {f : Bool → β → Write α}
    (h : ∀ d, e = .ok d → Carries data swap V (fun b => f b d) y) :
    Carries data swap V (fun b => StateT.lift e >>= f b) y :=
  Replays.lookup h

theorem Carries.lift (e : Except Stop α) :
    Carries data swap Eq (fun _ => StateT.lift e) (StateT.lift e) :=
  Replays.lift e

theorem Carries.ite {p : Prop} [Decidable p] {x' : Bool → Write α} {y' : Normalize γ}
    (h : p → Carries data swap V x y) (h' : ¬ p → Carries data swap V x' y') :
    Carries data swap V (fun b => if p then x b else x' b) (if p then y else y') := by
  split_ifs with hp
  · exact h hp
  · exact h' hp

/-- A check that writing makes. -/
theorem Carries.guarded {p : Prop} [Decidable p] (h : ¬ p → Carries data swap V x y) :
    Carries data swap V (fun b => if p then Cdr.reject else x b) y := by
  split_ifs with hp
  · exact .reject
  · exact h hp

/-- A check that normalizing makes, of a value that passes it. -/
theorem Carries.checked {f : γ → Normalize δ} {U : α → δ → Prop} (hx : Carries data swap V x y)
    (hf : ∀ a b, V a b → ∃ d, U a d ∧ f b = Pure.pure d) :
    Carries data swap U x (y >>= f) := by
  intro b s c a s' h hdata hmeet
  obtain ⟨v, c', hy, hV, hrest⟩ | ⟨e, he, hfalse⟩ := hx h hdata hmeet
  · obtain ⟨d, hU, hpure⟩ := hf a v hV
    exact .inl ⟨d, c', bind_eq_ok.mpr ⟨v, c', hy, hpure ▸ rfl⟩, hU, hrest⟩
  · exact hfalse.elim

theorem Carries.next {x : Bool → Write Unit} {y : Normalize Unit}
    (h : Carries data swap Eq x y) (next : Nat) :
    Carries data swap Eq (fun b => do x b; return next) (do y; return next) :=
  h.bind (fun _ _ => .pure _) fun _ _ _ => .pure rfl

theorem Carries.mono {y' : Normalize γ} (h : Carries data swap V x y)
    (hle : ∀ c p, y c = .ok p → y' c = .ok p) : Carries data swap V x y' := by
  intro b s c a s' hx hdata hmeet
  obtain ⟨v, c', hy, hrest⟩ | ⟨e, he, hfalse⟩ := h hx hdata hmeet
  · exact .inl ⟨v, c', hle c _ hy, hrest⟩
  · exact hfalse.elim

end

/-! ## Scalars -/

section

variable {args : NormalizeArgs} {lg2 : Nat} {valid : Nat → Bool}

end

end DdsPlayground.Cdr
