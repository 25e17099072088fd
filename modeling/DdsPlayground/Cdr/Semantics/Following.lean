import DdsPlayground.Cdr.Native.Read
import DdsPlayground.Cdr.Semantics.Programs

/-!
# Reading what has been normalized

The reader checks nothing itself. On a stream that begins with what normalizing has left
behind, it finds every piece at the place where normalizing has put it. Only the number of
bytes that a piece needs in memory may be more than 32 bits hold.
-/

namespace DdsPlayground.Cdr

open ByteWire HostOrder Replay

variable {α β γ δ : Type} {buf : Bytes}

/-- The reader is as far as normalizing has come. -/
def following (buf : Bytes) : Setting Cursor Reader UInt8 Unit Stop where
  out := Cursor.done
  final := buf
  meet _ c r := r.index = c.done.length
  fit _ _ := False
  again c _ := c
  excuse := Stop.Excess

/-- On a stream that begins with what `x` leaves behind, `y` succeeds and reads as far as `x`
has gone, or there are too many bytes to count. -/
def Follows (buf : Bytes) (V : α → γ → Prop) (x : Normalize α) (y : Read γ) : Prop :=
  Replays (following buf) V (fun _ => x) y

/-- A read that leaves the stream alone. -/
def Quiet (y : Read γ) : Prop := ∀ r, ∃ b m, y r = .ok (b, ⟨r.index, m⟩)

section

variable {V : α → γ → Prop} {W : β → δ → Prop} {x : Normalize α} {y : Read γ}

theorem Follows.mk (h : ∀ c r a c', x c = .ok (a, c') → c'.done <+: buf →
    r.index = c.done.length → ∃ b r', y r = .ok (b, r') ∧ V a b ∧ r'.index = c'.done.length) :
    Follows buf V x y := by
  intro _ c r a c' hx hbuf hr
  obtain ⟨b, r', hy, hV, hr'⟩ := h c r a c' hx hbuf hr
  exact .inl ⟨b, r', hy, hV, hr', fun _ hfit => hfit.elim⟩

theorem Follows.run (h : Follows buf V x y) {c c' : Cursor} {a : α} {r : Reader}
    (hx : x c = .ok (a, c')) (hbuf : c'.done <+: buf) (hr : r.index = c.done.length) :
    (∃ b r', y r = .ok (b, r') ∧ V a b ∧ r'.index = c'.done.length) ∨
      ∃ e, y r = .error e ∧ e.Excess := by
  refine (h (e := ()) hx hbuf hr).imp_left ?_
  rintro ⟨b, r', hy, hV, hr', -⟩
  exact ⟨b, r', hy, hV, hr'⟩

theorem Follows.pure {a : α} {b : γ} (h : V a b) :
    Follows buf V (pure a : Normalize α) (pure b : Read γ) :=
  Replays.pure h

theorem Follows.reject : Follows buf V reject y := Replays.fail fun _ _ _ => reject_ne_ok

theorem Follows.fault : Follows buf V fault y := Replays.fail fun _ _ _ => fault_ne_ok

theorem Follows.bind {f : α → Normalize β} {g : γ → Read δ} (hx : Follows buf V x y)
    (hgrow : ∀ a, Grows Cursor.done (f a)) (hf : ∀ a b, V a b → Follows buf W (f a) (g b)) :
    Follows buf W (x >>= f) (y >>= g) :=
  Replays.bind hx (fun _ => hgrow) hf

theorem Follows.rounds {f : Nat → Normalize Unit} {g : Nat → Read Unit}
    (hgrow : ∀ i, Grows Cursor.done (f i)) (hf : ∀ i, Follows buf Eq (f i) (g i)) (i n : Nat) :
    Follows buf Eq (rounds f i n) (rounds g i n) :=
  Replays.rounds (fun _ => hgrow) hf i n

theorem Follows.lift (e : Except Stop α) : Follows buf Eq (StateT.lift e) (StateT.lift e) :=
  Replays.lift e

theorem Follows.ite {p : Prop} [Decidable p] {x' : Normalize α} {y' : Read γ}
    (h : p → Follows buf V x y) (h' : ¬ p → Follows buf V x' y') :
    Follows buf V (if p then x else x') (if p then y else y') := by
  split_ifs with hp
  · exact h hp
  · exact h' hp

/-- A check that only normalizing makes. -/
theorem Follows.guarded {p : Prop} [Decidable p] (h : Follows buf V x y) :
    Follows buf V (if p then Cdr.reject else x) y := by
  split_ifs
  · exact .reject
  · exact h

/-- A check of a value that normalizing makes behind it. -/
theorem Follows.checked {W : β → γ → Prop} {f : α → Normalize β} (h : Follows buf V x y)
    (hf : ∀ {a c b c'}, f a c = .ok (b, c') → c' = c ∧ ∀ d, V a d → W b d) :
    Follows buf W (x >>= f) y := by
  intro _ c r b c' hx hbuf hr
  obtain ⟨a, c₁, hx₁, hcheck⟩ := bind_eq_ok.mp hx
  obtain ⟨rfl, hW⟩ := hf hcheck
  refine (h (e := ()) hx₁ hbuf hr).imp_left ?_
  rintro ⟨d, r', hy, hV, hr', -⟩
  exact ⟨d, r', hy, hW d hV, hr', fun _ hfit => hfit.elim⟩

/-- What the reader does to the sample before it goes on in the stream. -/
theorem Follows.quiet_bind {y : Read δ} {g : δ → Read γ} (hy : Quiet y)
    (h : ∀ b, Follows buf V x (g b)) : Follows buf V x (y >>= g) := by
  intro _ c r a c' hx hbuf hr
  obtain ⟨b, m, hb⟩ := hy r
  obtain ⟨d, r', hd, hrest⟩ | ⟨e, he, hexcess⟩ := h b (e := ()) (t := ⟨r.index, m⟩) hx hbuf hr
  · exact .inl ⟨d, r', bind_eq_ok.mpr ⟨b, _, hb, hd⟩, hrest⟩
  · exact .inr ⟨e, bind_eq_error.mpr (.inr ⟨b, _, hb, he⟩), hexcess⟩

/-- What the reader makes of what it has read. -/
theorem Follows.bind_quiet {U : α → δ → Prop} {g : γ → Read δ} (h : Follows buf V x y)
    (hg : ∀ b r, ∃ d m, g b r = .ok (d, ⟨r.index, m⟩) ∧ ∀ a, V a b → U a d) :
    Follows buf U x (y >>= g) := by
  intro _ c r a c' hx hbuf hr
  obtain ⟨b, r₁, hy, hV, hr₁, -⟩ | ⟨e, he, hexcess⟩ := h (e := ()) hx hbuf hr
  · obtain ⟨d, m, hd, hU⟩ := hg b r₁
    exact .inl ⟨d, _, bind_eq_ok.mpr ⟨b, r₁, hy, hd⟩, hU a hV, hr₁, fun _ hfit => hfit.elim⟩
  · exact .inr ⟨e, bind_eq_error.mpr (.inl he), hexcess⟩

theorem Follows.bind_store {x : Normalize Unit} {V : Unit → γ → Prop} (h : Follows buf V x y)
    (p : Place) (c : γ → Cell) : Follows buf Eq x (y >>= fun b => store p (c b)) :=
  h.bind_quiet fun _ _ => ⟨(), _, rfl, fun _ _ => rfl⟩

/-- A number of bytes that the reader asks for. -/
theorem Follows.sized {size : Except Stop Nat} {g : Nat → Read γ} (hsize : Sized size)
    (h : ∀ n, Follows buf V x (g n)) : Follows buf V x (StateT.lift size >>= g) :=
  Replays.excused hsize.lift h

theorem Follows.discard (h : Follows buf V x y) :
    Follows buf (fun (_ : Unit) _ => True) (do let _ ← x) y :=
  h.checked fun h => ⟨(pure_eq_ok.mp h).2.symm, fun _ _ => trivial⟩

end

/-- The buffer of a sequence, which has to have its size in 32 bits. -/
theorem reallocSequenceBuffer_cases (num elemSize : Nat) (r : Reader) :
    (∃ u, reallocSequenceBuffer num elemSize r = .ok (u, r)) ∨
      ∃ e, reallocSequenceBuffer num elemSize r = .error e ∧ e.Excess := by
  obtain ⟨n, hn⟩ | ⟨e, he, hexcess⟩ := (sized_byteCount num elemSize).lift r
  · exact .inl ⟨(), bind_eq_ok.mpr ⟨n, r, hn, rfl⟩⟩
  · exact .inr ⟨e, bind_eq_error.mpr (.inl he), hexcess⟩

theorem Follows.allocated {V : α → γ → Prop} {x : Normalize α} {y : Read γ} (num elemSize : Nat)
    (h : Follows buf V x y) :
    Follows buf V x (do reallocSequenceBuffer num elemSize; y) :=
  Replays.excused (reallocSequenceBuffer_cases num elemSize) fun _ => h

/-! ## The sample -/

theorem quiet_store (p : Place) (c : Cell) : Quiet (store p c) := fun _ => ⟨(), _, rfl⟩

theorem quiet_pure (b : γ) : Quiet (pure b : Read γ) := fun r => ⟨b, r.sample, rfl⟩

theorem Quiet.bind {y : Read γ} {g : γ → Read δ} (hy : Quiet y) (hg : ∀ b, Quiet (g b)) :
    Quiet (y >>= g) := by
  intro r
  obtain ⟨b, m, hb⟩ := hy r
  obtain ⟨d, m', hd⟩ := hg b ⟨r.index, m⟩
  exact ⟨d, m', bind_eq_ok.mpr ⟨b, _, hb, hd⟩⟩

theorem quiet_rounds {g : Nat → Read Unit} (hg : ∀ i, Quiet (g i)) (i n : Nat) :
    Quiet (rounds g i n) := by
  induction n generalizing i with
  | zero => exact quiet_pure ()
  | succ n ih => exact (hg i).bind fun _ => ih (i + 1)

theorem quiet_storeElems (p : Place) (width : Nat) (bytes : Bytes) (i n : Nat) :
    Quiet (storeElems p width bytes i n) :=
  quiet_rounds (fun _ => quiet_store _ _) i n

/-- What is behind a pointer has a size. -/
theorem Follows.allocating {V : α → γ → Prop} {x : Normalize α} {g : Place → Read γ}
    {size : Except Stop Nat} {isExternal : Bool} (hsize : isExternal → Sized size) (p : Place)
    (h : ∀ p', Follows buf V x (g p')) :
    Follows buf V x (allocExternal size isExternal p >>= g) := by
  cases isExternal with
  | false => exact h p
  | true =>
    simp only [allocExternal, if_true, bind_assoc, pure_bind]
    exact .sized (hsize rfl) fun _ => .quiet_bind (quiet_store p _) fun _ => h p.deref

/-! ## The stream -/

theorem getAlign_shiftLeft {lg2 : Nat} (h : lg2 ≤ 3) : getAlign (1 <<< lg2) = 1 <<< lg2 := by
  obtain rfl | rfl | rfl | rfl : lg2 = 0 ∨ lg2 = 1 ∨ lg2 = 2 ∨ lg2 = 3 := by omega
  all_goals rfl

theorem ddsIsCopy_eq_ok {n len : Nat} {r : Reader} (h : r.index + n ≤ buf.length) :
    ddsIsCopy buf n len r = .ok ((buf.drop r.index).take n, ⟨r.index + len, r.sample⟩) :=
  if_pos h

theorem ddsCdrAlignto_eq_ok {a : Nat} {r : Reader} (h : alignUp r.index a < buf.length) :
    ddsCdrAlignto buf a r = .ok ((), ⟨alignUp r.index a, r.sample⟩) :=
  if_pos h

/-- There is something in the stream at the start of a piece that is not empty. -/
theorem Piece.align {c c' : Cursor} {a : Nat} {bytes : Bytes} {r : Reader}
    (h : Piece c c' a bytes) (hbuf : c'.done <+: buf) (hr : r.index = c.done.length)
    (hpos : 0 < bytes.length) :
    ddsCdrAlignto buf a r = .ok ((), ⟨alignUp c.done.length a, r.sample⟩) := by
  have hlen := h.length
  have hle := hbuf.length_le
  rw [← hr] at hlen ⊢
  exact ddsCdrAlignto_eq_ok (by omega)

theorem Piece.copy {c c' : Cursor} {a : Nat} {bytes : Bytes} (h : Piece c c' a bytes)
    (hbuf : c'.done <+: buf) (m : Sample) :
    ddsIsCopy buf bytes.length bytes.length ⟨alignUp c.done.length a, m⟩ =
      .ok (bytes, ⟨c'.done.length, m⟩) := by
  have hlen := h.length
  have hle := hbuf.length_le
  rw [ddsIsCopy_eq_ok (by dsimp only; omega), h.take_drop hbuf, ← hlen]

/-- The reader finds an aligned piece that is not empty. -/
theorem Piece.read {c c' : Cursor} {a : Nat} {bytes : Bytes} {r : Reader}
    (h : Piece c c' a bytes) (hbuf : c'.done <+: buf) (hr : r.index = c.done.length)
    (hpos : 0 < bytes.length) :
    (do ddsCdrAlignto buf a
        ddsIsCopy buf bytes.length bytes.length) r =
      .ok (bytes, ⟨c'.done.length, r.sample⟩) :=
  bind_eq_ok.mpr ⟨(), _, h.align hbuf hr hpos, h.copy hbuf r.sample⟩

variable {args : NormalizeArgs}

theorem follows_get (lg2 : Nat) :
    Follows buf Eq (normalizePrim args lg2) (ddsIsGet buf (1 <<< lg2)) := by
  apply Follows.mk
  intro c r bytes c' h hbuf hr
  obtain ⟨hlg2, hlen, hpiece⟩ := normalizePrim_eq_ok h
  refine ⟨bytes, ⟨c'.done.length, r.sample⟩, ?_, rfl, rfl⟩
  rw [ddsIsGet, getAlign_shiftLeft hlg2, ← hlen]
  rw [← hlen] at hpiece
  exact hpiece.read hbuf hr (hlen ▸ one_shiftLeft_pos lg2)

theorem follows_get_uint (lg2 : Nat) :
    Follows buf (fun n bytes => n = hostNat args.hostLe bytes) (readAndNormalizeUint args lg2)
      (ddsIsGet buf (1 <<< lg2)) := by
  refine (follows_get lg2).checked fun h => ?_
  obtain ⟨rfl, rfl⟩ := pure_eq_ok.mp h
  exact ⟨rfl, fun _ hd => hd ▸ rfl⟩

theorem follows_get4 :
    Follows buf Eq (readAndNormalizeUint32 args) (ddsIsGet4 buf args.hostLe) := by
  apply (follows_get 2).bind fun _ => .pure _
  rintro bytes - rfl
  exact .pure rfl

/-- A single byte behind a test for the end. -/
theorem follows_byte {c c' : Cursor} {r : Reader} {b : Bytes} (h : pass false 1 c = .ok (b, c'))
    (hbuf : c'.done <+: buf) (hr : r.index = c.done.length) :
    ddsIsGet buf 1 r = .ok (b, ⟨c'.done.length, r.sample⟩) := by
  obtain ⟨hdone, hlen⟩ := pass_eq_ok h
  have hpiece : Piece c c' 1 b :=
    ⟨[], by rw [hdone, List.append_nil], by rw [List.append_nil, alignUp_one]⟩
  rw [ddsIsGet, show getAlign 1 = 1 from rfl, ← hlen]
  rw [← hlen] at hpiece
  exact hpiece.read hbuf hr (hlen ▸ Nat.one_pos)

theorem follows_uint8 :
    Follows buf (fun _ _ => True) (normalizeUint8 args) (ddsIsGet buf 1) := by
  apply Follows.mk
  intro c r u c' h hbuf hr
  obtain ⟨b, c₁, hend, h⟩ := bind_eq_ok.mp h
  obtain ⟨-, rfl⟩ := Prod.mk.inj (Except.ok.inj hend)
  split_ifs at h
  · exact absurd h reject_ne_ok
  · obtain ⟨bytes, c₂, hpass, h⟩ := bind_eq_ok.mp h
    obtain ⟨-, rfl⟩ := pure_eq_ok.mp h
    exact ⟨bytes, _, follows_byte hpass hbuf hr, trivial, rfl⟩

theorem follows_bool :
    Follows buf (fun n bytes => n = hostNat args.hostLe bytes) (readAndNormalizeBool args)
      (ddsIsGet buf 1) := by
  apply Follows.mk
  intro c r n c' h hbuf hr
  obtain ⟨b, c₁, hend, h⟩ := bind_eq_ok.mp h
  obtain ⟨-, rfl⟩ := Prod.mk.inj (Except.ok.inj hend)
  split_ifs at h
  · exact absurd h reject_ne_ok
  · obtain ⟨bytes, c₂, hpass, h⟩ := bind_eq_ok.mp h
    split_ifs at h
    · exact absurd h reject_ne_ok
    · obtain ⟨rfl, rfl⟩ := pure_eq_ok.mp h
      exact ⟨bytes, _, follows_byte hpass hbuf hr, rfl, rfl⟩

/-- The reader copies no more of a string than its length. -/
theorem follows_chars (maxsz sz : Nat) {n : Nat} (hn : n ≤ sz) :
    Follows buf (fun _ _ => True) (normalizeChars args maxsz sz) (ddsIsCopy buf n sz) := by
  apply Follows.mk
  intro c r u c' h hbuf hr
  obtain ⟨bytes, hdone, hlen⟩ := normalizeChars_eq_ok h
  have hle := hbuf.length_le
  have hlen' : c'.done.length = c.done.length + sz := by rw [hdone, List.length_append, hlen]
  exact ⟨_, _, ddsIsCopy_eq_ok (by omega), trivial, by rw [hlen', hr]⟩

theorem follows_string (maxsz : Nat) :
    Follows buf (fun _ _ => True) (normalizeString args maxsz)
      (ddsStreamReuseString buf args.hostLe) := by
  apply follows_get4.bind fun _ => grows_of_moves (moves_normalizeChars _ _)
  rintro sz - rfl
  exact (follows_chars maxsz sz le_rfl).bind_quiet fun _ _ => ⟨_, _, rfl, fun _ _ => trivial⟩

theorem follows_bounded_string (maxsz size : Nat) :
    Follows buf (fun _ _ => True) (normalizeString args maxsz)
      (ddsStreamReuseStringBound buf args.hostLe size) := by
  apply follows_get4.bind fun _ => grows_of_moves (moves_normalizeChars _ _)
  rintro sz - rfl
  exact (follows_chars maxsz sz (Nat.min_le_left sz size)).bind_quiet
    fun _ _ => ⟨_, _, rfl, fun _ _ => trivial⟩

/-! ## Elements -/

/-- Scalars that are read together. -/
theorem follows_scalars (lg2 : Nat) (valid : Nat → Bool) {n : Nat} (hn : n ≠ 0) (p : Place) :
    Follows buf Eq (normalizeMany args lg2 valid n) (readScalars buf n (1 <<< lg2) p) := by
  intro _ c r u c' h hbuf hr
  obtain ⟨hlg2, bytes, hlen, hpiece⟩ := normalizeMany_eq_ok h
  have hpos : 0 < bytes.length := by
    rw [hlen]
    exact Nat.mul_pos (Nat.pos_of_ne_zero hn) (one_shiftLeft_pos lg2)
  have halign := hpiece.align hbuf hr hpos
  rw [readScalars, ddsIsGetBytes, getAlign_shiftLeft hlg2]
  obtain hcount | ⟨e, hcount, hexcess⟩ := byteCount_cases n (1 <<< lg2)
  · have hcopy := hpiece.copy hbuf r.sample
    rw [hlen] at hcopy
    obtain ⟨v, m, hstore⟩ := quiet_storeElems p (1 <<< lg2) bytes 0 n ⟨c'.done.length, r.sample⟩
    refine .inl ⟨v, _, bind_eq_ok.mpr ⟨bytes, _, ?_, hstore⟩, rfl, rfl, fun _ hfit => hfit.elim⟩
    exact bind_eq_ok.mpr ⟨(), _, halign,
      bind_eq_ok.mpr ⟨_, _, lift_eq_ok.mpr ⟨hcount, rfl⟩, hcopy⟩⟩
  · refine .inr ⟨e, bind_eq_error.mpr (.inl (bind_eq_error.mpr (.inr ?_))), hexcess⟩
    exact ⟨(), _, halign, bind_eq_error.mpr (.inl (lift_eq_error.mpr hcount))⟩

theorem ddsIsGet_eq_ok {w : Nat} (hpos : 0 < w) (halign : getAlign w = w) {r : Reader}
    (h : alignUp r.index w + w ≤ buf.length) :
    ddsIsGet buf w r = .ok ((buf.drop (alignUp r.index w)).take w,
      ⟨alignUp r.index w + w, r.sample⟩) := by
  rw [ddsIsGet, halign]
  exact bind_eq_ok.mpr ⟨(), _, ddsCdrAlignto_eq_ok (by omega), ddsIsCopy_eq_ok h⟩

/-- Scalars that are read one by one: each is aligned, and so is the end of the one before. -/
theorem rounds_get {w : Nat} (hpos : 0 < w) (halign : getAlign w = w)
    {g : Nat → Bytes → Read Unit} (hg : ∀ i b, Quiet (g i b)) (n i : Nat) (r : Reader)
    (h : alignUp r.index w + (n + 1) * w ≤ buf.length) :
    ∃ m, rounds (fun i => ddsIsGet buf w >>= g i) i (n + 1) r =
      .ok ((), ⟨alignUp r.index w + (n + 1) * w, m⟩) := by
  induction n generalizing i r with
  | zero =>
    rw [Nat.zero_add, Nat.one_mul] at h ⊢
    have hget := ddsIsGet_eq_ok hpos halign h
    obtain ⟨u, m, hu⟩ := hg i _ ⟨alignUp r.index w + w, r.sample⟩
    exact ⟨m, bind_eq_ok.mpr ⟨(), _, bind_eq_ok.mpr ⟨_, _, hget, hu⟩, rfl⟩⟩
  | succ n ih =>
    rw [Nat.succ_mul] at h ⊢
    have hroom : alignUp r.index w + w ≤ buf.length := by omega
    have hget := ddsIsGet_eq_ok hpos halign hroom
    obtain ⟨u, m, hu⟩ := hg i _ ⟨alignUp r.index w + w, r.sample⟩
    have hnext : alignUp (alignUp r.index w + w) w = alignUp r.index w + w :=
      alignUp_of_dvd hpos (Nat.dvd_add (dvd_alignUp r.index w) (Nat.dvd_refl w))
    obtain ⟨m', hm'⟩ := ih (i + 1) ⟨alignUp r.index w + w, m⟩ (by rw [hnext]; omega)
    refine ⟨m', bind_eq_ok.mpr ⟨(), _, bind_eq_ok.mpr ⟨_, _, hget, hu⟩, ?_⟩⟩
    rw [hm', hnext, Nat.add_assoc, Nat.add_comm w]

theorem follows_rounds_get (lg2 : Nat) (valid : Nat → Bool) {n : Nat} (hn : n ≠ 0)
    {g : Nat → Bytes → Read Unit} (hg : ∀ i b, Quiet (g i b)) :
    Follows buf Eq (normalizeMany args lg2 valid n)
      (rounds (fun i => ddsIsGet buf (1 <<< lg2) >>= g i) 0 n) := by
  apply Follows.mk
  intro c r u c' h hbuf hr
  obtain ⟨hlg2, bytes, hlen, hpiece⟩ := normalizeMany_eq_ok h
  obtain ⟨n, rfl⟩ := Nat.exists_eq_succ_of_ne_zero hn
  have hlength := hpiece.length
  have hle := hbuf.length_le
  rw [hlen, ← hr] at hlength
  obtain ⟨m, hm⟩ := rounds_get (one_shiftLeft_pos lg2) (getAlign_shiftLeft hlg2) hg n 0 r
    (hlength ▸ hle)
  exact ⟨(), _, hm, rfl, hlength.symm⟩

theorem follows_enums {enumSz n max : Nat} (hn : n ≠ 0) (p : Place) :
    Follows buf Eq (normalizeEnumarray args enumSz n max)
      (readEnums buf args.hostLe enumSz n p) := by
  unfold normalizeEnumarray readEnums
  split
  · exact follows_rounds_get 0 _ hn fun _ _ => quiet_store _ _
  · exact follows_rounds_get 1 _ hn fun _ _ => quiet_store _ _
  · exact follows_scalars 2 _ hn p
  · exact .reject

end DdsPlayground.Cdr
