import DdsPlayground.Cdr.Native.Normalize

/-!
# What normalizing does to the data

Every operation leaves the bytes in front of the offset as they are and puts others behind
them: padding and a scalar, the scalars of a collection, a string. The structure of a type
only puts such pieces together.
-/

namespace DdsPlayground.Cdr

open ByteWire HostOrder Replay

/-! ## Operations that end -/

theorem reject_ne_ok {σ α : Type} {s : σ} {p : α × σ} :
    (reject : StateT σ (Except Stop) α) s ≠ .ok p := nofun

theorem fault_ne_ok {σ α : Type} {s : σ} {p : α × σ} :
    (fault : StateT σ (Except Stop) α) s ≠ .ok p := nofun

section

variable {σ α : Type} {R : σ → σ → Prop}

theorem steps_reject : Steps R (reject : StateT σ (Except Stop) α) :=
  fun _ _ _ h => absurd h reject_ne_ok

theorem steps_fault : Steps R (fault : StateT σ (Except Stop) α) :=
  fun _ _ _ h => absurd h fault_ne_ok

theorem steps_lift [IsPreorder σ R] (x : Except Stop α) :
    Steps R (StateT.lift x : StateT σ (Except Stop) α) := by
  intro s a s' h
  obtain ⟨-, rfl⟩ := lift_eq_ok.mp h
  exact refl_of R s

variable {P : α → Prop}

theorem returns_reject : Returns P (reject : StateT σ (Except Stop) α) :=
  fun _ _ _ h => absurd h reject_ne_ok

theorem returns_fault : Returns P (fault : StateT σ (Except Stop) α) :=
  fun _ _ _ h => absurd h fault_ne_ok

theorem returns_lift {x : Except Stop α} (h : ∀ a, x = .ok a → P a) :
    Returns P (StateT.lift x : StateT σ (Except Stop) α) :=
  fun _ a _ hx => h a (lift_eq_ok.mp hx).1

end

/-! ## Offsets -/

theorem le_alignUp (off : Nat) {a : Nat} (ha : 0 < a) : off ≤ alignUp off a := by
  have h := Nat.div_add_mod (off + a - 1) a
  have hlt := Nat.mod_lt (off + a - 1) ha
  rw [alignUp, Nat.mul_comm]
  omega

theorem alignUp_of_dvd {off a : Nat} (ha : 0 < a) (h : a ∣ off) : alignUp off a = off := by
  obtain ⟨k, rfl⟩ := h
  have hdiv : (a * k + a - 1) / a = k := by
    rw [Nat.add_sub_assoc ha, Nat.mul_add_div ha, Nat.div_eq_of_lt (Nat.sub_lt ha Nat.one_pos),
      Nat.add_zero]
  rw [alignUp, hdiv, Nat.mul_comm]

theorem dvd_alignUp (off a : Nat) : a ∣ alignUp off a := Nat.dvd_mul_left a _

theorem alignUp_one (off : Nat) : alignUp off 1 = off := alignUp_of_dvd Nat.one_pos (one_dvd off)

theorem checkAlignPrim_eq_ok {off size aLg2 off1 : Nat}
    (h : checkAlignPrim off size aLg2 = .ok off1) : aLg2 ≤ 3 ∧ off1 = alignUp off (1 <<< aLg2) := by
  simp only [checkAlignPrim] at h
  split_ifs at h with hassert hsize
  · exact ⟨hassert.1, (Except.ok.inj h).symm⟩

theorem checkAlignPrimMany_eq_ok {off size aLg2 n off1 : Nat}
    (h : checkAlignPrimMany off size aLg2 n = .ok off1) :
    aLg2 ≤ 3 ∧ off1 = alignUp off (1 <<< aLg2) := by
  simp only [checkAlignPrimMany] at h
  split_ifs at h with hassert hsize
  · exact ⟨hassert.1, (Except.ok.inj h).symm⟩

/-! ## Pieces -/

theorem pass_eq_ok {bswap : Bool} {n : Nat} {c c' : Cursor} {bytes : Bytes}
    (h : pass bswap n c = .ok (bytes, c')) : c'.done = c.done ++ bytes ∧ bytes.length = n := by
  simp only [pass] at h
  split_ifs at h with hle hswap
  all_goals
    obtain ⟨rfl, rfl⟩ := Prod.mk.inj (Except.ok.inj h)
    simp [hle]

theorem moveTo_eq_ok {off1 : Except Stop Nat} {c c' : Cursor} {u : Unit}
    (h : moveTo off1 c = .ok (u, c')) : ∃ n pad, off1 = .ok n ∧ c'.done = c.done ++ pad ∧
      pad.length = n - c.done.length := by
  obtain ⟨n, c₁, hn, h⟩ := bind_eq_ok.mp h
  obtain ⟨hoff, rfl⟩ := lift_eq_ok.mp hn
  obtain ⟨c₂, c₃, hget, h⟩ := bind_eq_ok.mp h
  obtain ⟨rfl, rfl⟩ := Prod.mk.inj (Except.ok.inj hget)
  obtain ⟨pad, c₄, hpass, h⟩ := bind_eq_ok.mp h
  obtain ⟨-, rfl⟩ := pure_eq_ok.mp h
  obtain ⟨hdone, hpad⟩ := pass_eq_ok hpass
  exact ⟨n, pad, hoff, hdone, hpad⟩

variable {args : NormalizeArgs}

/-- A piece of `n` bytes behind as much padding as an alignment asks for. -/
structure Piece (c c' : Cursor) (a : Nat) (bytes : Bytes) : Prop where
  done : ∃ pad, c'.done = c.done ++ pad ++ bytes ∧
    (c.done ++ pad).length = alignUp c.done.length a

theorem Piece.growing {c c' : Cursor} {a : Nat} {bytes : Bytes} (h : Piece c c' a bytes) :
    c.done <+: c'.done := by
  obtain ⟨pad, hdone, -⟩ := h.done
  exact ⟨pad ++ bytes, by rw [hdone, List.append_assoc]⟩

theorem Piece.length {c c' : Cursor} {a : Nat} {bytes : Bytes} (h : Piece c c' a bytes) :
    c'.done.length = alignUp c.done.length a + bytes.length := by
  obtain ⟨pad, hdone, hpad⟩ := h.done
  rw [hdone, List.length_append, hpad]

/-- Where the output goes on, the piece is still there. -/
theorem Piece.take_drop {c c' : Cursor} {a : Nat} {bytes final : Bytes} (h : Piece c c' a bytes)
    (hfinal : c'.done <+: final) :
    (final.drop (alignUp c.done.length a)).take bytes.length = bytes := by
  obtain ⟨pad, hdone, hpad⟩ := h.done
  obtain ⟨tail, rfl⟩ := hfinal
  rw [hdone, List.append_assoc, ← hpad, List.drop_left, List.take_left]

theorem one_shiftLeft_pos (k : Nat) : 0 < 1 <<< k := by
  rw [Nat.one_shiftLeft]
  exact Nat.two_pow_pos k

theorem piece_of_moveTo {c c₁ c' : Cursor} {a : Nat} (ha : 0 < a) {pad bytes : Bytes}
    (hc₁ : c₁.done = c.done ++ pad) (hpad : pad.length = alignUp c.done.length a - c.done.length)
    (hc' : c'.done = c₁.done ++ bytes) : Piece c c' a bytes := by
  have hle := le_alignUp c.done.length ha
  refine ⟨pad, by rw [hc', hc₁], ?_⟩
  rw [List.length_append, hpad]
  omega

theorem normalizePrim_eq_ok {lg2 : Nat} {c c' : Cursor} {bytes : Bytes}
    (h : normalizePrim args lg2 c = .ok (bytes, c')) :
    lg2 ≤ 3 ∧ bytes.length = 1 <<< lg2 ∧ Piece c c' (1 <<< lg2) bytes := by
  obtain ⟨_, c₁, hmove, hpass⟩ := bind_eq_ok.mp h
  obtain ⟨n, pad, hcheck, hc₁, hpad⟩ := moveTo_eq_ok hmove
  obtain ⟨hlg2, rfl⟩ := checkAlignPrim_eq_ok hcheck
  obtain ⟨hc', hlen⟩ := pass_eq_ok hpass
  exact ⟨hlg2, hlen, piece_of_moveTo (one_shiftLeft_pos lg2) hc₁ hpad hc'⟩

theorem normalizeElems_eq_ok {width n : Nat} {valid : Nat → Bool} {c c' : Cursor} {u : Unit}
    (h : normalizeElems args width valid n c = .ok (u, c')) :
    ∃ bytes, c'.done = c.done ++ bytes ∧ bytes.length = n * width := by
  induction n generalizing c with
  | zero =>
    obtain ⟨-, rfl⟩ := pure_eq_ok.mp h
    exact ⟨[], (List.append_nil _).symm, by simp⟩
  | succ n ih =>
    obtain ⟨bytes, c₁, hpass, h⟩ := bind_eq_ok.mp h
    obtain ⟨hc₁, hlen⟩ := pass_eq_ok hpass
    split_ifs at h
    · obtain ⟨rest, hc', hrest⟩ := ih h
      refine ⟨bytes ++ rest, by rw [hc', hc₁, List.append_assoc], ?_⟩
      rw [List.length_append, hlen, hrest, Nat.succ_mul, Nat.add_comm]
    · exact absurd h reject_ne_ok

theorem normalizeMany_eq_ok {lg2 n : Nat} {valid : Nat → Bool} {c c' : Cursor} {u : Unit}
    (h : normalizeMany args lg2 valid n c = .ok (u, c')) :
    lg2 ≤ 3 ∧ ∃ bytes, bytes.length = n * 1 <<< lg2 ∧ Piece c c' (1 <<< lg2) bytes := by
  obtain ⟨_, c₁, hmove, helems⟩ := bind_eq_ok.mp h
  obtain ⟨k, pad, hcheck, hc₁, hpad⟩ := moveTo_eq_ok hmove
  obtain ⟨hlg2, rfl⟩ := checkAlignPrimMany_eq_ok hcheck
  obtain ⟨bytes, hc', hlen⟩ := normalizeElems_eq_ok helems
  exact ⟨hlg2, bytes, hlen, piece_of_moveTo (one_shiftLeft_pos lg2) hc₁ hpad hc'⟩

theorem normalizeChars_eq_ok {maxsz sz : Nat} {c c' : Cursor} {u : Unit}
    (h : normalizeChars args maxsz sz c = .ok (u, c')) :
    ∃ bytes, c'.done = c.done ++ bytes ∧ bytes.length = sz := by
  simp only [normalizeChars] at h
  split_ifs at h
  split at h
  · cases h
  · split_ifs at h
    obtain ⟨bytes, c₁, hpass, h⟩ := bind_eq_ok.mp h
    obtain ⟨-, rfl⟩ := pure_eq_ok.mp h
    exact ⟨bytes, pass_eq_ok hpass⟩

/-! ## The way through the data -/

/-- The bytes that have been passed are replaced by as many others, and by themselves if
nothing is swapped. The rest is as it was. -/
def Moves (bswap : Bool) (c c' : Cursor) : Prop :=
  ∃ old new, c.rest = old ++ c'.rest ∧ c'.done = c.done ++ new ∧ new.length = old.length ∧
    (bswap = false → new = old)

instance isPreorder_moves (bswap : Bool) : IsPreorder Cursor (Moves bswap) where
  refl c := ⟨[], [], rfl, (List.append_nil _).symm, rfl, fun _ => rfl⟩
  trans c c₁ c' := by
    rintro ⟨old, new, hrest, hdone, hlen, hsame⟩ ⟨old', new', hrest', hdone', hlen', hsame'⟩
    refine ⟨old ++ old', new ++ new', ?_, ?_, ?_, fun h => ?_⟩
    · rw [hrest, hrest', List.append_assoc]
    · rw [hdone', hdone, List.append_assoc]
    · rw [List.length_append, List.length_append, hlen, hlen']
    · rw [hsame h, hsame' h]

theorem Moves.growing {bswap : Bool} {c c' : Cursor} (h : Moves bswap c c') :
    c.done <+: c'.done := by
  obtain ⟨old, new, -, hdone, -, -⟩ := h
  exact ⟨new, hdone.symm⟩

theorem grows_of_moves {α : Type} {bswap : Bool} {x : Normalize α} (h : Steps (Moves bswap) x) :
    Grows Cursor.done x :=
  fun _ _ _ hx => (h hx).growing

theorem moves_pass {bswap swap : Bool} (h : bswap = false → swap = false) (n : Nat) :
    Steps (Moves bswap) (pass swap n) := by
  intro c bytes c' hpass
  simp only [pass] at hpass
  split_ifs at hpass with hle hswap
  · obtain ⟨rfl, rfl⟩ := Prod.mk.inj (Except.ok.inj hpass)
    refine ⟨c.rest.take n, _, (List.take_append_drop n _).symm, rfl, List.length_reverse, ?_⟩
    exact fun hb => absurd hswap (by rw [h hb]; exact Bool.false_ne_true)
  · obtain ⟨rfl, rfl⟩ := Prod.mk.inj (Except.ok.inj hpass)
    exact ⟨c.rest.take n, _, (List.take_append_drop n _).symm, rfl, rfl, fun _ => rfl⟩

theorem moves_over (bswap : Bool) (n : Nat) : Steps (Moves bswap) (pass false n) :=
  moves_pass (fun _ => rfl) n

theorem moves_moveTo (bswap : Bool) (off1 : Except Stop Nat) :
    Steps (Moves bswap) (moveTo off1) := by
  refine (steps_lift off1).bind fun n => ?_
  intro c u c' h
  obtain ⟨c₀, c₁, hget, h⟩ := bind_eq_ok.mp h
  obtain ⟨rfl, rfl⟩ := Prod.mk.inj (Except.ok.inj hget)
  exact ((moves_over bswap _).bind fun _ => .pure _) h

theorem moves_atEnd (bswap : Bool) : Steps (Moves bswap) (atEnd args) := by
  intro c b c' h
  obtain ⟨-, rfl⟩ := Prod.mk.inj (Except.ok.inj h)
  exact refl_of (Moves bswap) c

theorem moves_normalizePrim (lg2 : Nat) : Steps (Moves args.bswap) (normalizePrim args lg2) :=
  fun _ _ _ h => ((moves_moveTo _ _).bind fun _ => moves_pass id _) h

theorem moves_normalizeElems (width : Nat) (valid : Nat → Bool) (n : Nat) :
    Steps (Moves args.bswap) (normalizeElems args width valid n) := by
  induction n with
  | zero => exact .pure ()
  | succ n ih => exact (moves_pass id width).bind fun _ => .ite ih steps_reject

theorem moves_normalizeMany (lg2 : Nat) (valid : Nat → Bool) (n : Nat) :
    Steps (Moves args.bswap) (normalizeMany args lg2 valid n) :=
  fun _ _ _ h => ((moves_moveTo _ _).bind fun _ => moves_normalizeElems _ valid n) h

theorem moves_normalizeChars (maxsz sz : Nat) :
    Steps (Moves args.bswap) (normalizeChars args maxsz sz) := by
  intro c u c' h
  simp only [normalizeChars] at h
  split_ifs at h
  split at h
  · cases h
  · split_ifs at h
    exact ((moves_over _ sz).bind fun _ => .pure _) h

theorem moves_normalizeUint8 : Steps (Moves args.bswap) (normalizeUint8 args) := by
  apply (moves_atEnd _).bind
  intro b
  exact .ite steps_reject ((moves_over _ _).bind fun _ => .pure _)

theorem moves_normalizeScalar (t : Prim) : Steps (Moves args.bswap) (normalizeScalar args t) := by
  cases t with
  | by1 => exact moves_normalizeUint8
  | by2 | by4 | by8 => exact (moves_normalizePrim _).bind fun _ => .pure _

theorem moves_readAndNormalizeBool : Steps (Moves args.bswap) (readAndNormalizeBool args) := by
  apply (moves_atEnd _).bind
  intro b
  refine .ite steps_reject ?_
  exact (moves_over _ _).bind fun _ => .ite steps_reject (.pure _)

theorem moves_normalizeBool : Steps (Moves args.bswap) (normalizeBool args) :=
  moves_readAndNormalizeBool.bind fun _ => .pure _

theorem moves_readAndNormalizeUint (lg2 : Nat) :
    Steps (Moves args.bswap) (readAndNormalizeUint args lg2) :=
  (moves_normalizePrim lg2).bind fun _ => .pure _

theorem moves_readNormalizeEnum (insn : UInt32) (max : Nat) :
    Steps (Moves args.bswap) (readNormalizeEnum args insn max) := by
  unfold readNormalizeEnum
  split
  case h_4 => exact steps_reject
  all_goals exact (moves_readAndNormalizeUint _).bind fun _ => .ite steps_reject (.pure _)

theorem moves_normalizeEnum (insn : UInt32) (max : Nat) :
    Steps (Moves args.bswap) (normalizeEnum args insn max) :=
  (moves_readNormalizeEnum insn max).bind fun _ => .pure _

theorem moves_checkBitmask (bitsH bitsL : UInt32) (val : Nat) :
    Steps (Moves args.bswap) (checkBitmask bitsH bitsL val) :=
  .ite (.pure _) steps_reject

theorem moves_normalizeBitmask (insn bitsH bitsL : UInt32) :
    Steps (Moves args.bswap) (normalizeBitmask args insn bitsH bitsL) := by
  unfold normalizeBitmask
  split
  case h_5 => exact steps_fault
  all_goals exact (moves_readAndNormalizeUint _).bind fun _ => moves_checkBitmask _ _ _

theorem moves_normalizeString (maxsz : Nat) :
    Steps (Moves args.bswap) (normalizeString args maxsz) :=
  (moves_readAndNormalizeUint 2).bind fun _ => moves_normalizeChars maxsz _

theorem moves_normalizeEnumarray (enumSz num max : Nat) :
    Steps (Moves args.bswap) (normalizeEnumarray args enumSz num max) := by
  unfold normalizeEnumarray
  split
  case h_4 => exact steps_reject
  all_goals exact moves_normalizeMany _ _ _

theorem moves_normalizeBitmaskarray (insn : UInt32) (num : Nat) (bitsH bitsL : UInt32) :
    Steps (Moves args.bswap) (normalizeBitmaskarray args insn num bitsH bitsL) := by
  unfold normalizeBitmaskarray
  split
  case h_5 => exact .pure _
  all_goals exact moves_normalizeMany _ _ _

section

variable {ops : Ops} {nested : Nat → Normalize Unit}
  (hnested : ∀ pc, Steps (Moves args.bswap) (nested pc))
include hnested

theorem moves_normalizeSeqElems (pc : Nat) (insn : UInt32) (num : Nat) :
    Steps (Moves args.bswap) (normalizeSeqElems args ops nested pc insn num) := by
  unfold normalizeSeqElems
  cases ddsOpSubtype insn with
  | bln => exact (moves_normalizeEnumarray _ _ _).bind fun _ => .pure _
  | prim p => exact (moves_normalizeMany _ _ _).bind fun _ => .pure _
  | enu => exact (moves_normalizeEnumarray _ _ _).bind fun _ => .pure _
  | bmk => exact (moves_normalizeBitmaskarray _ _ _ _).bind fun _ => .pure _
  | str | bst => exact (Steps.rounds (fun _ => moves_normalizeString _) _ _).bind fun _ => .pure _
  | seq | bsq | arr | uni | stu =>
    exact (Steps.rounds (fun _ => hnested _) _ _).bind fun _ => .pure _
  | ext | other => exact steps_fault

theorem moves_normalizeSeq (pc : Nat) (insn : UInt32) :
    Steps (Moves args.bswap) (normalizeSeq args ops nested pc insn) := by
  apply (moves_readAndNormalizeUint 2).bind
  intro num
  exact .ite (steps_lift _) (.ite steps_reject (moves_normalizeSeqElems hnested pc insn num))

theorem moves_normalizeArr (pc : Nat) (insn : UInt32) :
    Steps (Moves args.bswap) (normalizeArr args ops nested pc insn) := by
  unfold normalizeArr
  cases ddsOpSubtype insn with
  | bln => exact (moves_normalizeEnumarray _ _ _).bind fun _ => .pure _
  | prim p => exact (moves_normalizeMany _ _ _).bind fun _ => .pure _
  | enu => exact (moves_normalizeEnumarray _ _ _).bind fun _ => .pure _
  | bmk => exact (moves_normalizeBitmaskarray _ _ _ _).bind fun _ => .pure _
  | str | bst => exact (Steps.rounds (fun _ => moves_normalizeString _) _ _).bind fun _ => .pure _
  | seq | bsq | arr | uni | stu =>
    exact (Steps.rounds (fun _ => hnested _) _ _).bind fun _ => .pure _
  | ext | other => exact steps_fault

theorem moves_normalizeCase (label : Nat) :
    Steps (Moves args.bswap) (normalizeCase args ops nested label) := by
  unfold normalizeCase
  cases ddsOpType (ops label) with
  | bln => exact moves_normalizeBool
  | prim t => exact moves_normalizeScalar t
  | str => exact moves_normalizeString _
  | enu => exact moves_normalizeEnum _ _
  | bst | seq | bsq | arr | uni | stu | bmk => exact hnested _
  | ext | other => exact steps_fault

theorem moves_normalizeUnionCase (label : Option Nat) :
    Steps (Moves args.bswap) (normalizeUnionCase args ops nested label) := by
  cases label with
  | some label => exact moves_normalizeCase hnested label
  | none => exact .pure _

theorem moves_normalizeUni (pc : Nat) (insn : UInt32) :
    Steps (Moves args.bswap) (normalizeUni args ops nested pc insn) := by
  apply Steps.bind
  · unfold normalizeUniDisc
    cases ddsOpSubtype insn with
    | bln => exact moves_readAndNormalizeBool
    | prim p =>
      cases p with
      | by1 | by2 | by4 => exact moves_readAndNormalizeUint _
      | by8 => exact steps_fault
    | enu => exact moves_readNormalizeEnum _ _
    | str | bst | seq | arr | uni | stu | bsq | ext | bmk | other => exact steps_fault
  · intro disc
    refine (steps_lift _).bind fun label => ?_
    exact (moves_normalizeUnionCase hnested label).bind fun _ => .pure _

theorem moves_normalizeMember (pc : Nat) (insn : UInt32) :
    Steps (Moves args.bswap) (normalizeMember args ops nested pc insn) := by
  unfold normalizeMember
  cases ddsOpType insn with
  | bln => exact moves_normalizeBool.bind fun _ => .pure _
  | prim t => exact (moves_normalizeScalar t).bind fun _ => .pure _
  | str | bst => exact (moves_normalizeString _).bind fun _ => .pure _
  | seq | bsq => exact moves_normalizeSeq hnested pc insn
  | arr => exact moves_normalizeArr hnested pc insn
  | uni => exact moves_normalizeUni hnested pc insn
  | enu => exact (moves_normalizeEnum _ _).bind fun _ => .pure _
  | bmk => exact (moves_normalizeBitmask _ _ _).bind fun _ => .pure _
  | ext => exact (hnested _).bind fun _ => .pure _
  | stu | other => exact steps_fault

theorem moves_streamNormalizeAdr (pc : Nat) (insn : UInt32) :
    Steps (Moves args.bswap) (streamNormalizeAdr args ops nested pc insn) := by
  apply Steps.ite
  · apply moves_readAndNormalizeBool.bind
    intro present
    exact .ite (steps_lift _) (moves_normalizeMember hnested pc insn)
  · exact moves_normalizeMember hnested pc insn

end

theorem moves_streamNormalizeDataImpl (ops : Ops) (fuel pc : Nat) :
    Steps (Moves args.bswap) (streamNormalizeDataImpl args ops fuel pc) := by
  induction fuel generalizing pc with
  | zero => exact steps_fault
  | succ fuel ih =>
    rw [streamNormalizeDataImpl]
    split
    · exact .pure _
    · cases ddsOp (ops pc) with
      | adr => exact (moves_streamNormalizeAdr ih pc _).bind ih
      | jsr => exact (ih _).bind fun _ => ih _
      | dlc | plc => exact steps_reject
      | rts | jeq | jeq4 | kof | plm | other => exact steps_fault

end DdsPlayground.Cdr
