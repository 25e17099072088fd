import Mathlib.Data.List.GetD
import Mathlib.Logic.Relation
import DdsPlayground.Cdr.Semantics.Normalizing

/-!
# Positions of a program

The words of a program are instructions and their operands. Which is which shows only when the
program is followed from its start. What a program has to be like is asked of the instructions
and labels that are come to in this way, and of no other word.
-/

namespace DdsPlayground.Cdr

open Replay

variable {ops : Ops} {pc n : Nat}

/-! ## Sizes -/

/-- A number of bytes that does not fit in 32 bits. -/
def Stop.Excess : Stop → Prop
  | .overflow num elemSize => 4294967296 ≤ num * elemSize
  | _ => False

theorem Stop.Excess.overflow {e : Stop} (h : e.Excess) :
    ∃ num elemSize, 4294967296 ≤ num * elemSize ∧ e = .overflow num elemSize := by
  cases e with
  | overflow num elemSize => exact ⟨num, elemSize, h, rfl⟩
  | rejected | fault => exact h.elim

/-- A size is known, or there are too many bytes for it. -/
def Sized (size : Except Stop Nat) : Prop :=
  (∃ n, size = .ok n) ∨ ∃ e, size = .error e ∧ e.Excess

theorem sized_ok (n : Nat) : Sized (.ok n) := .inl ⟨n, rfl⟩

theorem byteCount_cases (num elemSize : Nat) : byteCount num elemSize = .ok (num * elemSize) ∨
    ∃ e, byteCount num elemSize = .error e ∧ e.Excess := by
  unfold byteCount
  split_ifs with h
  · exact .inl rfl
  · exact .inr ⟨_, rfl, Nat.not_lt.mp h⟩

theorem sized_byteCount (num elemSize : Nat) : Sized (byteCount num elemSize) :=
  (byteCount_cases num elemSize).imp_left fun h => ⟨_, h⟩

/-- Asking for a size changes nothing. -/
theorem Sized.lift {σ : Type} {size : Except Stop Nat} (h : Sized size) (s : σ) :
    (∃ n, (StateT.lift size : StateT σ (Except Stop) Nat) s = .ok (n, s)) ∨
      ∃ e, (StateT.lift size : StateT σ (Except Stop) Nat) s = .error e ∧ e.Excess := by
  obtain ⟨n, hn⟩ | ⟨e, he, hexcess⟩ := h
  · exact .inl ⟨n, lift_eq_ok.mpr ⟨hn, rfl⟩⟩
  · exact .inr ⟨e, lift_eq_error.mpr he, hexcess⟩

theorem sized_getAdrTypeSize {insn : UInt32} (h : getAdrTypeSize ops pc insn ≠ .error .fault) :
    Sized (getAdrTypeSize ops pc insn) := by
  unfold getAdrTypeSize at h ⊢
  cases htype : ddsOpType insn with
  | arr =>
    simp only [htype] at h
    cases helem : getCollectionElemSize ops pc insn with
    | ok elemSize => exact sized_byteCount _ elemSize
    | error e =>
      obtain rfl : e = .fault := by
        unfold getCollectionElemSize at helem
        split at helem
        case h_6 | h_7 | h_8 | h_9 | h_10 | h_11 => rw [if_pos htype] at helem; cases helem
        case h_12 | h_13 => exact (Except.error.inj helem).symm
        all_goals cases helem
      rw [helem] at h
      exact absurd rfl h
  | uni | stu =>
    simp only [htype] at h
    exact absurd rfl h
  | bln | prim p | enu | bmk | str | bst | seq | bsq | ext | other => exact sized_ok _

theorem sized_getJeq4TypeSize {label : Nat} (h : getJeq4TypeSize ops label ≠ .error .fault) :
    Sized (getJeq4TypeSize ops label) := by
  unfold getJeq4TypeSize at h ⊢
  split_ifs at h ⊢ with hjeq4
  · cases htype : ddsOpType (ops label) with
    | bmk | bst | arr =>
      simp only [htype] at h
      exact sized_getAdrTypeSize h
    | ext =>
      simp only [htype] at h
      exact absurd rfl h
    | bln | prim p | enu | str | seq | bsq | stu | uni | other => exact sized_ok _
  · exact absurd rfl h

/-! ## Positions -/

/-- The elements of a collection have a program of their own. -/
def TypeCode.HasProgram : TypeCode → Prop
  | .seq | .bsq | .arr | .uni | .stu => True
  | _ => False

/-- The value of a case has one. -/
def TypeCode.HasCaseProgram (t : TypeCode) : Prop := t.HasProgram ∨ t = .bst ∨ t = .bmk

/-- The position behind a member, or that of a program which the instruction at `pc` calls. -/
inductive Leads (ops : Ops) (pc : Nat) : Nat → Prop
  | behind {n : Nat} (hop : ddsOp (ops pc) = .adr)
      (hskip : ddsStreamSkipAdr ops pc (ops pc) = .ok n) : Leads ops pc n
  | seqElement (hop : ddsOp (ops pc) = .adr)
      (htype : ddsOpType (ops pc) = .seq ∨ ddsOpType (ops pc) = .bsq)
      (hsub : (ddsOpSubtype (ops pc)).HasProgram) :
      Leads ops pc (jump pc (ops (pc + 3 + boundOp (ops pc))))
  | arrElement (hop : ddsOp (ops pc) = .adr) (htype : ddsOpType (ops pc) = .arr)
      (hsub : (ddsOpSubtype (ops pc)).HasProgram) : Leads ops pc (jump pc (ops (pc + 3)))
  | unionCase {disc label : Nat} (hop : ddsOp (ops pc) = .adr) (htype : ddsOpType (ops pc) = .uni)
      (hfind : findUnionCase ops pc disc = .ok (some label))
      (hcase : (ddsOpType (ops label)).HasCaseProgram) : Leads ops pc (jump label (ops label))
  | member (hop : ddsOp (ops pc) = .adr) (htype : ddsOpType (ops pc) = .ext) :
      Leads ops pc (externalOps ops pc (ops pc))
  | subroutine (hop : ddsOp (ops pc) = .jsr) : Leads ops pc (jump pc (ops pc))
  | behindSubroutine (hop : ddsOp (ops pc) = .jsr) : Leads ops pc (pc + 1)

/-- A position that a run may come to. -/
def Reached (ops : Ops) : Nat → Prop := Relation.ReflTransGen (Leads ops) 0

theorem Reached.start : Reached ops 0 := .refl

theorem Reached.leads (h : Reached ops pc) (hn : Leads ops pc n) : Reached ops n :=
  Relation.ReflTransGen.tail h hn

/-- The position that an operation goes on to behind a member. A union without a distance to
what is behind it stays where it is. -/
def Onward (ops : Ops) (pc n : Nat) : Prop := n = pc ∨ ddsStreamSkipAdr ops pc (ops pc) = .ok n

theorem Reached.onward (h : Reached ops pc) (hop : ddsOp (ops pc) = .adr)
    (hn : Onward ops pc n) : Reached ops n := by
  obtain rfl | hskip := hn
  · exact h
  · exact h.leads (.behind hop hskip)

theorem onward_skip (h : ddsStreamSkipAdr ops pc (ops pc) = .ok n) : Onward ops pc n := .inr h

theorem onward_union (htype : ddsOpType (ops pc) = .uni) :
    Onward ops pc (pc + ddsOpAdrJmp (ops (pc + 3))) := by
  by_cases hjmp : ddsOpAdrJmp (ops (pc + 3)) = 0
  · exact .inl (by rw [hjmp, Nat.add_zero])
  · refine .inr ?_
    simp only [ddsStreamSkipAdr, htype, behind, if_pos hjmp]

/-! ## Members and labels -/

/-- The values of an enumeration fit in the bytes that an instruction gives them. -/
def Fits (insn max : UInt32) : Prop := max.toNat < 1 <<< (8 * ddsOpTypeSz insn)

instance decidableFits (insn max : UInt32) : Decidable (Fits insn max) :=
  inferInstanceAs (Decidable (max.toNat < 1 <<< (8 * ddsOpTypeSz insn)))

/-- The greatest value of the enumeration that a member is made of, or zero. -/
def enumMax (ops : Ops) (pc : Nat) (insn : UInt32) : UInt32 :=
  match ddsOpType insn, ddsOpSubtype insn with
  | .enu, _ => ops (pc + 2)
  | .seq, .enu | .bsq, .enu => ops (pc + 2 + boundOp insn)
  | .arr, .enu => ops (pc + 3)
  | .uni, .enu => ops (pc + 4)
  | _, _ => 0

/-- What the reader relies on in the instruction of a member: an array has elements, what is
behind a pointer has a size, and an optional member is a pointer or a string. -/
@[mk_iff]
structure ReadableMember (ops : Ops) (pc : Nat) : Prop where
  filled : ddsOpType (ops pc) = .arr → ops (pc + 2) ≠ 0
  sized : opTypeExternal (ops pc) → getAdrTypeSize ops pc (ops pc) ≠ .error .fault
  optional : opTypeOptional (ops pc) → opTypeExternal (ops pc) ∨ ddsOpType (ops pc) = .str

/-- What the reader relies on in the label of a case. -/
def ReadableLabel (ops : Ops) (label : Nat) : Prop :=
  opTypeExternal (ops label) → getJeq4TypeSize ops label ≠ .error .fault

/-- What writing relies on too: a string is not behind another pointer, and the values of an
enumeration fit in their bytes. -/
@[mk_iff]
structure SoundMember (ops : Ops) (pc : Nat) : Prop extends ReadableMember ops pc where
  external : opTypeExternal (ops pc) → ddsOpType (ops pc) ≠ .str
  enum : Fits (ops pc) (enumMax ops pc (ops pc))

@[mk_iff]
structure SoundLabel (ops : Ops) (label : Nat) : Prop where
  sized : ReadableLabel ops label
  external : opTypeExternal (ops label) → ddsOpType (ops label) ≠ .str
  enum : ddsOpType (ops label) = .enu → Fits (ops label) (ops (label + 3))

/-- The members and the labels that a run may come to are of a kind. -/
structure Throughout (Member Label : Ops → Nat → Prop) (ops : Ops) : Prop where
  member : ∀ pc, Reached ops pc → ddsOp (ops pc) = .adr → Member ops pc
  label : ∀ pc disc label, Reached ops pc → ddsOp (ops pc) = .adr → ddsOpType (ops pc) = .uni →
    findUnionCase ops pc disc = .ok (some label) → Label ops label

/-- A program whose samples the reader can read. -/
abbrev ReadableProgram : Ops → Prop := Throughout ReadableMember ReadableLabel

/-- A program whose samples can be written and read. -/
abbrev SoundProgram : Ops → Prop := Throughout SoundMember SoundLabel

section

variable (h : SoundMember ops pc)
include h

end

/-- The label that a search comes to is of its kind, and a run may come to its program. -/
theorem Throughout.case {Member Label : Ops → Nat → Prop} (hops : Throughout Member Label ops)
    (hpc : Reached ops pc) (hop : ddsOp (ops pc) = .adr) (htype : ddsOpType (ops pc) = .uni)
    {disc : Nat} {label : Option Nat} (hfind : findUnionCase ops pc disc = .ok label) :
    ∀ l ∈ label, Label ops l ∧
      ((ddsOpType (ops l)).HasCaseProgram → Reached ops (jump l (ops l))) := by
  rintro l rfl
  exact ⟨hops.label pc disc l hpc hop htype hfind,
    fun hcase => hpc.leads (.unionCase hop htype hfind hcase)⟩

theorem Throughout.readable (h : SoundProgram ops) : ReadableProgram ops where
  member pc hpc hop := (h.member pc hpc hop).toReadableMember
  label pc disc label hpc hop htype hfind := (h.label pc disc label hpc hop htype hfind).sized

/-! ## Programs without a wrong word -/

instance decidableReadableMember (ops : Ops) (pc : Nat) : Decidable (ReadableMember ops pc) :=
  decidable_of_iff _ (readableMember_iff ops pc).symm

instance decidableReadableLabel (ops : Ops) (label : Nat) : Decidable (ReadableLabel ops label) :=
  inferInstanceAs (Decidable (_ → _))

instance decidableSoundMember (ops : Ops) (pc : Nat) : Decidable (SoundMember ops pc) :=
  decidable_of_iff _ (soundMember_iff ops pc).symm

instance decidableSoundLabel (ops : Ops) (label : Nat) : Decidable (SoundLabel ops label) :=
  decidable_of_iff _ (soundLabel_iff ops label).symm

/-- The words of a list at which there is nothing wrong, whether or not they are come to. -/
def soundWords (words : List UInt32) : Bool :=
  (List.range words.length).all fun pc =>
    (ddsOp (Ops.ofList words pc) != .adr || decide (SoundMember (.ofList words) pc)) &&
      ((ddsOp (Ops.ofList words pc) != .jeq && ddsOp (Ops.ofList words pc) != .jeq4) ||
        decide (SoundLabel (.ofList words) pc))

/-- The position that a search comes to is one of the labels. -/
theorem findLabel_isLabel {disc k : Nat} (hvalid : labelsValid ops n pc) (hk : k ≤ n)
    (h : (findLabel ops disc k pc).1 ∨ k < n) :
    ddsOp (ops (findLabel ops disc k pc).2) = .jeq ∨
      ddsOp (ops (findLabel ops disc k pc).2) = .jeq4 := by
  induction k generalizing n pc with
  | zero =>
    obtain ⟨n, rfl⟩ : ∃ m, n = m + 1 := Nat.exists_eq_succ_of_ne_zero (by
      rintro rfl
      simp [findLabel] at h)
    simp only [labelsValid, Bool.and_eq_true, Bool.or_eq_true, beq_iff_eq] at hvalid
    exact hvalid.1
  | succ k ih =>
    obtain ⟨n, rfl⟩ : ∃ m, n = m + 1 := Nat.exists_eq_succ_of_ne_zero (by omega)
    simp only [labelsValid, Bool.and_eq_true, Bool.or_eq_true, beq_iff_eq] at hvalid
    simp only [findLabel] at h ⊢
    split_ifs with hdisc
    · exact hvalid.1
    · rw [if_neg hdisc] at h
      exact ih hvalid.2 (Nat.le_of_succ_le_succ hk) (h.imp_right Nat.lt_of_succ_lt_succ)

theorem findUnionCase_isLabel {disc label : Nat}
    (h : findUnionCase ops pc disc = .ok (some label)) :
    ddsOp (ops label) = .jeq ∨ ddsOp (ops label) = .jeq4 := by
  simp only [findUnionCase] at h
  split at h
  · next hassert =>
    have hcase := Except.ok.inj h
    cases hdef : hasDefault (ops pc) with
    | false =>
      simp only [hdef, Bool.or_false, Bool.false_eq_true, if_false, Nat.sub_zero] at hcase
      split at hcase
      · next hfound =>
        obtain rfl := Option.some.inj hcase
        exact findLabel_isLabel hassert.2 le_rfl (.inl hfound)
      · cases hcase
    | true =>
      simp only [hdef, Bool.or_true, if_true] at hcase
      obtain rfl := Option.some.inj hcase
      have hlt := Nat.sub_lt hassert.1 Nat.one_pos
      exact findLabel_isLabel hassert.2 hlt.le (.inr hlt)
  · cases h

/-- Behind the words of a list there is nothing to check. -/
theorem soundProgram_ofList {words : List UInt32} (h : soundWords words) :
    SoundProgram (.ofList words) := by
  have hword {pc : Nat} (hpc : pc < words.length) :=
    List.all_eq_true.mp h pc (List.mem_range.mpr hpc)
  simp only [Bool.and_eq_true, Bool.or_eq_true, bne_iff_ne, decide_eq_true_eq] at hword
  have hbehind {pc : Nat} (hpc : words.length ≤ pc) : Ops.ofList words pc = 0 :=
    List.getD_eq_default words 0 hpc
  constructor
  · intro pc _ hop
    by_cases hpc : pc < words.length
    · exact (hword hpc).1.resolve_left (not_not.mpr hop)
    · rw [hbehind (Nat.not_lt.mp hpc)] at hop
      exact absurd hop (by decide)
  · intro _ _ label _ _ _ hfind
    have hlabel := findUnionCase_isLabel hfind
    by_cases hlt : label < words.length
    · apply (hword hlt).2.resolve_left
      rintro ⟨hjeq, hjeq4⟩
      exact hlabel.elim hjeq hjeq4
    · rw [hbehind (Nat.not_lt.mp hlt)] at hlabel
      exact absurd hlabel (by decide)

/-- An array of octets. -/
def octetsOps (n : UInt32) : Ops := .ofList [0x01080100, 0, n, 0]

/-- The length of an array is no instruction, whatever it looks like. -/
theorem octetsOps_sound {n : UInt32} (hn : n ≠ 0) : SoundProgram (octetsOps n) := by
  have hop : ddsOp (octetsOps n 0) = .adr := show ddsOp 0x01080100 = .adr by decide
  have htype : ddsOpType (octetsOps n 0) = .arr := show ddsOpType 0x01080100 = .arr by decide
  have hsub : ddsOpSubtype (octetsOps n 0) = .prim .by1 :=
    show ddsOpSubtype 0x01080100 = .prim .by1 by decide
  have hskip : ddsStreamSkipAdr (octetsOps n) 0 (octetsOps n 0) = .ok 3 := by
    simp only [ddsStreamSkipAdr, htype, skipArrayInsns, hsub]
  have hend : ddsOp (octetsOps n 3) = .rts := show ddsOp 0 = .rts by decide
  have hreached {pc : Nat} (h : Reached (octetsOps n) pc) : pc = 0 ∨ pc = 3 := by
    induction h with
    | refl => exact .inl rfl
    | tail _ hlead ih =>
      obtain rfl | rfl := ih
      · cases hlead with
        | behind _ hnext => exact .inr (Except.ok.inj (hnext.symm.trans hskip))
        | seqElement _ hseq => simp [htype] at hseq
        | arrElement _ _ helem => simp [hsub, TypeCode.HasProgram] at helem
        | unionCase _ huni => simp [htype] at huni
        | member _ hext => simp [htype] at hext
        | subroutine hjsr | behindSubroutine hjsr => simp [hop] at hjsr
      · cases hlead with
        | behind h | seqElement h | arrElement h | unionCase h | member h
        | subroutine h | behindSubroutine h => simp [hend] at h
  constructor
  · intro pc hpc hadr
    obtain rfl | rfl := hreached hpc
    · refine ⟨⟨fun _ => hn, fun hext => ?_, fun hopt => ?_⟩, fun hext => ?_, ?_⟩
      · exact absurd hext (show ¬ opTypeExternal 0x01080100 by decide)
      · exact absurd hopt (show ¬ opTypeOptional 0x01080100 by decide)
      · exact absurd hext (show ¬ opTypeExternal 0x01080100 by decide)
      · simp only [enumMax, htype, hsub]
        exact show Fits 0x01080100 0 by decide
    · simp [hend] at hadr
  · intro pc _ _ hpc _ huni
    obtain rfl | rfl := hreached hpc
    · simp [htype] at huni
    · exact absurd huni (show ¬ ddsOpType 0 = .uni by decide)

end DdsPlayground.Cdr
