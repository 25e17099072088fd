import DdsPlayground.Cdr.Semantics.Following

/-!
# The reader along a program

The reader goes through a program as normalizing does, and reads each member where
normalizing has passed it. What it does not check of a program is asked of the positions that
the two come to.
-/

namespace DdsPlayground.Cdr

open ByteWire HostOrder Replay

variable {β : Type} {buf : Bytes} {args : NormalizeArgs} {ops : Ops}

/-! ## Scalars -/

/-- The size of a type is a power of two. -/
theorem exists_typeSz (insn : UInt32) : ∃ lg2 ≤ 3, ddsOpTypeSz insn = 1 <<< lg2 := by
  refine ⟨_, ?_, rfl⟩
  have hle : (insn &&& 0x000000c0).toNat ≤ 192 := by
    rw [UInt32.toNat_and]
    exact Nat.and_le_right
  rw [UInt32.toNat_shiftRight, show (6 : UInt32).toNat % 32 = 6 from rfl,
    Nat.shiftRight_eq_div_pow]
  omega

theorem ddsOpTypeSz_cases (insn : UInt32) : ddsOpTypeSz insn = 1 ∨ ddsOpTypeSz insn = 2 ∨
    ddsOpTypeSz insn = 4 ∨ ddsOpTypeSz insn = 8 := by
  obtain ⟨lg2, hlg2, h⟩ := exists_typeSz insn
  obtain rfl | rfl | rfl | rfl : lg2 = 0 ∨ lg2 = 1 ∨ lg2 = 2 ∨ lg2 = 3 := by omega
  all_goals simp [h]

section

variable {lg2 : Nat} {insn : UInt32}

theorem normalizeBitmask_eq (hlg2 : lg2 ≤ 3) (h : ddsOpTypeSz insn = 1 <<< lg2)
    (bitsH bitsL : UInt32) :
    normalizeBitmask args insn bitsH bitsL =
      (do checkBitmask bitsH bitsL (← readAndNormalizeUint args lg2)) := by
  obtain rfl | rfl | rfl | rfl : lg2 = 0 ∨ lg2 = 1 ∨ lg2 = 2 ∨ lg2 = 3 := by omega
  all_goals
    rw [normalizeBitmask, h]
    rfl

theorem normalizeBitmaskarray_eq (hlg2 : lg2 ≤ 3) (h : ddsOpTypeSz insn = 1 <<< lg2) (n : Nat)
    (bitsH bitsL : UInt32) :
    normalizeBitmaskarray args insn n bitsH bitsL =
      normalizeMany args lg2 (bitmaskValueValid bitsH bitsL) n := by
  obtain rfl | rfl | rfl | rfl : lg2 = 0 ∨ lg2 = 1 ∨ lg2 = 2 ∨ lg2 = 3 := by omega
  all_goals
    rw [normalizeBitmaskarray, h]
    rfl

end

theorem follows_readPrim (lg2 : Nat) (p : Place) :
    Follows buf Eq (do let _ ← normalizePrim args lg2) (readPrim buf (1 <<< lg2) p) :=
  (follows_get lg2).discard.bind_store p _

theorem follows_normalizeBool (p : Place) :
    Follows buf Eq (normalizeBool args) (readPrim buf 1 p) :=
  follows_bool.discard.bind_store p _

theorem follows_normalizeScalar (t : Prim) (p : Place) :
    Follows buf Eq (normalizeScalar args t) (readPrim buf t.size p) := by
  cases t with
  | by1 => exact follows_uint8.bind_store p _
  | by2 => exact follows_readPrim 1 p
  | by4 => exact follows_readPrim 2 p
  | by8 => exact follows_readPrim 3 p

theorem follows_readStr (maxsz : Nat) (isOptional : Bool) (p : Place) :
    Follows buf Eq (normalizeString args maxsz) (readStr buf args.hostLe isOptional p) :=
  (follows_string maxsz).bind_store p _

theorem follows_readChars (maxsz size : Nat) (p : Place) :
    Follows buf Eq (normalizeString args maxsz) (readChars buf args.hostLe size p) :=
  (follows_bounded_string maxsz size).bind_store p _

/-- A value that only normalizing looks at. -/
theorem follows_checked (lg2 : Nat) {f : Nat → Normalize β}
    (hf : ∀ {n c b c'}, f n c = .ok (b, c') → c' = c) :
    Follows buf (fun _ _ => True) (readAndNormalizeUint args lg2 >>= f)
      (ddsIsGet buf (1 <<< lg2)) :=
  (follows_get_uint lg2).checked fun h => ⟨hf h, fun _ _ => trivial⟩

theorem enum_check {val max n : Nat} {c c' : Cursor}
    (h : (if val > max then reject else pure val : Normalize Nat) c = .ok (n, c')) : c' = c := by
  split_ifs at h
  · exact absurd h reject_ne_ok
  · exact (pure_eq_ok.mp h).2.symm

theorem follows_normalizeEnum (insn : UInt32) (max : Nat) (p : Place) :
    Follows buf Eq (normalizeEnum args insn max) (readEnum buf args.hostLe insn p) := by
  obtain h | h | h | h := ddsOpTypeSz_cases insn
  all_goals simp only [normalizeEnum, readNormalizeEnum, readEnum, h]
  · exact (follows_checked 0 enum_check).discard.bind_store p _
  · exact (follows_checked 1 enum_check).discard.bind_store p _
  · exact (follows_checked 2 enum_check).discard.bind_store p _
  · have hreject : Follows buf (fun _ _ => True) (reject : Normalize Nat) (fault : Read Unit) :=
      .reject
    exact hreject.checked fun hpure => ⟨(pure_eq_ok.mp hpure).2.symm, fun _ _ => rfl⟩

theorem bitmask_check {bitsH bitsL : UInt32} {val : Nat} {u : Unit} {c c' : Cursor}
    (h : checkBitmask bitsH bitsL val c = .ok (u, c')) : c' = c := by
  unfold checkBitmask at h
  split_ifs at h
  · exact (pure_eq_ok.mp h).2.symm
  · exact absurd h reject_ne_ok

theorem follows_normalizeBitmask (insn bitsH bitsL : UInt32) (p : Place) :
    Follows buf Eq (normalizeBitmask args insn bitsH bitsL)
      (readPrim buf (ddsOpTypeSz insn) p) := by
  obtain ⟨lg2, hlg2, h⟩ := exists_typeSz insn
  rw [normalizeBitmask_eq hlg2 h, h]
  exact (follows_checked lg2 bitmask_check).bind_store p _

/-! ## Collections -/

theorem follows_bitmasks (insn bitsH bitsL : UInt32) {n : Nat} (hn : n ≠ 0) (p : Place) :
    Follows buf Eq (normalizeBitmaskarray args insn n bitsH bitsL)
      (readScalars buf n (ddsOpTypeSz insn) p) := by
  obtain ⟨lg2, hlg2, h⟩ := exists_typeSz insn
  rw [normalizeBitmaskarray_eq hlg2 h, h]
  exact follows_scalars lg2 _ hn p

theorem follows_arr_enums (insn : UInt32) (max : Nat) {n : Nat} (hn : n ≠ 0) (p : Place) :
    Follows buf Eq (normalizeEnumarray args (ddsOpTypeSz insn) n max)
      (readArrEnums buf args.hostLe insn n p) := by
  unfold readArrEnums
  split_ifs with h
  · rw [h]
    exact .reject
  · exact follows_enums hn p

theorem follows_strings (n : Nat) (p : Place) :
    Follows buf Eq (rounds (fun _ => normalizeString args sizeMax) 0 n)
      (readStrings buf args.hostLe n p) :=
  .rounds (fun _ => grows_of_moves (moves_normalizeString _))
    (fun _ => follows_readStr _ _ _) 0 n

theorem follows_bounded_strings (maxsz elemSize n : Nat) (p : Place) :
    Follows buf Eq (rounds (fun _ => normalizeString args maxsz) 0 n)
      (readBoundedStrings buf args.hostLe n elemSize p) :=
  .rounds (fun _ => grows_of_moves (moves_normalizeString _))
    (fun _ => follows_readChars _ _ _) 0 n

/-- A member that is passed over, and the position behind it. -/
theorem Follows.next {x : Normalize Unit} {y : Read Unit} (h : Follows buf Eq x y) (next : Nat) :
    Follows buf Eq (do x; return next) (do y; return next) :=
  h.bind (fun _ => .pure _) fun _ _ _ => .pure rfl

/-! ## Where normalizing goes on -/

section

variable {nested : Nat → Normalize Unit} {pc : Nat} {insn : UInt32}

theorem returns_normalizeSeqElems (num : Nat) :
    Returns (fun n => skipSequenceInsns ops pc insn = .ok n)
      (normalizeSeqElems args ops nested pc insn num) := by
  unfold normalizeSeqElems
  cases hsub : ddsOpSubtype insn with
  | bln | prim | enu | bmk | str | bst | seq | bsq | arr | uni | stu =>
    exact .bind fun _ => .pure (by simp only [skipSequenceInsns, hsub])
  | ext | other => exact returns_fault

theorem returns_normalizeSeq :
    Returns (fun n => skipSequenceInsns ops pc insn = .ok n)
      (normalizeSeq args ops nested pc insn) :=
  .bind fun num => .ite (returns_lift fun _ h => h)
    (.ite returns_reject (returns_normalizeSeqElems num))

theorem returns_normalizeArr :
    Returns (fun n => skipArrayInsns ops pc insn = .ok n)
      (normalizeArr args ops nested pc insn) := by
  unfold normalizeArr
  cases hsub : ddsOpSubtype insn with
  | bln | prim | enu | bmk | str | bst | seq | bsq | arr | uni | stu =>
    exact .bind fun _ => .pure (by simp only [skipArrayInsns, hsub])
  | ext | other => exact returns_fault

theorem returns_normalizeMember :
    Returns (Onward ops pc) (normalizeMember args ops nested pc (ops pc)) := by
  unfold normalizeMember
  cases htype : ddsOpType (ops pc) with
  | bln | prim | str | bst | enu | bmk | ext =>
    exact .bind fun _ => .pure (.inr (by simp only [ddsStreamSkipAdr, htype]))
  | seq | bsq => exact returns_normalizeSeq.mono fun _ h => .inr (by rwa [ddsStreamSkipAdr, htype])
  | arr => exact returns_normalizeArr.mono fun _ h => .inr (by rwa [ddsStreamSkipAdr, htype])
  | uni => exact .bind fun _ => .bind fun _ => .bind fun _ => .pure (onward_union htype)
  | stu | other => exact returns_fault

theorem returns_streamNormalizeAdr :
    Returns (Onward ops pc) (streamNormalizeAdr args ops nested pc (ops pc)) :=
  .ite (.bind fun _ => .ite (returns_lift fun _ => onward_skip) returns_normalizeMember)
    returns_normalizeMember

end

/-! ## Members -/

section

variable {nested : Nat → Normalize Unit} {nestedRead : Nat → Place → Read Unit}
  (hmoves : ∀ pc, Steps (Moves args.bswap) (nested pc))
  (hnested : ∀ pc p, Reached ops pc → Follows buf Eq (nested pc) (nestedRead pc p))
include hmoves hnested

theorem follows_elements {pc : Nat} (hpc : Reached ops pc) (n : Nat) (place : Nat → Place) :
    Follows buf Eq (rounds (fun _ => nested pc) 0 n)
      (rounds (fun i => nestedRead pc (place i)) 0 n) :=
  .rounds (fun _ => grows_of_moves (hmoves pc)) (fun i => hnested pc (place i) hpc) 0 n

theorem follows_normalizeSeqElems (p : Place) (pc : Nat) (insn : UInt32) {num : Nat}
    (hnum : num ≠ 0) (helem : (ddsOpSubtype insn).HasProgram →
      Reached ops (jump pc (ops (pc + 3 + boundOp insn)))) :
    Follows buf Eq (normalizeSeqElems args ops nested pc insn num)
      (readSeqElems buf args.hostLe ops nestedRead p pc insn num) := by
  unfold normalizeSeqElems readSeqElems
  cases hsub : ddsOpSubtype insn with
  | bln => exact .allocated _ _ ((follows_scalars 0 _ hnum p).next _)
  | prim t => exact .allocated _ _ ((follows_scalars t.lg2 _ hnum p).next _)
  | enu => exact .allocated _ _ ((follows_enums hnum p).next _)
  | bmk => exact .allocated _ _ ((follows_bitmasks insn _ _ hnum p).next _)
  | str => exact .allocated _ _ ((follows_strings num p).next _)
  | bst => exact .allocated _ _ ((follows_bounded_strings _ _ num p).next _)
  | seq | bsq | arr | uni | stu =>
    rw [hsub] at helem
    exact .allocated _ _ ((follows_elements hmoves hnested (helem trivial) num _).next _)
  | ext | other => exact .fault

theorem follows_normalizeSeq (p : Place) (pc : Nat) (insn : UInt32)
    (helem : (ddsOpSubtype insn).HasProgram →
      Reached ops (jump pc (ops (pc + 3 + boundOp insn)))) :
    Follows buf Eq (normalizeSeq args ops nested pc insn)
      (ddsStreamReadSeq buf args.hostLe ops nestedRead p pc insn) := by
  apply follows_get4.bind
  · intro num
    exact grows_of_moves
      (.ite (steps_lift _) (.ite steps_reject (moves_normalizeSeqElems hmoves pc insn num)))
  rintro num - rfl
  apply Follows.quiet_bind (quiet_store p _)
  rintro -
  apply Follows.ite fun _ => .lift _
  intro hnum
  exact .guarded (follows_normalizeSeqElems hmoves hnested p.deref pc insn hnum helem)

theorem follows_normalizeArr (p : Place) (pc : Nat) (insn : UInt32) (hnum : ops (pc + 2) ≠ 0)
    (helem : (ddsOpSubtype insn).HasProgram → Reached ops (jump pc (ops (pc + 3)))) :
    Follows buf Eq (normalizeArr args ops nested pc insn)
      (ddsStreamReadArr buf args.hostLe ops nestedRead p pc insn) := by
  have hpos : (ops (pc + 2)).toNat ≠ 0 := fun h => hnum (UInt32.toNat_inj.mp h)
  unfold normalizeArr ddsStreamReadArr
  cases hsub : ddsOpSubtype insn with
  | bln => exact (follows_scalars 0 _ hpos _).next _
  | prim t => exact (follows_scalars t.lg2 _ hpos _).next _
  | enu => exact (follows_arr_enums insn _ hpos p).next _
  | bmk => exact (follows_bitmasks insn _ _ hpos _).next _
  | str => exact (follows_strings _ _).next _
  | bst => exact (follows_bounded_strings _ _ _ _).next _
  | seq | bsq | arr | uni | stu =>
    rw [hsub] at helem
    exact (follows_elements hmoves hnested (helem trivial) _ _).next _
  | ext | other => exact .fault

omit hmoves hnested in
theorem follows_disc (lg2 : Nat) :
    Follows buf (fun n disc => n = disc.1) (readAndNormalizeUint args lg2)
      (do let b ← ddsIsGet buf (1 <<< lg2)
          return (hostNat args.hostLe b, some b)) :=
  (follows_get_uint lg2).bind_quiet fun _ _ => ⟨_, _, rfl, fun _ h => h⟩

omit hmoves hnested in
theorem follows_enum_disc (lg2 max : Nat) (g : Nat → Bytes → Bytes) :
    Follows buf (fun n (disc : Nat × Option Bytes) => n = disc.1)
      (do
        let val ← readAndNormalizeUint args lg2
        if val > max then reject else pure val)
      (do let b ← ddsIsGet buf (1 <<< lg2)
          return (hostNat args.hostLe b, some (g (hostNat args.hostLe b) b))) := by
  apply (follows_get_uint lg2).bind fun _ => .ite steps_reject (.pure _)
  rintro - bytes rfl
  exact .guarded (.pure rfl)

omit hmoves hnested in
/-- The discriminant that selects the case. -/
theorem follows_normalizeUniDisc (pc : Nat) (insn : UInt32) :
    Follows buf (fun n disc => n = disc.1) (normalizeUniDisc args ops pc insn)
      (readUnionDiscriminant buf args.hostLe insn) := by
  unfold normalizeUniDisc readUnionDiscriminant
  cases ddsOpSubtype insn with
  | bln => exact follows_bool.bind_quiet fun _ _ => ⟨_, _, rfl, fun _ h => h⟩
  | prim t =>
    cases t with
    | by1 => exact follows_disc 0
    | by2 => exact follows_disc 1
    | by4 => exact follows_disc 2
    | by8 => exact .fault
  | enu =>
    obtain h | h | h | h := ddsOpTypeSz_cases insn
    all_goals simp only [readNormalizeEnum, h]
    · exact follows_enum_disc 0 _ fun n _ => hostBytes args.hostLe 4 n
    · exact follows_enum_disc 1 _ fun n _ => hostBytes args.hostLe 4 n
    · exact follows_enum_disc 2 _ fun _ b => b
    · exact .reject
  | str | bst | seq | arr | uni | stu | bsq | ext | bmk | other => exact .fault

omit hmoves in
theorem follows_normalizeCase (base : Place) {label : Nat} (hlabel : ReadableLabel ops label)
    (hcase : (ddsOpType (ops label)).HasCaseProgram → Reached ops (jump label (ops label))) :
    Follows buf Eq (normalizeCase args ops nested label)
      (readCase buf args.hostLe ops nestedRead base label) := by
  apply Follows.allocating fun hexternal => sized_getJeq4TypeSize (hlabel hexternal)
  intro p
  unfold normalizeCase
  cases htype : ddsOpType (ops label) with
  | bln => exact follows_normalizeBool p
  | prim t => exact follows_normalizeScalar t p
  | str => exact follows_readStr _ _ p
  | enu => exact follows_normalizeEnum _ _ p
  | bst | bmk | seq | bsq | arr | uni | stu =>
    rw [htype] at hcase
    exact hnested _ p (hcase (by simp [TypeCode.HasCaseProgram, TypeCode.HasProgram]))
  | ext | other => exact .fault

omit hmoves in
theorem follows_normalizeUnionCase (base : Place) {label : Option Nat}
    (hcase : ∀ l ∈ label, ReadableLabel ops l ∧
      ((ddsOpType (ops l)).HasCaseProgram → Reached ops (jump l (ops l)))) :
    Follows buf Eq (normalizeUnionCase args ops nested label)
      (readUnionCase buf args.hostLe ops nestedRead base label) := by
  cases label with
  | some label =>
    obtain ⟨hlabel, hprogram⟩ := hcase label rfl
    exact follows_normalizeCase hnested base hlabel hprogram
  | none => exact .pure rfl

omit hmoves hnested in
theorem quiet_storeDiscriminant (p : Place) (bytes : Option Bytes) :
    Quiet (storeDiscriminant p bytes) := by
  cases bytes with
  | some bytes => exact quiet_store p _
  | none => exact quiet_pure ()

theorem follows_normalizeUni (hops : ReadableProgram ops) (p base : Place) {pc : Nat}
    (hpc : Reached ops pc) (hop : ddsOp (ops pc) = .adr) (htype : ddsOpType (ops pc) = .uni) :
    Follows buf Eq (normalizeUni args ops nested pc (ops pc))
      (ddsStreamReadUni buf args.hostLe ops nestedRead p base pc (ops pc)) := by
  have hgrow (label : Option Nat) : Grows Cursor.done (normalizeUnionCase args ops nested label) :=
    grows_of_moves (moves_normalizeUnionCase hmoves label)
  apply (follows_normalizeUniDisc pc (ops pc)).bind
  · intro disc
    exact (steps_lift _).bind fun label => (hgrow label).bind fun _ => .pure _
  rintro disc ⟨_, bytes⟩ rfl
  apply Follows.quiet_bind (quiet_storeDiscriminant p bytes)
  rintro -
  cases hfind : findUnionCase ops pc disc with
  | error e => exact Replays.fail fun _ _ _ h => by cases h
  | ok label =>
    have hcase := hops.case hpc hop htype hfind
    exact (follows_normalizeUnionCase hnested base hcase).next _

theorem follows_normalizeMember (hops : ReadableProgram ops) (p base : Place) {pc : Nat}
    (hpc : Reached ops pc) (hop : ddsOp (ops pc) = .adr) :
    Follows buf Eq (normalizeMember args ops nested pc (ops pc))
      (readMember buf args.hostLe ops nestedRead p base pc (ops pc)) := by
  unfold normalizeMember readMember
  cases htype : ddsOpType (ops pc) with
  | bln => exact (follows_normalizeBool p).next _
  | prim t => exact (follows_normalizeScalar t p).next _
  | str => exact (follows_readStr _ _ p).next _
  | bst => exact (follows_readChars _ _ p).next _
  | seq | bsq =>
    have hseq : ddsOpType (ops pc) = .seq ∨ ddsOpType (ops pc) = .bsq := by simp [htype]
    exact follows_normalizeSeq hmoves hnested p pc _
      fun hsub => hpc.leads (.seqElement hop hseq hsub)
  | arr =>
    exact follows_normalizeArr hmoves hnested p pc _ ((hops.member pc hpc hop).filled htype)
      fun hsub => hpc.leads (.arrElement hop htype hsub)
  | uni => exact follows_normalizeUni hmoves hnested hops p base hpc hop htype
  | enu => exact (follows_normalizeEnum _ _ p).next _
  | bmk => exact (follows_normalizeBitmask _ _ _ p).next _
  | ext => exact (hnested _ p (hpc.leads (.member hop htype))).next _
  | stu | other => exact .fault

theorem follows_readPresent (hops : ReadableProgram ops) (base : Place) {pc : Nat}
    (hpc : Reached ops pc) (hop : ddsOp (ops pc) = .adr) :
    Follows buf Eq (normalizeMember args ops nested pc (ops pc))
      (readPresent buf args.hostLe ops nestedRead base pc (ops pc)) :=
  .allocating (fun hexternal => sized_getAdrTypeSize ((hops.member pc hpc hop).sized hexternal)) _
    fun p => follows_normalizeMember hmoves hnested hops p base hpc hop

omit hmoves hnested in
/-- Where an optional member is not there, a pointer is. -/
theorem quiet_storeAbsent {pc : Nat} (hmember : ReadableMember ops pc)
    (hoptional : opTypeOptional (ops pc)) (p : Place) : Quiet (storeAbsent (ops pc) p) := by
  unfold storeAbsent
  split_ifs with hstr hexternal
  · exact quiet_store p _
  · exact quiet_store p _
  · exact absurd ((hmember.optional hoptional).resolve_right hstr) hexternal

theorem follows_streamNormalizeAdr (hops : ReadableProgram ops) (base : Place) {pc : Nat}
    (hpc : Reached ops pc) (hop : ddsOp (ops pc) = .adr) :
    Follows buf Eq (streamNormalizeAdr args ops nested pc (ops pc))
      (ddsStreamReadAdr buf args.hostLe ops nestedRead base pc (ops pc)) := by
  have hpresent : Follows buf Eq (normalizeMember args ops nested pc (ops pc))
      (readPresent buf args.hostLe ops nestedRead base pc (ops pc)) :=
    follows_readPresent hmoves hnested hops base hpc hop
  apply Follows.ite
  · intro hoptional
    apply follows_bool.bind
    · exact fun present => .ite (steps_lift _) (grows_of_moves (moves_normalizeMember hmoves pc _))
    rintro - present rfl
    apply Follows.ite
    · exact fun _ => .quiet_bind (quiet_storeAbsent (hops.member pc hpc hop) hoptional _)
        fun _ => .lift _
    · exact fun _ => hpresent
  · exact fun _ => hpresent

end

theorem follows_streamNormalizeDataImpl (hops : ReadableProgram ops) (fuel : Nat) {pc : Nat}
    (base : Place) (hpc : Reached ops pc) :
    Follows buf Eq (streamNormalizeDataImpl args ops fuel pc)
      (ddsStreamReadImpl buf args.hostLe ops fuel pc base) := by
  induction fuel generalizing pc base with
  | zero => exact .fault
  | succ fuel ih =>
    have hmoves (pc : Nat) : Steps (Moves args.bswap) (streamNormalizeDataImpl args ops fuel pc) :=
      moves_streamNormalizeDataImpl ops fuel pc
    have hnested (pc : Nat) (p : Place) (hpc : Reached ops pc) :
        Follows buf Eq (streamNormalizeDataImpl args ops fuel pc)
          (ddsStreamReadImpl buf args.hostLe ops fuel pc p) := ih p hpc
    rw [streamNormalizeDataImpl, ddsStreamReadImpl]
    apply Follows.ite fun _ => .pure rfl
    intro hrts
    cases hop : ddsOp (ops pc) with
    | adr =>
      have hadr := (follows_streamNormalizeAdr hmoves hnested hops base hpc hop).results
        fun _ => returns_streamNormalizeAdr
      apply hadr.bind fun _ _ => grows_of_moves (hmoves _)
      rintro next _ ⟨rfl, hnext⟩
      exact ih base (hpc.onward hop hnext)
    | jsr =>
      apply (ih base (hpc.leads (.subroutine hop))).bind fun _ => grows_of_moves (hmoves _)
      exact fun _ _ _ => ih base (hpc.leads (.behindSubroutine hop))
    | dlc | plc => exact .reject
    | rts | jeq | jeq4 | kof | plm | other => exact .fault

end DdsPlayground.Cdr
