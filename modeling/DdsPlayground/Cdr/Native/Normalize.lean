import DdsPlayground.Cdr.Native.Opcodes

/-!
# Validation and conversion to the host's byte order

`dds_stream_normalize` on data of XCDR version 1. It works through a buffer in place: the
bytes in front of the offset are final, and from there on they are as they came.
-/

namespace DdsPlayground.Cdr

open ByteWire HostOrder Replay

/-- The arguments of `dds_stream_normalize` that it hands on unchanged, and the byte order of
the host. -/
structure NormalizeArgs where
  hostLe : Bool
  size : Nat
  bswap : Bool

/-- The buffer, cut at the offset. -/
structure Cursor where
  done : Bytes
  rest : Bytes
  deriving DecidableEq, Repr

abbrev Normalize := StateT Cursor (Except Stop)

/-- `CDR_SIZE_MAX`. -/
def cdrSizeMax : Nat := 0xfffffff0

/-- `SIZE_MAX`. -/
def sizeMax : Nat := 0xffffffffffffffff

/-! ## Scalars -/

/-- `check_align_prim`. -/
def checkAlignPrim (off size aLg2 : Nat) : Except Stop Nat :=
  let a := 1 <<< aLg2
  let off1 := alignUp off a
  if ¬ (aLg2 ≤ 3 ∧ size ≤ cdrSizeMax ∧ off ≤ size) then .error .fault
  else if size < off1 + a then .error .rejected
  else .ok off1

/-- `check_align_prim_many`. -/
def checkAlignPrimMany (off size aLg2 n : Nat) : Except Stop Nat :=
  let off1 := alignUp off (1 <<< aLg2)
  if ¬ (aLg2 ≤ 3 ∧ size ≤ cdrSizeMax ∧ off ≤ size) then .error .fault
  else if size < off1 ∨ (size - off1) >>> aLg2 < n then .error .rejected
  else .ok off1

/-- Moving the offset over `n` bytes, swapped or not; the result is what they are now. -/
def pass (bswap : Bool) (n : Nat) : Normalize Bytes := fun c =>
  if n ≤ c.rest.length then
    let bytes := if bswap then (c.rest.take n).reverse else c.rest.take n
    .ok (bytes, ⟨c.done ++ bytes, c.rest.drop n⟩)
  else .error .fault

/-- Moving the offset to a checked one. -/
def moveTo (off1 : Except Stop Nat) : Normalize Unit := do
  let off1 ← (StateT.lift off1 : Normalize Nat)
  let c ← (StateT.get : Normalize Cursor)
  let _ ← pass false (off1 - c.done.length)

section

variable (args : NormalizeArgs)

/-- The offset `*off`, and whether it is at the end of the data. -/
def atEnd : Normalize Bool := fun c => .ok (decide (c.done.length = args.size), c)

/-- A scalar of `1 <<< lg2` bytes that is aligned to its size. -/
def normalizePrim (lg2 : Nat) : Normalize Bytes := fun c =>
  (do moveTo (checkAlignPrim c.done.length args.size lg2)
      pass args.bswap (1 <<< lg2)) c

/-- `normalize_uint8`. -/
def normalizeUint8 : Normalize Unit := do
  if ← atEnd args then reject
  else
    let _ ← pass false 1

/-- `normalize_uint16`. -/
def normalizeUint16 : Normalize Unit := do let _ ← normalizePrim args 1

/-- `normalize_uint32`. -/
def normalizeUint32 : Normalize Unit := do let _ ← normalizePrim args 2

/-- `normalize_uint64`; swapping the halves and their bytes reverses all eight. -/
def normalizeUint64 : Normalize Unit := do let _ ← normalizePrim args 3

/-- The scalar of a scalar type. -/
def normalizeScalar : Prim → Normalize Unit
  | .by1 => normalizeUint8 args
  | .by2 => normalizeUint16 args
  | .by4 => normalizeUint32 args
  | .by8 => normalizeUint64 args

/-- `read_and_normalize_bool`. -/
def readAndNormalizeBool : Normalize Nat := do
  if ← atEnd args then reject
  else
    let b ← pass false 1
    if hostNat args.hostLe b > 1 then reject else pure (hostNat args.hostLe b)

/-- `normalize_bool`. -/
def normalizeBool : Normalize Unit := do let _ ← readAndNormalizeBool args

/-- `read_and_normalize_uint8`, `_uint16`, `_uint32` and `_uint64`. -/
def readAndNormalizeUint (lg2 : Nat) : Normalize Nat := do
  let bytes ← normalizePrim args lg2
  return hostNat args.hostLe bytes

/-- `read_and_normalize_uint32`. -/
def readAndNormalizeUint32 : Normalize Nat := readAndNormalizeUint args 2

/-- `read_normalize_enum`. -/
def readNormalizeEnum (insn : UInt32) (max : Nat) : Normalize Nat :=
  match ddsOpTypeSz insn with
  | 1 => do
    let val ← readAndNormalizeUint args 0
    if val > max then reject else pure val
  | 2 => do
    let val ← readAndNormalizeUint args 1
    if val > max then reject else pure val
  | 4 => do
    let val ← readAndNormalizeUint args 2
    if val > max then reject else pure val
  | _ => reject

/-- `normalize_enum`. -/
def normalizeEnum (insn : UInt32) (max : Nat) : Normalize Unit := do
  let _ ← readNormalizeEnum args insn max

/-- `read_normalize_bitmask`, after the scalar has been read. -/
def checkBitmask (bitsH bitsL : UInt32) (val : Nat) : Normalize Unit :=
  if bitmaskValueValid bitsH bitsL val then pure () else reject

/-- `normalize_bitmask`. -/
def normalizeBitmask (insn bitsH bitsL : UInt32) : Normalize Unit :=
  match ddsOpTypeSz insn with
  | 1 => do checkBitmask bitsH bitsL (← readAndNormalizeUint args 0)
  | 2 => do checkBitmask bitsH bitsL (← readAndNormalizeUint args 1)
  | 4 => do checkBitmask bitsH bitsL (← readAndNormalizeUint args 2)
  | 8 => do checkBitmask bitsH bitsL (← readAndNormalizeUint args 3)
  | _ => fault

/-- The part of `normalize_string` behind the length. -/
def normalizeChars (maxsz sz : Nat) : Normalize Unit := fun c =>
  if sz = 0 ∨ args.size - c.done.length < sz ∨ maxsz < sz then .error .rejected
  else
    match c.rest[sz - 1]? with
    | none => .error .fault
    | some last => if last ≠ 0 then .error .rejected else (do let _ ← pass false sz) c

/-- `normalize_string`. -/
def normalizeString (maxsz : Nat) : Normalize Unit := do
  normalizeChars args maxsz (← readAndNormalizeUint32 args)

/-! ## Elements -/

/-- The loop over `n` scalars that follow each other. -/
def normalizeElems (width : Nat) (valid : Nat → Bool) : Nat → Normalize Unit
  | 0 => pure ()
  | n + 1 => do
    let bytes ← pass args.bswap width
    if valid (hostNat args.hostLe bytes) then normalizeElems width valid n else reject

/-- `n` scalars of `1 <<< lg2` bytes, the first one aligned to its size. -/
def normalizeMany (lg2 : Nat) (valid : Nat → Bool) (n : Nat) : Normalize Unit := fun c =>
  (do moveTo (checkAlignPrimMany c.done.length args.size lg2 n)
      normalizeElems args (1 <<< lg2) valid n) c

/-- `normalize_primarray`. -/
def normalizePrimarray (num : Nat) (p : Prim) : Normalize Unit :=
  normalizeMany args p.lg2 (fun _ => true) num

/-- `normalize_enumarray`. -/
def normalizeEnumarray (enumSz num max : Nat) : Normalize Unit :=
  match enumSz with
  | 1 => normalizeMany args 0 (fun val => decide (val ≤ max)) num
  | 2 => normalizeMany args 1 (fun val => decide (val ≤ max)) num
  | 4 => normalizeMany args 2 (fun val => decide (val ≤ max)) num
  | _ => reject

/-- `normalize_bitmaskarray`. -/
def normalizeBitmaskarray (insn : UInt32) (num : Nat) (bitsH bitsL : UInt32) : Normalize Unit :=
  match ddsOpTypeSz insn with
  | 1 => normalizeMany args 0 (bitmaskValueValid bitsH bitsL) num
  | 2 => normalizeMany args 1 (bitmaskValueValid bitsH bitsL) num
  | 4 => normalizeMany args 2 (bitmaskValueValid bitsH bitsL) num
  | 8 => normalizeMany args 3 (bitmaskValueValid bitsH bitsL) num
  | _ => pure ()

/-! ## Members

`nested` is `stream_normalize_data_impl` at a position of the program. The collections of
version 1 have no header of their own, and their data ends where that of the sample does. -/

variable (ops : Ops) (nested : Nat → Normalize Unit)

/-- The switch of `normalize_seq`. -/
def normalizeSeqElems (pc : Nat) (insn : UInt32) (num : Nat) : Normalize Nat :=
  match ddsOpSubtype insn with
  | .bln => do
    normalizeEnumarray args 1 num 1
    return pc + 2 + boundOp insn
  | .prim p => do
    normalizePrimarray args num p
    return pc + 2 + boundOp insn
  | .enu => do
    normalizeEnumarray args (ddsOpTypeSz insn) num (ops (pc + 2 + boundOp insn)).toNat
    return pc + 3 + boundOp insn
  | .bmk => do
    normalizeBitmaskarray args insn num (ops (pc + 2 + boundOp insn)) (ops (pc + 3 + boundOp insn))
    return pc + 4 + boundOp insn
  | .str => do
    rounds (fun _ => normalizeString args sizeMax) 0 num
    return pc + 2 + boundOp insn
  | .bst => do
    rounds (fun _ => normalizeString args (ops (pc + 2 + boundOp insn)).toNat) 0 num
    return pc + 3 + boundOp insn
  | .seq | .bsq | .arr | .uni | .stu => do
    rounds (fun _ => nested (jump pc (ops (pc + 3 + boundOp insn)))) 0 num
    return behind pc (ops (pc + 3 + boundOp insn)) (4 + boundOp insn)
  | .ext | .other => fault

/-- `normalize_seq`. -/
def normalizeSeq (pc : Nat) (insn : UInt32) : Normalize Nat := do
  let bound := if boundOp insn = 1 then (ops (pc + 2)).toNat else 0
  let num ← readAndNormalizeUint32 args
  if num = 0 then StateT.lift (skipSequenceInsns ops pc insn)
  else if bound ≠ 0 ∧ num > bound then reject
  else normalizeSeqElems args ops nested pc insn num

/-- `normalize_arr`. -/
def normalizeArr (pc : Nat) (insn : UInt32) : Normalize Nat :=
  let num := (ops (pc + 2)).toNat
  match ddsOpSubtype insn with
  | .bln => do
    normalizeEnumarray args 1 num 1
    return pc + 3
  | .prim p => do
    normalizePrimarray args num p
    return pc + 3
  | .enu => do
    normalizeEnumarray args (ddsOpTypeSz insn) num (ops (pc + 3)).toNat
    return pc + 4
  | .bmk => do
    normalizeBitmaskarray args insn num (ops (pc + 3)) (ops (pc + 4))
    return pc + 5
  | .str => do
    rounds (fun _ => normalizeString args sizeMax) 0 num
    return pc + 3
  | .bst => do
    rounds (fun _ => normalizeString args (ops (pc + 4)).toNat) 0 num
    return pc + 5
  | .seq | .bsq | .arr | .uni | .stu => do
    rounds (fun _ => nested (jump pc (ops (pc + 3)))) 0 num
    return behind pc (ops (pc + 3)) 5
  | .ext | .other => fault

/-- `normalize_uni_disc`. -/
def normalizeUniDisc (pc : Nat) (insn : UInt32) : Normalize Nat :=
  match ddsOpSubtype insn with
  | .bln => readAndNormalizeBool args
  | .prim .by1 => readAndNormalizeUint args 0
  | .prim .by2 => readAndNormalizeUint args 1
  | .prim .by4 => readAndNormalizeUint args 2
  | .enu => readNormalizeEnum args insn (ops (pc + 4)).toNat
  | _ => fault

/-- The value of a union, with the label of its case. -/
def normalizeCase (label : Nat) : Normalize Unit :=
  match ddsOpType (ops label) with
  | .bln => normalizeBool args
  | .prim t => normalizeScalar args t
  | .str => normalizeString args sizeMax
  | .enu => normalizeEnum args (ops label) (ops (label + 3)).toNat
  | .bst | .seq | .bsq | .arr | .uni | .stu | .bmk => nested (jump label (ops label))
  | .ext | .other => fault

/-- The part of `normalize_uni` behind the search for the case. -/
def normalizeUnionCase : Option Nat → Normalize Unit
  | some label => normalizeCase args ops nested label
  | none => pure ()

/-- `normalize_uni`. -/
def normalizeUni (pc : Nat) (insn : UInt32) : Normalize Nat := do
  let disc ← normalizeUniDisc args ops pc insn
  let label ← (StateT.lift (findUnionCase ops pc disc) : Normalize (Option Nat))
  normalizeUnionCase args ops nested label
  return pc + ddsOpAdrJmp (ops (pc + 3))

/-- The program of a member with a type of its own. For a base type, `DDS_OP_DLC` is left out. -/
def externalOps (pc : Nat) (insn : UInt32) : Nat :=
  let jsr := jump pc (ops (pc + 2))
  if opTypeBase insn ∧ ops jsr = 0x04000000 then jsr + 1 else jsr

/-- The switch of `stream_normalize_adr`. -/
def normalizeMember (pc : Nat) (insn : UInt32) : Normalize Nat :=
  match ddsOpType insn with
  | .bln => do
    normalizeBool args
    return pc + 2
  | .prim t => do
    normalizeScalar args t
    return pc + 2
  | .str => do
    normalizeString args sizeMax
    return pc + 2
  | .bst => do
    normalizeString args (ops (pc + 2)).toNat
    return pc + 3
  | .seq | .bsq => normalizeSeq args ops nested pc insn
  | .arr => normalizeArr args ops nested pc insn
  | .uni => normalizeUni args ops nested pc insn
  | .enu => do
    normalizeEnum args insn (ops (pc + 2)).toNat
    return pc + 3
  | .bmk => do
    normalizeBitmask args insn (ops (pc + 2)) (ops (pc + 3))
    return pc + 4
  | .ext => do
    nested (externalOps ops pc insn)
    return behind pc (ops (pc + 2)) 3
  | .stu | .other => fault

/-- `stream_normalize_adr`, outside of a parameter list. -/
def streamNormalizeAdr (pc : Nat) (insn : UInt32) : Normalize Nat :=
  if opTypeOptional insn then do
    let present ← readAndNormalizeBool args
    if present = 0 then StateT.lift (ddsStreamSkipAdr ops pc insn)
    else normalizeMember args ops nested pc insn
  else normalizeMember args ops nested pc insn

end

/-- `stream_normalize_data_impl`, with a bound on the depth of its calls and the length of its
loops. Appendable and mutable types are not allowed in version 1. -/
def streamNormalizeDataImpl (args : NormalizeArgs) (ops : Ops) : Nat → Nat → Normalize Unit
  | 0, _ => fault
  | fuel + 1, pc =>
    let insn := ops pc
    if insn = ddsOpRts then pure ()
    else
      match ddsOp insn with
      | .adr => do
        let next ← streamNormalizeAdr args ops (streamNormalizeDataImpl args ops fuel) pc insn
        streamNormalizeDataImpl args ops fuel next
      | .jsr => do
        streamNormalizeDataImpl args ops fuel (jump pc insn)
        streamNormalizeDataImpl args ops fuel (pc + 1)
      | .dlc | .plc => reject
      | .rts | .jeq | .jeq4 | .kof | .plm | .other => fault

/-- `dds_stream_normalize` for a sample: what has become of the data, or a stop. The bytes
behind the sample are left as they are. -/
def ddsStreamNormalize (hostLe : Bool) (ops : Ops) (fuel : Nat) (data : Bytes) (bswap : Bool) :
    Except Stop Cursor :=
  if data.length > cdrSizeMax then .error .rejected
  else
    (streamNormalizeDataImpl ⟨hostLe, data.length, bswap⟩ ops fuel 0 ⟨[], data⟩).map (·.2)

end DdsPlayground.Cdr
