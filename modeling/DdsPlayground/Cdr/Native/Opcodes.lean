import DdsPlayground.Core.HostOrder
import DdsPlayground.Core.Replay

/-!
# Programs of the serializer

The words that the IDL compiler puts out for a type, and how `ddsi_cdrstream.c` takes them
apart. A program is the memory from its first word on, so that no word is missing in it. An
operation of the serializer ends in a result, in a rejection (`NULL` or `false`), or in a
fault: an `abort`, a failed assertion, an access that leaves a buffer, or an end that is
never reached. Where a number of bytes does not fit in the `uint32_t` that the source has for
it, that is an end of its own.
-/

namespace DdsPlayground.Cdr

open ByteWire HostOrder Replay

/-- How an operation ends without a result. -/
inductive Stop where
  | rejected
  | fault
  /-- The bytes of `num` elements are not counted right in 32 bits. What the source goes on to
  do with the number is not followed. -/
  | overflow (num elemSize : Nat)
  deriving DecidableEq, Repr

def reject {σ α : Type} : StateT σ (Except Stop) α := fun _ => .error .rejected

def fault {σ α : Type} : StateT σ (Except Stop) α := fun _ => .error .fault

/-! ## Words -/

/-- The sizes of the scalar types `1BY`, `2BY`, `4BY` and `8BY`. -/
inductive Prim where
  | by1
  | by2
  | by4
  | by8
  deriving DecidableEq, Repr

/-- `enum dds_stream_typecode`; `other` is a code that it does not have. -/
inductive TypeCode where
  | prim (p : Prim)
  | str
  | bst
  | seq
  | arr
  | uni
  | stu
  | bsq
  | enu
  | ext
  | bln
  | bmk
  | other
  deriving DecidableEq, Repr

def TypeCode.ofCode : Nat → TypeCode
  | 0x01 => .prim .by1
  | 0x02 => .prim .by2
  | 0x03 => .prim .by4
  | 0x04 => .prim .by8
  | 0x05 => .str
  | 0x06 => .bst
  | 0x07 => .seq
  | 0x08 => .arr
  | 0x09 => .uni
  | 0x0a => .stu
  | 0x0b => .bsq
  | 0x0c => .enu
  | 0x0d => .ext
  | 0x0e => .bln
  | 0x0f => .bmk
  | _ => .other

/-- `enum dds_stream_opcode`; `other` is a code that it does not have. -/
inductive Opcode where
  | rts
  | adr
  | jsr
  | jeq
  | dlc
  | plc
  | plm
  | kof
  | jeq4
  | other
  deriving DecidableEq, Repr

def Opcode.ofCode : Nat → Opcode
  | 0x00 => .rts
  | 0x01 => .adr
  | 0x02 => .jsr
  | 0x03 => .jeq
  | 0x04 => .dlc
  | 0x05 => .plc
  | 0x06 => .plm
  | 0x07 => .kof
  | 0x08 => .jeq4
  | _ => .other

/-- The program of a type. -/
abbrev Ops := Nat → UInt32

/-- A program with the words of a list in front. -/
def Ops.ofList (words : List UInt32) : Ops := fun pc => words.getD pc 0

/-- `DDS_OP_RTS`. -/
def ddsOpRts : UInt32 := 0

/-- `DDS_OP`. -/
def ddsOp (o : UInt32) : Opcode := .ofCode (o >>> 24).toNat

/-- `DDS_OP_TYPE`, and `DDS_JEQ_TYPE` with the same mask. -/
def ddsOpType (o : UInt32) : TypeCode := .ofCode ((o &&& 0x007f0000) >>> 16).toNat

/-- `DDS_OP_SUBTYPE`. -/
def ddsOpSubtype (o : UInt32) : TypeCode := .ofCode ((o &&& 0x0000ff00) >>> 8).toNat

/-- `DDS_OP_TYPE_SZ`. -/
def ddsOpTypeSz (o : UInt32) : Nat := 1 <<< ((o &&& 0x000000c0) >>> 6).toNat

/-- `DDS_OP_ADR_JSR` and `DDS_OP_JUMP`: a signed number of 16 bits. -/
def ddsOpJump (o : UInt32) : Int := o.toUInt16.toInt16.toInt

/-- `DDS_OP_ADR_JMP`. -/
def ddsOpAdrJmp (o : UInt32) : Nat := (o >>> 16).toNat

/-- Whether `DDS_OP_FLAG_DEF` is set. -/
def hasDefault (o : UInt32) : Bool := o &&& 0x00000002 != 0

/-- `op_type_external`. -/
def opTypeExternal (o : UInt32) : Bool := o &&& 0x00800000 != 0

/-- `op_type_optional`. -/
def opTypeOptional (o : UInt32) : Bool := o &&& 0x00000020 != 0

/-- `op_type_base`. -/
def opTypeBase (o : UInt32) : Bool := o &&& 0x00000010 != 0

/-- The position that a word at `pc` jumps to by its lower half. -/
def jump (pc : Nat) (o : UInt32) : Nat := (pc + ddsOpJump o).toNat

/-- The position behind an instruction: the distance in a word's upper half, or the default. -/
def behind (pc : Nat) (o : UInt32) (default : Nat) : Nat :=
  pc + if ddsOpAdrJmp o ≠ 0 then ddsOpAdrJmp o else default

/-! ## Sizes -/

/-- The binary logarithm of the size of a scalar. -/
def Prim.lg2 : Prim → Nat
  | .by1 => 0
  | .by2 => 1
  | .by4 => 2
  | .by8 => 3

/-- `get_primitive_size`. -/
def Prim.size (p : Prim) : Nat := 1 <<< p.lg2

/-- Rounding up to the next multiple of `a`. -/
def alignUp (off a : Nat) : Nat := (off + a - 1) / a * a

/-- `seq_is_bounded`, as the number of words of the bound. -/
def boundOp (insn : UInt32) : Nat := if ddsOpType insn = .bsq then 1 else 0

/-- `bitmask_value_valid`. -/
def bitmaskValueValid (bitsH bitsL : UInt32) (val : Nat) : Bool :=
  UInt32.ofNat (val >>> 32) &&& ~~~bitsH == 0 && UInt32.ofNat val &&& ~~~bitsL == 0

/-- `sizeof (char *)`. -/
def pointerSize : Nat := 8

/-- `sizeof (struct dds_sequence)`. -/
def sequenceSize : Nat := 24

/-- `num * elem_size`, which the source computes in 32 bits. -/
def byteCount (num elemSize : Nat) : Except Stop Nat :=
  if num * elemSize < 4294967296 then .ok (num * elemSize) else .error (.overflow num elemSize)

/-- `get_collection_elem_size`. -/
def getCollectionElemSize (ops : Ops) (pc : Nat) (insn : UInt32) : Except Stop Nat :=
  match ddsOpSubtype insn with
  | .bln => .ok 1
  | .prim p => .ok p.size
  | .enu => .ok 4
  | .bmk => .ok (ddsOpTypeSz insn)
  | .str => .ok pointerSize
  | .bst | .seq | .bsq | .arr | .uni | .stu =>
    if ddsOpType insn = .arr then .ok (ops (pc + 4)).toNat else .error .fault
  | .ext | .other => .error .fault

/-- `get_adr_type_size`. -/
def getAdrTypeSize (ops : Ops) (pc : Nat) (insn : UInt32) : Except Stop Nat :=
  match ddsOpType insn with
  | .bln => .ok 1
  | .prim p => .ok p.size
  | .enu => .ok 4
  | .bmk => .ok (ddsOpTypeSz insn)
  | .str => .ok pointerSize
  | .bst => .ok (ops (pc + 2)).toNat
  | .arr => do byteCount (ops (pc + 2)).toNat (← getCollectionElemSize ops pc insn)
  | .seq | .bsq => .ok sequenceSize
  | .ext => .ok (ops (pc + 3)).toNat
  | .uni | .stu => .error .fault
  | .other => .ok 0

/-! ## Instructions that are passed over -/

/-- `skip_sequence_insns`. -/
def skipSequenceInsns (ops : Ops) (pc : Nat) (insn : UInt32) : Except Stop Nat :=
  match ddsOpSubtype insn with
  | .bln | .prim _ | .str => .ok (pc + 2 + boundOp insn)
  | .bst | .enu => .ok (pc + 3 + boundOp insn)
  | .bmk => .ok (pc + 4 + boundOp insn)
  | .seq | .bsq | .arr | .uni | .stu =>
    .ok (behind pc (ops (pc + 3 + boundOp insn)) (4 + boundOp insn))
  | .ext | .other => .error .fault

/-- `skip_array_insns`. -/
def skipArrayInsns (ops : Ops) (pc : Nat) (insn : UInt32) : Except Stop Nat :=
  match ddsOpSubtype insn with
  | .bln | .prim _ | .str => .ok (pc + 3)
  | .enu => .ok (pc + 4)
  | .bst | .bmk => .ok (pc + 5)
  | .seq | .bsq | .arr | .uni | .stu => .ok (behind pc (ops (pc + 3)) 5)
  | .ext | .other => .error .fault

/-- `dds_stream_skip_adr`. -/
def ddsStreamSkipAdr (ops : Ops) (pc : Nat) (insn : UInt32) : Except Stop Nat :=
  match ddsOpType insn with
  | .bln | .prim _ | .str => .ok (pc + 2)
  | .bst | .enu => .ok (pc + 3)
  | .bmk => .ok (pc + 4)
  | .seq | .bsq => skipSequenceInsns ops pc insn
  | .arr => skipArrayInsns ops pc insn
  | .uni => .ok (behind pc (ops (pc + 3)) 4)
  | .ext => .ok (behind pc (ops (pc + 2)) 3)
  | .stu | .other => .error .fault

/-! ## Cases of a union -/

/-- The words of a case label: `JEQ` has three, `JEQ4` four. -/
def jeqLength (o : UInt32) : Nat := if ddsOp o = .jeq then 3 else 4

/-- The loop of `find_union_case` over `n` labels: the one of the discriminant, or else the
position behind them. -/
def findLabel (ops : Ops) (disc : Nat) : Nat → Nat → Bool × Nat
  | 0, pc => (false, pc)
  | n + 1, pc =>
    if (ops (pc + 1)).toNat = disc then (true, pc)
    else findLabel ops disc n (pc + jeqLength (ops pc))

/-- The `n` words at the heads of the labels are labels. -/
def labelsValid (ops : Ops) : Nat → Nat → Bool
  | 0, _ => true
  | n + 1, pc =>
    (ddsOp (ops pc) == .jeq || ddsOp (ops pc) == .jeq4) &&
      labelsValid ops n (pc + jeqLength (ops pc))

/-- `get_jeq4_type_size`, behind the assertion that the label has such a size. -/
def getJeq4TypeSize (ops : Ops) (label : Nat) : Except Stop Nat :=
  if ddsOp (ops label) = .jeq4 then
    match ddsOpType (ops label) with
    | .bln => .ok 1
    | .prim p => .ok p.size
    | .enu => .ok 4
    | .str => .ok pointerSize
    | .bmk | .bst | .arr =>
      let pc := jump label (ops label)
      getAdrTypeSize ops pc (ops pc)
    | .seq | .bsq | .stu | .uni => .ok (ops (label + 3)).toNat
    | .ext => .error .fault
    | .other => .ok 0
  else .error .fault

/-- `find_union_case`: the label of the case that a discriminant selects. -/
def findUnionCase (ops : Ops) (pc : Nat) (disc : Nat) : Except Stop (Option Nat) :=
  let numcases := (ops (pc + 2)).toNat
  let first := jump pc (ops (pc + 3))
  if numcases > 0 ∧ labelsValid ops numcases first then
    -- the default case is the last one
    let (found, label) := findLabel ops disc (numcases - if hasDefault (ops pc) then 1 else 0) first
    .ok (if found || hasDefault (ops pc) then some label else none)
  else .error .fault

end DdsPlayground.Cdr
