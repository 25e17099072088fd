import DdsPlayground.Cdr.Native.Normalize
import Mathlib.Data.List.TakeWhile

/-!
# Reading a sample

`dds_stream_read` from a normalized stream of XCDR version 1 into a sample whose memory is
zero. The memory of a sample is a map from places to what stands there. A place is an offset
in an object, and an object is the sample itself or what the pointer at a place points to, so
that every pointer has an object of its own. An object has the room that the elements of its
sequence, or the size of its type, ask for.
-/

namespace DdsPlayground.Cdr

open ByteWire HostOrder Replay

/-- What a `char *` points to, up to its terminator. -/
structure CString where
  chars : Bytes
  noNul : ∀ b ∈ chars, b ≠ 0
  deriving DecidableEq

/-- The string at the start of a block of characters. -/
def CString.ofBlock (block : Bytes) : CString where
  chars := block.takeWhile (· ≠ 0)
  noNul _ hb := by simpa using List.mem_takeWhile_imp hb

/-- The object that holds a place, by the offsets of the pointers on the way to it (the last
one first), and the offset in it. -/
structure Place where
  obj : List Nat
  off : Nat
  deriving DecidableEq

/-- The start of the sample. -/
def Place.top : Place := ⟨[], 0⟩

/-- The place `n` bytes behind. -/
def Place.plus (p : Place) (n : Nat) : Place := ⟨p.obj, p.off + n⟩

/-- The place of an element of a collection; the source computes its distance in 32 bits. -/
def Place.element (p : Place) (i elemSize : Nat) : Place := p.plus (i * elemSize % 4294967296)

/-- The start of what the pointer at a place points to. -/
def Place.deref (p : Place) : Place := ⟨p.off :: p.obj, 0⟩

/-- What stands at a place. -/
inductive Cell where
  /-- A scalar, as the bytes that the host stores. -/
  | prim (bytes : Bytes)
  /-- An array of characters. -/
  | chars (s : CString)
  /-- A `char *`, which may be null. In an optional member this says that the member is not
  there, and anywhere else it is as good as an empty string. -/
  | str (isOptional : Bool) (s : Option CString)
  /-- Another pointer, and whether it points to something. -/
  | ptr (set : Bool)
  /-- A `dds_sequence_t` with its length. -/
  | seq (length : UInt32)
  deriving DecidableEq

abbrev Sample := Place → Option Cell

def Sample.set (m : Sample) (p : Place) (c : Cell) : Sample :=
  fun q => if q = p then some c else m q

/-- The stream at its index, and the sample. -/
structure Reader where
  index : Nat
  sample : Sample

abbrev Read := StateT Reader (Except Stop)

def store (p : Place) (c : Cell) : Read Unit := fun r =>
  .ok ((), { r with sample := r.sample.set p c })

/-- Storing scalars that follow each other. -/
def storeElems (p : Place) (width : Nat) (bytes : Bytes) : Nat → Nat → Read Unit :=
  rounds fun i => store (p.plus (i * width)) (.prim ((bytes.drop (i * width)).take width))

section

variable (buf : Bytes) (hostLe : Bool)

/-! ## The stream -/

/-- `dds_cdr_alignto`. -/
def ddsCdrAlignto (a : Nat) : Read Unit := fun r =>
  if alignUp r.index a < buf.length then .ok ((), { r with index := alignUp r.index a })
  else .error .fault

/-- Copying the next `n` bytes; the index moves on by `len`. -/
def ddsIsCopy (n len : Nat) : Read Bytes := fun r =>
  if r.index + n ≤ buf.length then
    .ok ((buf.drop r.index).take n, { r with index := r.index + len })
  else .error .fault

/-- `get_align` of version 1. -/
def getAlign (size : Nat) : Nat := if size > 4 then 8 else size

/-- `dds_is_get1`, `dds_is_get2`, `dds_is_get4` and `dds_is_get8`. -/
def ddsIsGet (width : Nat) : Read Bytes := do
  ddsCdrAlignto buf (getAlign width)
  ddsIsCopy buf width width

/-- `dds_is_get4`, as a number. -/
def ddsIsGet4 : Read Nat := do return hostNat hostLe (← ddsIsGet buf 4)

/-- `dds_is_get_bytes`. -/
def ddsIsGetBytes (num elemSize : Nat) : Read Bytes := do
  ddsCdrAlignto buf (getAlign elemSize)
  let size ← (StateT.lift (byteCount num elemSize) : Read Nat)
  ddsIsCopy buf size size

/-- `dds_stream_reuse_string`. -/
def ddsStreamReuseString : Read CString := do
  let length ← ddsIsGet4 buf hostLe
  return .ofBlock (← ddsIsCopy buf length length)

/-- `dds_stream_reuse_string_bound`. -/
def ddsStreamReuseStringBound (size : Nat) : Read CString := do
  let length ← ddsIsGet4 buf hostLe
  let block ← ddsIsCopy buf (min length size) length
  return .ofBlock (if length > size then block.take (size - 1) ++ [0] else block)

/-- Reading a scalar into the sample. -/
def readPrim (width : Nat) (p : Place) : Read Unit := do store p (.prim (← ddsIsGet buf width))

/-- Reading a string into the sample. -/
def readStr (isOptional : Bool) (p : Place) : Read Unit := do
  store p (.str isOptional (some (← ddsStreamReuseString buf hostLe)))

/-- Reading a string into an array of `size` characters of the sample. -/
def readChars (size : Nat) (p : Place) : Read Unit := do
  store p (.chars (← ddsStreamReuseStringBound buf hostLe size))

/-- An enumerated value: on the stream it has the size of its type, in memory four bytes. -/
def readEnum (insn : UInt32) (p : Place) : Read Unit :=
  match ddsOpTypeSz insn with
  | 1 => do store p (.prim (hostBytes hostLe 4 (hostNat hostLe (← ddsIsGet buf 1))))
  | 2 => do store p (.prim (hostBytes hostLe 4 (hostNat hostLe (← ddsIsGet buf 2))))
  | 4 => readPrim buf 4 p
  | _ => fault

/-! ## Members

`nested` is `dds_stream_read_impl` at a position of the program, for an object at a place. -/

variable (ops : Ops) (nested : Nat → Place → Read Unit)

/-- The elements of a collection that are scalars. -/
def readScalars (num width : Nat) (p : Place) : Read Unit := do
  let bytes ← ddsIsGetBytes buf num width
  storeElems p width bytes 0 num

/-- The elements of a collection that are enumerated values. -/
def readEnums (enumSz num : Nat) (p : Place) : Read Unit :=
  match enumSz with
  | 1 => rounds (fun i => do
      store (p.plus (i * 4)) (.prim (hostBytes hostLe 4 (hostNat hostLe (← ddsIsGet buf 1))))) 0 num
  | 2 => rounds (fun i => do
      store (p.plus (i * 4)) (.prim (hostBytes hostLe 4 (hostNat hostLe (← ddsIsGet buf 2))))) 0 num
  | 4 => readScalars buf num 4 p
  | _ => pure ()

/-- The enumerated values of an array, for which eight bytes are not a size. -/
def readArrEnums (insn : UInt32) (num : Nat) (p : Place) : Read Unit :=
  if ddsOpTypeSz insn = 8 then fault else readEnums buf hostLe (ddsOpTypeSz insn) num p

/-- The elements of a collection that are strings. -/
def readStrings (num : Nat) (p : Place) : Read Unit :=
  rounds (fun i => readStr buf hostLe false (p.plus (i * pointerSize))) 0 num

/-- The elements of a collection that are arrays of characters. -/
def readBoundedStrings (num elemSize : Nat) (p : Place) : Read Unit :=
  rounds (fun i => readChars buf hostLe elemSize (p.element i elemSize)) 0 num

/-- `realloc_sequence_buffer_if_needed` for a sequence that has no buffer yet. -/
def reallocSequenceBuffer (num elemSize : Nat) : Read Unit := do
  let _ ← (StateT.lift (byteCount num elemSize) : Read Nat)

/-- The switch of `dds_stream_read_seq`. -/
def readSeqElems (p : Place) (pc : Nat) (insn : UInt32) (num : Nat) : Read Nat :=
  match ddsOpSubtype insn with
  | .bln => do
    reallocSequenceBuffer num 1
    readScalars buf num 1 p
    return pc + 2 + boundOp insn
  | .prim t => do
    reallocSequenceBuffer num t.size
    readScalars buf num t.size p
    return pc + 2 + boundOp insn
  | .enu => do
    reallocSequenceBuffer num 4
    readEnums buf hostLe (ddsOpTypeSz insn) num p
    return pc + 3 + boundOp insn
  | .bmk => do
    reallocSequenceBuffer num (ddsOpTypeSz insn)
    readScalars buf num (ddsOpTypeSz insn) p
    return pc + 4 + boundOp insn
  | .str => do
    reallocSequenceBuffer num pointerSize
    readStrings buf hostLe num p
    return pc + 2 + boundOp insn
  | .bst => do
    let elemSize := (ops (pc + 2 + boundOp insn)).toNat
    reallocSequenceBuffer num elemSize
    readBoundedStrings buf hostLe num elemSize p
    return pc + 3 + boundOp insn
  | .seq | .bsq | .arr | .uni | .stu => do
    let elemSize := (ops (pc + 2 + boundOp insn)).toNat
    reallocSequenceBuffer num elemSize
    rounds (fun i => nested (jump pc (ops (pc + 3 + boundOp insn))) (p.element i elemSize)) 0 num
    return behind pc (ops (pc + 3 + boundOp insn)) (4 + boundOp insn)
  | .ext | .other => fault

/-- `dds_stream_read_seq`. -/
def ddsStreamReadSeq (p : Place) (pc : Nat) (insn : UInt32) : Read Nat := do
  let num ← ddsIsGet4 buf hostLe
  store p (.seq (.ofNat num))
  if num = 0 then StateT.lift (skipSequenceInsns ops pc insn)
  else readSeqElems buf hostLe ops nested p.deref pc insn num

/-- `dds_stream_read_arr`. -/
def ddsStreamReadArr (p : Place) (pc : Nat) (insn : UInt32) : Read Nat :=
  let num := (ops (pc + 2)).toNat
  match ddsOpSubtype insn with
  | .bln => do
    readScalars buf num 1 p
    return pc + 3
  | .prim t => do
    readScalars buf num t.size p
    return pc + 3
  | .enu => do
    readArrEnums buf hostLe insn num p
    return pc + 4
  | .bmk => do
    readScalars buf num (ddsOpTypeSz insn) p
    return pc + 5
  | .str => do
    readStrings buf hostLe num p
    return pc + 3
  | .bst => do
    readBoundedStrings buf hostLe num (ops (pc + 4)).toNat p
    return pc + 5
  | .seq | .bsq | .arr | .uni | .stu => do
    let elemSize := (ops (pc + 4)).toNat
    rounds (fun i => nested (jump pc (ops (pc + 3))) (p.element i elemSize)) 0 num
    return behind pc (ops (pc + 3)) 5
  | .ext | .other => fault

/-- `read_union_discriminant`, with the bytes that the discriminant has in memory. For eight
bytes it reads nothing, and its caller stores nothing. -/
def readUnionDiscriminant (insn : UInt32) : Read (Nat × Option Bytes) :=
  match ddsOpSubtype insn with
  | .bln | .prim .by1 => do
    let b ← ddsIsGet buf 1
    return (hostNat hostLe b, some b)
  | .prim .by2 => do
    let b ← ddsIsGet buf 2
    return (hostNat hostLe b, some b)
  | .prim .by4 => do
    let b ← ddsIsGet buf 4
    return (hostNat hostLe b, some b)
  | .prim .by8 => return (0, none)
  | .enu =>
    match ddsOpTypeSz insn with
    | 1 => do
      let disc := hostNat hostLe (← ddsIsGet buf 1)
      return (disc, some (hostBytes hostLe 4 disc))
    | 2 => do
      let disc := hostNat hostLe (← ddsIsGet buf 2)
      return (disc, some (hostBytes hostLe 4 disc))
    | 4 => do
      let b ← ddsIsGet buf 4
      return (hostNat hostLe b, some b)
    | _ => fault
  | _ => fault

/-- The switch of `dds_stream_read_uni` that stores the discriminant. -/
def storeDiscriminant (p : Place) : Option Bytes → Read Unit
  | some bytes => store p (.prim bytes)
  | none => pure ()

/-- `dds_stream_alloc_external`: a pointer gets an object of some size, if it has none. -/
def allocExternal (size : Except Stop Nat) (isExternal : Bool) (p : Place) : Read Place :=
  if isExternal then do
    let _ ← (StateT.lift size : Read Nat)
    store p (.ptr true)
    return p.deref
  else pure p

/-- The value of a union, with the label of its case. -/
def readCase (base : Place) (label : Nat) : Read Unit := do
  let p ← allocExternal (getJeq4TypeSize ops label) (opTypeExternal (ops label))
    (base.plus (ops (label + 2)).toNat)
  match ddsOpType (ops label) with
  | .bln => readPrim buf 1 p
  | .prim t => readPrim buf t.size p
  | .enu => readEnum buf hostLe (ops label) p
  | .str => readStr buf hostLe false p
  | .bst | .seq | .bsq | .arr | .bmk | .uni | .stu => nested (jump label (ops label)) p
  | .ext | .other => fault

/-- The part of `dds_stream_read_uni` behind the search for the case. -/
def readUnionCase (base : Place) : Option Nat → Read Unit
  | some label => readCase buf hostLe ops nested base label
  | none => pure ()

/-- `dds_stream_read_uni`. -/
def ddsStreamReadUni (p base : Place) (pc : Nat) (insn : UInt32) : Read Nat := do
  let (disc, bytes) ← readUnionDiscriminant buf hostLe insn
  storeDiscriminant p bytes
  let label ← (StateT.lift (findUnionCase ops pc disc) : Read (Option Nat))
  readUnionCase buf hostLe ops nested base label
  return pc + ddsOpAdrJmp (ops (pc + 3))

/-- The switch of `dds_stream_read_adr`. -/
def readMember (p base : Place) (pc : Nat) (insn : UInt32) : Read Nat :=
  match ddsOpType insn with
  | .bln => do
    readPrim buf 1 p
    return pc + 2
  | .prim t => do
    readPrim buf t.size p
    return pc + 2
  | .str => do
    readStr buf hostLe (opTypeOptional insn) p
    return pc + 2
  | .bst => do
    readChars buf hostLe (ops (pc + 2)).toNat p
    return pc + 3
  | .seq | .bsq => ddsStreamReadSeq buf hostLe ops nested p pc insn
  | .arr => ddsStreamReadArr buf hostLe ops nested p pc insn
  | .uni => ddsStreamReadUni buf hostLe ops nested p base pc insn
  | .enu => do
    readEnum buf hostLe insn p
    return pc + 3
  | .bmk => do
    readPrim buf (ddsOpTypeSz insn) p
    return pc + 4
  | .ext => do
    nested (externalOps ops pc insn) p
    return behind pc (ops (pc + 2)) 3
  | .stu | .other => fault

/-- The null pointer at the place of a member that is not there. -/
def storeAbsent (insn : UInt32) (p : Place) : Read Unit :=
  if ddsOpType insn = .str then store p (.str true none)
  else if opTypeExternal insn then store p (.ptr false)
  else fault

/-- `dds_stream_read_adr` of a member that is there. -/
def readPresent (base : Place) (pc : Nat) (insn : UInt32) : Read Nat := do
  let p ← allocExternal (getAdrTypeSize ops pc insn) (opTypeExternal insn)
    (base.plus (ops (pc + 1)).toNat)
  readMember buf hostLe ops nested p base pc insn

/-- `dds_stream_read_adr`, outside of a parameter list. -/
def ddsStreamReadAdr (base : Place) (pc : Nat) (insn : UInt32) : Read Nat :=
  if opTypeOptional insn then do
    let present ← ddsIsGet buf 1
    if hostNat hostLe present = 0 then do
      storeAbsent insn (base.plus (ops (pc + 1)).toNat)
      StateT.lift (ddsStreamSkipAdr ops pc insn)
    else readPresent buf hostLe ops nested base pc insn
  else readPresent buf hostLe ops nested base pc insn

end

/-- `dds_stream_read_impl`, with a bound on the depth of its calls and the length of its
loops. -/
def ddsStreamReadImpl (buf : Bytes) (hostLe : Bool) (ops : Ops) : Nat → Nat → Place → Read Unit
  | 0, _, _ => fault
  | fuel + 1, pc, base =>
    let insn := ops pc
    if insn = ddsOpRts then pure ()
    else
      match ddsOp insn with
      | .adr => do
        let next ← ddsStreamReadAdr buf hostLe ops (ddsStreamReadImpl buf hostLe ops fuel) base pc
          insn
        ddsStreamReadImpl buf hostLe ops fuel next base
      | .jsr => do
        ddsStreamReadImpl buf hostLe ops fuel (jump pc insn) base
        ddsStreamReadImpl buf hostLe ops fuel (pc + 1) base
      | .dlc | .plc | .rts | .jeq | .jeq4 | .kof | .plm | .other => fault

/-- `dds_stream_read` into a new sample. -/
def ddsStreamRead (hostLe : Bool) (ops : Ops) (fuel : Nat) (buf : Bytes) : Except Stop Reader :=
  (ddsStreamReadImpl buf hostLe ops fuel 0 .top ⟨0, fun _ => none⟩).map (·.2)

end DdsPlayground.Cdr
