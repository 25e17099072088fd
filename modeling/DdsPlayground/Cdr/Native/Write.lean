import DdsPlayground.Cdr.Native.Read

/-!
# Writing a sample

`dds_stream_write` of a sample to a stream of XCDR version 1. The source is compiled once for
each byte order; the versions differ only in whether a scalar is swapped when it is put out.
-/

namespace DdsPlayground.Cdr

open ByteWire HostOrder Replay

/-- The state is what the stream holds up to its index. -/
abbrev Write := StateT Bytes (Except Stop)

/-- The scalar of `width` bytes at a place. -/
def Sample.prim (m : Sample) (p : Place) (width : Nat) : Except Stop Bytes :=
  match m p with
  | some (.prim bytes) => if bytes.length = width then .ok bytes else .error .fault
  | _ => .error .fault

/-- The string in an array of `size` characters. -/
def Sample.chars (m : Sample) (p : Place) (size : Nat) : Except Stop CString :=
  match m p with
  | some (.chars s) => if s.chars.length < size then .ok s else .error .fault
  | _ => .error .fault

/-- The `char *` at a place. -/
def Sample.str (m : Sample) (isOptional : Bool) (p : Place) : Except Stop (Option CString) :=
  match m p with
  | some (.str b s) => if b = isOptional then .ok s else .error .fault
  | _ => .error .fault

/-- Whether the pointer at a place points to something. -/
def Sample.ptr (m : Sample) (p : Place) : Except Stop Bool :=
  match m p with
  | some (.ptr b) => .ok b
  | _ => .error .fault

section

variable (args : WriteArgs) (m : Sample)

variable (ops : Ops) (nested : Nat → Place → Write Unit)

/-- The place of a value, behind its pointer if it has one. -/
def followExternal (isExternal : Bool) (p : Place) : Write Place :=
  if isExternal then do
    if ← (StateT.lift (m.ptr p) : Write Bool) then pure p.deref else fault
  else pure p

end

end DdsPlayground.Cdr
