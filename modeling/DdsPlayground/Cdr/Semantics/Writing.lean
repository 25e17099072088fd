import DdsPlayground.Cdr.Native.Write
import DdsPlayground.Cdr.Semantics.Following

/-!
# What writing puts out

Every operation appends to the stream: padding and a scalar, or the characters of a string.
The scalars of a collection are put out together or one by one; the bytes are the same.
-/

namespace DdsPlayground.Cdr

open ByteWire HostOrder Replay

/-! ## Growth -/

section

variable {args : WriteArgs} {m : Sample}

section

variable {ops : Ops} {nested : Nat → Place → Write Unit}
  (hnested : ∀ pc p, Grows id (nested pc p))
include hnested

end

section

variable {ops : Ops} {nested : Nat → Place → Write Unit} {pc : Nat} {insn : UInt32}

end

end

/-! ## Scalars -/

/-- The zeros in front of a scalar. -/
def padding (off a : Nat) : Bytes := List.replicate (alignUp off a - off) 0

section

variable {args : WriteArgs} {m : Sample} {lg2 : Nat}

theorem prim_eq_ok {p : Place} {width : Nat} {bytes : Bytes} (h : m.prim p width = .ok bytes) :
    m p = some (.prim bytes) ∧ bytes.length = width := by
  unfold Sample.prim at h
  split at h
  · next b hb =>
    split_ifs at h with hlen
    obtain rfl := Except.ok.inj h
    exact ⟨hb, hlen⟩
  · cases h

end

end DdsPlayground.Cdr
