import DdsPlayground.Core.Wire

/-!
# Numbers in the byte order of a host

The number that a host stores in some bytes, for any width, and the bytes of a number. A
number stored in the other byte order is the one of the reversed bytes.
-/

namespace HostOrder

open ByteWire

/-- The number that bytes stand for, least significant first. -/
def leNat : Bytes → Nat
  | [] => 0
  | b :: bs => b.toNat + 256 * leNat bs

/-- The lowest `k` bytes of a number, least significant first. -/
def leBytes : Nat → Nat → Bytes
  | 0, _ => []
  | k + 1, n => UInt8.ofNat n :: leBytes k (n / 256)

/-- The number that a host of either byte order stores in the bytes. -/
def hostNat (le : Bool) (bs : Bytes) : Nat := leNat (if le then bs else bs.reverse)

/-- The `k` bytes in which a host of either byte order stores a number. -/
def hostBytes (le : Bool) (k n : Nat) : Bytes := if le then leBytes k n else (leBytes k n).reverse

@[simp] theorem length_leBytes (k n : Nat) : (leBytes k n).length = k := by
  induction k generalizing n with
  | zero => rfl
  | succ k ih => rw [leBytes, List.length_cons, ih]

end HostOrder
