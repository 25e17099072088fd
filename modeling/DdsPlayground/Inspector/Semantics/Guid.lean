import DdsPlayground.Inspector.Native.State
import Mathlib.Data.Fintype.Basic
import Mathlib.Tactic.FinCases

/-!
# The text of a GUID

The two formats write two digits for each byte, so their lengths are fixed and
every byte is read back from its own position. The buffers hold them, and the
registry key of a GUID determines the GUID.
-/

namespace DdsPlayground.Inspector

open ByteWire

/-- The value of a hexadecimal digit that `hexDigit` writes. -/
def unhex (c : UInt8) : UInt8 := if c < 0x3A then c - 0x30 else c - 0x57

/-- The two digits of a byte give it back. -/
theorem unhex_hex02 (b : UInt8) :
    (unhex (hexDigit (b >>> 4)) <<< 4) ||| unhex (hexDigit (b &&& 0x0F)) = b := by
  have h : ∀ n : Fin 256, (unhex (hexDigit (UInt8.ofFin n >>> 4)) <<< 4) |||
      unhex (hexDigit (UInt8.ofFin n &&& 0x0F)) = UInt8.ofFin n := by decide +kernel
  exact h b.toFin

/-- Bytes with the same two digits are the same. -/
theorem eq_of_digits {a b : UInt8} (hi : hexDigit (a >>> 4) = hexDigit (b >>> 4))
    (lo : hexDigit (a &&& 0x0F) = hexDigit (b &&& 0x0F)) : a = b := by
  rw [← unhex_hex02 a, ← unhex_hex02 b, hi, lo]

theorem text_colon : text ":" = [0x3A] := by decide

theorem text_bar : text "|" = [0x7C] := by decide

/-- The digits of a prefix byte stand at its own position: each group of four is
followed by a colon. -/
theorem prefixFormat_digits (p : GuidPrefix) (i : Fin 12) :
    (prefixFormat p)[2 * i.val + i.val / 4]? = some (hexDigit (p.get i >>> 4)) ∧
      (prefixFormat p)[2 * i.val + i.val / 4 + 1]? = some (hexDigit (p.get i &&& 0x0F)) := by
  simp only [prefixFormat, text_colon, hex02, List.cons_append, List.nil_append]
  fin_cases i <;> simp

/-- The digits of an entity byte stand at its own position: a bar precedes the kind. -/
theorem entityFormat_digits (e : EntityId) (i : Fin 4) :
    (entityFormat e)[2 * i.val + i.val / 3]? = some (hexDigit (e.get i >>> 4)) ∧
      (entityFormat e)[2 * i.val + i.val / 3 + 1]? = some (hexDigit (e.get i &&& 0x0F)) := by
  simp only [entityFormat, text_bar, hex02, List.cons_append, List.nil_append]
  fin_cases i <;> simp

theorem length_prefixFormat (p : GuidPrefix) : (prefixFormat p).length = 26 := by
  rw [prefixFormat, text_colon]
  rfl

theorem length_entityFormat (e : EntityId) : (entityFormat e).length = 9 := by
  rw [entityFormat, text_bar]
  rfl

/-- The buffer of 40 bytes holds the whole prefix. -/
theorem fmtPrefix_eq (p : GuidPrefix) : fmtPrefix p = prefixFormat p :=
  List.take_of_length_le (by rw [length_prefixFormat]; decide)

/-- The buffer of 12 bytes holds the whole entity identifier. -/
theorem fmtEntity_eq (e : EntityId) : fmtEntity e = entityFormat e :=
  List.take_of_length_le (by rw [length_entityFormat]; decide)

theorem fmtPrefix_injective : Function.Injective fmtPrefix := by
  intro p q h
  rw [fmtPrefix_eq, fmtPrefix_eq] at h
  apply List.Vector.ext
  intro i
  have hp := prefixFormat_digits p i
  rw [h] at hp
  have hq := prefixFormat_digits q i
  exact eq_of_digits (Option.some.inj (hp.1.symm.trans hq.1))
    (Option.some.inj (hp.2.symm.trans hq.2))

theorem fmtEntity_injective : Function.Injective fmtEntity := by
  intro d e h
  rw [fmtEntity_eq, fmtEntity_eq] at h
  apply List.Vector.ext
  intro i
  have hd := entityFormat_digits d i
  rw [h] at hd
  have he := entityFormat_digits e i
  exact eq_of_digits (Option.some.inj (hd.1.symm.trans he.1))
    (Option.some.inj (hd.2.symm.trans he.2))

/-- Distinct GUIDs have distinct registry keys. -/
theorem fmtGuid_injective : Function.Injective fmtGuid := by
  rintro ⟨p, d⟩ ⟨q, e⟩ h
  simp only [fmtGuid, List.append_assoc] at h
  obtain ⟨hp, hrest⟩ := List.append_inj h
    (by rw [fmtPrefix_eq, fmtPrefix_eq, length_prefixFormat, length_prefixFormat])
  have he := List.append_cancel_left hrest
  rw [fmtPrefix_injective hp, fmtEntity_injective he]

end DdsPlayground.Inspector
