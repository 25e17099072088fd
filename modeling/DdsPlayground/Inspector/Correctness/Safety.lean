import DdsPlayground.Inspector.Semantics.Frame

/-!
# Memory safety and termination

Every native function returns, whatever the captured bytes and length fields
are. A checked read that fails and a loop that runs out of fuel are both
`none`, so totality excludes the one and the other.
-/

namespace DdsPlayground.Inspector

open ByteWire BoundedLoop

/-- A string read with any bound inside the buffer stays below that bound. -/
theorem cdrString_isSome {buf : Bytes} {bufLen : Nat} (h : bufLen ≤ buf.length) (off : Nat)
    (le : Bool) : (cdrString buf bufLen off le).isSome := by
  by_cases hoff : off ≤ bufLen
  · obtain ⟨n, rfl⟩ := Nat.exists_eq_add_of_le hoff
    rw [cdrString_eq h]
    rfl
  · rw [cdrString, if_pos (by omega)]
    rfl

/-- The submessage loop returns the same with any fuel above the message length. -/
theorem exists_run_submsgPass (cfg : Config) (o : Origin) (data : Bytes) (p : GuidPrefix)
    (h : 20 ≤ data.length) (g : Globals) :
    ∃ r, ∀ fuel > data.length, run (submsgPass cfg o data p) fuel ⟨20, g⟩ = some r := by
  have hloop := submsgLoop_eq cfg o data p h g
  rw [submsgLoop, Option.map_eq_some_iff] at hloop
  obtain ⟨r, hr, _⟩ := hloop
  exact ⟨r, fun fuel hfuel => run_mono hr hfuel⟩

/-- No byte outside the captured frame is read, and everything ends: the
callback, the parser on any message, the SEDP decoder on any payload, the string
reader under any bound inside its buffer, the payload decoder for any topic, and
each of the three loops with any fuel above the length of its buffer. A sum of
an offset and a length field stays below the limit of a 64-bit `size_t`. -/
theorem packetHandler_safe (cfg : Config) (ctx : IfaceCtx) (c : Capture) (g : Globals) :
    (packetHandler cfg ctx c g).isSome ∧
    (∀ o data g, (handleRtps cfg o data g).isSome) ∧
    (∀ senderPrefix writerEid payload isPub g,
      (decodeSedp cfg senderPrefix writerEid payload isPub g).isSome) ∧
    (∀ buf bufLen off le, bufLen ≤ buf.length → (cdrString buf bufLen off le).isSome) ∧
    (∀ topic pl, (decodePayload topic pl).isSome) ∧
    (∀ o data p g, 20 ≤ data.length →
      ∃ r, ∀ fuel > data.length, run (submsgPass cfg o data p) fuel ⟨20, g⟩ = some r) ∧
    (∀ data le nextOff q, nextOff ≤ data.length →
      ∃ r, ∀ fuel > data.length, run (qosPass data le nextOff) fuel q = some r) ∧
    (∀ payload le s, s.off ≤ payload.length →
      ∃ r, ∀ fuel > payload.length, run (sedpPass payload le) fuel s = some r) ∧
    (∀ off ≤ c.pkt.length + 2 ^ 17, ∀ len : UInt32, off + 8 + len.toNat < 2 ^ 64) := by
  refine ⟨?_, ?_, ?_, ?_, ?_, ?_, ?_, ?_, ?_⟩
  · rw [packetHandler_eq]
    rfl
  · intro o data g
    rw [handleRtps_eq]
    rfl
  · intro senderPrefix writerEid payload isPub g
    rw [decodeSedp_eq]
    rfl
  · exact fun buf bufLen off le h => cdrString_isSome h off le
  · intro topic pl
    rw [decodePayload_eq]
    rfl
  · exact fun o data p g h => exists_run_submsgPass cfg o data p h g
  · intro data le nextOff q h
    obtain ⟨r, hr, _⟩ := exists_run_qosPass h le q
    exact ⟨r, fun fuel hfuel => run_mono hr hfuel⟩
  · intro payload le s h
    obtain ⟨r, hr, _⟩ := exists_run_sedpPass payload le s h
    exact ⟨r, fun fuel hfuel => run_mono hr hfuel⟩
  · intro off hoff len
    have hcap := c.caplen.toNat_lt
    have hlen := len.toNat_lt
    have hsize := c.size
    omega

end DdsPlayground.Inspector
